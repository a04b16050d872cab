import SentirumLb.Route.Deletion
import SentirumLb.Route.Tokenize

/-! # What is parsed is well formed

Tokens are never empty, so what a command takes from a fixed position is not empty
either. A `del` that names neither a service nor a tag would match every target, and is
refused by the parser. The others remove only what meets all of their criteria.
-/

namespace SentirumLb

variable {W : Type}

/-! ## What a `del` leaves -/

namespace Table

section Entries

variable [WeightArith W]

def entries (rs : List (Route W)) : List (String × Target W) :=
  rs.flatMap fun r => r.contents.map fun u => (r.path, u)

def keeps (d : RouteDef W) (scope : Option String) (e : String × Target W) : Bool :=
  !(scope.all (e.1 == ·)) || Route.keepsOnDel d.service d.tags d.delUrl e.2

theorem entries_filter_targets (rs : List (Route W)) :
    entries (rs.filter fun r => !r.targets.isEmpty) = entries rs := by
  induction rs with
  | nil => rfl
  | cons r rs ih =>
    unfold entries at ih ⊢
    rw [List.flatMap_cons, ← ih]
    by_cases hr : r.targets = [] <;> simp [hr, Route.contents]

theorem entries_delFromBucket (d : RouteDef W) (scope : Option String) (rs : List (Route W)) :
    entries (delFromBucket d scope rs) = (entries rs).filter (keeps d scope) := by
  rw [delFromBucket, entries_filter_targets, entries, entries, List.flatMap_map,
    List.filter_flatMap]
  refine List.flatMap_congr fun r _ => ?_
  rw [List.filter_map]
  split
  · next hscope =>
    have hkeeps : (keeps d scope ∘ fun u => (r.path, u)) =
        fun u => Route.keepsOnDel d.service d.tags d.delUrl u := by
      funext u
      simp [keeps, hscope]
    rw [hkeeps, Route.contents_computeWeights, Route.contents_removeTargets,
      Route.computeWeights_path]
    rfl
  · next hscope =>
    have hkeeps : ∀ u ∈ r.contents, (keeps d scope ∘ fun u => (r.path, u)) u = true := by
      intro u _
      simp [keeps, hscope]
    rw [List.filter_eq_self.mpr hkeeps]

/-- The table after the `del` is the one before without some of its targets, and these all meet the
criteria of the `del`. -/
def RemovesOnlyMatches (d : RouteDef W) (t t' : Table W) : Prop :=
  ∀ host, ∃ keep : String × Target W → Bool,
    entries (t'.bucket host) = (entries (t.bucket host)).filter keep ∧
      ∀ e, keep e = false → d.Matches e.2

theorem removesOnlyMatches_applyDel (d : RouteDef W) (t : Table W) :
    RemovesOnlyMatches d t (t.applyDel d) := by
  have hmatches : ∀ scope e, keeps d scope e = false → d.Matches e.2 := by
    intro scope e he
    rw [keeps, Bool.or_eq_false_iff] at he
    exact not_not.mp (RouteDef.keepsOnDel_iff.not.mp (by simp [he.2]))
  intro host
  rw [bucket_applyDel]
  split
  · exact ⟨keeps d none, entries_delFromBucket d none _, hmatches none⟩
  · split
    · exact ⟨keeps d d.delPath, entries_delFromBucket d d.delPath _, hmatches d.delPath⟩
    · exact ⟨fun _ => true, (List.filter_true _).symm, fun _ h => by cases h⟩

end Entries

end Table

/-! ## What the parser returns -/

namespace RouteParser

variable [WeightText W]

structure WellFormed (d : RouteDef W) : Prop where
  add : d.cmd = .add → d.service ≠ "" ∧ d.src ≠ "" ∧ d.dst ≠ ""
  del : d.cmd = .del → d.service ≠ "" ∨ d.tags ≠ []

theorem wellFormed_parseRouteAdd {tokens : List String} (hne : ∀ t ∈ tokens, t ≠ "")
    {d : RouteDef W} (h : parseRouteAdd tokens = some d) : WellFormed d := by
  unfold parseRouteAdd at h
  split at h
  · next service src dst rest =>
    let I (d : RouteDef W) : Prop := d.cmd = .add ∧ d.service ≠ "" ∧ d.src ≠ "" ∧ d.dst ≠ ""
    have hI : I d := by
      cases h
      refine scan_invariant (I := I) ?_ (fun _ _ hd => hd) rest _
        ⟨rfl, hne service (by simp), hne src (by simp), hne dst (by simp)⟩
      intro t f hf v d hd
      split at hf <;> cases hf <;> exact hd
    exact ⟨fun _ => hI.2, fun hdel => absurd (hI.1.symm.trans hdel) (by decide)⟩
  · cases h

theorem wellFormed_parseRouteDel {tokens : List String} {d : RouteDef W}
    (h : parseRouteDel tokens = some d) : WellFormed d := by
  unfold parseRouteDel at h
  dsimp only at h
  rw [Option.ite_none_left_eq_some, Option.some.injEq] at h
  obtain ⟨hnamed, hd⟩ := h
  obtain ⟨service, hservice, hnamed⟩ : ∃ service, (d.cmd = .del ∧ d.service = service) ∧
      ¬(service = "" ∧ d.tags = []) := by
    rw [hd] at hnamed
    refine ⟨_, ?_, hnamed⟩
    rw [← hd]
    refine scan_invariant (I := fun d : RouteDef W => d.cmd = .del ∧ d.service = _) ?_ ?_ _ _
      ⟨rfl, rfl⟩
    · intro t f hf v d hd
      split at hf <;> cases hf
      exact hd
    · intro t d hd
      split
      · exact hd
      · split <;> exact hd
  rw [← hservice.2] at hnamed
  exact ⟨fun hadd => absurd (hservice.1.symm.trans hadd) (by decide), fun _ => not_and_or.mp hnamed⟩

theorem wellFormed_parseRouteWeight {tokens : List String} {d : RouteDef W}
    (h : parseRouteWeight tokens = some d) : WellFormed d := by
  unfold parseRouteWeight at h
  split at h
  · have hcmd : d.cmd = .weight := by
      dsimp only at h
      rw [Option.some.injEq] at h
      rw [← h]
      refine scan_invariant (I := fun d : RouteDef W => d.cmd = .weight) ?_ (fun _ _ hd => hd)
        _ _ rfl
      intro t f hf v d hd
      split at hf <;> cases hf <;> exact hd
    exact ⟨fun hadd => absurd (hcmd.symm.trans hadd) (by decide),
      fun hdel => absurd (hcmd.symm.trans hdel) (by decide)⟩
  · cases h

theorem wellFormed_parseLine {line : String} {d : RouteDef W} (h : parseLine line = some d) :
    WellFormed d := by
  obtain ⟨tokens, htokens, h⟩ := Option.bind_eq_some_iff.mp h
  have hne := ne_empty_of_mem_tokenize htokens
  split at h
  · split at h
    · exact wellFormed_parseRouteAdd hne h
    · split at h
      · exact wellFormed_parseRouteDel h
      · split at h
        · exact wellFormed_parseRouteWeight h
        · cases h
  · cases h

theorem wellFormed_of_mem_parseRouteCommands {input : String} {d : RouteDef W}
    (h : d ∈ parseRouteCommands input) : WellFormed d := by
  obtain ⟨line, -, hline⟩ := List.mem_filterMap.mp h
  unfold parseCommand at hline
  dsimp only at hline
  split at hline
  · cases hline
  · exact wellFormed_parseLine hline

/-- Whatever the text, an `add` that is read from it has a service, a source and a destination, and
a `del` names a service or a tag and removes no target that does not meet all of its criteria, from
whatever table. -/
theorem parseRouteCommands_bounded [Platform] (input : String) :
    ∀ d ∈ (parseRouteCommands input : List (RouteDef W)),
      (d.cmd = .add → d.service ≠ "" ∧ d.src ≠ "" ∧ d.dst ≠ "") ∧
      (d.cmd = .del → (d.service ≠ "" ∨ d.tags ≠ []) ∧
        ∀ (t : Table W) (shared : SharedRefs) (rr : Ref),
          Table.RemovesOnlyMatches d t (t.apply shared rr d)) := by
  intro d hd
  have hwf := wellFormed_of_mem_parseRouteCommands hd
  refine ⟨hwf.add, fun hcmd => ⟨hwf.del hcmd, fun t shared rr => ?_⟩⟩
  rw [Table.apply, hcmd]
  exact Table.removesOnlyMatches_applyDel d t

section Examples

attribute [local instance] Platform.plain wholeWeights

/-- A `del` by service, and a line that names nothing and is refused. -/
theorem parseRouteCommands_bounded_delWeb :
    ∃ d : RouteDef ℚ, d ∈ parseRouteCommands "route del tags \",\"\nroute del web" ∧
      d.service = "web" ∧
      Table.RemovesOnlyMatches d Table.webTable (Table.webTable.apply default 0 d) := by
  have hparse : (parseRouteCommands "route del tags \",\"\nroute del web" : List (RouteDef ℚ)).map
      (fun d => (d.cmd, d.service)) = [(.del, "web")] := by
    decide +kernel
  obtain ⟨d, hd, hfields⟩ :=
    List.mem_map.mp (hparse ▸ List.mem_singleton_self (RouteCmd.del, "web"))
  simp only [Prod.mk.injEq] at hfields
  have hbounded := parseRouteCommands_bounded _ d hd
  exact ⟨d, hd, hfields.2, (hbounded.2 hfields.1).2 Table.webTable default 0⟩

end Examples

end RouteParser

end SentirumLb
