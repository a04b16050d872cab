import SentirumLb.Lib.Text

/-! # Lines of a text

Lines end with a line feed, with or without a carriage return in front of it,
and nothing follows a line feed at the end. A reader that trims its lines and
makes nothing of blank ones may as well read the pieces between line feeds, and
then texts put together with a line feed are read one after the other.
-/

namespace Text

def lines (s : String) : List String :=
  let pieces := split '\n' s
  pieces.dropLast.map (fun piece => (stripSuffix piece "\r").getD piece) ++
    (pieces.getLast?.filter (· ≠ "")).toList

theorem split_ne_nil (c : Char) (s : String) : split c s ≠ [] := by
  simp [split, List.splitOn, List.splitOnP_ne_nil]

theorem split_append (c : Char) {s a b : String} (h : s.toList = a.toList ++ c :: b.toList) :
    split c s = split c a ++ split c b := by
  unfold split List.splitOn
  rw [h, List.splitOnP_append_cons _ _ (by simp), List.map_append]

theorem split_eq_singleton {c : Char} {s : String} (h : c ∉ s.toList) : split c s = [s] := by
  have hpieces : s.toList.splitOnP (· == c) = [s.toList] := by
    refine List.splitOnP_eq_singleton fun x hx => ?_
    simp only [beq_eq_false_iff_ne]
    rintro rfl
    exact h hx
  rw [split, List.splitOn, hpieces, List.map_singleton, String.ofList_toList]

theorem split_intercalate {c : Char} {l : List String} (hl : ∀ s ∈ l, c ∉ s.toList)
    (hne : l ≠ []) : split c ((String.singleton c).intercalate l) = l := by
  rw [split, String.toList_intercalate, String.toList_singleton, List.splitOn_intercalate,
    List.map_map]
  · simp
  · simpa using hl
  · simpa using hne

theorem exists_splitOn_cons {c x : Char} (hx : x ≠ c) (cs : List Char) :
    ∃ p ps, cs.splitOn c = p :: ps ∧ (x :: cs).splitOn c = (x :: p) :: ps := by
  obtain ⟨p, ps, hps⟩ := List.exists_cons_of_ne_nil (List.splitOnP_ne_nil (· == c) cs)
  refine ⟨p, ps, hps, ?_⟩
  rw [List.splitOn, List.splitOnP_cons_eq_if_modifyHead, if_neg (by simpa using hx), hps]
  rfl

theorem exists_splitOn_append_singleton {c x : Char} (hx : x ≠ c) (cs : List Char) :
    ∃ ps p, cs.splitOn c = ps ++ [p] ∧ (cs ++ [x]).splitOn c = ps ++ [p ++ [x]] := by
  induction cs with
  | nil =>
    refine ⟨[], [], rfl, ?_⟩
    rw [List.nil_append, List.splitOn, List.splitOnP_eq_singleton (by simpa using hx)]
    rfl
  | cons y cs ih =>
    obtain ⟨ps, p, hcs, happ⟩ := ih
    simp only [List.splitOn, List.cons_append, List.splitOnP_cons_eq_if_modifyHead] at hcs happ ⊢
    by_cases hy : (y == c) = true
    · rw [if_pos hy, if_pos hy, hcs, happ]
      exact ⟨[] :: ps, p, rfl, rfl⟩
    · rw [if_neg hy, if_neg hy, hcs, happ]
      cases ps with
      | nil => exact ⟨[], y :: p, rfl, rfl⟩
      | cons q ps => exact ⟨(y :: q) :: ps, p, rfl, rfl⟩

theorem trim_eq_trim_of_append {s t : String} {l r : List Char} (hs : s.toList = l ++ t.toList ++ r)
    (hl : ∀ c ∈ l, isWhitespace c = true) (hr : ∀ c ∈ r, isWhitespace c = true) :
    trim s = trim t := by
  obtain ⟨l', r', ht, hl', hr'⟩ := trim_spec t
  refine trim_eq_of_append (l := l ++ l') (r := r' ++ r) ?_ ?_ ?_ (trimmed_trim t)
  · rw [hs, ht]
    simp only [List.append_assoc]
  · intro c hc
    exact (List.mem_append.mp hc).elim (hl c) (hl' c)
  · intro c hc
    exact (List.mem_append.mp hc).elim (hr' c) (hr c)

theorem trim_stripSuffix_cr (s : String) : trim ((stripSuffix s "\r").getD s) = trim s := by
  cases h : stripSuffix s "\r" with
  | none => rfl
  | some t =>
    refine (trim_eq_trim_of_append (l := []) (r := ['\r']) ?_ (by simp) ?_).symm
    · rw [stripSuffix_eq_some_iff.mp h, String.toList_append]
      rfl
    · intro c hc
      rw [List.mem_singleton.mp hc]
      decide

section Read

variable {α : Type} {f : String → Option α} (htrim : ∀ s t, trim s = trim t → f s = f t)
  (hblank : f "" = none)

include htrim hblank

theorem filterMap_lines (s : String) : (lines s).filterMap f = (split '\n' s).filterMap f := by
  have hsplit := List.dropLast_append_getLast (split_ne_nil '\n' s)
  have hlast := List.getLast?_eq_some_getLast (split_ne_nil '\n' s)
  have hfront : ∀ pieces : List String,
      (pieces.map fun piece => (stripSuffix piece "\r").getD piece).filterMap f =
        pieces.filterMap f := by
    intro pieces
    rw [List.filterMap_map]
    exact List.filterMap_congr fun piece _ => htrim _ _ (trim_stripSuffix_cr piece)
  have hend : ∀ piece : String, ((some piece).filter (· ≠ "")).toList.filterMap f =
      [piece].filterMap f := by
    intro piece
    by_cases hp : piece = ""
    · simp [hp, hblank]
    · simp [Option.filter, hp]
  rw [lines, List.filterMap_append, hfront, hlast, hend, ← List.filterMap_append, hsplit]

theorem filterMap_lines_append {s a b : String} (h : s.toList = a.toList ++ '\n' :: b.toList) :
    (lines s).filterMap f = (lines a).filterMap f ++ (lines b).filterMap f := by
  simp only [filterMap_lines htrim hblank, split_append '\n' h, List.filterMap_append]

theorem filterMap_lines_of_not_mem {s : String} (h : '\n' ∉ s.toList) :
    (lines s).filterMap f = (f s).toList := by
  rw [filterMap_lines htrim hblank, split_eq_singleton h]
  cases hf : f s <;> simp [hf]

theorem filterMap_lines_cons {c : Char} (hc : isWhitespace c = true) (cs : List Char) :
    (lines (String.ofList (c :: cs))).filterMap f = (lines (String.ofList cs)).filterMap f := by
  simp only [filterMap_lines htrim hblank, split, String.toList_ofList]
  by_cases hn : c = '\n'
  · subst hn
    have hsplit : ([] ++ '\n' :: cs).splitOnP (· == '\n') =
        [].splitOnP (· == '\n') ++ cs.splitOnP (· == '\n') :=
      List.splitOnP_append_cons _ _ (by simp)
    rw [List.nil_append] at hsplit
    simp [List.splitOn, hsplit, hblank]
  · obtain ⟨p, ps, hcs, hcons⟩ := exists_splitOn_cons hn cs
    have hf : f (String.ofList (c :: p)) = f (String.ofList p) := by
      refine htrim _ _ (trim_eq_trim_of_append (l := [c]) (r := []) (by simp) ?_ (by simp))
      simpa using hc
    simp only [hcs, hcons, List.map_cons, List.filterMap_cons, hf]

theorem filterMap_lines_append_singleton {c : Char} (hc : isWhitespace c = true)
    (cs : List Char) : (lines (String.ofList (cs ++ [c]))).filterMap f =
      (lines (String.ofList cs)).filterMap f := by
  simp only [filterMap_lines htrim hblank, split, String.toList_ofList]
  by_cases hn : c = '\n'
  · subst hn
    have hsplit : (cs ++ ['\n']).splitOnP (· == '\n') =
        cs.splitOnP (· == '\n') ++ [].splitOnP (· == '\n') :=
      List.splitOnP_append_cons _ _ (by simp)
    simp [List.splitOn, hsplit, hblank]
  · obtain ⟨ps, p, hcs, happ⟩ := exists_splitOn_append_singleton hn cs
    have hf : f (String.ofList (p ++ [c])) = f (String.ofList p) := by
      refine htrim _ _ (trim_eq_trim_of_append (l := []) (r := [c]) (by simp) (by simp) ?_)
      simpa using hc
    simp only [hcs, happ, List.map_append, List.map_singleton, List.filterMap_append,
      List.filterMap_cons, hf, List.filterMap_nil]

/-- Whitespace around a text, line feeds included, makes no difference. -/
theorem filterMap_lines_of_append {s t : String} {l r : List Char}
    (hs : s.toList = l ++ t.toList ++ r) (hl : ∀ c ∈ l, isWhitespace c = true)
    (hr : ∀ c ∈ r, isWhitespace c = true) :
    (lines s).filterMap f = (lines t).filterMap f := by
  have hback : ∀ r : List Char, (∀ c ∈ r, isWhitespace c = true) →
      (lines (String.ofList (t.toList ++ r))).filterMap f = (lines t).filterMap f := by
    intro r
    induction r using List.reverseRecOn with
    | nil => simp
    | append_singleton r c ih =>
      intro hr
      rw [← List.append_assoc, filterMap_lines_append_singleton htrim hblank (hr c (by simp))]
      exact ih fun x hx => hr x (by simp [hx])
  have hfront : ∀ l : List Char, (∀ c ∈ l, isWhitespace c = true) →
      (lines (String.ofList (l ++ (t.toList ++ r)))).filterMap f =
        (lines (String.ofList (t.toList ++ r))).filterMap f := by
    intro l
    induction l with
    | nil => simp
    | cons c l ih =>
      intro hl
      rw [List.cons_append, filterMap_lines_cons htrim hblank (hl c (by simp))]
      exact ih fun x hx => hl x (by simp [hx])
  rw [← String.ofList_toList (s := s), hs, List.append_assoc, hfront l hl, hback r hr]

end Read

end Text
