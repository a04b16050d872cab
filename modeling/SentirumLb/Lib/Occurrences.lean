import SentirumLb.Lib.Slices

/-! # Occurrences of words in a text

Words of a language occur in a text, and the leftmost occurrence is the one
that no other starts in front of. An occurrence may start in one part of a text
and run on into the next, so whether a part is clear of words depends on what
follows it; for words with a stem that does not overlap itself it does not.
-/

namespace Occurrences

variable {α : Type*} {L : Set (List α)} {s rest text before word behind : List α}

/-- No word of the language starts in the text when the rest follows it. -/
def Clear (L : Set (List α)) (s rest : List α) : Prop :=
  ∀ a b, s = a ++ b → b ≠ [] → ∀ w ∈ L, ¬w <+: b ++ rest

structure Leftmost (L : Set (List α)) (text before word behind : List α) : Prop where
  text_eq : text = before ++ (word ++ behind)
  mem : word ∈ L
  clear : Clear L before (word ++ behind)

/-- No word of the language is the start of another one. -/
def PrefixFree (L : Set (List α)) : Prop := ∀ u ∈ L, ∀ v ∈ L, u <+: v → u = v

theorem clear_nil : Clear L [] rest := by
  rintro a b hs hb
  exact absurd (List.append_eq_nil_iff.mp hs.symm).2 hb

theorem clear_cons {c : α} :
    Clear L (c :: s) rest ↔ (∀ w ∈ L, ¬w <+: c :: s ++ rest) ∧ Clear L s rest := by
  constructor
  · intro h
    exact ⟨h [] (c :: s) rfl (List.cons_ne_nil c s),
      fun a b hs => h (c :: a) b (congrArg (c :: ·) hs)⟩
  · rintro ⟨hhead, htail⟩ a b hs hb
    cases a with
    | nil =>
      obtain rfl : c :: s = b := hs
      exact hhead
    | cons d a =>
      obtain ⟨-, rfl⟩ := List.cons.inj hs
      exact htail a b rfl hb

theorem clear_nil_right_iff (hL : [] ∉ L) : Clear L s [] ↔ ∀ w ∈ L, ¬w <:+: s := by
  constructor
  · rintro h w hw ⟨a, b, rfl⟩
    refine h a (w ++ b) (List.append_assoc a w b) ?_ w hw ?_
    · rintro hnil
      exact hL ((List.append_eq_nil_iff.mp hnil).1 ▸ hw)
    · exact (List.prefix_append w b).trans (List.prefix_append _ _)
  · rintro h a b rfl - w hw hstart
    rw [List.append_nil] at hstart
    exact h w hw (hstart.isInfix.trans (List.suffix_append a b).isInfix)

theorem Clear.starts_behind (h : Clear L before (word ++ behind)) {a b w : List α} (hw : w ∈ L)
    (ht : before ++ (word ++ behind) = a ++ (w ++ b)) : before <+: a := by
  obtain ⟨c, rfl, -⟩ | ⟨c, rfl, hc⟩ := List.append_eq_append_iff.mp ht
  · exact List.prefix_append before c
  · cases c with
    | nil => simp
    | cons d c =>
      refine absurd ?_ (h a (d :: c) rfl (List.cons_ne_nil d c) w hw)
      rw [← hc]
      exact List.prefix_append w b

theorem Leftmost.unique (hL : PrefixFree L) {before' word' behind' : List α}
    (h : Leftmost L text before word behind) (h' : Leftmost L text before' word' behind') :
    before = before' ∧ word = word' ∧ behind = behind' := by
  have ht : before ++ (word ++ behind) = before' ++ (word' ++ behind') :=
    h.text_eq.symm.trans h'.text_eq
  have hbefore : before = before' := (h.clear.starts_behind h'.mem ht).eq_of_length_le
    (h'.clear.starts_behind h.mem ht.symm).length_le
  subst hbefore
  have hrest : word ++ behind = word' ++ behind' := List.append_cancel_left ht
  have hword : word = word' := by
    have hp : word <+: word' ++ behind' := hrest ▸ List.prefix_append word behind
    rcases List.prefix_or_prefix_of_prefix hp (List.prefix_append word' behind') with hw | hw
    · exact hL word h.mem word' h'.mem hw
    · exact (hL word' h'.mem word h.mem hw).symm
  subst hword
  exact ⟨rfl, rfl, List.append_cancel_left hrest⟩

theorem exists_leftmost (h : ∃ w ∈ L, w <:+: text) :
    ∃ before word behind, Leftmost L text before word behind := by
  induction text with
  | nil =>
    obtain ⟨w, hw, hinfix⟩ := h
    exact ⟨[], w, [], by simp [List.infix_nil.mp hinfix], hw, clear_nil⟩
  | cons c text ih =>
    by_cases hp : ∃ w ∈ L, w <+: c :: text
    · obtain ⟨w, hw, b, hb⟩ := hp
      exact ⟨[], w, b, hb.symm, hw, clear_nil⟩
    · obtain ⟨w, hw, hinfix⟩ := h
      have htail : w <:+: text :=
        (List.infix_cons_iff.mp hinfix).resolve_left fun hstart => hp ⟨w, hw, hstart⟩
      obtain ⟨before, word, behind, rfl, hmem, hclear⟩ := ih ⟨w, hw, htail⟩
      exact ⟨c :: before, word, behind, rfl, hmem,
        clear_cons.mpr ⟨fun v hv hstart => hp ⟨v, hv, hstart⟩, hclear⟩⟩

/-! ## Words with a stem -/

/-- No proper end of the word is a start of it. -/
def Unbordered (d : List α) : Prop := ∀ n < d.length, 0 < n → ¬d.drop n <+: d

instance [DecidableEq α] (d : List α) : Decidable (Unbordered d) :=
  inferInstanceAs (Decidable (∀ n < d.length, _))

/-- A stem that starts in a text and does not end there overlaps the stem behind it. -/
theorem clear_of_stem {d : List α} (hd : Unbordered d) (hL : ∀ w ∈ L, d <+: w)
    (hs : ¬d <:+: s) (hrest : d <+: rest) : Clear L s rest := by
  rintro a b rfl hb w hw hstart
  have hstem : d <+: b ++ rest := (hL w hw).trans hstart
  rcases List.prefix_or_prefix_of_prefix hstem (List.prefix_append b rest) with hdb | ⟨r, rfl⟩
  · exact hs (hdb.isInfix.trans (List.suffix_append a b).isInfix)
  · have hr : r <+: rest := (List.prefix_append_right_inj b).mp hstem
    have hrd : r <+: b ++ r := List.prefix_of_prefix_length_le hr hrest (by simp)
    by_cases hnil : r = []
    · subst hnil
      rw [List.append_nil] at hs
      exact hs (List.suffix_append a b).isInfix
    · refine hd b.length ?_ (List.length_pos_of_ne_nil hb) ?_
      · simpa using List.length_pos_of_ne_nil hnil
      · rwa [List.drop_left]

/-! ## Searching -/

section Search

variable {β : Type*} (starts : List α → Option β)

def search : List α → Option (List α × β)
  | [] => (starts []).map fun x => ([], x)
  | c :: cs =>
      match starts (c :: cs) with
      | some x => some ([], x)
      | none => (search cs).map fun (before, x) => (c :: before, x)

variable {starts} {word : β → List α} {x : β}
  (hstarts : ∀ cs x, starts cs = some x ↔ word x <+: cs)
include hstarts

theorem not_prefix_of_starts_eq_none {cs : List α} (h : starts cs = none) :
    ∀ w ∈ Set.range word, ¬w <+: cs := by
  rintro w ⟨x, rfl⟩ hstart
  rw [(hstarts cs x).mpr hstart] at h
  cases h

theorem leftmost_of_search (h : search starts text = some (before, x)) :
    ∃ behind, Leftmost (Set.range word) text before (word x) behind := by
  induction text generalizing before with
  | nil =>
    obtain ⟨y, hy, he⟩ := Option.map_eq_some_iff.mp h
    obtain ⟨rfl, rfl⟩ := Prod.mk.inj he
    obtain ⟨b, hb⟩ := (hstarts [] y).mp hy
    exact ⟨b, hb.symm, ⟨y, rfl⟩, clear_nil⟩
  | cons c cs ih =>
    unfold search at h
    split at h
    · next y hy =>
      cases h
      obtain ⟨b, hb⟩ := (hstarts (c :: cs) x).mp hy
      exact ⟨b, hb.symm, ⟨x, rfl⟩, clear_nil⟩
    · next hnone =>
      obtain ⟨⟨a, y⟩, hy, he⟩ := Option.map_eq_some_iff.mp h
      obtain ⟨rfl, rfl⟩ := Prod.mk.inj he
      obtain ⟨behind, rfl, hmem, hclear⟩ := ih hy
      exact ⟨behind, rfl, hmem,
        clear_cons.mpr ⟨not_prefix_of_starts_eq_none hstarts hnone, hclear⟩⟩

theorem not_infix_of_search_eq_none (h : search starts text = none) :
    ∀ w ∈ Set.range word, ¬w <:+: text := by
  induction text with
  | nil =>
    rintro w hw hinfix
    have hstart : w <+: [] := List.infix_nil.mp hinfix ▸ List.prefix_rfl
    exact not_prefix_of_starts_eq_none hstarts (Option.map_eq_none_iff.mp h) w hw hstart
  | cons c cs ih =>
    unfold search at h
    split at h
    · cases h
    · next hnone =>
      rintro w hw hinfix
      rcases List.infix_cons_iff.mp hinfix with hstart | htail
      · exact not_prefix_of_starts_eq_none hstarts hnone w hw hstart
      · exact ih (Option.map_eq_none_iff.mp h) w hw htail

end Search

end Occurrences

namespace Text

open Occurrences

theorem find_of_prefix {p cs : List Char} (h : p <+: cs) : find p cs = some 0 := by
  have hstart : p.isPrefixOf cs = true := List.isPrefixOf_iff_prefix.mpr h
  cases cs with
  | nil => rw [find, if_pos hstart]
  | cons c cs => rw [find, if_pos hstart]

theorem find_eq_of_leftmost {p cs before behind : List Char}
    (h : Leftmost {p} cs before p behind) : find p cs = some (String.utf8Len before) := by
  obtain ⟨rfl, -, hclear⟩ := h
  induction before with
  | nil => exact find_of_prefix (List.prefix_append p behind)
  | cons c before ih =>
    obtain ⟨hhead, htail⟩ := clear_cons.mp hclear
    have hstart : ¬p.isPrefixOf (c :: (before ++ (p ++ behind))) = true := by
      rw [List.isPrefixOf_iff_prefix]
      exact hhead p rfl
    rw [List.cons_append, find, if_neg hstart, ih htail, Option.map_some, String.utf8Len_cons,
      Nat.add_comm]

end Text
