import SentirumLb.Lib.Numerals
import SentirumLb.Config.Basic

/-! # The grammar of durations

A duration is a natural number and a unit. The parser cuts every copy of the
unit off the end, and its number parser takes a plus sign, so that it reads
more than that: just these two spellings keep it from the grammar.
-/

namespace SentirumLb.Config

inductive TimeUnit | ms | s | m | h
  deriving DecidableEq, Repr

namespace TimeUnit

def text : TimeUnit → String
  | ms => "ms"
  | s => "s"
  | m => "m"
  | h => "h"

def factor : TimeUnit → ℕ
  | ms => 1
  | s => 1
  | m => 60
  | h => 3600

def duration (u : TimeUnit) (n : ℕ) : Duration :=
  match u with
  | ms => .fromMillis n
  | u => .fromSecs (n * u.factor)

/-- The unit a text ends with. The milliseconds go first, since they end with the seconds. -/
def ofSuffix (t : String) : Option TimeUnit := [ms, s, m, h].find? fun u => Text.endsWith t u.text

theorem text_ne (u : TimeUnit) : u.text ≠ "" := by cases u <;> decide

theorem text_digits (u : TimeUnit) : ∀ c ∈ u.text.toList, c.isDigit = false := by
  cases u <;> simp [text]

theorem text_plus (u : TimeUnit) : '+' ∉ u.text.toList := by cases u <;> simp [text]

theorem duration_ms : ms.duration = .fromMillis := rfl

theorem duration_s : TimeUnit.s.duration = .fromSecs := by
  funext n
  exact congrArg Duration.fromSecs (Nat.mul_one n)

theorem duration_m : m.duration = fun n => .fromSecs (n * 60) := rfl

theorem duration_h : h.duration = fun n => .fromSecs (n * 3600) := rfl

end TimeUnit

open TimeUnit

/-- A text with a sign or not, digits, and so many copies of a unit, whose value fits. -/
structure Spelled (t : String) (signed : Bool) (k : ℕ) (u : TimeUnit) (n : ℕ) : Prop where
  text : ∃ ds, t.toList = Text.plusSign signed ++ ds ++ Text.copies k u.text.toList ∧
    Text.IsNumeral ds ∧ Nat.ofDigitChars 10 ds 0 = n
  bound : n < 2 ^ 64
  fits : n * u.factor < 2 ^ 64

/-- The grammar: a natural number and one unit. -/
def IsDuration (s : String) (d : Duration) : Prop :=
  ∃ (ds : List Char) (n : ℕ) (u : TimeUnit), (Text.trim s).toList = ds ++ u.text.toList ∧
    Text.IsNumeral ds ∧ Nat.ofDigitChars 10 ds 0 = n ∧ n < 2 ^ 64 ∧ n * u.factor < 2 ^ 64 ∧
    d = u.duration n

theorem isDuration_iff {s : String} {d : Duration} :
    IsDuration s d ↔ ∃ u n, Spelled (Text.trim s) false 1 u n ∧ d = u.duration n := by
  constructor
  · rintro ⟨ds, n, u, ht, hds, hn, hlt, hfits, rfl⟩
    have htext : (Text.trim s).toList =
        Text.plusSign false ++ ds ++ Text.copies 1 u.text.toList := by
      simpa [Text.plusSign, Text.copies] using ht
    exact ⟨u, n, ⟨⟨ds, htext, hds, hn⟩, hlt, hfits⟩, rfl⟩
  · rintro ⟨u, n, ⟨⟨ds, ht, hds, hn⟩, hlt, hfits⟩, rfl⟩
    have htext : (Text.trim s).toList = ds ++ u.text.toList := by
      simpa [Text.plusSign, Text.copies] using ht
    exact ⟨ds, n, u, htext, hds, hn, hlt, hfits, rfl⟩

/-! ## What the parser reads -/

theorem filter_fits_one (t : String) :
    (Text.parseNat (2 ^ 64) t).filter (fun n => n * 1 < 2 ^ 64) = Text.parseNat (2 ^ 64) t := by
  cases h : Text.parseNat (2 ^ 64) t with
  | none => rfl
  | some n =>
    obtain ⟨-, -, -, -, -, hlt⟩ := Text.parseNat_eq_some_iff.mp h
    rw [Option.filter_some, if_pos (by simpa using hlt)]

theorem map_filter_scaled (o : Option ℕ) (factor : ℕ) (f : ℕ → Duration) :
    ((o.map (· * factor)).filter (· < 2 ^ 64)).map f =
      (o.filter fun n => n * factor < 2 ^ 64).map fun n => f (n * factor) := by
  cases o with
  | none => rfl
  | some n =>
    rw [Option.map_some, Option.filter_some, Option.filter_some]
    split <;> rfl

/-- The four branches of the parser do the same with their units. -/
theorem parseOptionalDuration_eq (s : String) :
    parseOptionalDuration s = (ofSuffix (Text.trim s)).bind fun u =>
      ((Text.parseNat (2 ^ 64) (Text.trimEndMatches (Text.trim s) u.text)).filter
        fun n => n * u.factor < 2 ^ 64).map u.duration := by
  unfold parseOptionalDuration
  by_cases hempty : Text.trim s = ""
  · rw [if_pos hempty, hempty]
    rfl
  rw [if_neg hempty]
  dsimp only
  split
  · next hms =>
    have hu : ofSuffix (Text.trim s) = some ms := by simp [ofSuffix, text, hms]
    rw [hu, Option.bind_some, factor, filter_fits_one, duration_ms, text]
  split
  · next hms hs =>
    have hu : ofSuffix (Text.trim s) = some .s := by simp [ofSuffix, text, hms, hs]
    rw [hu, Option.bind_some, factor, filter_fits_one, duration_s, text]
  split
  · next hms hs hm =>
    have hu : ofSuffix (Text.trim s) = some m := by simp [ofSuffix, text, hms, hs, hm]
    rw [hu, Option.bind_some, map_filter_scaled, duration_m, factor, text]
  split
  · next hms hs hm hh =>
    have hu : ofSuffix (Text.trim s) = some h := by simp [ofSuffix, text, hms, hs, hm, hh]
    rw [hu, Option.bind_some, map_filter_scaled, duration_h, factor, text]
  · next hms hs hm hh =>
    have hu : ofSuffix (Text.trim s) = none := by simp [ofSuffix, text, hms, hs, hm, hh]
    rw [hu, Option.bind_none]

theorem Spelled.ofSuffix_eq {t : String} {signed : Bool} {k n : ℕ} {u : TimeUnit}
    (hs : Spelled t signed (k + 1) u n) : ofSuffix t = some u := by
  obtain ⟨⟨ds, ht, hds, -⟩, -, -⟩ := hs
  have hchars : ∀ c ∈ t.toList, c = '+' ∨ c.isDigit = true ∨ c ∈ u.text.toList := by
    intro c hc
    rw [ht, List.mem_append, List.mem_append] at hc
    rcases hc with (hc | hc) | hc
    · cases signed with
      | true => exact .inl (List.mem_singleton.mp hc)
      | false => cases hc
    · exact .inr (.inl (hds.2 c hc))
    · exact .inr (.inr (Text.mem_of_mem_copies hc))
  have hends : Text.endsWith t u.text = true := by
    rw [Text.endsWith, List.isSuffixOf_iff_suffix, ht, Text.copies_succ', ← List.append_assoc]
    exact List.suffix_append _ _
  have hnot : ∀ (v : TimeUnit) (c : Char), c ∈ v.text.toList → c ∉ u.text.toList →
      Text.endsWith t v.text = false := by
    intro v c hc hu
    refine Bool.eq_false_iff.mpr fun hv => ?_
    rw [Text.endsWith, List.isSuffixOf_iff_suffix] at hv
    rcases hchars c (hv.subset hc) with rfl | hdigit | hmem
    · exact text_plus v hc
    · exact absurd hdigit (by simp [text_digits v c hc])
    · exact hu hmem
  cases u with
  | ms => simp [ofSuffix, hends]
  | s =>
    have hms := hnot ms 'm' (by simp [TimeUnit.text]) (by simp [TimeUnit.text])
    simp [ofSuffix, hends, hms]
  | m =>
    have hms := hnot ms 's' (by simp [TimeUnit.text]) (by simp [TimeUnit.text])
    have hs := hnot .s 's' (by simp [TimeUnit.text]) (by simp [TimeUnit.text])
    simp [ofSuffix, hends, hms, hs]
  | h =>
    have hms := hnot ms 'm' (by simp [TimeUnit.text]) (by simp [TimeUnit.text])
    have hs := hnot .s 's' (by simp [TimeUnit.text]) (by simp [TimeUnit.text])
    have hm := hnot m 'm' (by simp [TimeUnit.text]) (by simp [TimeUnit.text])
    simp [ofSuffix, hends, hms, hs, hm]

theorem parseOptionalDuration_eq_some_iff {s : String} {d : Duration} :
    parseOptionalDuration s = some d ↔
      ∃ signed k u n, Spelled (Text.trim s) signed (k + 1) u n ∧ d = u.duration n := by
  rw [parseOptionalDuration_eq, Option.bind_eq_some_iff]
  constructor
  · rintro ⟨u, hu, h⟩
    obtain ⟨n, hn, rfl⟩ := Option.map_eq_some_iff.mp h
    obtain ⟨hn, hfits⟩ := Option.filter_eq_some_iff.mp hn
    obtain ⟨signed, ds, k, ht, hds, rfl, hlt⟩ :=
      (Text.parseNat_trimEndMatches_iff (text_ne u) (text_digits u)).mp hn
    cases k with
    | zero =>
      have hends : Text.endsWith (Text.trim s) u.text = true := by
        simpa using List.find?_some hu
      rw [Text.endsWith, List.isSuffixOf_iff_suffix, ht, Text.copies_zero, List.append_nil] at hends
      exact absurd hends (hds.not_suffix (by simpa using text_ne u) (text_digits u))
    | succ k => exact ⟨signed, k, u, _, ⟨⟨ds, ht, hds, rfl⟩, hlt, by simpa using hfits⟩, rfl⟩
  · rintro ⟨signed, k, u, n, hs, rfl⟩
    refine ⟨u, hs.ofSuffix_eq, ?_⟩
    obtain ⟨⟨ds, ht, hds, hn⟩, hlt, hfits⟩ := hs
    rw [(Text.parseNat_trimEndMatches_iff (text_ne u) (text_digits u)).mpr
      ⟨signed, ds, k + 1, ht, hds, hn, hlt⟩, Option.filter_some, if_pos (by simpa using hfits),
      Option.map_some]

/-! ## Where the grammar and the parser differ -/

/-- One text has one sign, and as many units as it has. -/
theorem Spelled.unique {t : String} {signed : Bool} {k n n' : ℕ} {u u' : TimeUnit}
    (hs : Spelled t signed (k + 1) u n) (hs' : Spelled t false 1 u' n') :
    signed = false ∧ k = 0 := by
  have hu : u = u' := Option.some_injective _ (hs.ofSuffix_eq.symm.trans hs'.ofSuffix_eq)
  subst hu
  obtain ⟨ds, ht, hds, -⟩ := hs.text
  obtain ⟨ds', ht', hds', -⟩ := hs'.text
  have hcount : ∀ {signed : Bool} {k : ℕ} {ds : List Char}, Text.IsNumeral ds →
      (Text.plusSign signed ++ ds ++ Text.copies k u.text.toList).countP (!·.isDigit) =
        signed.toNat + k * u.text.toList.length := by
    intro signed k ds hds
    have hsign : (Text.plusSign signed).countP (!·.isDigit) = signed.toNat := by
      cases signed <;> rfl
    have hnumeral : ds.countP (!·.isDigit) = 0 :=
      List.countP_eq_zero.mpr fun c hc => by simp [hds.2 c hc]
    have hunits : (Text.copies k u.text.toList).countP (!·.isDigit) = k * u.text.toList.length := by
      rw [← Text.length_copies, List.countP_eq_length]
      intro c hc
      simp [text_digits u c (Text.mem_of_mem_copies hc)]
    rw [List.countP_append, List.countP_append, hsign, hnumeral, hunits, Nat.add_zero]
  have hpos : 0 < u.text.toList.length :=
    List.length_pos_iff.mpr (by simpa using text_ne u)
  have heq := congrArg (List.countP (!·.isDigit)) (ht.symm.trans ht')
  rw [hcount hds, hcount hds'] at heq
  have hmul := Nat.add_one_mul k u.text.toList.length
  cases signed with
  | true =>
    rw [Bool.toNat_true, Bool.toNat_false] at heq
    omega
  | false =>
    rw [Bool.toNat_false] at heq
    have hk : k * u.text.toList.length = 0 := by omega
    exact ⟨rfl, (Nat.mul_eq_zero.mp hk).resolve_right hpos.ne'⟩

/-- The parser reads a text as the grammar does just when no plus sign and no second unit
make it accept more. -/
theorem parseOptionalDuration_grammar_iff (s : String) :
    (∀ d, parseOptionalDuration s = some d ↔ IsDuration s d) ↔
      ¬∃ signed k u n, Spelled (Text.trim s) signed (k + 1) u n ∧ (signed = true ∨ k ≠ 0) := by
  constructor
  · rintro h ⟨signed, k, u, n, hs, hextra⟩
    obtain ⟨u', n', hs', -⟩ := isDuration_iff.mp
      ((h _).mp (parseOptionalDuration_eq_some_iff.mpr ⟨signed, k, u, n, hs, rfl⟩))
    obtain ⟨rfl, rfl⟩ := hs.unique hs'
    rcases hextra with hsigned | hk
    · cases hsigned
    · exact hk rfl
  · intro h d
    rw [parseOptionalDuration_eq_some_iff, isDuration_iff]
    constructor
    · rintro ⟨signed, k, u, n, hs, rfl⟩
      have hplain : ¬(signed = true ∨ k ≠ 0) := fun hextra => h ⟨signed, k, u, n, hs, hextra⟩
      rw [not_or, Bool.not_eq_true, not_not] at hplain
      obtain ⟨rfl, rfl⟩ := hplain
      exact ⟨u, n, hs, rfl⟩
    · rintro ⟨u, n, hs, rfl⟩
      exact ⟨false, 0, u, n, hs, rfl⟩

/-- Both copies of the unit go, and five seconds are left. -/
theorem parseOptionalDuration_not_grammar :
    parseOptionalDuration "5ss" = some (.fromSecs 5) ∧ ¬IsDuration "5ss" (.fromSecs 5) := by
  refine ⟨by decide +kernel, ?_⟩
  rw [isDuration_iff]
  rintro ⟨u, n, hs, -⟩
  have htrim : Text.trim "5ss" = "5ss" := by decide +kernel
  rw [htrim] at hs
  have htwo : Spelled "5ss" false 2 .s 5 :=
    ⟨⟨['5'], by decide +kernel, ⟨by simp, by simp⟩, by decide⟩, by decide, by decide⟩
  exact absurd (htwo.unique hs).2 one_ne_zero

end SentirumLb.Config
