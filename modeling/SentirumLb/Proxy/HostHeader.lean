import SentirumLb.Lib.Slices
import SentirumLb.Proxy.Forwarded

/-! # The host of a request

The host is a slice of the `Host` header, or of the authority of the URI. A
bracketed address is cut out by the first `]:` of the text, whatever the text
starts with, so the slice of a text that starts with `]:` ends before it starts.
-/

namespace SentirumLb

/-- The host in the text, without its port; no value where a slice would panic. -/
def stripPort (hostHeader : String) : Option String :=
  let cs := hostHeader.toList
  match Text.find [']', ':'] cs with
  | some bracketEnd => (Text.slice 1 bracketEnd cs).map String.ofList
  | none =>
      match Text.rfind ':' cs with
      | some colonPos => do
          let beforeColon ← Text.slice 0 colonPos cs
          let afterColon ← Text.slice (colonPos + 1) (String.utf8Len cs) cs
          if !beforeColon.contains ':' &&
              (Text.parseNat (2 ^ 16) (String.ofList afterColon)).isSome then
            return String.ofList beforeColon
          else return hostHeader
      | none => some hostHeader

def parseHostFromHeader (header : RequestHeader) : Option String := stripPort (hostHeader header)

/-- A text with a `]:` does not start with it, and starts with a character of one byte. -/
def BracketFits (s : String) : Prop :=
  [']', ':'] <:+: s.toList →
    ¬[']', ':'] <+: s.toList ∧ ∃ c ∈ s.toList.head?, c.utf8Size = 1

theorem slice_one_isSome_iff {cs a b : List Char} (hcs : cs = a ++ b) :
    (∃ m, Text.slice 1 (String.utf8Len a) cs = some m) ↔
      a ≠ [] ∧ ∃ c ∈ cs.head?, c.utf8Size = 1 := by
  subst hcs
  simp only [Text.slice_eq_some_iff]
  constructor
  · rintro ⟨m, p, q, happ, hp, hm⟩
    have ha : a ≠ [] := by
      rintro rfl
      simp only [String.utf8Len_nil] at hm
      omega
    cases p with
    | nil => simp at hp
    | cons c p =>
      rw [String.utf8Len_cons] at hp
      have hpos := c.utf8Size_pos
      refine ⟨ha, c, ?_, by omega⟩
      rw [happ]
      rfl
  · rintro ⟨ha, c, hc, hsize⟩
    cases a with
    | nil => exact absurd rfl ha
    | cons d a =>
      cases hc
      refine ⟨a, [c], b, by simp, by simpa using hsize, ?_⟩
      rw [String.utf8Len_cons, hsize, Nat.add_comm]

theorem stripPort_of_last_colon {s : String} {a b : List Char} (hs : s.toList = a ++ ':' :: b)
    (hb : ':' ∉ b) (h : Text.find [']', ':'] s.toList = none) :
    stripPort s = some (if !a.contains ':' &&
      (Text.parseNat (2 ^ 16) (String.ofList b)).isSome then String.ofList a else s) := by
  have hrfind : Text.rfind ':' s.toList = some (String.utf8Len a) := by
    rw [hs, Text.rfind_append_cons hb]
  have hbefore : Text.slice 0 (String.utf8Len a) s.toList = some a :=
    Text.slice_eq_some_iff.mpr ⟨[], ':' :: b, hs, rfl, Nat.zero_add _⟩
  have hlen : String.utf8Len s.toList = String.utf8Len a + (1 + String.utf8Len b) := by
    rw [hs, String.utf8Len_append, String.utf8Len_cons, Nat.add_comm (String.utf8Len b)]
    rfl
  have hafter : Text.slice (String.utf8Len a + 1) (String.utf8Len s.toList) s.toList =
      some b := by
    refine Text.slice_eq_some_iff.mpr ⟨a ++ [':'], [], ?_, ?_, ?_⟩
    · rw [hs]
      simp
    · rw [String.utf8Len_append]
      rfl
    · rw [hlen]
      omega
  unfold stripPort
  simp only [h, hrfind, hbefore, hafter, Option.bind_eq_bind, Option.bind_some]
  split <;> rfl

theorem stripPort_of_not_mem {s : String} (h : ':' ∉ s.toList) : stripPort s = some s := by
  have hfind : Text.find [']', ':'] s.toList = none := by
    rw [Text.find_eq_none_iff]
    exact fun hsub => h (hsub.subset (by simp))
  unfold stripPort
  simp only [hfind, Text.rfind_of_not_mem h]

/-- A text without `]:` is never cut where it cannot be. -/
theorem stripPort_of_find_eq_none {s : String} (h : Text.find [']', ':'] s.toList = none) :
    ∃ host, stripPort s = some host ∧ host.toList <:+: s.toList := by
  by_cases hcolon : ':' ∈ s.toList
  · cases hr : Text.rfind ':' s.toList with
    | none => exact absurd hcolon (Text.not_mem_of_rfind_eq_none hr)
    | some i =>
      obtain ⟨a, b, hs, hb, -⟩ := Text.rfind_eq_some hr
      refine ⟨_, stripPort_of_last_colon hs hb h, ?_⟩
      split
      · rw [String.toList_ofList, hs]
        exact (List.prefix_append a _).isInfix
      · exact List.infix_refl _
  · exact ⟨s, stripPort_of_not_mem hcolon, List.infix_refl _⟩

/-- The host is cut out of the text without a failing slice exactly when the text has no `]:`, or
has it behind a first character of one byte. -/
theorem parseHostFromHeader_iff (header : RequestHeader) :
    (∃ host, parseHostFromHeader header = some host ∧
      host.toList <:+: (hostHeader header).toList) ↔ BracketFits (hostHeader header) := by
  unfold parseHostFromHeader BracketFits
  generalize hostHeader header = s
  cases hf : Text.find [']', ':'] s.toList with
  | none =>
    have hinfix := Text.find_eq_none_iff.mp hf
    exact ⟨fun _ h => absurd h hinfix, fun _ => stripPort_of_find_eq_none hf⟩
  | some i =>
    obtain ⟨a, b, hs, rfl, hzero⟩ := Text.find_eq_some hf
    have hinfix : [']', ':'] <:+: s.toList := ⟨a, b, hs.symm⟩
    have hnil : a ≠ [] ↔ ¬[']', ':'] <+: s.toList := by
      rw [← hzero, String.utf8Len_eq_zero]
    rw [List.append_assoc] at hs
    rw [← hnil, forall_prop_of_true hinfix, ← slice_one_isSome_iff hs]
    have hstrip : stripPort s = (Text.slice 1 (String.utf8Len a) s.toList).map String.ofList := by
      unfold stripPort
      simp only [hf]
    rw [hstrip]
    constructor
    · rintro ⟨host, hhost, -⟩
      obtain ⟨m, hm, -⟩ := Option.map_eq_some_iff.mp hhost
      exact ⟨m, hm⟩
    · rintro ⟨m, hm⟩
      obtain ⟨p, q, happ, -, -⟩ := Text.slice_eq_some_iff.mp hm
      refine ⟨String.ofList m, by rw [hm]; rfl, ?_⟩
      rw [String.toList_ofList]
      exact ⟨p, q, happ.symm⟩

def bracketRequest : RequestHeader := ⟨[("host", ⟨Text.bytes "]:"⟩)], none⟩

theorem parseHostFromHeader_bracketRequest :
    ¬∃ host, parseHostFromHeader bracketRequest = some host ∧
      host.toList <:+: (hostHeader bracketRequest).toList := by
  have hnone : parseHostFromHeader bracketRequest = none := by decide +kernel
  rintro ⟨host, hhost, -⟩
  rw [hnone] at hhost
  cases hhost

end SentirumLb
