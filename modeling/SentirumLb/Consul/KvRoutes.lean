import SentirumLb.Lib.Lists
import SentirumLb.Route.WeightBounds

/-! # Routes from the key-value store

The values under the prefix are put together to one text of route commands,
each behind a comment line that shows its key. The text is read back line by
line, so what a key has behind a line feed is read as commands.
-/

namespace SentirumLb

namespace Consul

open RouteParser

/-- A key and its value, when that is UTF-8. -/
structure DecodedKvPair where
  key : String
  text : Option String

/-- The part of a value in the combined text; blank values have none. -/
def kvPart (kv : DecodedKvPair) : Option String :=
  kv.text.bind fun text =>
    let trimmed := Text.trim text
    if trimmed ≠ "" then some ("# --- " ++ kv.key ++ "\n" ++ trimmed) else none

def watchKv (pairs : List DecodedKvPair) : Option String :=
  let parts := pairs.filterMap kvPart
  if parts = [] then none else some ("\n\n".intercalate parts)

variable {W : Type} [WeightText W]

/-- The definitions that the update of the watcher brings. -/
def kvRoutes (pairs : List DecodedKvPair) : List (RouteDef W) :=
  parseRouteCommands ((watchKv pairs).getD "")

/-! ## Texts that are put together -/

theorem parseCommand_eq_of_trim_eq {s t : String} (h : Text.trim s = Text.trim t) :
    (parseCommand s : Option (RouteDef W)) = parseCommand t := by
  simp only [parseCommand, h]

theorem parseCommand_blank {s : String} (h : Text.trim s = "") :
    (parseCommand s : Option (RouteDef W)) = none := by
  simp [parseCommand, h]

theorem parseRouteCommands_of_not_mem {line : String} (h : '\n' ∉ line.toList) :
    (parseRouteCommands line : List (RouteDef W)) = (parseCommand line).toList :=
  Text.filterMap_lines_of_not_mem (fun _ _ => parseCommand_eq_of_trim_eq)
    (parseCommand_blank (by decide)) h

theorem parseRouteCommands_append (a b : String) :
    (parseRouteCommands (a ++ "\n" ++ b) : List (RouteDef W)) =
      parseRouteCommands a ++ parseRouteCommands b := by
  refine Text.filterMap_lines_append (fun _ _ => parseCommand_eq_of_trim_eq)
    (parseCommand_blank (by decide)) ?_
  simp

theorem parseRouteCommands_trim (s : String) :
    (parseRouteCommands (Text.trim s) : List (RouteDef W)) = parseRouteCommands s := by
  obtain ⟨l, r, hs, hl, hr⟩ := Text.trim_spec s
  exact (Text.filterMap_lines_of_append (fun _ _ => parseCommand_eq_of_trim_eq)
    (parseCommand_blank (by decide)) hs hl hr).symm

theorem parseRouteCommands_of_blank {s : String} (h : Text.trim s = "") :
    (parseRouteCommands s : List (RouteDef W)) = [] := by
  rw [← parseRouteCommands_trim, h]
  rfl

theorem parseRouteCommands_comment {s : String} {cs : List Char} (hs : s.toList = '#' :: cs)
    (hcs : '\n' ∉ cs) : (parseRouteCommands s : List (RouteDef W)) = [] := by
  have hline : '\n' ∉ s.toList := by
    rw [hs]
    simp [hcs]
  have htrim : Text.startsWith (Text.trim s) "#" = true := by
    obtain ⟨l, r, hspec, hl, hr⟩ := Text.trim_spec s
    have hsign : Text.isWhitespace '#' = false := by decide
    rw [hs] at hspec
    rw [Text.startsWith_iff]
    cases l with
    | cons c l =>
      cases hspec
      simp [hl '#'] at hsign
    | nil =>
      cases ht : (Text.trim s).toList with
      | nil =>
        rw [ht] at hspec
        have hmem : '#' ∈ r := by
          rw [show r = '#' :: cs by simpa using hspec.symm]
          exact List.mem_cons_self
        simp [hr '#' hmem] at hsign
      | cons c t =>
        rw [ht] at hspec
        cases hspec
        exact ⟨t, rfl⟩
  have hnone : (parseCommand s : Option (RouteDef W)) = none := by
    simp [parseCommand, htrim]
  rw [parseRouteCommands, Text.filterMap_lines_of_not_mem (fun _ _ => parseCommand_eq_of_trim_eq)
    (parseCommand_blank (by decide)) hline, hnone]
  rfl

/-! ## What the keys bring -/

def keyRest (key : String) : String := (Text.after '\n' key).getD ""

/-- The key brings no line that is read as a command. -/
def KeyFits (W : Type) [WeightText W] (key : String) : Prop :=
  ∀ line ∈ Text.lines (keyRest key), (parseCommand line : Option (RouteDef W)) = none

theorem keyFits_iff {key : String} :
    KeyFits W key ↔ (parseRouteCommands (keyRest key) : List (RouteDef W)) = [] :=
  List.filterMap_eq_nil_iff.symm

theorem parseRouteCommands_key (key : String) :
    (parseRouteCommands ("# --- " ++ key) : List (RouteDef W)) =
      parseRouteCommands (keyRest key) := by
  unfold keyRest
  cases h : Text.after '\n' key with
  | none =>
    have hkey : '\n' ∉ key.toList := by
      intro hmem
      unfold Text.after at h
      split at h
      · next hnil =>
        have hall := List.dropWhile_eq_nil_iff.mp hnil '\n' hmem
        simp at hall
      · cases h
    have hchars : ("# --- " ++ key).toList = '#' :: (" --- ".toList ++ key.toList) := by
      simp
    exact (parseRouteCommands_comment hchars (by simpa using hkey)).trans rfl
  | some rest =>
    have honce : Text.splitOnce '\n' key = some (Text.before '\n' key, rest) := by
      rw [Text.splitOnce, h]
      rfl
    obtain ⟨hkey, hfirst⟩ := Text.splitOnce_eq_some_iff.mp honce
    have hsplit : "# --- " ++ key = "# --- " ++ Text.before '\n' key ++ "\n" ++ rest := by
      rw [← String.toList_inj]
      simp [hkey]
    have hchars : ("# --- " ++ Text.before '\n' key).toList =
        '#' :: (" --- ".toList ++ (Text.before '\n' key).toList) := by
      simp
    have hcomment : (parseRouteCommands ("# --- " ++ Text.before '\n' key) :
        List (RouteDef W)) = [] :=
      parseRouteCommands_comment hchars (by simpa using hfirst)
    rw [hsplit, parseRouteCommands_append, hcomment, List.nil_append]
    rfl

def valueRoutes (kv : DecodedKvPair) : List (RouteDef W) :=
  (kv.text.map parseRouteCommands).getD []

theorem parseRouteCommands_kvPart (kv : DecodedKvPair) :
    ((kvPart kv).map (parseRouteCommands (W := W))).getD [] =
      (if kvPart kv = none then [] else parseRouteCommands (keyRest kv.key)) ++ valueRoutes kv := by
  unfold kvPart valueRoutes
  cases kv.text with
  | none => rfl
  | some text =>
    simp only [Option.bind_some, Option.map_some, Option.getD_some]
    by_cases hblank : Text.trim text = ""
    · simp [hblank, parseRouteCommands_of_blank hblank]
    · simp [hblank, parseRouteCommands_append, parseRouteCommands_trim, parseRouteCommands_key]

theorem parseRouteCommands_intercalate (parts : List String) :
    (parseRouteCommands ("\n\n".intercalate parts) : List (RouteDef W)) =
      parts.flatMap parseRouteCommands := by
  induction parts with
  | nil => rfl
  | cons part parts ih =>
    by_cases hne : parts = []
    · subst hne
      simp
    · have hsplit : part ++ "\n\n" ++ "\n\n".intercalate parts =
          part ++ "\n" ++ ("" ++ "\n" ++ "\n\n".intercalate parts) := by
        rw [← String.toList_inj]
        simp
      have hempty : (parseRouteCommands "" : List (RouteDef W)) = [] := rfl
      rw [String.intercalate_cons_of_ne_nil hne, hsplit, parseRouteCommands_append,
        parseRouteCommands_append, hempty, List.nil_append, ih, List.flatMap_cons]

/-- The combined text brings, part by part, what keys and values bring. -/
theorem kvRoutes_eq (pairs : List DecodedKvPair) :
    (kvRoutes pairs : List (RouteDef W)) = pairs.flatMap fun kv =>
      (if kvPart kv = none then [] else parseRouteCommands (keyRest kv.key)) ++ valueRoutes kv := by
  have hparts : (kvRoutes pairs : List (RouteDef W)) =
      (pairs.filterMap kvPart).flatMap parseRouteCommands := by
    unfold kvRoutes watchKv
    dsimp only
    split
    · next hnil =>
      rw [hnil]
      rfl
    · rw [Option.getD_some, parseRouteCommands_intercalate]
  rw [hparts]
  clear hparts
  induction pairs with
  | nil => rfl
  | cons kv pairs ih =>
    rw [List.flatMap_cons, ← ih, ← parseRouteCommands_kvPart]
    cases hpart : kvPart kv with
    | none => simp [hpart]
    | some part => simp [hpart]

/-- Texts put together with a line feed are read one after the other, and so are the values of the
store exactly when the keys bring no commands of their own. -/
theorem kvRoutes_iff (pairs : List DecodedKvPair) :
    ((∀ a b : String, (parseRouteCommands (a ++ "\n" ++ b) : List (RouteDef W)) =
        parseRouteCommands a ++ parseRouteCommands b) ∧
      (kvRoutes pairs : List (RouteDef W)) = pairs.flatMap valueRoutes) ↔
    ∀ kv ∈ pairs, kvPart kv ≠ none → KeyFits W kv.key := by
  rw [and_iff_right parseRouteCommands_append, kvRoutes_eq, Lists.flatMap_append_eq_iff]
  refine forall₂_congr fun kv _ => ?_
  rw [keyFits_iff]
  by_cases hpart : kvPart kv = none <;> simp [hpart]

def intrudingPair : DecodedKvPair :=
  ⟨"routes/web\nroute add intruder / http://10.6.6.6:80/",
    some "route add web /web http://10.0.0.1:80/"⟩

section

attribute [local instance] wholeWeights

theorem kvRoutes_intrudingPair :
    (kvRoutes [intrudingPair] : List (RouteDef ℚ)) ≠ [intrudingPair].flatMap valueRoutes := by
  have hcombined : (kvRoutes [intrudingPair] : List (RouteDef ℚ)).length = 2 := by
    decide +kernel
  have hvalues : ([intrudingPair].flatMap valueRoutes : List (RouteDef ℚ)).length = 1 := by
    decide +kernel
  intro h
  rw [h, hvalues] at hcombined
  cases hcombined

end

end Consul

end SentirumLb
