import SentirumLb.Consul.ServiceMonitor
import SentirumLb.Route.Parser

/-! # Bounded weights

Weights come in through route commands and through the tags of services. The
commands check every weight that they take, and skip one that is out of range.
A tag takes whatever parses.
-/

namespace SentirumLb

namespace RouteParser

variable {W : Type} [WeightText W]

/-! ## Commands -/

theorem isWeight_of_checkedWeight {token : String} {w : W} (h : w ∈ checkedWeight token) :
    IsWeight w := by
  obtain ⟨-, hw⟩ := Option.mem_filter_iff.mp h
  exact of_decide_eq_true hw

theorem isWeight_getD {token : String} {w : W} (hw : IsWeight w) :
    IsWeight ((checkedWeight token).getD w) := by
  cases h : (checkedWeight token : Option W) with
  | none => exact hw
  | some v => exact isWeight_of_checkedWeight h

variable (hzero : IsWeight (0 : W))

include hzero

theorem isWeight_of_parseRouteAdd {tokens : List String} {d : RouteDef W}
    (h : parseRouteAdd tokens = some d) : IsWeight d.weight := by
  unfold parseRouteAdd at h
  split at h
  · cases h
    refine scan_invariant (I := fun d : RouteDef W => IsWeight d.weight) ?_ (fun _ _ hd => hd) _ _
      hzero
    intro t f hf v d hd
    split at hf <;> cases hf
    · exact isWeight_getD hd
    · exact hd
    · exact hd
  · cases h

theorem isWeight_of_parseRouteDel {tokens : List String} {d : RouteDef W}
    (h : parseRouteDel tokens = some d) : IsWeight d.weight := by
  unfold parseRouteDel at h
  rw [Option.ite_none_left_eq_some] at h
  obtain ⟨-, h⟩ := h
  cases h
  refine scan_invariant (I := fun d : RouteDef W => IsWeight d.weight) ?_ ?_ _ _ hzero
  · intro t f hf v d hd
    split at hf <;> cases hf
    exact hd
  · intro t d hd
    split_ifs <;> exact hd

theorem isWeight_of_parseRouteWeight {tokens : List String} {d : RouteDef W}
    (h : parseRouteWeight tokens = some d) : IsWeight d.weight := by
  unfold parseRouteWeight at h
  split at h
  · cases h
    refine scan_invariant (I := fun d : RouteDef W => IsWeight d.weight) ?_ (fun _ _ hd => hd) _ _
      hzero
    intro t f hf v d hd
    split at hf <;> cases hf
    · exact isWeight_getD hd
    · exact hd
  · cases h

theorem isWeight_of_parseLine {line : String} {d : RouteDef W} (h : parseLine line = some d) :
    IsWeight d.weight := by
  unfold parseLine at h
  obtain ⟨tokens, -, h⟩ := Option.bind_eq_some_iff.mp h
  split at h
  · split_ifs at h
    · exact isWeight_of_parseRouteAdd hzero h
    · exact isWeight_of_parseRouteDel hzero h
    · exact isWeight_of_parseRouteWeight hzero h
  · cases h

/-- Every definition of a text of route commands has a bounded weight. -/
theorem isWeight_of_parseRouteCommands {input : String} {d : RouteDef W}
    (h : d ∈ parseRouteCommands input) : IsWeight d.weight := by
  obtain ⟨line, -, hd⟩ := List.mem_filterMap.mp h
  unfold parseCommand at hd
  dsimp only at hd
  split at hd
  · cases hd
  · exact isWeight_of_parseLine hzero hd

/-! ## Tags -/

omit hzero in
variable (W) in
/-- The weight option of a tag is left out, is no number, or is in range. -/
def TagFits (tagPrefix tag : String) : Prop :=
  ∀ src rawOpts value (w : W), Consul.parseUrlprefixTag tag tagPrefix = some (src, rawOpts) →
    (Consul.parseOpts rawOpts).lookup "weight" = some value →
    Consul.ParseWeight.parse value = some w → IsWeight w

theorem isWeight_parseTag_iff {config : Consul.ConsulConfig} {tag address service : String}
    {port : UInt16} :
    (∀ d : RouteDef W, d ∈ Consul.parseTag config tag address port service → IsWeight d.weight) ↔
      TagFits W config.tagPrefix tag := by
  unfold Consul.parseTag TagFits
  cases Consul.parseUrlprefixTag tag config.tagPrefix with
  | none => simp
  | some r =>
    obtain ⟨src, rawOpts⟩ := r
    rw [Option.map_some]
    constructor
    · intro h src' rawOpts' value w hr hvalue hw
      cases hr
      have hd := h _ rfl
      dsimp only at hd
      rwa [hvalue, Option.bind_some, hw] at hd
    · intro h d hd
      cases hd
      dsimp only
      cases hvalue : (Consul.parseOpts rawOpts).lookup "weight" with
      | none => exact hzero
      | some value =>
        rw [Option.bind_some]
        cases hw : (Consul.ParseWeight.parse value : Option W) with
        | none => exact hzero
        | some w => exact h src rawOpts value w rfl hvalue hw

/-- What a text of commands and a tag bring in is bounded exactly when the weight of the tag is. -/
theorem isWeight_ingested_iff (input : String) (config : Consul.ConsulConfig)
    (tag address : String) (port : UInt16) (service : String) :
    ((∀ d : RouteDef W, d ∈ parseRouteCommands input → IsWeight d.weight) ∧
        ∀ d : RouteDef W, d ∈ Consul.parseTag config tag address port service →
          IsWeight d.weight) ↔ TagFits W config.tagPrefix tag := by
  rw [isWeight_parseTag_iff hzero]
  exact and_iff_right fun d hd => isWeight_of_parseRouteCommands hzero hd

omit hzero

@[reducible] def wholeWeights : WeightText ℚ where
  toParseWeight := Consul.Watch.parseWhole
  isFinite _ := true

section

attribute [local instance] wholeWeights

theorem isWeight_ingested_weightOption :
    (∀ d : RouteDef ℚ, d ∈ parseRouteCommands "route add web /web http://10.0.0.1/ weight 2" →
        IsWeight d.weight) ∧
      ∀ d : RouteDef ℚ, d ∈ Consul.parseTag {} "urlprefix-/api weight=7" "10.0.0.1" 80 "api" →
        IsWeight d.weight := by
  refine (isWeight_ingested_iff (by decide +kernel) _ _ _ _ _ _).mpr ?_
  intro src rawOpts value w hr hvalue hw
  have htag : Consul.parseUrlprefixTag "urlprefix-/api weight=7" "urlprefix-" =
      some ("/api", "weight=7") := by decide +kernel
  rw [htag] at hr
  cases hr
  have hopts : (Consul.parseOpts "weight=7").lookup "weight" = some "7" := by decide +kernel
  rw [hopts] at hvalue
  cases hvalue
  have hseven : (Consul.ParseWeight.parse "7" : Option ℚ) = some 7 := by decide +kernel
  rw [hseven] at hw
  cases hw
  decide +kernel

/-- The tag asks for five times the largest weight, and gets it. -/
theorem parseTag_weightOption :
    ∃ d : RouteDef ℚ, d ∈ Consul.parseTag {} "urlprefix-/api weight=5000" "10.0.0.1" 80 "api" ∧
      ¬IsWeight d.weight := by
  have hweight : (Consul.parseTag {} "urlprefix-/api weight=5000" "10.0.0.1" 80 "api" :
      Option (RouteDef ℚ)).map (·.weight) = some 5000 := by decide +kernel
  obtain ⟨d, hd, hweight⟩ := Option.map_eq_some_iff.mp hweight
  refine ⟨d, hd, ?_⟩
  rw [hweight]
  decide +kernel

end

end RouteParser

end SentirumLb
