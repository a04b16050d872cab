import SentirumLb.Lib.Numerals
import SentirumLb.Proxy.Authority
import SentirumLb.Proxy.HostHeader

/-! # The port of a host header

A name and an IPv4 address are the same host with a port and without one. A
bracketed address loses its brackets together with its port, and keeps them
when there is no port to cut off, so its routes depend on the port.
-/

namespace SentirumLb

def withPort (host : String) (port : UInt16) : String := host ++ ":" ++ toString port.toNat

theorem toList_withPort (host : String) (port : UInt16) :
    (withPort host port).toList = host.toList ++ ':' :: (toString port.toNat).toList := by
  rw [withPort, String.toList_append, String.toList_append, List.append_assoc]
  rfl

theorem colon_not_mem_port (port : UInt16) : ':' ∉ (toString port.toNat).toList := by
  intro hc
  exact absurd (Text.isDigit_of_mem_toString hc) (by decide)

theorem bracket_not_mem_literal {s : String} {a : IpAddr} (h : IpAddr.parse s = some a) :
    ']' ∉ '[' :: s.toList := by
  rw [List.mem_cons, not_or]
  exact ⟨by decide, fun hc => (ne_bracket_of_parse h ']' hc).2 rfl⟩

/-! ## The four forms -/

variable {host : String} {port : UInt16}

theorem stripPort_plain (h : IsPlainHost host) : stripPort host = some host :=
  stripPort_of_not_mem fun hc => (h ':' hc).1 rfl

theorem stripPort_plain_withPort (h : IsPlainHost host) :
    stripPort (withPort host port) = some host := by
  have hcolon : ':' ∉ host.toList := fun hc => (h ':' hc).1 rfl
  have hfind : Text.find [']', ':'] (withPort host port).toList = none := by
    rw [Text.find_eq_none_iff, toList_withPort]
    intro hsub
    have hmem : ']' ∈ host.toList ++ ':' :: (toString port.toNat).toList :=
      hsub.subset List.mem_cons_self
    rw [List.mem_append, List.mem_cons] at hmem
    rcases hmem with hmem | hmem | hmem
    · exact (h ']' hmem).2.2 rfl
    · cases hmem
    · exact absurd (Text.isDigit_of_mem_toString hmem) (by decide)
  rw [stripPort_of_last_colon (toList_withPort host port) (colon_not_mem_port port) hfind,
    String.ofList_toList, Text.parseNat_toString port.toNat_lt, String.ofList_toList]
  simp [hcolon]

theorem parseNat_concat_bracket {bound : ℕ} {cs : List Char} :
    Text.parseNat bound (String.ofList (cs ++ [']'])) = none := by
  cases hp : Text.parseNat bound (String.ofList (cs ++ [']'])) with
  | none => rfl
  | some n =>
    obtain ⟨signed, ds, hsplit, hds, -, -⟩ := Text.parseNat_eq_some_iff.mp hp
    rw [String.toList_ofList] at hsplit
    have hsuffix : [']'] <:+ Text.plusSign signed ++ ds := ⟨cs, hsplit⟩
    exact absurd hsuffix (hds.not_suffix (by simp) (by simp))

theorem stripPort_literal {s : String} {a : IpAddr} (h : IpAddr.parse s = some a) :
    stripPort ("[" ++ s ++ "]") = some ("[" ++ s ++ "]") := by
  have hlist : ("[" ++ s ++ "]").toList = ('[' :: s.toList) ++ [']'] := by
    rw [String.toList_append, String.toList_append]
    rfl
  have hfind : Text.find [']', ':'] ("[" ++ s ++ "]").toList = none := by
    rw [Text.find_eq_none_iff, hlist]
    rintro ⟨pre, rest, happ⟩
    rw [List.append_assoc] at happ
    obtain ⟨-, -, hnil⟩ :=
      (List.append_cons_inj_of_notMem (bracket_not_mem_literal h) (by simp)).mp happ.symm
    cases hnil
  by_cases hcolon : ':' ∈ ("[" ++ s ++ "]").toList
  · cases hr : Text.rfind ':' ("[" ++ s ++ "]").toList with
    | none => exact absurd hcolon (Text.not_mem_of_rfind_eq_none hr)
    | some i =>
      obtain ⟨front, b, hs, hb, -⟩ := Text.rfind_eq_some hr
      rw [stripPort_of_last_colon hs hb hfind]
      rw [hlist] at hs
      rcases List.eq_nil_or_concat' b with rfl | ⟨b, c, rfl⟩
      · have hlast := List.append_inj_right' hs rfl
        cases hlast
      · rw [← List.cons_append, ← List.append_assoc] at hs
        have hlast := List.append_inj_right' hs rfl
        cases hlast
        rw [parseNat_concat_bracket]
        simp
  · exact stripPort_of_not_mem hcolon

theorem stripPort_literal_withPort {s : String} {a : IpAddr} (h : IpAddr.parse s = some a) :
    stripPort (withPort ("[" ++ s ++ "]") port) = some s := by
  have hlist : (withPort ("[" ++ s ++ "]") port).toList =
      ('[' :: s.toList) ++ ([']', ':'] ++ (toString port.toNat).toList) := by
    rw [toList_withPort, String.toList_append, String.toList_append]
    simp
  have hslice : Text.slice 1 (String.utf8Len ('[' :: s.toList))
      (withPort ("[" ++ s ++ "]") port).toList = some s.toList := by
    refine Text.slice_eq_some_iff.mpr ⟨['['], _, hlist, rfl, ?_⟩
    rw [String.utf8Len_cons, Nat.add_comm]
    rfl
  unfold stripPort
  simp only [hlist, Text.find_append (bracket_not_mem_literal h)]
  rw [← hlist, hslice, Option.map_some, String.ofList_toList]

/-- The host with the port is the host without it exactly when it is no IPv6 address in
brackets. -/
theorem stripPort_withPort_iff (h : IsUrlHost host) (port : UInt16) :
    stripPort (withPort host port) = stripPort host ↔ ¬IsIpv6Literal host := by
  by_cases hv6 : IsIpv6Literal host
  · rw [iff_false_right (not_not_intro hv6)]
    obtain ⟨s, a, rfl, ha⟩ := hv6
    rw [stripPort_literal_withPort ha, stripPort_literal ha, Option.some.injEq]
    intro he
    have hmem : ']' ∈ s.toList := by
      rw [he]
      simp
    exact (ne_bracket_of_parse ha ']' hmem).2 rfl
  · have hplain := h.isPlainHost hv6
    rw [stripPort_plain hplain, stripPort_plain_withPort hplain]
    exact iff_of_true rfl hv6

/-! ## Requests -/

theorem IsUrlHost.ne_empty (h : IsUrlHost host) : host ≠ "" := by
  cases h with
  | ipv6 h =>
    obtain ⟨s, -, rfl, -⟩ := h
    simp
  | ipv4 h =>
    rintro rfl
    have hnone : IpAddr.parse "" = none := by decide
    rw [hnone] at h
    cases h
  | name hne _ => exact hne

theorem parseHostFromHeader_of_text {r : RequestHeader} {s : String} (h : r.text "host" = some s)
    (hs : s ≠ "") : parseHostFromHeader r = stripPort s := by
  rw [parseHostFromHeader, hostHeader, h, Option.filter_some, if_pos (by simpa using hs)]
  rfl

/-- Two requests for one host, one with a port and one without it, are for the same host exactly
when it is no IPv6 address in brackets. -/
theorem parseHostFromHeader_withPort_iff (hhost : IsUrlHost host) (port : UInt16)
    {r r' : RequestHeader} (hr : r.text "host" = some host)
    (hr' : r'.text "host" = some (withPort host port)) :
    parseHostFromHeader r' = parseHostFromHeader r ↔ ¬IsIpv6Literal host := by
  have hne : withPort host port ≠ "" := by simp [withPort]
  rw [parseHostFromHeader_of_text hr hhost.ne_empty, parseHostFromHeader_of_text hr' hne]
  exact stripPort_withPort_iff hhost port

def hostRequest (host : String) : RequestHeader := ⟨[("host", ⟨Text.bytes host⟩)], none⟩

theorem parseHostFromHeader_withPort_iff_name :
    parseHostFromHeader (hostRequest "example.com:8080") =
        parseHostFromHeader (hostRequest "example.com") ↔ ¬IsIpv6Literal "example.com" :=
  parseHostFromHeader_withPort_iff (.name (by decide) (by simp [IsPlainHost])) 8080
    (by decide +kernel) (by decide +kernel)

/-- The loopback address keeps its brackets only without a port. -/
theorem parseHostFromHeader_withPort_loopback :
    IsUrlHost "[::1]" ∧ (hostRequest "[::1]").text "host" = some "[::1]" ∧
      (hostRequest "[::1]:8080").text "host" = some (withPort "[::1]" 8080) ∧
      parseHostFromHeader (hostRequest "[::1]") = some "[::1]" ∧
      parseHostFromHeader (hostRequest "[::1]:8080") = some "::1" := by
  have hparse : IpAddr.parse "::1" = some (.v6 ⟨0, 0, 0, 0, 0, 0, 0, 1⟩) := by
    decide +kernel
  refine ⟨.ipv6 ⟨"::1", _, by decide +kernel, hparse⟩, ?_, ?_, ?_, ?_⟩ <;> decide +kernel

end SentirumLb
