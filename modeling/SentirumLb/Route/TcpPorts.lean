import SentirumLb.Lib.Lines
import SentirumLb.Proxy.TcpLookup

/-! # The ports of TCP listeners

The manager of the dynamic listeners opens the ports that it reads off the hosts of
the table. A connection that arrives there is routed by the text of its local
address, and that lookup compares the ends of the hosts with the digits of the
port. Of several hosts that end in the port it takes the one that the map lists
first.
-/

namespace SentirumLb

open Text in
theorem parseListenerPort_append (ip : String) (port : UInt16) :
    parseListenerPort (ip ++ ":" ++ toString port.toNat) = some port := by
  have hcolon : ':' ∉ (toString port.toNat).toList := by
    intro hmem
    exact absurd (isDigit_of_mem_toString hmem) (by decide)
  have hsplit : split ':' (ip ++ ":" ++ toString port.toNat) =
      split ':' ip ++ [toString port.toNat] := by
    rw [split_append ':' (a := ip) (b := toString port.toNat) (by simp), split_eq_singleton hcolon]
  rw [parseListenerPort, hsplit, List.getLast?_concat, Option.bind_some,
    parseNat_toString port.toNat_lt]
  simp

/-- How the lookups expect a host to end: a colon and the digits of the port. -/
def portSuffix (port : UInt16) : String := ":" ++ toString port.toNat

/-- The ports that are open after a round of the manager: listeners of other ports are stopped, and
missing ones are started. -/
def reconcileDynamicListeners (listeners ports : List UInt16) : List UInt16 :=
  listeners.filter (ports.contains ·) ++ ports.filter (!listeners.contains ·)

theorem mem_reconcileDynamicListeners {listeners ports : List UInt16} {port : UInt16} :
    port ∈ reconcileDynamicListeners listeners ports ↔ port ∈ ports := by
  by_cases h : port ∈ listeners
  · simp [reconcileDynamicListeners, h]
  · simp [reconcileDynamicListeners, h]

variable {W : Type}

namespace Table

variable (t : Table W)

/-- The ports that the hosts with nothing but TCP routes are read as, in order. -/
def tcpListenerPorts : List UInt16 :=
  (((t.routes.entries.filter fun e => e.2.all Route.isTcp).filterMap
    fun e => parseListenerPort e.1).dedup).insertionSort (· ≤ ·)

/-- The host ends in the port, and this is its first TCP route. -/
def PortRoute (port : UInt16) (host : String) (r : Route W) : Prop :=
  ∃ routes, t.routes.lookup host = some routes ∧ Text.endsWith host (portSuffix port) ∧
    routes.find? Route.isTcp = some r

def Reordered (t' : Table W) : Prop := t'.routes.entries.Perm t.routes.entries

def reorder {l : List ((_ : String) × List (Route W))} (h : l.Perm t.routes.entries) : Table W :=
  { t with routes := ⟨l, (List.perm_nodupKeys h).mpr t.routes.nodupKeys⟩ }

variable {t} {port : UInt16}

theorem mem_tcpListenerPorts : port ∈ t.tcpListenerPorts ↔
    ∃ host routes, t.routes.lookup host = some routes ∧ (∀ r ∈ routes, r.isTcp) ∧
      parseListenerPort host = some port := by
  simp only [tcpListenerPorts, List.mem_insertionSort, List.mem_dedup, List.mem_filterMap,
    List.mem_filter, List.all_eq_true, AssocMap.lookup_eq_some_iff]
  constructor
  · rintro ⟨⟨host, routes⟩, ⟨he, hall⟩, hport⟩
    exact ⟨host, routes, he, hall, hport⟩
  · rintro ⟨host, routes, he, hall, hport⟩
    exact ⟨⟨host, routes⟩, ⟨he, hall⟩, hport⟩

/-! ## The lookup by port -/

def suffixHit (port : UInt16) (e : (_ : String) × List (Route W)) : Option (Route W) :=
  if Text.endsWith e.1 (portSuffix port) then e.2.find? Route.isTcp else none

def exactHit (t : Table W) (port : UInt16) : Option (Route W) :=
  (t.routes.lookup (portSuffix port)).bind (·.find? Route.isTcp)

theorem lookupTcpRoute_eq (t : Table W) (port : UInt16) : t.lookupTcpRoute port =
    (t.exactHit port).or (t.routes.entries.findSome? (suffixHit port)) := by
  rw [lookupTcpRoute, List.find?_flatMap, Lists.findSome?_filter]
  rfl

theorem endsWith_append (ip : String) (port : UInt16) :
    Text.endsWith (ip ++ ":" ++ toString port.toNat) (portSuffix port) = true :=
  List.isSuffixOf_iff_suffix.mpr ⟨ip.toList, by simp [portSuffix]⟩

theorem suffixHit_eq_some_iff {host : String} {routes : List (Route W)} {r : Route W} :
    suffixHit port ⟨host, routes⟩ = some r ↔
      Text.endsWith host (portSuffix port) ∧ routes.find? Route.isTcp = some r := by
  unfold suffixHit
  split <;> simp_all

theorem exactHit_eq_some_iff {r : Route W} :
    t.exactHit port = some r ↔ t.PortRoute port (portSuffix port) r := by
  have hends : Text.endsWith (portSuffix port) (portSuffix port) = true :=
    List.isSuffixOf_iff_suffix.mpr (List.suffix_refl _)
  simp only [exactHit, PortRoute, Option.bind_eq_some_iff, hends, true_and]

theorem exists_suffixHit_iff {r : Route W} :
    (∃ e ∈ t.routes.entries, suffixHit port e = some r) ↔ ∃ host, t.PortRoute port host r := by
  constructor
  · rintro ⟨⟨host, routes⟩, he, hhit⟩
    obtain ⟨hends, hfind⟩ := suffixHit_eq_some_iff.mp hhit
    exact ⟨host, routes, AssocMap.lookup_eq_some_iff.mpr he, hends, hfind⟩
  · rintro ⟨host, routes, hlookup, hends, hfind⟩
    exact ⟨⟨host, routes⟩, AssocMap.lookup_eq_some_iff.mp hlookup,
      suffixHit_eq_some_iff.mpr ⟨hends, hfind⟩⟩

theorem isSome_lookupTcpRoute_iff :
    (t.lookupTcpRoute port).isSome ↔ ∃ host r, t.PortRoute port host r := by
  rw [lookupTcpRoute_eq]
  constructor
  · intro h
    obtain ⟨r, hr⟩ := Option.isSome_iff_exists.mp h
    rcases Option.or_eq_some_iff.mp hr with hr | ⟨-, hr⟩
    · exact ⟨_, r, exactHit_eq_some_iff.mp hr⟩
    · obtain ⟨host, hhost⟩ := exists_suffixHit_iff.mp (List.exists_of_findSome?_eq_some hr)
      exact ⟨host, r, hhost⟩
  · rintro ⟨host, r, hroute⟩
    obtain ⟨e, he, hhit⟩ := exists_suffixHit_iff.mpr ⟨host, hroute⟩
    have hsome : (t.routes.entries.findSome? (suffixHit port)).isSome :=
      List.findSome?_isSome_iff.mpr ⟨e, he, by rw [hhit]; rfl⟩
    rw [Option.isSome_or, hsome, Bool.or_true]

theorem isSome_lookupTcpRouteForLocalAddr_iff {ip : String} :
    (t.lookupTcpRouteForLocalAddr (ip ++ ":" ++ toString port.toNat)).isSome ↔
      ∃ host r, t.PortRoute port host r := by
  rw [lookupTcpRouteForLocalAddr, parseListenerPort_append, Option.bind_some, Option.isSome_or,
    Bool.or_eq_true, isSome_lookupTcpRoute_iff]
  constructor
  · rintro (h | h)
    · obtain ⟨r, hr⟩ := Option.isSome_iff_exists.mp h
      obtain ⟨routes, hlookup, hfind⟩ := Option.bind_eq_some_iff.mp hr
      exact ⟨_, r, routes, hlookup, endsWith_append ip port, hfind⟩
    · exact h
  · exact Or.inr

theorem portRoute_of_forall {host : String} {routes : List (Route W)}
    (hlookup : t.routes.lookup host = some routes) (hne : routes ≠ [])
    (hall : ∀ r ∈ routes, r.isTcp) (hends : Text.endsWith host (portSuffix port)) :
    ∃ r, t.PortRoute port host r := by
  obtain ⟨r, rest, rfl⟩ := List.exists_cons_of_ne_nil hne
  exact ⟨r, _, hlookup, hends, List.find?_cons_of_pos (hall r List.mem_cons_self)⟩

/-- Connections to the dynamic listeners all find a route exactly when each host that a port is
read off ends in a colon and the digits of the port, or another host with a TCP route does. -/
theorem listenerPorts_routed_iff (t : Table W) :
    ((∀ port ∈ t.tcpListenerPorts, ∀ ip : String,
        (t.lookupTcpRouteForLocalAddr (ip ++ ":" ++ toString port.toNat)).isSome) ↔
      ∀ host routes port, t.routes.lookup host = some routes → (∀ r ∈ routes, r.isTcp) →
        parseListenerPort host = some port →
          (routes ≠ [] ∧ Text.endsWith host (portSuffix port)) ∨
            ∃ host' r, host' ≠ host ∧ t.PortRoute port host' r) ∧
      ∀ listeners port, port ∈ reconcileDynamicListeners listeners t.tcpListenerPorts ↔
        port ∈ t.tcpListenerPorts := by
  refine ⟨?_, fun _ _ => mem_reconcileDynamicListeners⟩
  simp only [isSome_lookupTcpRouteForLocalAddr_iff, mem_tcpListenerPorts]
  constructor
  · intro h host routes port hlookup hall hport
    obtain ⟨host', r, hroute⟩ := h port ⟨host, routes, hlookup, hall, hport⟩ ""
    by_cases hhost : host' = host
    · subst hhost
      obtain ⟨routes', hlookup', hends, hfind⟩ := hroute
      obtain rfl := Option.some.inj (hlookup.symm.trans hlookup')
      exact Or.inl ⟨List.ne_nil_of_mem (List.mem_of_find?_eq_some hfind), hends⟩
    · exact Or.inr ⟨host', r, hhost, hroute⟩
  · rintro h port ⟨host, routes, hlookup, hall, hport⟩ -
    rcases h host routes port hlookup hall hport with ⟨hne, hends⟩ | ⟨host', r, -, hroute⟩
    · exact ⟨host, portRoute_of_forall hlookup hne hall hends⟩
    · exact ⟨host', r, hroute⟩

/-! ## The order of the map -/

theorem Reordered.exactHit_eq {t' : Table W} (h : t.Reordered t') :
    t'.exactHit port = t.exactHit port := by
  rw [exactHit, exactHit, AList.perm_lookup h]

/-- Without a route under the port alone, the lookup is a search through the map. -/
theorem lookupTcpRoute_of_exactHit_eq_none (hnone : t.exactHit port = none) :
    (∀ t', t.Reordered t' → t'.lookupTcpRoute port = t.lookupTcpRoute port) ↔
      ∀ l : List ((_ : String) × List (Route W)), l.Perm t.routes.entries →
        l.findSome? (suffixHit port) = t.routes.entries.findSome? (suffixHit port) := by
  constructor
  · intro h l hperm
    have hreordered : t.Reordered (t.reorder hperm) := hperm
    have heq := h _ hreordered
    rwa [lookupTcpRoute_eq, lookupTcpRoute_eq, hreordered.exactHit_eq, hnone] at heq
  · intro h t' hreordered
    rw [lookupTcpRoute_eq, lookupTcpRoute_eq, hreordered.exactHit_eq, hnone, h _ hreordered]

/-- The lookup by port gives the same route in every iteration order exactly when a TCP route has
the port alone for its host, or all hosts that end in the port have the same first TCP route. -/
theorem lookupTcpRoute_reordered_iff (t : Table W) (port : UInt16) :
    (∀ t', t.Reordered t' → t'.lookupTcpRoute port = t.lookupTcpRoute port) ↔
      (∃ r, t.PortRoute port (portSuffix port) r) ∨
        ∀ host r host' r', t.PortRoute port host r → t.PortRoute port host' r' → r = r' := by
  cases hhit : t.exactHit port with
  | some r =>
    refine iff_of_true ?_ (Or.inl ⟨r, exactHit_eq_some_iff.mp hhit⟩)
    intro t' hreordered
    rw [lookupTcpRoute_eq, lookupTcpRoute_eq, hreordered.exactHit_eq, hhit]
    rfl
  | none =>
    have hnone : ¬∃ r, t.PortRoute port (portSuffix port) r := by
      rintro ⟨r, hr⟩
      rw [exactHit_eq_some_iff.mpr hr] at hhit
      cases hhit
    rw [lookupTcpRoute_of_exactHit_eq_none hhit, Lists.findSome?_perm_iff, or_iff_right hnone]
    constructor
    · intro h host r host' r' hr hr'
      obtain ⟨e, he, hhit⟩ := exists_suffixHit_iff.mpr ⟨host, hr⟩
      obtain ⟨e', he', hhit'⟩ := exists_suffixHit_iff.mpr ⟨host', hr'⟩
      exact h e he e' he' r hhit r' hhit'
    · intro h e he e' he' r hhit r' hhit'
      obtain ⟨host, hr⟩ := exists_suffixHit_iff.mp ⟨e, he, hhit⟩
      obtain ⟨host', hr'⟩ := exists_suffixHit_iff.mp ⟨e', he', hhit'⟩
      exact h host r host' r' hr hr'

end Table

section Examples

attribute [local instance] Platform.plain

def oddPortCalls : List (Update ℚ × List (Target ℚ)) :=
  [(.loadStatic
    [{ exampleDef .static .add "db" "tcp://10.0.0.1:5432" with src := "5432" },
      { exampleDef .static .add "db" "tcp://10.0.0.1:5433" with src := ":05433" },
      { exampleDef .static .add "db" "tcp://10.0.0.1:5434" with src := "db:+5434" }], [])]

/-- All three are listened on, and no connection to any of them finds a route. -/
theorem not_listenerPorts_routed_oddPorts :
    let m := (ManagedRouteTable.new none .empty).run oddPortCalls
    m.Published ∧ m.table.tcpListenerPorts = [5432, 5433, 5434] ∧
      ∀ port ∈ m.table.tcpListenerPorts,
        m.table.lookupTcpRouteForLocalAddr ("0.0.0.0:" ++ toString port.toNat) = none := by
  intro m
  have hports : m.table.tcpListenerPorts = [5432, 5433, 5434] := by decide +kernel
  have hlookups : m.table.tcpListenerPorts.all (fun port =>
      (m.table.lookupTcpRouteForLocalAddr ("0.0.0.0:" ++ toString port.toNat)).isNone) = true := by
    decide +kernel
  refine ⟨ManagedRouteTable.published_run none .empty oddPortCalls, hports, fun port hport => ?_⟩
  exact Option.isNone_iff_eq_none.mp (List.all_eq_true.mp hlookups port hport)

def twoAddrCalls : List (Update ℚ × List (Target ℚ)) :=
  [(.loadStatic
    [{ exampleDef .static .add "db" "tcp://10.0.0.1:5432" with src := "10.1.1.1:5432" },
      { exampleDef .static .add "db" "tcp://10.0.0.2:5432" with src := "10.1.1.2:5432" }], [])]

/-- The order of the map decides between them. -/
theorem not_lookupTcpRoute_reordered_twoAddrs :
    let m := (ManagedRouteTable.new none .empty).run twoAddrCalls
    m.Published ∧ ∃ t' : Table ℚ, m.table.Reordered t' ∧
      (m.table.lookupTcpRoute 5432).map (·.host) = some "10.1.1.2:5432" ∧
      (t'.lookupTcpRoute 5432).map (·.host) = some "10.1.1.1:5432" := by
  intro m
  exact ⟨ManagedRouteTable.published_run none .empty twoAddrCalls,
    m.table.reorder (List.reverse_perm _), List.reverse_perm _, by decide +kernel,
    by decide +kernel⟩

end Examples

end SentirumLb
