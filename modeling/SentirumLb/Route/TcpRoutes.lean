import SentirumLb.Route.Lookup

/-! # TCP routes

A connection is routed by the local address it arrived at, or by the server name
in its first bytes. Only routes all of whose targets speak plain TCP are found.
-/

namespace SentirumLb

variable {W : Type}

def Target.isTcp (t : Target W) : Bool := t.parsedProtocol == .tcp

def Route.isTcp (r : Route W) : Bool :=
  !r.targets.isEmpty && r.targets.all fun t => t.val.isTcp

/-- The number behind the last colon, or the whole text when there is none. -/
def parseListenerPort (host : String) : Option UInt16 :=
  ((Text.split ':' host).getLast?.bind (Text.parseNat (2 ^ 16))).map Nat.toUInt16

namespace Table

variable (t : Table W)

/-- The hosts are tried in the order of the map, after the one that is only the port. -/
def lookupTcpRoute (listenPort : UInt16) : Option (Route W) :=
  let suffix := ":" ++ toString listenPort.toNat
  ((t.routes.lookup suffix).bind (·.find? Route.isTcp)).or
    (((t.routes.entries.filter fun e => Text.endsWith e.1 suffix).flatMap (·.2)).find? Route.isTcp)

def lookupTcpRouteForLocalAddr (localAddr : String) : Option (Route W) :=
  ((t.routes.lookup localAddr).bind (·.find? Route.isTcp)).or
    ((parseListenerPort localAddr).bind t.lookupTcpRoute)

def lookupTcpSniRoute (host : String) : Option (Route W) :=
  (t.routes.lookup (Text.toAsciiLowercase host)).bind
    (·.find? fun r => r.path == "/" && r.isTcp)

variable {t}

theorem mem_bucket_of_lookup_find {key : String} {p : Route W → Bool} {r : Route W}
    (h : (t.routes.lookup key).bind (·.find? p) = some r) : r ∈ t.bucket key := by
  obtain ⟨rs, hrs, hr⟩ := Option.bind_eq_some_iff.mp h
  simpa [bucket, hrs] using List.mem_of_find?_eq_some hr

theorem mem_bucket_of_lookupTcpRoute {listenPort : UInt16} {r : Route W}
    (h : t.lookupTcpRoute listenPort = some r) : ∃ key, r ∈ t.bucket key := by
  rcases Option.or_eq_some_iff.mp h with h | ⟨-, h⟩
  · exact ⟨_, mem_bucket_of_lookup_find h⟩
  · obtain ⟨⟨key, rs⟩, he, hr⟩ := List.mem_flatMap.mp (List.mem_of_find?_eq_some h)
    have hlookup := AssocMap.lookup_eq_some_iff.mpr (List.mem_filter.mp he).1
    exact ⟨key, by simpa [bucket, hlookup] using hr⟩

theorem mem_bucket_of_lookupTcpRouteForLocalAddr {localAddr : String} {r : Route W}
    (h : t.lookupTcpRouteForLocalAddr localAddr = some r) : ∃ key, r ∈ t.bucket key := by
  rcases Option.or_eq_some_iff.mp h with h | ⟨-, h⟩
  · exact ⟨_, mem_bucket_of_lookup_find h⟩
  · obtain ⟨port, -, h⟩ := Option.bind_eq_some_iff.mp h
    exact mem_bucket_of_lookupTcpRoute h

end Table

end SentirumLb
