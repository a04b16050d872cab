import SentirumLb.Net.AddrText
import SentirumLb.Proxy.ClientHello
import SentirumLb.Proxy.TcpLookup
import SentirumLb.Route.Resolve

/-! # Proxying TCP connections

A listener looks at the first bytes of a connection, or at none, before it knows
where the connection goes. What it has read is written to the upstream
connection in front of the rest of the client's bytes.
-/

namespace SentirumLb

open Wire

def Target.proxyProto {W : Type} (t : Target W) : Bool := t.opts.lookup "pxyproto" == some "true"

namespace Tcp

inductive Error where
  | timedOut (text : String)
  | unexpectedEof
  | invalidData (text : String)
  | other (text : String)
  | connect (kind : IoErrorKind)
  deriving DecidableEq

def proxyLine (client server : SocketAddr) : String :=
  let proto := if client.ip.isIpv4 then "TCP4" else "TCP6"
  "PROXY " ++ proto ++ " " ++ client.ip.toText ++ " " ++ server.ip.toText ++ " " ++
    toString client.port.toNat ++ " " ++ toString server.port.toNat ++ "\r\n"

structure Downstream where
  peerAddr : SocketAddr
  localAddr : SocketAddr
  /-- What the client sends, from the first byte on that was not read. -/
  unread : List UInt8
  /-- How many of these bytes arrive before a read times out. -/
  inTime : ℕ

namespace Downstream

def readExact (n : ℕ) (d : Downstream) : Except Error (List UInt8 × Downstream) :=
  if d.inTime < n then .error (.timedOut "TCP read timed out")
  else if d.unread.length < n then .error .unexpectedEof
  else .ok (d.unread.take n, { d with unread := d.unread.drop n, inTime := d.inTime - n })

def proxyHeader (d : Downstream) : String := proxyLine d.peerAddr d.localAddr

end Downstream

inductive Destination (W : Type) where
  | backend (target : Target W)
  | httpsFallback (addr : String)

structure Upstream (W : Type) where
  destination : Destination W
  written : List UInt8

def Upstream.writeAll {W : Type} (bytes : List UInt8) (u : Upstream W) : Upstream W :=
  { u with written := u.written ++ bytes }

def copyBidirectional {W : Type} (d : Downstream) (u : Upstream W) : Upstream W :=
  u.writeAll d.unread

inductive Handled (W : Type) where
  | returned
  | failed (error : Error)
  | relayed (upstream : Upstream W)

/-- What a handler meets: the published table, the state of the pickers, and the outcomes of what
it waits for. -/
structure Env (W : Type) where
  table : Table W
  strategy : String
  connections : Ref → ℕ
  picks : PickState
  acquires : Target W → Bool
  nowMs : ℕ
  dnsCache : DnsCache
  lookupHost : String → Answer
  connect : String → Except Error Unit

inductive ListenerMode where
  | plain
  | sni
  | httpsFallback (addr : String)

namespace Env

variable {W : Type} (env : Env W)

def resolveUpstreamAddr (target : Target W) : Except ResolveError SocketAddr :=
  match (target.startResolve env.nowMs env.dnsCache).1 with
  | .done result => result
  | .query addrStr => (target.finishResolve (env.lookupHost addrStr)).1

def connectUpstream (target : Target W) : Option (Upstream W) :=
  match env.resolveUpstreamAddr target with
  | .error _ => none
  | .ok resolved =>
      match env.connect resolved.toText with
      | .error _ => none
      | .ok _ => some ⟨.backend target, []⟩

def proxyTcpStreams (d : Downstream) (initialBytes : List UInt8) (target : Target W) :
    Handled W :=
  if !env.acquires target then .returned
  else if !target.isHostSafe && !target.ssrfSkipVerify then .returned
  else
    match env.connectUpstream target with
    | none => .returned
    | some upstream =>
        let upstream :=
          if target.proxyProto then upstream.writeAll (Text.bytes d.proxyHeader) else upstream
        let upstream :=
          if !initialBytes.isEmpty then upstream.writeAll initialBytes else upstream
        .relayed (copyBidirectional d upstream)

def proxyToHttpsFallback (d : Downstream) (initialBytes : List UInt8) (fallbackAddr : String) :
    Handled W :=
  match env.connect fallbackAddr with
  | .error error => .failed error
  | .ok _ =>
      let upstream : Upstream W := ⟨.httpsFallback fallbackAddr, []⟩
      let upstream := if !initialBytes.isEmpty then upstream.writeAll initialBytes else upstream
      .relayed (copyBidirectional d upstream)

end Env

def fillClientHello (headers : List UInt8) (bufferSize : ℕ) (d : Downstream) :
    Checked (Except Error (List UInt8 × Downstream)) := do
  let data ← copyTo (List.replicate bufferSize 0) 9 headers
  match d.readExact (← sliceFrom data 9).length with
  | .error error => return .error error
  | .ok (rest, d) => return .ok ((← sliceTo data 9) ++ rest, d)

def readClientHello (d : Downstream) : Checked (Except Error (List UInt8 × Downstream)) := do
  match d.readExact 9 with
  | .error error => return .error error
  | .ok (headers, d) =>
      match ← clientHelloBufferSize headers with
      | .error error => return .error (.invalidData error)
      | .ok bufferSize => fillClientHello headers bufferSize d

namespace Env

variable {W : Type} [WeightArith W] (env : Env W)

def handleTcpConnection (d : Downstream) : Handled W :=
  match (lookupTarget env.connections env.table env.strategy d.localAddr.toText env.picks).1 with
  | some target => env.proxyTcpStreams d [] target.val
  | none => .returned

def handleTcpSniConnection (d : Downstream) : Checked (Handled W) := do
  match ← readClientHello d with
  | .error error => return .failed error
  | .ok (clientHello, d) =>
      match ← readServerName clientHello.length (← sliceFrom clientHello 5) with
      | none => return .failed (.other "unable to parse TLS client hello server_name")
      | some serverName =>
          if serverName = "" then
            return .returned
          match (lookupSniTarget env.connections env.table env.strategy serverName env.picks).1 with
          | some target => return env.proxyTcpStreams d clientHello target.val
          | none => return .returned

def handleHttpsTcpSniConnection (d : Downstream) (httpsFallbackAddr : String) :
    Checked (Handled W) := do
  match d.readExact 9 with
  | .error error => return .failed error
  | .ok (headers, d) =>
      match ← clientHelloBufferSize headers with
      | .error _ => return env.proxyToHttpsFallback d headers httpsFallbackAddr
      | .ok bufferSize =>
          match ← fillClientHello headers bufferSize d with
          | .error error => return .failed error
          | .ok (clientHello, d) =>
              let serverName ← readServerName clientHello.length (← sliceFrom clientHello 5)
              let target := (serverName.filter (· ≠ "")).bind fun serverName =>
                (lookupSniTarget env.connections env.table env.strategy serverName env.picks).1
              match target with
              | some target => return env.proxyTcpStreams d clientHello target.val
              | none => return env.proxyToHttpsFallback d clientHello httpsFallbackAddr

def handle (mode : ListenerMode) (d : Downstream) : Checked (Handled W) :=
  match mode with
  | .plain => .ok (env.handleTcpConnection d)
  | .sni => env.handleTcpSniConnection d
  | .httpsFallback addr => env.handleHttpsTcpSniConnection d addr

end Env

/-! ## What the first bytes of a stream announce -/

namespace Downstream

structure Holds (d : Downstream) (n : ℕ) : Prop where
  inTime : n ≤ d.inTime
  length : n ≤ d.unread.length

def skip (n : ℕ) (d : Downstream) : Downstream :=
  { d with unread := d.unread.drop n, inTime := d.inTime - n }

/-- The first nine bytes announce a client hello that ends after `n` bytes, and the client sends
them. -/
structure Announces (d : Downstream) (n : ℕ) : Prop where
  headers : d.Holds 9
  size : clientHelloBufferSize (d.unread.take 9) = .ok (.ok n)
  holds : d.Holds n

/-- The client hello at the start of the stream is read to this server name, or to none. -/
def Names (d : Downstream) (serverName : Option String) : Prop :=
  ∃ n, d.Announces n ∧ readServerName n ((d.unread.take n).drop 5) = .ok serverName

variable {d : Downstream} {n : ℕ}

theorem readExact_of_holds (h : d.Holds n) :
    d.readExact n = .ok (d.unread.take n, d.skip n) := by
  have htime := h.inTime
  have hlength := h.length
  rw [readExact, if_neg (by omega), if_neg (by omega), skip]

theorem readExact_of_not_holds (h : ¬d.Holds n) : ∃ error, d.readExact n = .error error := by
  by_cases htime : d.inTime < n
  · exact ⟨_, if_pos htime⟩
  · have hlength : d.unread.length < n := by
      by_contra hlength
      exact h ⟨by omega, by omega⟩
    exact ⟨_, (if_neg htime).trans (if_pos hlength)⟩

theorem holds_skip_iff (h9 : d.Holds 9) (hn : 9 ≤ n) : (d.skip 9).Holds (n - 9) ↔ d.Holds n := by
  have htime := h9.inTime
  have hlength := h9.length
  constructor
  · rintro ⟨h1, h2⟩
    simp only [skip, List.length_drop] at h1 h2
    exact ⟨by omega, by omega⟩
  · rintro ⟨h1, h2⟩
    refine ⟨?_, ?_⟩ <;> simp only [skip, List.length_drop] <;> omega

theorem skip_skip (hn : 9 ≤ n) : (d.skip 9).skip (n - 9) = d.skip n := by
  simp only [skip, List.drop_drop, Downstream.mk.injEq, true_and]
  exact ⟨by congr 1; omega, by omega⟩

theorem le_of_size (h : clientHelloBufferSize (d.unread.take 9) = .ok (.ok n)) : 10 ≤ n := by
  obtain ⟨r, hr, hbounds⟩ := gives_clientHelloBufferSize (d.unread.take 9)
  obtain rfl : r = .ok n := Except.ok.inj (hr.symm.trans h)
  exact hbounds.1

theorem Announces.unique {m : ℕ} (h : d.Announces n) (h' : d.Announces m) : n = m :=
  Except.ok.inj (Except.ok.inj (h.size.symm.trans h'.size))

theorem Announces.length_take (h : d.Announces n) : (d.unread.take n).length = n :=
  List.length_take_of_le h.holds.length

theorem Names.unique {a b : Option String} (h : d.Names a) (h' : d.Names b) : a = b := by
  obtain ⟨n, hn, ha⟩ := h
  obtain ⟨m, hm, hb⟩ := h'
  obtain rfl := hn.unique hm
  exact Except.ok.inj (ha.symm.trans hb)

theorem fillClientHello_skip (h9 : d.Holds 9) (hn : 9 ≤ n) :
    fillClientHello (d.unread.take 9) n (d.skip 9) =
      .ok (((d.skip 9).readExact (n - 9)).map fun read => (d.unread.take 9 ++ read.1, read.2)) := by
  have hheaders : (d.unread.take 9).length = 9 := List.length_take_of_le h9.length
  have hcopy : copyTo (List.replicate n 0) 9 (d.unread.take 9) =
      .ok (d.unread.take 9 ++ List.replicate (n - 9) 0) := by
    rw [copyTo, if_pos ⟨by simpa using hn, hheaders⟩, List.drop_replicate]
  unfold fillClientHello
  rw [hcopy, ok_bind, sliceFrom_append hheaders, ok_bind, List.length_replicate]
  cases hread : (d.skip 9).readExact (n - 9) with
  | error error => rfl
  | ok read =>
    dsimp only
    rw [sliceTo_append hheaders, ok_bind]
    rfl

theorem fillClientHello_of_announces (h : d.Announces n) :
    fillClientHello (d.unread.take 9) n (d.skip 9) = .ok (.ok (d.unread.take n, d.skip n)) := by
  have hn : 9 ≤ n := by
    have := le_of_size h.size
    omega
  have htake : d.unread.take 9 ++ (d.unread.drop 9).take (n - 9) = d.unread.take n := by
    rw [← List.take_add, Nat.add_sub_cancel' hn]
  rw [fillClientHello_skip h.headers hn,
    readExact_of_holds ((holds_skip_iff h.headers hn).2 h.holds), skip_skip hn]
  exact congrArg (fun data => Except.ok (Except.ok (data, d.skip n))) htake

theorem fillClientHello_of_not_holds (h9 : d.Holds 9)
    (hsize : clientHelloBufferSize (d.unread.take 9) = .ok (.ok n)) (h : ¬d.Holds n) :
    ∃ error, fillClientHello (d.unread.take 9) n (d.skip 9) = .ok (.error error) := by
  have hn : 9 ≤ n := by
    have := le_of_size hsize
    omega
  obtain ⟨error, herror⟩ := readExact_of_not_holds (mt (holds_skip_iff h9 hn).1 h)
  exact ⟨error, by rw [fillClientHello_skip h9 hn, herror]; rfl⟩

theorem readClientHello_of_announces (h : d.Announces n) :
    readClientHello d = .ok (.ok (d.unread.take n, d.skip n)) := by
  unfold readClientHello
  rw [readExact_of_holds h.headers]
  dsimp only
  rw [h.size, ok_bind]
  exact fillClientHello_of_announces h

theorem readClientHello_of_not_announces (h : ∀ n, ¬d.Announces n) :
    ∃ error, readClientHello d = .ok (.error error) := by
  unfold readClientHello
  by_cases h9 : d.Holds 9
  · rw [readExact_of_holds h9]
    dsimp only
    obtain ⟨size, hsize, -⟩ := gives_clientHelloBufferSize (d.unread.take 9)
    rw [hsize, ok_bind]
    cases size with
    | error error => exact ⟨_, rfl⟩
    | ok n => exact fillClientHello_of_not_holds h9 hsize fun hn => h n ⟨h9, hsize, hn⟩
  · obtain ⟨error, herror⟩ := readExact_of_not_holds h9
    exact ⟨error, by rw [herror]; rfl⟩

theorem Announces.readServerName_eq (h : d.Announces n) :
    ∃ serverName, d.Names serverName ∧ ∀ {α : Type} (f : Option String → Checked α),
      (do f (← readServerName (d.unread.take n).length (← sliceFrom (d.unread.take n) 5))) =
        f serverName := by
  have hn := le_of_size h.size
  have hfuel : ((d.unread.take n).drop 5).length ≤ n := by
    rw [List.length_drop, h.length_take]
    omega
  obtain ⟨serverName, hname, -⟩ := gives_readServerName hfuel
  refine ⟨serverName, ⟨n, h, hname⟩, fun f => ?_⟩
  rw [sliceFrom, if_pos (by rw [h.length_take]; omega), h.length_take]
  dsimp only [ok_bind]
  rw [hname, ok_bind]

end Downstream

/-! ## Where a stream goes -/

def Destination.proxyLine {W : Type} (d : Downstream) : Destination W → List UInt8
  | .backend target => if target.proxyProto then Text.bytes d.proxyHeader else []
  | .httpsFallback _ => []

namespace Env

variable {W : Type} (env : Env W)

/-- What a connection to the destination needs: to a backend a slot, an address that is not shut
out, and an upstream that accepts; to the fallback the last one. -/
def Opens : Destination W → Prop
  | .backend target =>
      env.acquires target = true ∧ (target.isHostSafe = true ∨ target.ssrfSkipVerify = true) ∧
        ∃ addr, env.resolveUpstreamAddr target = .ok addr ∧ env.connect addr.toText = .ok ()
  | .httpsFallback addr => env.connect addr = .ok ()

/-- The destination that the table has for a stream. A listener with a fallback sends there what
does not announce a client hello and what names no routed server. -/
inductive Routes [WeightArith W] (d : Downstream) : ListenerMode → Destination W → Prop
  | plain {target : Arc (Target W)}
      (h : (lookupTarget env.connections env.table env.strategy d.localAddr.toText env.picks).1 =
        some target) :
      Routes d .plain (.backend target.val)
  | sni {serverName : String} {target : Arc (Target W)} (hname : d.Names (some serverName))
      (hne : serverName ≠ "")
      (h : (lookupSniTarget env.connections env.table env.strategy serverName env.picks).1 =
        some target) :
      Routes d .sni (.backend target.val)
  | routed {addr serverName : String} {target : Arc (Target W)}
      (hname : d.Names (some serverName)) (hne : serverName ≠ "")
      (h : (lookupSniTarget env.connections env.table env.strategy serverName env.picks).1 =
        some target) :
      Routes d (.httpsFallback addr) (.backend target.val)
  | noClientHello {addr error : String} (h : d.Holds 9)
      (hsize : clientHelloBufferSize (d.unread.take 9) = .ok (.error error)) :
      Routes d (.httpsFallback addr) (.httpsFallback addr)
  | unrouted {addr : String} {serverName : Option String} (hname : d.Names serverName)
      (h : ∀ name, serverName = some name → name ≠ "" →
        (lookupSniTarget env.connections env.table env.strategy name env.picks).1 = none) :
      Routes d (.httpsFallback addr) (.httpsFallback addr)

end Env

/-! ## What a handler writes -/

structure Reads (d : Downstream) (bytes : List UInt8) (d' : Downstream) : Prop where
  unread : d.unread = bytes ++ d'.unread
  peerAddr : d'.peerAddr = d.peerAddr
  localAddr : d'.localAddr = d.localAddr

namespace Reads

variable {d d' : Downstream} {bytes : List UInt8}

theorem refl (d : Downstream) : Reads d [] d := ⟨rfl, rfl, rfl⟩

theorem skip (d : Downstream) (n : ℕ) : Reads d (d.unread.take n) (d.skip n) :=
  ⟨(List.take_append_drop n d.unread).symm, rfl, rfl⟩

theorem proxyHeader (h : Reads d bytes d') : d'.proxyHeader = d.proxyHeader := by
  rw [Downstream.proxyHeader, Downstream.proxyHeader, h.peerAddr, h.localAddr]

end Reads

namespace Env

variable {W : Type} {env : Env W} {d d' : Downstream} {bytes : List UInt8} {u : Upstream W}

theorem connectUpstream_eq (target : Target W) (u : Upstream W) :
    env.connectUpstream target = some u ↔ u = ⟨.backend target, []⟩ ∧
      ∃ addr, env.resolveUpstreamAddr target = .ok addr ∧ env.connect addr.toText = .ok () := by
  unfold connectUpstream
  cases hresolve : env.resolveUpstreamAddr target with
  | error error => simp
  | ok addr =>
    cases hconnect : env.connect addr.toText with
    | error error => simp [hconnect]
    | ok _ => simp [hconnect, eq_comm]

theorem writeAll_of_isEmpty (u : Upstream W) (bytes : List UInt8) :
    (if !bytes.isEmpty then u.writeAll bytes else u) = u.writeAll bytes := by
  cases bytes <;> simp [Upstream.writeAll]

/-- To a backend that opens go its line, the bytes already read and the rest of the stream. -/
theorem relayed_proxyTcpStreams_iff (h : Reads d bytes d') (target : Target W) :
    env.proxyTcpStreams d' bytes target = .relayed u ↔ env.Opens (.backend target) ∧
      u = ⟨.backend target, (Destination.backend target).proxyLine d ++ d.unread⟩ := by
  unfold proxyTcpStreams
  by_cases hslot : env.acquires target
  · rw [if_neg (by simp [hslot])]
    by_cases hsafe : target.isHostSafe = true ∨ target.ssrfSkipVerify = true
    · rw [if_neg (by simpa [or_iff_not_imp_left] using hsafe)]
      cases hconnect : env.connectUpstream target with
      | none =>
        have hclosed : ¬∃ addr, env.resolveUpstreamAddr target = .ok addr ∧
            env.connect addr.toText = .ok () := fun hopen => by
          have := (connectUpstream_eq target ⟨.backend target, []⟩).2 ⟨rfl, hopen⟩
          rw [hconnect] at this
          cases this
        simp only [reduceCtorEq, false_iff, not_and]
        exact fun hopens => absurd hopens.2.2 hclosed
      | some upstream =>
        obtain ⟨rfl, hopen⟩ := (connectUpstream_eq target upstream).1 hconnect
        have hopens : env.Opens (.backend target) := ⟨hslot, hsafe, hopen⟩
        dsimp only
        rw [writeAll_of_isEmpty, h.proxyHeader, Handled.relayed.injEq, eq_comm]
        by_cases hproxy : target.proxyProto
        · simp [hopens, hproxy, copyBidirectional, Upstream.writeAll, Destination.proxyLine,
            h.unread]
        · simp [hopens, hproxy, copyBidirectional, Upstream.writeAll, Destination.proxyLine,
            h.unread]
    · rw [if_pos (by simpa using hsafe)]
      simp only [reduceCtorEq, false_iff, not_and]
      exact fun hopens => absurd hopens.2.1 hsafe
  · rw [if_pos (by simpa using hslot)]
    simp only [reduceCtorEq, false_iff, not_and]
    exact fun hopens => absurd hopens.1 hslot

theorem relayed_proxyToHttpsFallback_iff (h : Reads d bytes d') (addr : String) :
    env.proxyToHttpsFallback d' bytes addr = .relayed u ↔ env.Opens (.httpsFallback addr) ∧
      u = ⟨.httpsFallback addr, (Destination.httpsFallback (W := W) addr).proxyLine d ++
        d.unread⟩ := by
  unfold proxyToHttpsFallback
  cases hconnect : env.connect addr with
  | error error => simp [Opens, hconnect]
  | ok _ =>
    dsimp only
    rw [writeAll_of_isEmpty, Handled.relayed.injEq, eq_comm]
    simp [Opens, hconnect, copyBidirectional, Upstream.writeAll, Destination.proxyLine, h.unread]

variable [WeightArith W] {mode : ListenerMode} {r : Handled W}

/-- The stream is relayed exactly to the destination that it has, if that opens: its line first,
then all that the client sends. -/
def Relays (env : Env W) (mode : ListenerMode) (d : Downstream) (r : Handled W) : Prop :=
  ∀ u, r = .relayed u ↔ env.Routes d mode u.destination ∧ env.Opens u.destination ∧
    u.written = u.destination.proxyLine d ++ d.unread

theorem relays_of_only {destination : Destination W}
    (hroutes : ∀ other, env.Routes d mode other ↔ other = destination)
    (h : ∀ u, r = .relayed u ↔ env.Opens destination ∧
      u = ⟨destination, destination.proxyLine d ++ d.unread⟩) : env.Relays mode d r := by
  rintro ⟨other, written⟩
  rw [h, hroutes, Upstream.mk.injEq]
  constructor
  · rintro ⟨hopens, rfl, rfl⟩
    exact ⟨rfl, hopens, rfl⟩
  · rintro ⟨rfl, hopens, hwritten⟩
    exact ⟨hopens, rfl, hwritten⟩

theorem relays_of_none (hroutes : ∀ destination, ¬env.Routes d mode destination)
    (h : ∀ u, r ≠ .relayed u) : env.Relays mode d r :=
  fun u => iff_of_false (h u) fun hu => hroutes _ hu.1

variable (env d)

theorem relays_handleTcpConnection : env.Relays .plain d (env.handleTcpConnection d) := by
  unfold handleTcpConnection
  split
  · next target htarget =>
    refine relays_of_only (fun other => ⟨?_, ?_⟩)
      fun u => relayed_proxyTcpStreams_iff (.refl d) target.val
    · rintro ⟨h⟩
      cases htarget.symm.trans h
      rfl
    · rintro rfl
      exact .plain htarget
  · next htarget =>
    refine relays_of_none ?_ (by simp)
    rintro _ ⟨h⟩
    cases htarget.symm.trans h

theorem gives_handleTcpSniConnection :
    Gives (env.handleTcpSniConnection d) (env.Relays .sni d) := by
  unfold handleTcpSniConnection
  by_cases hannounced : ∃ n, d.Announces n
  · obtain ⟨n, hn⟩ := hannounced
    obtain ⟨serverName, hname, hread⟩ := hn.readServerName_eq
    rw [Downstream.readClientHello_of_announces hn, ok_bind]
    dsimp only
    rw [hread]
    cases serverName with
    | none =>
      refine .pure (relays_of_none ?_ (by simp))
      rintro _ ⟨⟩
      next hname' _ _ => cases hname.unique hname'
    | some serverName =>
      dsimp only
      by_cases hne : serverName = ""
      · rw [if_pos hne]
        refine .pure (relays_of_none ?_ (by simp))
        rintro _ ⟨⟩
        next hname' hne' _ =>
        cases hname.unique hname'
        exact hne' hne
      · rw [if_neg hne]
        split
        · next target htarget =>
          refine .pure (relays_of_only (fun other => ⟨?_, ?_⟩)
            fun u => relayed_proxyTcpStreams_iff (.skip d n) target.val)
          · rintro ⟨⟩
            next hname' _ h =>
            cases hname.unique hname'
            cases htarget.symm.trans h
            rfl
          · rintro rfl
            exact .sni hname hne htarget
        · next htarget =>
          refine .pure (relays_of_none ?_ (by simp))
          rintro _ ⟨⟩
          next hname' _ h =>
          cases hname.unique hname'
          cases htarget.symm.trans h
  · obtain ⟨error, herror⟩ := Downstream.readClientHello_of_not_announces (not_exists.1 hannounced)
    rw [herror, ok_bind]
    refine .pure (relays_of_none ?_ (by simp))
    rintro _ ⟨⟩
    next hname _ _ => exact hannounced ⟨_, hname.choose_spec.1⟩

theorem gives_handleHttpsTcpSniConnection (addr : String) :
    Gives (env.handleHttpsTcpSniConnection d addr) (env.Relays (.httpsFallback addr) d) := by
  unfold handleHttpsTcpSniConnection
  by_cases h9 : d.Holds 9
  · rw [Downstream.readExact_of_holds h9]
    dsimp only
    obtain ⟨size, hsize, -⟩ := gives_clientHelloBufferSize (d.unread.take 9)
    rw [hsize, ok_bind]
    cases size with
    | error error =>
      have hnone : ∀ n, ¬d.Announces n := fun n hn => by cases hsize.symm.trans hn.size
      refine .pure (relays_of_only (fun other => ⟨?_, ?_⟩)
        fun u => relayed_proxyToHttpsFallback_iff (.skip d 9) addr)
      · rintro ⟨⟩
        · next hname _ _ => exact absurd hname.choose_spec.1 (hnone _)
        · rfl
        · rfl
      · rintro rfl
        exact .noClientHello h9 hsize
    | ok n =>
      dsimp only
      by_cases hn : d.Holds n
      · have hann : d.Announces n := ⟨h9, hsize, hn⟩
        obtain ⟨serverName, hname, hread⟩ := hann.readServerName_eq
        rw [Downstream.fillClientHello_of_announces hann, ok_bind]
        dsimp only
        rw [hread]
        split
        · next target htarget =>
          obtain ⟨name, hfilter, hlookup⟩ := Option.bind_eq_some_iff.1 htarget
          obtain ⟨rfl, hne⟩ := Option.filter_eq_some_iff.1 hfilter
          have hne : name ≠ "" := of_decide_eq_true hne
          refine .pure (relays_of_only (fun other => ⟨?_, ?_⟩)
            fun u => relayed_proxyTcpStreams_iff (.skip d n) target.val)
          · rintro ⟨⟩
            · next hname' _ h =>
              cases hname.unique hname'
              cases hlookup.symm.trans h
              rfl
            · next hsize' => cases hsize.symm.trans hsize'
            · next hname' h =>
              cases hname.unique hname'
              cases hlookup.symm.trans (h name rfl hne)
          · rintro rfl
            exact .routed hname hne hlookup
        · next htarget =>
          have hnone : ∀ name, serverName = some name → name ≠ "" →
              (lookupSniTarget env.connections env.table env.strategy name env.picks).1 = none := by
            rintro name rfl hne
            simpa [hne] using htarget
          refine .pure (relays_of_only (fun other => ⟨?_, ?_⟩)
            fun u => relayed_proxyToHttpsFallback_iff (.skip d n) addr)
          · rintro ⟨⟩
            · next hname' hne' h =>
              cases hname.unique hname'
              cases h.symm.trans (hnone _ rfl hne')
            · rfl
            · rfl
          · rintro rfl
            exact .unrouted hname hnone
      · obtain ⟨error, herror⟩ := Downstream.fillClientHello_of_not_holds h9 hsize hn
        rw [herror, ok_bind]
        refine .pure (relays_of_none ?_ (by simp))
        rintro _ ⟨⟩
        · next hname _ _ =>
          obtain ⟨m, hm, -⟩ := hname
          cases hsize.symm.trans hm.size
          exact hn hm.holds
        · next hsize' => cases hsize.symm.trans hsize'
        · next hname _ =>
          obtain ⟨m, hm, -⟩ := hname
          cases hsize.symm.trans hm.size
          exact hn hm.holds
  · obtain ⟨error, herror⟩ := Downstream.readExact_of_not_holds h9
    rw [herror]
    refine .pure (relays_of_none ?_ (by simp))
    rintro _ ⟨⟩
    · next hname _ _ => exact h9 hname.choose_spec.1.headers
    · next h _ => exact h9 h
    · next hname _ => exact h9 hname.choose_spec.1.headers

theorem gives_handle (mode : ListenerMode) : Gives (env.handle mode d) (env.Relays mode d) := by
  cases mode with
  | plain => exact ⟨_, rfl, env.relays_handleTcpConnection d⟩
  | sni => exact env.gives_handleTcpSniConnection d
  | httpsFallback addr => exact env.gives_handleHttpsTcpSniConnection d addr

/-- The parsers of the first bytes end without a fault on all bytes, and so do the handlers that
copy and cut what they announce. An announced length is within one record. -/
theorem clientHello_no_fault (bytes : List UInt8) :
    (∀ fuel, bytes.length ≤ fuel → ∃ r, readServerName fuel bytes = .ok r) ∧
      (∃ r, clientHelloBufferSize bytes = .ok r) ∧
      (∀ n, clientHelloBufferSize bytes = .ok (.ok n) → 10 ≤ n ∧ n ≤ 16389 ∧
        ∃ b3 b4, bytes[3]? = some b3 ∧ bytes[4]? = some b4 ∧ n ≤ u16 b3 b4 + 5) ∧
      (∀ d, ∃ r, readClientHello d = .ok r) ∧
      ∀ (env : Env W) mode d, ∃ r, env.handle mode d = .ok r := by
  refine ⟨?_, ?_, ?_, ?_, ?_⟩
  · intro fuel hfuel
    obtain ⟨r, hr, -⟩ := gives_readServerName hfuel
    exact ⟨r, hr⟩
  · obtain ⟨r, hr, -⟩ := gives_clientHelloBufferSize bytes
    exact ⟨r, hr⟩
  · intro n hn
    obtain ⟨r, hr, hbounds⟩ := gives_clientHelloBufferSize bytes
    obtain rfl : r = .ok n := Except.ok.inj (hr.symm.trans hn)
    exact hbounds
  · intro d
    by_cases hannounced : ∃ n, d.Announces n
    · exact ⟨_, Downstream.readClientHello_of_announces hannounced.choose_spec⟩
    · obtain ⟨error, herror⟩ :=
        Downstream.readClientHello_of_not_announces (not_exists.1 hannounced)
      exact ⟨_, herror⟩
  · intro env mode d
    obtain ⟨r, hr, -⟩ := env.gives_handle d mode
    exact ⟨r, hr⟩

/-- In every mode a stream is relayed exactly to the destination that it has, if that opens. What
is written there is the line of the destination and then the client's bytes from the first one
on. -/
theorem handle_transparent (mode : ListenerMode) :
    ∃ r, env.handle mode d = .ok r ∧
      ∀ u, r = .relayed u ↔ env.Routes d mode u.destination ∧ env.Opens u.destination ∧
        u.written = u.destination.proxyLine d ++ d.unread :=
  env.gives_handle d mode

end Env

section Examples

attribute [local instance] Platform.plain

def proxiedCalls : List (Update ℚ × List (Target ℚ)) :=
  [(.loadStatic
    [{ exampleDef .static .add "db" "tcp://8.8.8.8:5432" with
        src := ":5432", opts := AList.insert "pxyproto" "true" ∅ },
      { exampleDef .static .add "shop" "tcp://8.8.8.8:8443" with src := "shop.example/" }], [])]

def proxiedEnv : Env ℚ where
  table := ((ManagedRouteTable.new none .empty).run proxiedCalls).table
  strategy := "rr"
  connections := fun _ => 0
  picks := ⟨fun _ => 0, fun _ => 0⟩
  acquires := fun _ => true
  nowMs := 0
  dnsCache := DnsCache.withTtl 30 5
  lookupHost := fun _ => .addrs [⟨.v4 ⟨8, 8, 8, 8⟩, 5432⟩]
  connect := fun _ => .ok ()

def exampleDownstream : Downstream where
  peerAddr := ⟨.v4 ⟨192, 0, 2, 1⟩, 40000⟩
  localAddr := ⟨.v4 ⟨10, 1, 1, 1⟩, 5432⟩
  unread := Text.bytes "GET / HTTP/1.1"
  inTime := 14

def Handled.written? : Checked (Handled ℚ) → Option (List UInt8)
  | .ok (.relayed u) => some u.written
  | _ => none

example : Handled.written? (proxiedEnv.handle .plain exampleDownstream) =
    some (Text.bytes "PROXY TCP4 192.0.2.1 10.1.1.1 40000 5432\r\nGET / HTTP/1.1") := by
  decide +kernel

example : Handled.written?
    (proxiedEnv.handle (.httpsFallback "127.0.0.1:8443") exampleDownstream) =
      some exampleDownstream.unread := by decide +kernel

def exampleStream : List UInt8 :=
  [0x16, 3, 1] ++ vec16 exampleHello.encode ++ [0x17, 3]

example : Handled.written? (proxiedEnv.handle .sni
    { exampleDownstream with unread := exampleStream, inTime := exampleStream.length }) =
      some exampleStream := by decide +kernel

end Examples

end Tcp

end SentirumLb
