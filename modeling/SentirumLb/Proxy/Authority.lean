import SentirumLb.Proxy.ProbeVerdict
import SentirumLb.Route.StandardUrls

/-! # The authority of a target

The host of a target is kept without brackets. The authority that is sent upstream is put
together from the host and the port, without bringing the brackets back, and so that of an
IPv6 address cannot be taken apart again.
-/

namespace SentirumLb

variable {W : Type}

namespace Target

def hostOverride (t : Target W) : Option String := t.opts.lookup "host"

def upstreamAuthority (t : Target W) : String :=
  match t.hostOverride with
  | some host => host
  | none =>
      if t.parsedProtocol.defaultPort = some t.upstreamPort then t.upstreamHost
      else t.upstreamHost ++ ":" ++ toString t.upstreamPort.toNat

end Target

/-! ## Reading an authority -/

def readPort (s : String) : Option UInt16 := (Text.parseNat (2 ^ 16) s).map Nat.toUInt16

/-- The host and the port of `host[:port]`. An IPv6 address stands in brackets, and the protocol
gives the port when there is none. -/
def parseAuthority (protocol : UpstreamProtocol) (authority : String) : Option (String × UInt16) :=
  match Text.stripPrefix authority "[" with
  | some bracketed => do
      let (host, rest) ← Text.splitOnce ']' bracketed
      let port ←
        if rest = "" then protocol.defaultPort else (Text.stripPrefix rest ":").bind readPort
      pure (host, port)
  | none =>
      match Text.split ':' authority with
      | [host] => protocol.defaultPort.map fun port => (host, port)
      | [host, port] => (readPort port).map fun port => (host, port)
      | _ => none

example : parseAuthority .grpc "[2001:db8::1]:50051" = some ("2001:db8::1", 50051) := by
  decide +kernel

def IsIpv6Literal (host : String) : Prop :=
  ∃ s a, host = "[" ++ s ++ "]" ∧ IpAddr.parse s = some (.v6 a)

/-- A text without what sets a port or an IPv6 address apart. -/
def IsPlainHost (s : String) : Prop := ∀ c ∈ s.toList, c ≠ ':' ∧ c ≠ '[' ∧ c ≠ ']'

inductive IsUrlHost : String → Prop
  | ipv6 {host : String} : IsIpv6Literal host → IsUrlHost host
  | ipv4 {host : String} {a : Ipv4Addr} : IpAddr.parse host = some (.v4 a) → IsUrlHost host
  | name {host : String} : host ≠ "" → IsPlainHost host → IsUrlHost host

theorem ne_bracket_of_parse {s : String} {a : IpAddr} (h : IpAddr.parse s = some a) :
    ∀ c ∈ s.toList, c ≠ '[' ∧ c ≠ ']' := by
  intro c hc
  have hchar := IpAddr.isV6Char_of_parse h c hc
  unfold IpParser.IsV6Char IpParser.IsV4Char at hchar
  constructor <;> rintro rfl <;> exact absurd hchar (by decide)

theorem isPlainHost_of_parse_v4 {s : String} {a : Ipv4Addr} (h : IpAddr.parse s = some (.v4 a)) :
    IsPlainHost s := by
  intro c hc
  refine ⟨?_, ne_bracket_of_parse h c hc⟩
  rintro rfl
  exact (IpAddr.dot_mem_of_parse_v4 h).2 hc

theorem IsUrlHost.isPlainHost {host : String} (h : IsUrlHost host) (hv6 : ¬IsIpv6Literal host) :
    IsPlainHost host := by
  cases h with
  | ipv6 h => exact absurd h hv6
  | ipv4 h => exact isPlainHost_of_parse_v4 h
  | name _ h => exact h

theorem stripPrefix_bracket {s : String} (h : '[' ∉ s.toList) : Text.stripPrefix s "[" = none := by
  have hstart : ¬Text.startsWith s "[" = true := by
    rw [Text.startsWith_iff]
    exact fun hpre => h (hpre.subset List.mem_cons_self)
  rw [Text.stripPrefix, if_neg hstart]

theorem bracket_not_mem {host : String} (h : '[' ∉ host.toList) {n : ℕ} :
    '[' ∉ (host ++ ":" ++ toString n).toList := by
  simp only [String.toList_append, List.mem_append, not_or]
  refine ⟨⟨h, by simp⟩, fun hc => ?_⟩
  exact absurd (Text.isDigit_of_mem_toString hc) (by decide)

theorem readPort_toString (port : UInt16) : readPort (toString port.toNat) = some port := by
  rw [readPort, Text.parseNat_toString port.toNat_lt, Option.map_some]
  simp

theorem parseAuthority_of_colons {s : String} (hbracket : '[' ∉ s.toList)
    (hcolons : 2 ≤ s.toList.count ':') (protocol : UpstreamProtocol) :
    parseAuthority protocol s = none := by
  have hlength := Text.length_split ':' s
  rw [parseAuthority, stripPrefix_bracket hbracket]
  dsimp only
  split
  · next host hsplit =>
    rw [hsplit, List.length_singleton] at hlength
    omega
  · next host port hsplit =>
    rw [hsplit, List.length_cons, List.length_singleton] at hlength
    omega
  · rfl

/-! ## The round trip -/

theorem trimMatches_literal {s : String} {a : IpAddr} (h : IpAddr.parse s = some a) :
    Text.trimMatches ['[', ']'] ("[" ++ s ++ "]") = s := by
  refine Text.trimMatches_eq (l := ['[']) (r := [']']) (by simp) (by simp) (by simp) fun c hc => ?_
  simpa using ne_bracket_of_parse h c hc

theorem parseAuthority_plain {host : String} (h : IsPlainHost host) {protocol : UpstreamProtocol}
    {port : UInt16} (hport : protocol.defaultPort = some port) :
    parseAuthority protocol host = some (host, port) := by
  rw [parseAuthority, stripPrefix_bracket fun hc => (h _ hc).2.1 rfl,
    Text.split_eq_singleton fun hc => (h _ hc).1 rfl]
  simp [hport]

theorem parseAuthority_plain_port {host : String} (h : IsPlainHost host)
    (protocol : UpstreamProtocol) (port : UInt16) :
    parseAuthority protocol (host ++ ":" ++ toString port.toNat) = some (host, port) := by
  have hbracket : '[' ∉ (host ++ ":" ++ toString port.toNat).toList :=
    bracket_not_mem fun hc => (h _ hc).2.1 rfl
  have hcolon : ':' ∉ (toString port.toNat).toList :=
    fun hc => absurd (Text.isDigit_of_mem_toString hc) (by decide)
  have hlist : (host ++ ":" ++ toString port.toNat).toList =
      host.toList ++ ':' :: (toString port.toNat).toList := by
    simp
  rw [parseAuthority, stripPrefix_bracket hbracket, Text.split_append ':' hlist,
    Text.split_eq_singleton fun hc => (h _ hc).1 rfl, Text.split_eq_singleton hcolon]
  simp only [List.singleton_append, readPort_toString, Option.map_some]

section Authority

variable [Platform]

theorem Target.Parsed.upstreamHost_of_hostStr {t : Target W} (ht : t.Parsed) {url : Url}
    (hurl : Platform.urlParse t.url = some url) {host : String} (hhost : url.hostStr = some host) :
    t.upstreamHost = Text.trimMatches ['[', ']'] host := by
  simp [ht.upstreamHost_eq, urlHost, hurl, hhost]

/-- The authority of a target is read as its host and its port just when the host of its URL is no
IPv6 address. -/
theorem parseAuthority_upstreamAuthority_iff {t : Target W} (ht : t.Parsed)
    (hoverride : t.hostOverride = none) {url : Url} (hurl : Platform.urlParse t.url = some url)
    {host : String} (hhost : url.hostStr = some host) (hform : IsUrlHost host) :
    parseAuthority t.parsedProtocol t.upstreamAuthority = some (t.upstreamHost, t.upstreamPort) ↔
      ¬IsIpv6Literal host := by
  have hname := ht.upstreamHost_of_hostStr hurl hhost
  rw [Target.upstreamAuthority, hoverride]
  dsimp only
  constructor
  · rintro hround ⟨s, a, rfl, ha⟩
    rw [trimMatches_literal ha] at hname
    have hcolons := IpAddr.two_le_count_of_parse_v6 ha
    have hbracket : '[' ∉ s.toList := fun hc => (ne_bracket_of_parse ha _ hc).1 rfl
    rw [hname] at hround
    split at hround
    · rw [parseAuthority_of_colons hbracket hcolons] at hround
      cases hround
    · rw [parseAuthority_of_colons (bracket_not_mem hbracket)] at hround
      · cases hround
      · rw [String.toList_append, String.toList_append, List.count_append, List.count_append]
        omega
  · intro hv6
    have hplain := hform.isPlainHost hv6
    have htrim : Text.trimMatches ['[', ']'] host = host :=
      Text.trimMatches_eq_self fun c hc => by simpa using (hplain c hc).2
    rw [htrim] at hname
    rw [hname]
    split
    · next hport => exact parseAuthority_plain hplain hport
    · exact parseAuthority_plain_port hplain _ _

end Authority

section Examples

attribute [local instance] Platform.standard

def targetFor (url : String) : Target ℚ :=
  Table.targetOf default (exampleDef .static .add "api" url)

/-- The port of an IPv6 address cannot be told from the address. -/
theorem not_parseAuthority_upstreamAuthority_ipv6 :
    (targetFor "grpc://[2001:db8::1]:50051/").Parsed ∧
      (targetFor "grpc://[2001:db8::1]:50051/").hostOverride = none ∧
      (Platform.urlParse (targetFor "grpc://[2001:db8::1]:50051/").url).bind (·.hostStr) =
        some "[2001:db8::1]" ∧
      IsUrlHost "[2001:db8::1]" ∧
      (targetFor "grpc://[2001:db8::1]:50051/").upstreamAuthority = "2001:db8::1:50051" ∧
      parseAuthority .grpc "2001:db8::1:50051" ≠ some
        ((targetFor "grpc://[2001:db8::1]:50051/").upstreamHost,
          (targetFor "grpc://[2001:db8::1]:50051/").upstreamPort) := by
  refine ⟨Table.parsed_targetOf _ _, by decide +kernel, by decide +kernel, ?_, by decide +kernel,
    by decide +kernel⟩
  exact .ipv6 ⟨"2001:db8::1", ⟨0x2001, 0xdb8, 0, 0, 0, 0, 0, 1⟩, rfl, by decide +kernel⟩

/-- The default port is left out, and comes back. -/
theorem parseAuthority_upstreamAuthority_name :
    parseAuthority (targetFor "http://a.example/").parsedProtocol
        (targetFor "http://a.example/").upstreamAuthority =
      some ((targetFor "http://a.example/").upstreamHost,
        (targetFor "http://a.example/").upstreamPort) := by
  have hurl : Platform.urlParse (targetFor "http://a.example/").url =
      some ⟨"http", some "a.example", none, some 80⟩ := by
    rfl
  refine (parseAuthority_upstreamAuthority_iff (Table.parsed_targetOf _ _) (by decide +kernel) hurl
    rfl (.name (by decide) ?_)).mpr ?_
  · intro c hc
    have hall : "a.example".toList.all (fun c => c != ':' && c != '[' && c != ']') = true := by
      decide +kernel
    simpa [and_assoc] using List.all_eq_true.mp hall c hc
  · rintro ⟨s, a, hs, -⟩
    have hhead := congrArg (fun t : String => t.toList.head?) hs
    simp at hhead

end Examples

end SentirumLb
