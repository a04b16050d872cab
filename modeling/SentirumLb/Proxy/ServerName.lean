import SentirumLb.Lib.Utf8
import SentirumLb.Lib.Wire

/-! # The server name of a ClientHello

The TCP listeners that route by server name read the first handshake message of a
connection. All lengths in it come from the client.
-/

namespace SentirumLb

open Wire

/-- The number of bytes up to the end of the ClientHello, or why there is none. -/
def clientHelloBufferSize (data : List UInt8) : Checked (Except String ℕ) := do
  if data.length < 9 then
    return .error "at least 9 bytes required to determine client hello length"
  if (← index data 0) ≠ 0x16 then
    return .error "not a TLS handshake"
  let recordLength := u16 (← index data 3) (← index data 4)
  if recordLength = 0 ∨ 16384 < recordLength then
    return .error "invalid TLS record length"
  if (← index data 5) ≠ 0x01 then
    return .error "not a client hello"
  let handshakeLength := u24 (← index data 6) (← index data 7) (← index data 8)
  if handshakeLength = 0 ∨ recordLength - 4 < handshakeLength then
    return .error "invalid client hello length (fragmentation not implemented)"
  return .ok (handshakeLength + 9)

namespace ServerName

/-! ## The fields in front of the extensions -/

def afterSessionId (data : List UInt8) : Checked (Option (List UInt8)) := do
  let sessionIdLen := (← index data 38).toNat
  if 32 < sessionIdLen ∨ data.length < 39 + sessionIdLen then
    return none
  return some (← sliceFrom data (39 + sessionIdLen))

def afterCipherSuites (data : List UInt8) : Checked (Option (List UInt8)) := do
  if data.length < 2 then
    return none
  let cipherSuiteLen := u16 (← index data 0) (← index data 1)
  if cipherSuiteLen % 2 = 1 ∨ data.length < 2 + cipherSuiteLen then
    return none
  return some (← sliceFrom data (2 + cipherSuiteLen))

def afterCompressionMethods (data : List UInt8) : Checked (Option (List UInt8)) := do
  if data.isEmpty then
    return none
  let compressionMethodsLen := (← index data 0).toNat
  if data.length < 1 + compressionMethodsLen then
    return none
  return some (← sliceFrom data (1 + compressionMethodsLen))

def wholeVec (data : List UInt8) : Checked (Option (List UInt8)) := do
  if data.length < 2 then
    return none
  let length := u16 (← index data 0) (← index data 1)
  let data ← sliceFrom data 2
  if length ≠ data.length then
    return none
  return some data

def nameRound (names : List UInt8) : Checked (Flow (List UInt8) (Option String)) := do
  if names.isEmpty then
    return .leave (some "")
  if names.length < 3 then
    return .leave none
  let nameType ← index names 0
  let nameLen := u16 (← index names 1) (← index names 2)
  let names ← sliceFrom names 3
  if names.length < nameLen then
    return .leave none
  if nameType = 0 then
    return .leave (some (Text.toAsciiLowercase (Text.fromUtf8Lossy (← sliceTo names nameLen))))
  return .goOn (← sliceFrom names nameLen)

def extensionRound (fuel : ℕ) (data : List UInt8) :
    Checked (Flow (List UInt8) (Option String)) := do
  if data.isEmpty then
    return .leave (some "")
  if data.length < 4 then
    return .leave none
  let extension := u16 (← index data 0) (← index data 1)
  let length := u16 (← index data 2) (← index data 3)
  let data ← sliceFrom data 4
  if data.length < length then
    return .leave none
  if extension = 0 then
    let some names ← wholeVec (← sliceTo data length) | return .leave none
    return .leave (← loop nameRound fuel names)
  return .goOn (← sliceFrom data length)

end ServerName

open ServerName in
def readServerName (fuel : ℕ) (clientHelloHandshakeMsg : List UInt8) :
    Checked (Option String) := do
  if clientHelloHandshakeMsg.length < 42 then
    return none
  let some data ← afterSessionId clientHelloHandshakeMsg | return none
  let some data ← afterCipherSuites data | return none
  let some data ← afterCompressionMethods data | return none
  if data.isEmpty then
    return some ""
  let some data ← wholeVec data | return none
  loop (extensionRound fuel) fuel data



/-! ## No index is out of range -/

theorem gives_clientHelloBufferSize (data : List UInt8) :
    Gives (clientHelloBufferSize data) fun
      | .ok n => 10 ≤ n ∧ n ≤ 16389 ∧
          ∃ b3 b4, data[3]? = some b3 ∧ data[4]? = some b4 ∧ n ≤ u16 b3 b4 + 5
      | .error _ => True := by
  unfold clientHelloBufferSize
  refine .ite (fun _ => .pure trivial) fun hlen => ?_
  refine .index (by omega) fun b0 _ => ?_
  refine .ite (fun _ => .pure trivial) fun _ => ?_
  refine .index (by omega) fun b3 h3 => ?_
  refine .index (by omega) fun b4 h4 => ?_
  refine .ite (fun _ => .pure trivial) fun hrecord => ?_
  refine .index (by omega) fun b5 _ => ?_
  refine .ite (fun _ => .pure trivial) fun _ => ?_
  refine .index (by omega) fun b6 _ => ?_
  refine .index (by omega) fun b7 _ => ?_
  refine .index (by omega) fun b8 _ => ?_
  refine .ite (fun _ => .pure trivial) fun hhandshake => .pure ?_
  exact ⟨by omega, by omega, b3, b4, h3, h4, by omega⟩

namespace ServerName

variable {data : List UInt8}

theorem gives_afterSessionId (h : 39 ≤ data.length) :
    Gives (afterSessionId data) fun rest => ∀ d ∈ rest, d.length < data.length := by
  unfold afterSessionId
  refine .index (by omega) fun b _ => .ite (fun _ => .pure (by simp)) fun hlong => ?_
  refine .sliceFrom (by omega) fun rest hrest => .pure ?_
  simp only [Option.mem_def, Option.some.injEq, forall_eq']
  omega

theorem gives_afterCipherSuites (data : List UInt8) :
    Gives (afterCipherSuites data) fun rest => ∀ d ∈ rest, d.length ≤ data.length := by
  unfold afterCipherSuites
  refine .ite (fun _ => .pure (by simp)) fun hlen => ?_
  refine .index (by omega) fun b0 _ => .index (by omega) fun b1 _ => ?_
  refine .ite (fun _ => .pure (by simp)) fun hlong => ?_
  refine .sliceFrom (by omega) fun rest hrest => .pure ?_
  simp only [Option.mem_def, Option.some.injEq, forall_eq']
  omega

theorem gives_afterCompressionMethods (data : List UInt8) :
    Gives (afterCompressionMethods data) fun rest => ∀ d ∈ rest, d.length ≤ data.length := by
  unfold afterCompressionMethods
  refine .ite (fun _ => .pure (by simp)) fun hempty => ?_
  have hpos : 0 < data.length := by simpa [List.length_pos_iff] using hempty
  refine .index (by omega) fun b _ => .ite (fun _ => .pure (by simp)) fun hlong => ?_
  refine .sliceFrom (by omega) fun rest hrest => .pure ?_
  simp only [Option.mem_def, Option.some.injEq, forall_eq']
  omega

theorem gives_wholeVec (data : List UInt8) :
    Gives (wholeVec data) fun rest => ∀ d ∈ rest, d.length ≤ data.length := by
  unfold wholeVec
  refine .ite (fun _ => .pure (by simp)) fun hlen => ?_
  refine .index (by omega) fun b0 _ => .index (by omega) fun b1 _ => ?_
  refine .sliceFrom (by omega) fun rest hrest => ?_
  refine .ite (fun _ => .pure (by simp)) fun _ => .pure ?_
  simp only [Option.mem_def, Option.some.injEq, forall_eq']
  omega

theorem gives_nameRound (names : List UInt8) :
    Gives (nameRound names)
      (Flow.Advances (fun _ => True) List.length (fun _ => True) names) := by
  unfold nameRound
  refine .ite (fun _ => .pure trivial) fun _ => .ite (fun _ => .pure trivial) fun hlen => ?_
  refine .index (by omega) fun nameType _ => ?_
  refine .index (by omega) fun b1 _ => .index (by omega) fun b2 _ => ?_
  refine .sliceFrom (by omega) fun behind hbehind => ?_
  refine .ite (fun _ => .pure trivial) fun hlong => .ite (fun _ => ?_) fun _ => ?_
  · exact .sliceTo (by omega) fun name _ => .pure trivial
  · exact .sliceFrom (by omega) fun rest hrest => .pure ⟨trivial, by omega⟩

theorem gives_extensionRound (fuel : ℕ) (data : List UInt8) (hfuel : data.length < fuel) :
    Gives (extensionRound fuel data)
      (Flow.Advances (List.length · < fuel) List.length (fun _ => True) data) := by
  unfold extensionRound
  refine .ite (fun _ => .pure trivial) fun _ => .ite (fun _ => .pure trivial) fun hlen => ?_
  refine .index (by omega) fun b0 _ => .index (by omega) fun b1 _ => ?_
  refine .index (by omega) fun b2 _ => .index (by omega) fun b3 _ => ?_
  refine .sliceFrom (by omega) fun behind hbehind => ?_
  refine .ite (fun _ => .pure trivial) fun hlong => .ite (fun _ => ?_) fun _ => ?_
  · refine .sliceTo (by omega) fun list hlist => .bind (gives_wholeVec list) fun names hnames => ?_
    cases names with
    | none => exact .pure trivial
    | some names =>
      have hshort := hnames names rfl
      exact .bind (.loop List.length (fun names _ => gives_nameRound names) trivial (by omega))
        fun _ _ => .pure trivial
  · exact .sliceFrom (by omega) fun rest hrest => .pure ⟨by omega, by omega⟩

end ServerName

open ServerName in
theorem gives_readServerName {fuel : ℕ} {msg : List UInt8} (hfuel : msg.length ≤ fuel) :
    Gives (readServerName fuel msg) fun _ => True := by
  unfold readServerName
  refine .ite (fun _ => .pure trivial) fun hlen => ?_
  refine .bind (gives_afterSessionId (by omega)) fun
    | none, _ => .pure trivial
    | some suites, hsuites => ?_
  refine .bind (gives_afterCipherSuites suites) fun
    | none, _ => .pure trivial
    | some methods, hmethods => ?_
  refine .bind (gives_afterCompressionMethods methods) fun
    | none, _ => .pure trivial
    | some block, hblock => .ite (fun _ => .pure trivial) fun _ => ?_
  refine .bind (gives_wholeVec block) fun
    | none, _ => .pure trivial
    | some extensions, hextensions => ?_
  have h1 := hsuites suites rfl
  have h2 := hmethods methods rfl
  have h3 := hblock block rfl
  have h4 := hextensions extensions rfl
  exact .loop List.length (gives_extensionRound fuel) (by omega) (by omega)

end SentirumLb
