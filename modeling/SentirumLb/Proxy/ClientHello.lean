import SentirumLb.Proxy.ServerName

/-! # Well-formed ClientHello messages

The fields of a ClientHello with the bounds that their length prefixes set, and the
message that encodes them. `read_server_name` finds the first host name in the
message, in lower case.
-/

namespace SentirumLb

open Wire

/-- An entry of a server name list. Type zero is a host name. -/
structure NameEntry where
  nameType : UInt8
  name : List UInt8
  name_lt : name.length < 2 ^ 16

namespace NameEntry

def encode (n : NameEntry) : List UInt8 := n.nameType :: vec16 n.name

def isHostName (n : NameEntry) : Bool := n.nameType == 0

end NameEntry

structure ServerNameList where
  names : List NameEntry
  encode_lt : (vec16 (names.flatMap NameEntry.encode)).length < 2 ^ 16

namespace ServerNameList

def encode (l : ServerNameList) : List UInt8 := vec16 (l.names.flatMap NameEntry.encode)

def hostName (l : ServerNameList) : Option (List UInt8) :=
  (l.names.find? NameEntry.isHostName).map (·.name)

end ServerNameList

structure OtherExtension where
  extensionType : UInt16
  type_ne : extensionType ≠ 0
  body : List UInt8
  body_lt : body.length < 2 ^ 16

inductive Extension where
  | serverName (l : ServerNameList)
  | other (e : OtherExtension)

namespace Extension

def encode : Extension → List UInt8
  | serverName l => be16 0 ++ vec16 l.encode
  | other e => be16 e.extensionType.toNat ++ vec16 e.body

def serverName? : Extension → Option ServerNameList
  | serverName l => some l
  | other _ => none

end Extension

structure ExtensionBlock where
  extensions : List Extension
  encode_lt : (extensions.flatMap Extension.encode).length < 2 ^ 16

namespace ExtensionBlock

def encode (b : ExtensionBlock) : List UInt8 := vec16 (b.extensions.flatMap Extension.encode)

def hostName (b : ExtensionBlock) : Option (List UInt8) :=
  (b.extensions.findSome? Extension.serverName?).bind ServerNameList.hostName

end ExtensionBlock

structure ClientHello where
  clientVersion : UInt16
  random : List UInt8
  length_random : random.length = 32
  sessionId : List UInt8
  sessionId_le : sessionId.length ≤ 32
  cipherSuites : List UInt16
  cipherSuites_lt : 2 * cipherSuites.length < 2 ^ 16
  compressionMethods : List UInt8
  compressionMethods_lt : compressionMethods.length < 2 ^ 8
  extensions : Option ExtensionBlock

namespace ClientHello

def body (h : ClientHello) : List UInt8 :=
  be16 h.clientVersion.toNat ++ h.random ++ vec8 h.sessionId ++
    vec16 (h.cipherSuites.flatMap fun c => be16 c.toNat) ++ vec8 h.compressionMethods ++
      h.extensions.elim [] ExtensionBlock.encode

def encode (h : ClientHello) : List UInt8 := 1 :: be24 h.body.length ++ h.body

def hostName (h : ClientHello) : Option (List UInt8) := h.extensions.bind ExtensionBlock.hostName

end ClientHello

namespace ServerName

theorem afterSessionId_append {pre sessionId rest : List UInt8} (hpre : pre.length = 38)
    (hle : sessionId.length ≤ 32) :
    afterSessionId (pre ++ vec8 sessionId ++ rest) = .ok (some rest) := by
  have hnat : (UInt8.ofNat sessionId.length).toNat = sessionId.length :=
    UInt8.toNat_ofNat_of_lt' (show sessionId.length < 256 by omega)
  have hindex := index_append hpre (b := sessionId ++ rest) (UInt8.ofNat sessionId.length)
  have hslice : sliceFrom (pre ++ vec8 sessionId ++ rest) (39 + sessionId.length) = .ok rest :=
    sliceFrom_append (by simp [hpre]; omega)
  have hlong : ¬(pre ++ vec8 sessionId ++ rest).length < 39 + sessionId.length := by
    simp [hpre]
    omega
  rw [vec8, List.append_assoc, List.cons_append] at *
  simp only [afterSessionId, hindex, ok_bind, hnat]
  rw [if_neg (by omega), hslice]
  rfl

theorem afterCipherSuites_vec16 {field rest : List UInt8} (hlt : field.length < 2 ^ 16)
    (heven : field.length % 2 = 0) : afterCipherSuites (vec16 field ++ rest) = .ok (some rest) := by
  have hslice : sliceFrom (vec16 field ++ rest) (2 + field.length) = .ok rest :=
    sliceFrom_append (by simp [Nat.add_comm])
  have hlen : (vec16 field ++ rest).length = 2 + field.length + rest.length := by simp; omega
  have h0 : index (vec16 field ++ rest) 0 = .ok (UInt8.ofNat (field.length / 2 ^ 8)) := rfl
  have h1 : index (vec16 field ++ rest) 1 = .ok (UInt8.ofNat field.length) := rfl
  rw [afterCipherSuites, if_neg (by omega), h0, ok_bind, h1, ok_bind]
  dsimp only
  rw [u16_ofNat hlt, if_neg (by omega), hslice]
  rfl

theorem afterCompressionMethods_vec8 {field rest : List UInt8} (hlt : field.length < 2 ^ 8) :
    afterCompressionMethods (vec8 field ++ rest) = .ok (some rest) := by
  have hslice : sliceFrom (vec8 field ++ rest) (1 + field.length) = .ok rest :=
    sliceFrom_append (by simp [Nat.add_comm])
  have hlen : (vec8 field ++ rest).length = 1 + field.length + rest.length := by simp; omega
  have h0 : index (vec8 field ++ rest) 0 = .ok (UInt8.ofNat field.length) := rfl
  have hempty : (vec8 field ++ rest).isEmpty = false := rfl
  have hnat : (UInt8.ofNat field.length).toNat = field.length := UInt8.toNat_ofNat_of_lt' hlt
  rw [afterCompressionMethods, hempty, h0, if_neg Bool.false_ne_true, ok_bind]
  dsimp only
  rw [hnat, if_neg (by omega), hslice]
  rfl

theorem wholeVec_vec16 {field : List UInt8} (hlt : field.length < 2 ^ 16) :
    wholeVec (vec16 field) = .ok (some field) := by
  have hslice : sliceFrom (vec16 field) 2 = .ok field := sliceFrom_append rfl
  have h0 : index (vec16 field) 0 = .ok (UInt8.ofNat (field.length / 2 ^ 8)) := rfl
  have h1 : index (vec16 field) 1 = .ok (UInt8.ofNat field.length) := rfl
  rw [wholeVec, if_neg (by simp), h0, ok_bind, h1, ok_bind]
  dsimp only
  rw [u16_ofNat hlt, hslice, ok_bind, if_neg (by simp)]
  rfl

def readName (name : List UInt8) : String := Text.toAsciiLowercase (Text.fromUtf8Lossy name)

theorem nameRound_encode (n : NameEntry) (rest : List UInt8) :
    nameRound (n.encode ++ rest) =
      .ok (if n.isHostName then .leave (some (readName n.name)) else .goOn rest) := by
  have hslice : sliceFrom (n.encode ++ rest) 3 = .ok (n.name ++ rest) :=
    sliceFrom_append (a := n.nameType :: be16 n.name.length) rfl
  have h0 : index (n.encode ++ rest) 0 = .ok n.nameType := rfl
  have h1 : index (n.encode ++ rest) 1 = .ok (UInt8.ofNat (n.name.length / 2 ^ 8)) := rfl
  have h2 : index (n.encode ++ rest) 2 = .ok (UInt8.ofNat n.name.length) := rfl
  have hempty : (n.encode ++ rest).isEmpty = false := rfl
  have hlen : (n.encode ++ rest).length = n.name.length + rest.length + 3 := by
    simp [NameEntry.encode]
    omega
  rw [nameRound, hempty, if_neg Bool.false_ne_true, if_neg (by omega), h0, ok_bind, h1, ok_bind,
    h2, ok_bind]
  dsimp only
  rw [u16_ofNat n.name_lt, hslice, ok_bind, if_neg (by simp), sliceTo_append rfl,
    sliceFrom_append rfl]
  by_cases htype : n.nameType = 0
  · simp [NameEntry.isHostName, htype, readName]
  · simp [NameEntry.isHostName, htype]

theorem loop_nameRound (names : List NameEntry) (fuel : ℕ) (hfuel : names.length < fuel) :
    loop nameRound fuel (names.flatMap NameEntry.encode) =
      .ok (some (((names.find? NameEntry.isHostName).map fun n => readName n.name).getD "")) := by
  induction names generalizing fuel with
  | nil =>
    obtain ⟨fuel, rfl⟩ := Nat.exists_eq_add_one.mpr hfuel
    exact loop_of_leave rfl
  | cons n names ih =>
    obtain ⟨fuel, rfl⟩ := Nat.exists_eq_add_one.mpr (Nat.zero_lt_of_lt hfuel)
    have hround := nameRound_encode n (names.flatMap NameEntry.encode)
    rw [List.flatMap_cons]
    by_cases hhost : n.isHostName
    · rw [if_pos hhost] at hround
      rw [loop_of_leave hround, List.find?_cons_of_pos hhost]
      rfl
    · rw [if_neg hhost] at hround
      rw [loop_of_goOn hround, List.find?_cons_of_neg hhost]
      exact ih fuel (by simpa using hfuel)

theorem extensionRound_append {fuel : ℕ} {type : ℕ} {body rest : List UInt8}
    (htype : type < 2 ^ 16) (hbody : body.length < 2 ^ 16) :
    extensionRound fuel (be16 type ++ vec16 body ++ rest) =
      if type = 0 then do
        let some names ← wholeVec body | return .leave none
        return .leave (← loop nameRound fuel names)
      else .ok (.goOn rest) := by
  have hslice : sliceFrom (be16 type ++ vec16 body ++ rest) 4 = .ok (body ++ rest) :=
    sliceFrom_append (a := be16 type ++ be16 body.length) rfl
  have h0 : index (be16 type ++ vec16 body ++ rest) 0 = .ok (UInt8.ofNat (type / 2 ^ 8)) := rfl
  have h1 : index (be16 type ++ vec16 body ++ rest) 1 = .ok (UInt8.ofNat type) := rfl
  have h2 : index (be16 type ++ vec16 body ++ rest) 2 =
    .ok (UInt8.ofNat (body.length / 2 ^ 8)) := rfl
  have h3 : index (be16 type ++ vec16 body ++ rest) 3 = .ok (UInt8.ofNat body.length) := rfl
  have hempty : (be16 type ++ vec16 body ++ rest).isEmpty = false := rfl
  have hlen : (be16 type ++ vec16 body ++ rest).length = body.length + rest.length + 4 := by
    simp
    omega
  rw [extensionRound, hempty, if_neg Bool.false_ne_true, if_neg (by omega), h0, ok_bind, h1,
    ok_bind, h2, ok_bind, h3, ok_bind]
  dsimp only
  rw [u16_ofNat htype, u16_ofNat hbody, hslice, ok_bind, if_neg (by simp), sliceTo_append rfl,
    sliceFrom_append rfl]
  rfl

theorem extensionRound_other {fuel : ℕ} (e : OtherExtension) (rest : List UInt8) :
    extensionRound fuel ((Extension.other e).encode ++ rest) = .ok (.goOn rest) := by
  have hne : e.extensionType.toNat ≠ 0 := fun h => e.type_ne (UInt16.toNat_inj.mp h)
  rw [Extension.encode, extensionRound_append e.extensionType.toNat_lt e.body_lt, if_neg hne]

theorem extensionRound_serverName {fuel : ℕ} (l : ServerNameList) (rest : List UInt8)
    (hfuel : l.names.length < fuel) :
    extensionRound fuel ((Extension.serverName l).encode ++ rest) =
      .ok (.leave (some ((l.hostName.map readName).getD ""))) := by
  have hbody : l.encode.length < 2 ^ 16 := l.encode_lt
  have hlist : (l.names.flatMap NameEntry.encode).length < 2 ^ 16 := by
    rw [ServerNameList.encode, length_vec16] at hbody
    omega
  rw [Extension.encode, extensionRound_append (by decide) hbody, if_pos rfl,
    ServerNameList.encode, wholeVec_vec16 hlist, ok_bind]
  dsimp only
  rw [loop_nameRound l.names fuel hfuel, ok_bind, ServerNameList.hostName, Option.map_map]
  rfl

theorem loop_extensionRound (extensions : List Extension) (fuel nameFuel : ℕ)
    (hnames : ∀ l, Extension.serverName l ∈ extensions → l.names.length < nameFuel)
    (hfuel : extensions.length < fuel) :
    loop (extensionRound nameFuel) fuel (extensions.flatMap Extension.encode) =
      .ok (some ((((extensions.findSome? Extension.serverName?).bind
        ServerNameList.hostName).map readName).getD "")) := by
  induction extensions generalizing fuel with
  | nil =>
    obtain ⟨fuel, rfl⟩ := Nat.exists_eq_add_one.mpr hfuel
    exact loop_of_leave rfl
  | cons e extensions ih =>
    obtain ⟨fuel, rfl⟩ := Nat.exists_eq_add_one.mpr (Nat.zero_lt_of_lt hfuel)
    rw [List.flatMap_cons]
    cases e with
    | serverName l =>
      rw [loop_of_leave (extensionRound_serverName l _ (hnames l List.mem_cons_self))]
      rfl
    | other e =>
      rw [loop_of_goOn (extensionRound_other e _)]
      exact ih fuel (fun l hl => hnames l (List.mem_cons_of_mem _ hl)) (by simpa using hfuel)

end ServerName

theorem ServerNameList.length_names_lt (l : ServerNameList) : l.names.length < l.encode.length := by
  have hle := List.length_le_sum_of_one_le (l.names.map fun n => n.encode.length) (by
    simp [NameEntry.encode])
  rw [List.length_map, ← List.length_flatMap] at hle
  rw [encode, length_vec16]
  omega

namespace ExtensionBlock

variable (b : ExtensionBlock)

theorem length_extensions_lt : b.extensions.length < b.encode.length := by
  have hle := List.length_le_sum_of_one_le (b.extensions.map fun e => e.encode.length) (by
    simp only [List.mem_map, forall_exists_index, and_imp, forall_apply_eq_imp_iff₂]
    intro e _
    cases e <;> simp [Extension.encode] <;> omega)
  rw [List.length_map, ← List.length_flatMap] at hle
  rw [encode, length_vec16]
  omega

variable {b} in
theorem length_names_lt {l : ServerNameList} (h : .serverName l ∈ b.extensions) :
    l.names.length < b.encode.length := by
  have hle := List.single_le_sum (l := b.extensions.map fun e => e.encode.length) (by simp) _
    (List.mem_map_of_mem h)
  have hnames := l.length_names_lt
  rw [← List.length_flatMap, Extension.encode] at hle
  simp only [List.length_append, length_be16, length_vec16] at hle
  rw [encode, length_vec16]
  omega

end ExtensionBlock

open ServerName

namespace ClientHello

variable (h : ClientHello)

theorem length_cipherSuites : (h.cipherSuites.flatMap fun c => be16 c.toNat).length =
    2 * h.cipherSuites.length := by
  simp [List.length_flatMap, Nat.mul_comm]

theorem encode_eq : h.encode =
    (1 :: be24 h.body.length ++ be16 h.clientVersion.toNat ++ h.random) ++ vec8 h.sessionId ++
      (vec16 (h.cipherSuites.flatMap fun c => be16 c.toNat) ++ (vec8 h.compressionMethods ++
        h.extensions.elim [] ExtensionBlock.encode)) := by
  simp [encode, body]

theorem le_length_encode : 42 ≤ h.encode.length := by
  rw [encode_eq]
  simp [h.length_random]
  omega

theorem length_extensions_le {b : ExtensionBlock} (hblock : h.extensions = some b) :
    b.encode.length ≤ h.encode.length := by
  rw [encode_eq, hblock]
  simp
  omega

end ClientHello

theorem readServerName_encode_eq (h : ClientHello) {fuel : ℕ} (hfuel : h.encode.length ≤ fuel) :
    readServerName fuel h.encode = .ok (some ((h.hostName.map readName).getD "")) := by
  have hsuites := h.length_cipherSuites
  rw [readServerName, if_neg (Nat.not_lt.mpr h.le_length_encode), h.encode_eq,
    afterSessionId_append (by simp [h.length_random]) h.sessionId_le, ok_bind]
  dsimp only
  rw [afterCipherSuites_vec16 (by rw [hsuites]; exact h.cipherSuites_lt) (by omega), ok_bind]
  dsimp only
  rw [afterCompressionMethods_vec8 h.compressionMethods_lt, ok_bind]
  cases hblock : h.extensions with
  | none =>
    rw [ClientHello.hostName, hblock]
    rfl
  | some b =>
    have hle := h.length_extensions_le hblock
    have hround := loop_extensionRound b.extensions fuel fuel
      (fun l hl => by have := ExtensionBlock.length_names_lt hl; omega)
      (by have := b.length_extensions_lt; omega)
    have hempty : b.encode.isEmpty = false := rfl
    dsimp only [Option.elim_some]
    rw [hempty, if_neg Bool.false_ne_true, ExtensionBlock.encode, wholeVec_vec16 b.encode_lt,
      ok_bind]
    dsimp only
    rw [hround, ClientHello.hostName, hblock]
    rfl

/-- On a well-formed message the reader gives the first host name of the first server name list in
lower case, and the empty text where there is none. -/
theorem readServerName_encode (h : ClientHello) (fuel : ℕ) (hfuel : h.encode.length ≤ fuel) :
    (∀ name, h.hostName = some (Text.bytes name) →
        readServerName fuel h.encode = .ok (some (Text.toAsciiLowercase name))) ∧
      (h.hostName = none → readServerName fuel h.encode = .ok (some "")) ∧
      ∃ serverName, readServerName fuel h.encode = .ok (some serverName) := by
  rw [readServerName_encode_eq h hfuel]
  refine ⟨?_, ?_, _, rfl⟩
  · intro name hname
    rw [hname, Option.map_some, readName, Text.fromUtf8Lossy_bytes]
    rfl
  · intro hnone
    rw [hnone]
    rfl

/-- The announced size of a message that fits one record is that of the record. -/
theorem clientHelloBufferSize_record (h : ClientHello) (hfits : h.encode.length ≤ 16384)
    (v0 v1 : UInt8) (rest : List UInt8) :
    clientHelloBufferSize ([0x16, v0, v1] ++ vec16 h.encode ++ rest) =
      .ok (.ok (h.encode.length + 5)) := by
  have hbody : h.encode.length = h.body.length + 4 := by
    simp [ClientHello.encode]
    omega
  have hlong := h.le_length_encode
  have hlen : ([0x16, v0, v1] ++ vec16 h.encode ++ rest).length =
      h.encode.length + rest.length + 5 := by
    simp
    omega
  generalize hdata : [0x16, v0, v1] ++ vec16 h.encode ++ rest = data at hlen ⊢
  have h0 : index data 0 = .ok 0x16 := by rw [← hdata]; rfl
  have h3 : index data 3 = .ok (UInt8.ofNat (h.encode.length / 2 ^ 8)) := by rw [← hdata]; rfl
  have h4 : index data 4 = .ok (UInt8.ofNat h.encode.length) := by rw [← hdata]; rfl
  have h5 : index data 5 = .ok 0x01 := by rw [← hdata]; rfl
  have h6 : index data 6 = .ok (UInt8.ofNat (h.body.length / 2 ^ 16)) := by rw [← hdata]; rfl
  have h7 : index data 7 = .ok (UInt8.ofNat (h.body.length / 2 ^ 8)) := by rw [← hdata]; rfl
  have h8 : index data 8 = .ok (UInt8.ofNat h.body.length) := by rw [← hdata]; rfl
  rw [clientHelloBufferSize, if_neg (by omega), h0, ok_bind, if_neg (by decide), h3, ok_bind, h4,
    ok_bind, u16_ofNat (by omega), if_neg (by omega), h5, ok_bind, if_neg (by decide), h6, ok_bind,
    h7, ok_bind, h8, ok_bind]
  dsimp only
  rw [u24_ofNat (by omega), if_neg (by omega), hbody]
  rfl

def exampleHello : ClientHello where
  clientVersion := 0x0303
  random := List.replicate 32 0
  length_random := rfl
  sessionId := [1, 2, 3]
  sessionId_le := by decide
  cipherSuites := [0xC02F, 0xC030]
  cipherSuites_lt := by decide
  compressionMethods := [0]
  compressionMethods_lt := by decide
  extensions := some {
    extensions := [.other ⟨10, by decide, [0, 0], by decide⟩,
      .serverName ⟨[⟨1, [7], by decide⟩, ⟨0, Text.bytes "Shop.Example", by decide⟩], by decide⟩]
    encode_lt := by decide }

theorem readServerName_encode_exampleHello :
    exampleHello.hostName = some (Text.bytes "Shop.Example") ∧
      readServerName 100 exampleHello.encode = .ok (some "shop.example") := by
  have hname : exampleHello.hostName = some (Text.bytes "Shop.Example") := by decide
  exact ⟨hname, (readServerName_encode exampleHello 100 (by decide)).1 _ hname⟩

end SentirumLb
