import SentirumLb.Lib.Text

/-! # HTTP headers

A header map gives a list of values for every lowercase name. Values are bytes:
a text is made into one unless it has control characters, and one is read as
text only when all of its bytes are visible ASCII. Inserting replaces all values
of the name.
-/

namespace Http

structure HeaderValue where
  bytes : List UInt8
  deriving DecidableEq, Repr

namespace HeaderValue

def isVisibleAscii (b : UInt8) : Bool := (32 ≤ b && b < 127) || b == 9

def isAllowed (b : UInt8) : Bool := (32 ≤ b && b != 127) || b == 9

def toStr (v : HeaderValue) : Option String :=
  if v.bytes.all isVisibleAscii then
    some (String.ofList (v.bytes.map fun b => Char.ofNat b.toNat))
  else none

def fromStr (s : String) : Option HeaderValue :=
  if (Text.bytes s).all isAllowed then some ⟨Text.bytes s⟩ else none

theorem isAllowed_of_isVisibleAscii {b : UInt8} (h : isVisibleAscii b = true) :
    isAllowed b = true := by
  simp only [isVisibleAscii, isAllowed, Bool.or_eq_true, Bool.and_eq_true, decide_eq_true_eq,
    beq_iff_eq, bne_iff_ne] at h ⊢
  rcases h with ⟨hlow, hhigh⟩ | h
  · refine Or.inl ⟨hlow, ?_⟩
    rintro rfl
    exact absurd hhigh (by decide)
  · exact Or.inr h

theorem utf8EncodeChar_ofNat {b : UInt8} (h : isVisibleAscii b = true) :
    String.utf8EncodeChar (Char.ofNat b.toNat) = [b] := by
  have hall : ∀ n : Fin 256, isVisibleAscii (UInt8.ofNat n) = true →
      String.utf8EncodeChar (Char.ofNat n) = [UInt8.ofNat n] := by decide +kernel
  simpa using hall ⟨b.toNat, b.toNat_lt⟩ (by simpa using h)

theorem fromStr_of_toStr {v : HeaderValue} {s : String} (h : v.toStr = some s) :
    fromStr s = some v := by
  unfold toStr at h
  rw [Option.ite_none_right_eq_some, Option.some.injEq] at h
  obtain ⟨hall, rfl⟩ := h
  rw [List.all_eq_true] at hall
  have hbytes : Text.bytes (String.ofList (v.bytes.map fun b => Char.ofNat b.toNat)) = v.bytes := by
    rw [Text.bytes, String.toList_ofList, List.flatMap_map]
    have hsingle : ∀ b ∈ v.bytes, String.utf8EncodeChar (Char.ofNat b.toNat) = [b] :=
      fun b hb => utf8EncodeChar_ofNat (hall b hb)
    rw [List.flatMap_congr hsingle, List.flatMap_singleton']
  rw [fromStr, hbytes, if_pos]
  exact List.all_eq_true.mpr fun b hb => isAllowed_of_isVisibleAscii (hall b hb)

theorem utf8EncodeChar_of_isVisible {c : Char} (h : 32 ≤ c.toNat ∧ c.toNat < 127) :
    ∃ b : UInt8, String.utf8EncodeChar c = [b] ∧ isVisibleAscii b = true ∧
      Char.ofNat b.toNat = c := by
  have hall : ∀ n : Fin 127, 32 ≤ n.val → isVisibleAscii (UInt8.ofNat n) = true ∧
      (UInt8.ofNat n).toNat = n := by decide +kernel
  obtain ⟨hvisible, hb⟩ := hall ⟨c.toNat, h.2⟩ h.1
  have hchar : Char.ofNat (UInt8.ofNat c.toNat).toNat = c := by
    rw [hb, Char.ofNat_toNat]
  refine ⟨UInt8.ofNat c.toNat, ?_, hvisible, hchar⟩
  have hencode := utf8EncodeChar_ofNat hvisible
  rwa [hchar] at hencode

theorem flatMap_utf8EncodeChar {cs : List Char} (h : ∀ c ∈ cs, 32 ≤ c.toNat ∧ c.toNat < 127) :
    ∃ bs : List UInt8, cs.flatMap String.utf8EncodeChar = bs ∧ bs.all isVisibleAscii = true ∧
      bs.map (fun b => Char.ofNat b.toNat) = cs := by
  induction cs with
  | nil => exact ⟨[], rfl, rfl, rfl⟩
  | cons c cs ih =>
    obtain ⟨b, hencode, hvisible, hchar⟩ := utf8EncodeChar_of_isVisible (h c List.mem_cons_self)
    obtain ⟨bs, hbytes, hall, hchars⟩ := ih fun d hd => h d (List.mem_cons_of_mem c hd)
    refine ⟨b :: bs, ?_, ?_, ?_⟩
    · rw [List.flatMap_cons, hencode, hbytes, List.singleton_append]
    · rw [List.all_cons, hvisible, hall, Bool.and_true]
    · rw [List.map_cons, hchar, hchars]

theorem toStr_bytes {s : String} (h : ∀ c ∈ s.toList, 32 ≤ c.toNat ∧ c.toNat < 127) :
    toStr ⟨Text.bytes s⟩ = some s := by
  obtain ⟨bs, hbytes, hvisible, hchars⟩ := flatMap_utf8EncodeChar h
  rw [toStr, Text.bytes, hbytes, if_pos hvisible, hchars, String.ofList_toList]

theorem isVisible_of_toStr {v : HeaderValue} {s : String} (h : v.toStr = some s) :
    ∀ c ∈ s.toList, 32 ≤ c.toNat ∧ c.toNat < 127 ∨ c = '\t' := by
  unfold toStr at h
  rw [Option.ite_none_right_eq_some, Option.some.injEq] at h
  obtain ⟨hall, rfl⟩ := h
  rw [List.all_eq_true] at hall
  rw [String.toList_ofList]
  intro c hc
  obtain ⟨b, hb, rfl⟩ := List.mem_map.mp hc
  have hbyte : ∀ n : Fin 256, isVisibleAscii (UInt8.ofNat n) = true →
      32 ≤ (Char.ofNat n).toNat ∧ (Char.ofNat n).toNat < 127 ∨ Char.ofNat n = '\t' := by
    decide +kernel
  exact hbyte ⟨b.toNat, b.toNat_lt⟩ (by simpa using hall b hb)

end HeaderValue

abbrev Headers := List (String × HeaderValue)

namespace Headers

variable {h : Headers} {name other : String} {v : HeaderValue}

def getAll (name : String) (h : Headers) : List HeaderValue :=
  (h.filter (·.1 == name)).map (·.2)

def get (name : String) (h : Headers) : Option HeaderValue := (getAll name h).head?

def remove (name : String) (h : Headers) : Headers := h.filter (·.1 != name)

def insert (name : String) (v : HeaderValue) (h : Headers) : Headers := remove name h ++ [(name, v)]

@[simp] theorem getAll_nil : getAll name [] = [] := rfl

@[simp] theorem getAll_append (h h' : Headers) :
    getAll name (h ++ h') = getAll name h ++ getAll name h' := by
  simp [getAll]

@[simp] theorem getAll_remove_self (h : Headers) : getAll name (remove name h) = [] := by
  simp [getAll, remove, List.filter_filter]

@[simp] theorem getAll_remove_ne (hne : name ≠ other) (h : Headers) :
    getAll name (remove other h) = getAll name h := by
  unfold getAll remove
  rw [List.filter_filter]
  congr 1
  apply List.filter_congr
  intro e _
  by_cases he : e.1 = name
  · simp [he, hne]
  · simp [he]

@[simp] theorem getAll_insert_self (h : Headers) : getAll name (insert name v h) = [v] := by
  rw [insert, getAll_append, getAll_remove_self]
  simp [getAll]

@[simp] theorem getAll_insert_ne (hne : name ≠ other) (h : Headers) :
    getAll name (insert other v h) = getAll name h := by
  rw [insert, getAll_append, getAll_remove_ne hne]
  simp [getAll, hne.symm]

def without (names : List String) (h : Headers) : Headers := h.filter fun e => !names.contains e.1

theorem getAll_without_self {names : List String} (hname : name ∈ names) (h : Headers) :
    getAll name (without names h) = [] := by
  unfold getAll without
  rw [List.filter_filter, List.map_eq_nil_iff, List.filter_eq_nil_iff]
  intro e _ he
  simp only [Bool.and_eq_true, beq_iff_eq] at he
  simp [he.1, hname] at he

theorem getAll_without {names : List String} (hname : name ∉ names) (h : Headers) :
    getAll name (without names h) = getAll name h := by
  unfold getAll without
  rw [List.filter_filter]
  congr 1
  apply List.filter_congr
  intro e _
  by_cases he : e.1 = name
  · simp [he, hname]
  · simp [he]

/-- The headers agree under all other names. -/
def AgreeBut (names : List String) (h h' : Headers) : Prop := h.without names = h'.without names

theorem without_without {names names' : List String} (hsub : names ⊆ names') (h : Headers) :
    (h.without names).without names' = h.without names' := by
  unfold without
  rw [List.filter_filter]
  apply List.filter_congr
  intro e _
  by_cases he : e.1 ∈ names
  · simp [he, hsub he]
  · simp [he]

theorem without_remove (name : String) (names : List String) (h : Headers) :
    (h.remove name).without (names.filter (· ≠ name)) = (h.without names).remove name := by
  unfold without remove
  rw [List.filter_filter, List.filter_filter]
  apply List.filter_congr
  intro e _
  by_cases he : e.1 = name
  · simp [he]
  · simp [he, Bool.and_comm]

namespace AgreeBut

variable {names names' : List String} {h h' : Headers}

theorem mono (ha : AgreeBut names h h') (hsub : names ⊆ names') : AgreeBut names' h h' := by
  rw [AgreeBut, ← without_without hsub h, ← without_without hsub h', ha]

theorem remove (ha : AgreeBut names h h') (name : String) :
    AgreeBut (names.filter (· ≠ name)) (h.remove name) (h'.remove name) := by
  rw [AgreeBut, without_remove, without_remove, ha]

theorem insert (ha : AgreeBut names h h') (name : String) (v : HeaderValue) :
    AgreeBut (names.filter (· ≠ name)) (h.insert name v) (h'.insert name v) := by
  have hsplit : ∀ h : Headers, (h.insert name v).without (names.filter (· ≠ name)) =
      (h.remove name).without (names.filter (· ≠ name)) ++ [(name, v)] := by
    intro h
    simp [Headers.insert, without]
  rw [AgreeBut, hsplit, hsplit, ha.remove name]

end AgreeBut

end Headers

end Http
