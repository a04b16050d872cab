import SentirumLb.Lib.Text

/-! # Decoding what was encoded

The decoder that puts replacement characters where bytes are not UTF-8 puts none
into the bytes of a text.
-/

namespace Text

theorem leadWidth_eq {b : UInt8} {n : ℕ} (h : b.toNat = n) : leadWidth b =
    if n < 128 then 1 else if n < 194 then 0 else if n < 224 then 2 else if n < 240 then 3
    else if n < 245 then 4 else 0 := by
  subst h
  simp only [leadWidth, UInt8.lt_iff_toNat_lt, UInt8.reduceToNat]

theorem isContinuation_of_toNat {b : UInt8} {n : ℕ} (h : b.toNat = n % 64 + 128) :
    isContinuation b = true := by
  simp only [isContinuation, UInt8.le_iff_toNat_le, UInt8.reduceToNat, h, Bool.and_eq_true,
    decide_eq_true_eq]
  omega

theorem payload_of_toNat {b : UInt8} {n : ℕ} (h : b.toNat = n % 64 + 128) : payload b = n % 64 := by
  rw [payload, h]
  omega

theorem follows_eq {lead b : UInt8} {n m : ℕ} (hlead : lead.toNat = n) (hb : b.toNat = m) :
    follows lead b = true ↔ 1 < leadWidth lead ∧ 128 ≤ m ∧ m ≤ 191 ∧
      (n = 224 → 160 ≤ m) ∧ (n = 237 → m ≤ 159) ∧ (n = 240 → 144 ≤ m) ∧ (n = 244 → m ≤ 143) := by
  subst hlead hb
  simp only [follows, ← UInt8.toNat_inj, UInt8.le_iff_toNat_le, UInt8.reduceToNat]
  split_ifs <;> simp <;> omega

theorem ofNat_of_toNat {c : Char} {n : ℕ} (h : n = c.toNat) : Char.ofNat n = c := by
  rw [h, Char.ofNat_toNat]

theorem toNat_ranges (c : Char) : c.toNat < 55296 ∨ 57343 < c.toNat ∧ c.toNat < 1114112 := c.valid

theorem decodeHead_one {c : Char} {b : UInt8} {rest : List UInt8} (hc : c.toNat ≤ 127)
    (hb : b.toNat = c.toNat) : decodeHead b rest = (c, 0) := by
  have hlt : b < 0x80 := by
    simp only [UInt8.lt_iff_toNat_lt, UInt8.reduceToNat, hb]
    omega
  cases rest <;> simp [decodeHead, hlt, ofNat_of_toNat hb]

theorem not_lt_of_leadWidth {b : UInt8} (h : 1 < leadWidth b) : ¬b < 0x80 := by
  intro hlt
  simp [leadWidth, hlt] at h

theorem decodeHead_two {c : Char} {b0 b1 : UInt8} {rest : List UInt8} (hlow : 127 < c.toNat)
    (hhigh : c.toNat ≤ 2047) (h0 : b0.toNat = c.toNat / 64 % 32 + 192)
    (h1 : b1.toNat = c.toNat % 64 + 128) : decodeHead b0 (b1 :: rest) = (c, 1) := by
  have hwidth : leadWidth b0 = 2 := by
    rw [leadWidth_eq h0]
    split_ifs <;> omega
  have hfollows : follows b0 b1 = true := (follows_eq h0 h1).mpr (by omega)
  have hchar : Char.ofNat (b0.toNat % 32 * 64 + payload b1) = c := by
    refine ofNat_of_toNat ?_
    rw [payload_of_toNat h1, h0]
    omega
  simp [decodeHead, not_lt_of_leadWidth, hwidth, hfollows, hchar]

theorem decodeHead_three {c : Char} {b0 b1 b2 : UInt8} {rest : List UInt8} (hlow : 2047 < c.toNat)
    (hhigh : c.toNat ≤ 65535) (h0 : b0.toNat = c.toNat / 4096 % 16 + 224)
    (h1 : b1.toNat = c.toNat / 64 % 64 + 128) (h2 : b2.toNat = c.toNat % 64 + 128) :
    decodeHead b0 (b1 :: b2 :: rest) = (c, 2) := by
  have hranges := toNat_ranges c
  have hwidth : leadWidth b0 = 3 := by
    rw [leadWidth_eq h0]
    split_ifs <;> omega
  have hfollows : follows b0 b1 = true := (follows_eq h0 h1).mpr (by omega)
  have hchar : Char.ofNat (b0.toNat % 16 * 4096 + payload b1 * 64 + payload b2) = c := by
    refine ofNat_of_toNat ?_
    rw [payload_of_toNat h1, payload_of_toNat h2, h0]
    omega
  simp [decodeHead, not_lt_of_leadWidth, hwidth, hfollows, isContinuation_of_toNat h2, hchar]

theorem decodeHead_four {c : Char} {b0 b1 b2 b3 : UInt8} {rest : List UInt8}
    (hlow : 65535 < c.toNat) (h0 : b0.toNat = c.toNat / 262144 % 8 + 240)
    (h1 : b1.toNat = c.toNat / 4096 % 64 + 128) (h2 : b2.toNat = c.toNat / 64 % 64 + 128)
    (h3 : b3.toNat = c.toNat % 64 + 128) :
    decodeHead b0 (b1 :: b2 :: b3 :: rest) = (c, 3) := by
  have hranges := toNat_ranges c
  have hwidth : leadWidth b0 = 4 := by
    rw [leadWidth_eq h0]
    split_ifs <;> omega
  have hfollows : follows b0 b1 = true := (follows_eq h0 h1).mpr (by omega)
  have hchar : Char.ofNat (b0.toNat % 8 * 262144 + payload b1 * 4096 + payload b2 * 64 +
      payload b3) = c := by
    refine ofNat_of_toNat ?_
    rw [payload_of_toNat h1, payload_of_toNat h2, payload_of_toNat h3, h0]
    omega
  simp [decodeHead, not_lt_of_leadWidth, hwidth, hfollows, isContinuation_of_toNat h2,
    isContinuation_of_toNat h3, hchar]

theorem decodeFrom_length (bs rest : List UInt8) :
    decodeFrom bs.length (bs ++ rest) = decodeFrom 0 rest := by
  induction bs with
  | nil => rfl
  | cons b bs ih => exact ih

theorem decodeFrom_of_decodeHead {c : Char} {b : UInt8} {bs rest : List UInt8}
    (h : decodeHead b (bs ++ rest) = (c, bs.length)) :
    decodeFrom 0 (b :: bs ++ rest) = c :: decodeFrom 0 rest := by
  rw [List.cons_append, decodeFrom, h, decodeFrom_length]

theorem decodeFrom_utf8EncodeChar (c : Char) (rest : List UInt8) :
    decodeFrom 0 (String.utf8EncodeChar c ++ rest) = c :: decodeFrom 0 rest := by
  have hranges := toNat_ranges c
  have hbyte : ∀ n, n < 256 → (UInt8.ofNat n).toNat = n := fun _ h => UInt8.toNat_ofNat_of_lt' h
  have hval : c.val.toNat = c.toNat := rfl
  unfold String.utf8EncodeChar
  dsimp only
  rw [hval]
  split
  · next h1 => exact decodeFrom_of_decodeHead (decodeHead_one h1 (hbyte _ (by omega)))
  · next h1 =>
    split
    · next h2 =>
      exact decodeFrom_of_decodeHead
        (decodeHead_two (by omega) h2 (hbyte _ (by omega)) (hbyte _ (by omega)))
    · next h2 =>
      split
      · next h3 =>
        exact decodeFrom_of_decodeHead (decodeHead_three (by omega) h3 (hbyte _ (by omega))
          (hbyte _ (by omega)) (hbyte _ (by omega)))
      · next h3 =>
        exact decodeFrom_of_decodeHead (decodeHead_four (by omega) (hbyte _ (by omega))
          (hbyte _ (by omega)) (hbyte _ (by omega)) (hbyte _ (by omega)))

theorem decodeFrom_encode (cs : List Char) :
    decodeFrom 0 (cs.flatMap String.utf8EncodeChar) = cs := by
  induction cs with
  | nil => rfl
  | cons c cs ih => rw [List.flatMap_cons, decodeFrom_utf8EncodeChar, ih]

theorem fromUtf8Lossy_bytes (s : String) : fromUtf8Lossy (bytes s) = s := by
  rw [fromUtf8Lossy, bytes, decodeFrom_encode, String.ofList_toList]

theorem bytes_injective : Function.Injective bytes := by
  intro s t h
  rw [← fromUtf8Lossy_bytes s, h, fromUtf8Lossy_bytes]

def fromUtf8 (bs : List UInt8) : Option (List Char) :=
  let cs := decodeFrom 0 bs
  if cs.flatMap String.utf8EncodeChar = bs then some cs else none

theorem fromUtf8_eq_some_iff {bs : List UInt8} {cs : List Char} :
    fromUtf8 bs = some cs ↔ cs.flatMap String.utf8EncodeChar = bs := by
  unfold fromUtf8
  constructor
  · intro h
    obtain ⟨hvalid, heq⟩ := Option.ite_none_right_eq_some.mp h
    cases heq
    exact hvalid
  · rintro rfl
    simp [decodeFrom_encode]

end Text
