import SentirumLb.Admin.Server
import SentirumLb.Lib.Lines
import SentirumLb.Lib.Utf8

/-! # The comparison of tokens

The shorter of two texts is filled up with zero bytes, and the lengths are
compared in eight bits. So a text passes for another one when it is that text
with a multiple of 256 zero bytes behind it.
-/

namespace SentirumLb.Admin

section Padding

variable {α : Type*} {d : α} {xs ys : List α}

theorem getD_eq_iff_append_replicate (hle : xs.length ≤ ys.length) :
    (∀ i, xs.getD i d = ys.getD i d) ↔ ys = xs ++ List.replicate (ys.length - xs.length) d := by
  induction xs generalizing ys with
  | nil =>
    rw [List.nil_append, List.length_nil, Nat.sub_zero, List.eq_replicate_iff]
    constructor
    · intro h
      refine ⟨rfl, fun y hy => ?_⟩
      obtain ⟨i, hi, rfl⟩ := List.getElem_of_mem hy
      have hi' := h i
      rw [List.getD_eq_getElem _ _ hi, List.getD_nil] at hi'
      exact hi'.symm
    · rintro ⟨-, h⟩ i
      by_cases hi : i < ys.length
      · rw [List.getD_eq_getElem _ _ hi, h _ (List.getElem_mem hi), List.getD_nil]
      · rw [List.getD_eq_default _ _ (not_lt.mp hi), List.getD_nil]
  | cons x xs ih =>
    cases ys with
    | nil => exact absurd hle (by simp)
    | cons y ys =>
      have hle' : xs.length ≤ ys.length := Nat.le_of_succ_le_succ hle
      rw [List.length_cons, List.length_cons, Nat.add_sub_add_right, List.cons_append,
        List.cons.injEq, ← ih hle']
      constructor
      · intro h
        exact ⟨(h 0).symm, fun i => h (i + 1)⟩
      · rintro ⟨rfl, h⟩ i
        cases i with
        | zero => rfl
        | succ i => exact h i

end Padding

theorem foldl_or_eq_zero_iff {l : List ℕ} {f : ℕ → UInt8} {d : UInt8} :
    l.foldl (fun d i => d ||| f i) d = 0 ↔ d = 0 ∧ ∀ i ∈ l, f i = 0 := by
  induction l generalizing d with
  | nil => simp
  | cons i l ih => rw [List.foldl_cons, ih, UInt8.or_eq_zero_iff, List.forall_mem_cons, and_assoc]

/-- The lengths agree in their last eight bits, and the texts in their bytes, with zeros behind the
shorter one. -/
theorem constantTimeEq_iff_getD {a b : String} : constantTimeEq a b = true ↔
    (Text.bytes a).length % 256 = (Text.bytes b).length % 256 ∧
      ∀ i, (Text.bytes a).getD i 0 = (Text.bytes b).getD i 0 := by
  have hlen : ((Text.bytes a).length ^^^ (Text.bytes b).length).toUInt8 = 0 ↔
      (Text.bytes a).length % 256 = (Text.bytes b).length % 256 := by
    rw [← UInt8.toNat_inj, Nat.toUInt8, UInt8.toNat_ofNat', Nat.xor_mod_two_pow]
    exact Nat.xor_eq_zero_iff
  unfold constantTimeEq
  dsimp only
  rw [beq_iff_eq, foldl_or_eq_zero_iff, hlen]
  refine and_congr_right fun _ => ?_
  constructor
  · intro h i
    by_cases hi : i < max (Text.bytes a).length (Text.bytes b).length
    · exact UInt8.xor_eq_zero_iff.mp (h i (List.mem_range.mpr hi))
    · rw [not_lt, max_le_iff] at hi
      rw [List.getD_eq_default _ _ hi.1, List.getD_eq_default _ _ hi.2]
  · intro h i _
    exact UInt8.xor_eq_zero_iff.mpr (h i)

/-! ## Texts with zero bytes behind them -/

def nuls (n : ℕ) : String := String.ofList (List.replicate n '\x00')

theorem bytes_nuls (n : ℕ) : Text.bytes (nuls n) = List.replicate n 0 := by
  have hone : String.utf8EncodeChar '\x00' = [0] := by decide
  induction n with
  | zero => rfl
  | succ n ih =>
    rw [Text.bytes, nuls, String.toList_ofList] at ih ⊢
    rw [List.replicate_succ, List.flatMap_cons, ih, hone]
    rfl

/-- One of the texts is the other one with a positive multiple of 256 NULs behind it. -/
def NulPadded (a b : String) : Prop :=
  ∃ k > 0, a = b ++ nuls (256 * k) ∨ b = a ++ nuls (256 * k)

theorem NulPadded.ne {a b : String} (h : NulPadded a b) : a ≠ b := by
  rintro rfl
  obtain ⟨k, hk, h | h⟩ := h <;>
  · have hlen := congrArg (fun s => (Text.bytes s).length) h
    simp only [Text.bytes_append, bytes_nuls, List.length_append, List.length_replicate] at hlen
    omega

theorem constantTimeEq_iff_of_le {a b : String}
    (hle : (Text.bytes a).length ≤ (Text.bytes b).length) :
    constantTimeEq a b = true ↔ ∃ k, b = a ++ nuls (256 * k) := by
  rw [constantTimeEq_iff_getD, getD_eq_iff_append_replicate hle]
  constructor
  · rintro ⟨hmod, hbytes⟩
    refine ⟨((Text.bytes b).length - (Text.bytes a).length) / 256, Text.bytes_injective ?_⟩
    rw [Text.bytes_append, bytes_nuls, Nat.mul_div_cancel' ?_]
    · exact hbytes
    · exact (Nat.modEq_iff_dvd' hle).mp hmod
  · rintro ⟨k, rfl⟩
    simp only [Text.bytes_append, bytes_nuls, List.length_append, List.length_replicate,
      Nat.add_mul_mod_self_left, Nat.add_sub_cancel_left, and_self]

theorem constantTimeEq_comm (a b : String) : constantTimeEq a b = constantTimeEq b a := by
  rw [Bool.eq_iff_iff, constantTimeEq_iff_getD, constantTimeEq_iff_getD]
  simp only [eq_comm]

/-- The comparison is true of equal texts, and of a text with NULs behind it. -/
theorem constantTimeEq_iff {a b : String} :
    constantTimeEq a b = true ↔ a = b ∨ NulPadded a b := by
  have hnil : ∀ s : String, s ++ nuls (256 * 0) = s := fun s => String.append_empty
  constructor
  · intro h
    rcases le_total (Text.bytes a).length (Text.bytes b).length with hle | hle
    · obtain ⟨k, hk⟩ := (constantTimeEq_iff_of_le hle).mp h
      cases k with
      | zero => exact .inl (hk.trans (hnil a)).symm
      | succ k => exact .inr ⟨k + 1, k.succ_pos, .inr hk⟩
    · rw [constantTimeEq_comm] at h
      obtain ⟨k, hk⟩ := (constantTimeEq_iff_of_le hle).mp h
      cases k with
      | zero => exact .inl (hk.trans (hnil b))
      | succ k => exact .inr ⟨k + 1, k.succ_pos, .inl hk⟩
  · have hpad : ∀ (s : String) (k : ℕ), constantTimeEq s (s ++ nuls (256 * k)) = true := by
      intro s k
      exact (constantTimeEq_iff_of_le (by simp)).mpr ⟨k, rfl⟩
    rintro (rfl | ⟨k, -, h | h⟩)
    · exact constantTimeEq_iff_getD.mpr ⟨rfl, fun _ => rfl⟩
    · rw [h, constantTimeEq_comm]
      exact hpad b k
    · rw [h]
      exact hpad a k

/-! ## Authentication -/

section Paths

variable [Bcrypt] {a b : String}

/-- Wherever the text `a` is presented and compared with the configured `b`, it passes just when
it is `b`. -/
structure PassesAsItself (a b : String) : Prop where
  compare : constantTimeEq a b = true ↔ a = b
  header : ∀ r : AdminRequest, (r.bearer = some a ∨ r.xAdminToken = some a) →
    (∀ t, r.bearer = some t ∨ r.xAdminToken = some t → t = a) →
    (r.tokenAuth b = true ↔ b ≠ "" ∧ a = b)
  query : ∀ c : AuthCall, c.expected = b → c.request.queryToken = some a →
    (c.queryIsAdmin = true ↔ b ≠ "" ∧ a = b)
  password : Text.startsWith b "$2" = false → (verifyPassword a b = true ↔ a = b)
  login : ∀ (config : ServerConfig) (req : LoginRequest), config.adminToken = b →
    config.adminUsers = [] → req.password = a →
    ((authenticate config req).isSome = true ↔ b ≠ "" ∧ a = b)

theorem passesAsItself_of_compare (h : constantTimeEq a b = true ↔ a = b) :
    PassesAsItself a b where
  compare := h
  header r hpresent honly := by
    rw [AdminRequest.tokenAuth, Bool.and_eq_true, bne_iff_ne, Bool.or_eq_true,
      Option.any_eq_true, Option.any_eq_true]
    refine and_congr_right fun _ => ?_
    rw [← h]
    constructor
    · rintro (⟨t, ht, hpass⟩ | ⟨t, ht, hpass⟩)
      · exact honly t (.inl ht) ▸ hpass
      · exact honly t (.inr ht) ▸ hpass
    · intro hpass
      exact hpresent.imp (fun hbearer => ⟨a, hbearer, hpass⟩) fun htoken => ⟨a, htoken, hpass⟩
  query c hexpected hquery := by
    rw [AuthCall.queryIsAdmin, hexpected, hquery, Bool.and_eq_true, bne_iff_ne, Option.any_some, h]
  password hplain := by
    rw [verifyPassword, hplain, if_neg Bool.false_ne_true, h]
  login config req htoken husers hpassword := by
    rw [authenticate, htoken, husers, hpassword, List.any_nil, List.find?_nil,
      if_neg Bool.false_ne_true, Option.isSome_ite, Bool.and_eq_true, bne_iff_ne, h]

/-- A text passes as itself for a configured one exactly when neither is the other one with a
positive multiple of 256 NULs behind it. -/
theorem passesAsItself_iff (a b : String) : PassesAsItself a b ↔ ¬NulPadded a b := by
  constructor
  · intro h hpadded
    exact hpadded.ne (h.compare.mp (constantTimeEq_iff.mpr (.inr hpadded)))
  · intro h
    exact passesAsItself_of_compare (constantTimeEq_iff.trans (or_iff_left h))

end Paths

/-! ## The query of an impostor -/

def encodedNuls (n : ℕ) : String := String.ofList (List.replicate n ['%', '0', '0']).flatten

def paddedQuery (token : String) (n : ℕ) : String := "token=" ++ (token ++ encodedNuls n)

theorem bytes_encodedNuls (n : ℕ) :
    Text.bytes (encodedNuls n) = (List.replicate n [0x25, 0x30, 0x30]).flatten := by
  have hone : ['%', '0', '0'].flatMap String.utf8EncodeChar = [0x25, 0x30, 0x30] := by decide
  rw [Text.bytes, encodedNuls, String.toList_ofList]
  induction n with
  | zero => rfl
  | succ n ih =>
    rw [List.replicate_succ, List.flatten_cons, List.flatMap_append, hone, ih,
      List.replicate_succ, List.flatten_cons]

theorem mem_encodedNuls {n : ℕ} {c : Char} (h : c ∈ (encodedNuls n).toList) :
    c = '%' ∨ c = '0' := by
  rw [encodedNuls, String.toList_ofList, List.mem_flatten] at h
  obtain ⟨l, hl, hc⟩ := h
  rw [List.eq_of_mem_replicate hl] at hc
  simpa using hc

theorem percentDecode_append_nuls {bs : List UInt8} (hbs : ∀ b ∈ bs, b ≠ 0x25 ∧ b ≠ 0x2B) (n : ℕ) :
    percentDecode (bs ++ (List.replicate n [0x25, 0x30, 0x30]).flatten) =
      bs ++ List.replicate n 0 := by
  induction bs with
  | nil =>
    induction n with
    | zero => rfl
    | succ n ih =>
      rw [List.nil_append] at ih ⊢
      rw [List.replicate_succ, List.flatten_cons, List.nil_append, List.replicate_succ]
      exact congrArg (0 :: ·) ih
  | cons b bs ih =>
    obtain ⟨⟨hpercent, hplus⟩, hrest⟩ := List.forall_mem_cons.mp hbs
    rw [List.cons_append, percentDecode.eq_def]
    dsimp only
    rw [if_neg hpercent, if_neg hplus, ih hrest, List.cons_append]

theorem queryToken_paddedQuery {token : String} (hamp : '&' ∉ token.toList)
    (hbytes : ∀ b ∈ Text.bytes token, b ≠ 0x25 ∧ b ≠ 0x2B) (n : ℕ) :
    (AdminRequest.mk none none true (some (paddedQuery token n))).queryToken =
      some (token ++ nuls n) := by
  have hsplit : Text.split '&' (paddedQuery token n) = [paddedQuery token n] := by
    refine Text.split_eq_singleton fun hmem => ?_
    rw [paddedQuery, String.toList_append, String.toList_append, List.mem_append,
      List.mem_append] at hmem
    rcases hmem with hmem | hmem | hmem
    · exact absurd hmem (by decide +kernel)
    · exact hamp hmem
    · exact absurd (mem_encodedNuls hmem) (by decide)
  have honce : Text.splitOnce '=' (paddedQuery token n) =
      some ("token", token ++ encodedNuls n) := by
    rw [Text.splitOnce_eq_some_iff, paddedQuery, String.toList_append]
    exact ⟨by simp, by simp⟩
  unfold AdminRequest.queryToken
  rw [if_pos rfl]
  simp only [Option.bind_eq_bind, Option.bind_some, hsplit, List.filterMap_cons, honce,
    List.filterMap_nil, List.find?_cons, beq_self_eq_true]
  rw [Text.bytes_append, bytes_encodedNuls, percentDecode_append_nuls hbytes, ← bytes_nuls,
    ← Text.bytes_append]
  exact congrArg some (Text.fromUtf8Lossy_bytes _)

def paddedCall : AuthCall := ⟨⟨none, none, true, some (paddedQuery "secret" 256)⟩, "secret", .query⟩

/-- The padded token is not the admin token, and is accepted for it. -/
theorem paddedCall_accepted : paddedCall.request.queryToken = some ("secret" ++ nuls 256) ∧
    "secret" ++ nuls 256 ≠ "secret" ∧ constantTimeEq ("secret" ++ nuls 256) "secret" = true ∧
    paddedCall.queryIsAdmin = true := by
  have hpadded : NulPadded ("secret" ++ nuls 256) "secret" := ⟨1, one_pos, .inl rfl⟩
  have hpass := constantTimeEq_iff.mpr (.inr hpadded)
  have htoken : paddedCall.request.queryToken = some ("secret" ++ nuls 256) :=
    queryToken_paddedQuery (by decide +kernel) (by decide +kernel) 256
  refine ⟨htoken, hpadded.ne, hpass, ?_⟩
  rw [AuthCall.queryIsAdmin, htoken, Option.any_some]
  exact Bool.and_eq_true_iff.mpr ⟨by decide, hpass⟩

end SentirumLb.Admin
