import Mathlib

/-! # Reading bytes with length prefixes

A parser walks over a byte string with indices and slices that it computes from
the bytes themselves. An index or a slice out of range is a fault, and so is a
loop that does not end. The big-endian numbers and the length-prefixed fields
that it reads have encodings, and what they are read from is given back.
-/

namespace Wire

inductive Fault where
  | outOfRange
  | outOfFuel
deriving DecidableEq

abbrev Checked (α : Type) := Except Fault α

/-! ## Indices and slices -/

def index (data : List UInt8) (i : ℕ) : Checked UInt8 :=
  match data[i]? with
  | some b => .ok b
  | none => .error .outOfRange

def sliceFrom (data : List UInt8) (n : ℕ) : Checked (List UInt8) :=
  if n ≤ data.length then .ok (data.drop n) else .error .outOfRange

def sliceTo (data : List UInt8) (n : ℕ) : Checked (List UInt8) :=
  if n ≤ data.length then .ok (data.take n) else .error .outOfRange

def copyTo (data : List UInt8) (n : ℕ) (source : List UInt8) : Checked (List UInt8) :=
  if n ≤ data.length ∧ source.length = n then .ok (source ++ data.drop n) else .error .outOfRange

section Append

variable {a b : List UInt8} {n : ℕ} (h : a.length = n)
include h

theorem index_append (x : UInt8) : index (a ++ x :: b) n = .ok x := by
  subst h
  simp [index]

theorem sliceFrom_append : sliceFrom (a ++ b) n = .ok b := by
  subst h
  simp [sliceFrom]

theorem sliceTo_append : sliceTo (a ++ b) n = .ok a := by
  subst h
  simp [sliceTo]

end Append

@[simp] theorem ok_bind {α β : Type} (a : α) (f : α → Checked β) : (.ok a >>= f) = f a := rfl

/-! ## Loops -/

/-- What one round of a loop comes to: another round, or the value of the loop. -/
inductive Flow (σ α : Type) where
  | goOn (s : σ)
  | leave (a : α)

def loop {σ α : Type} (round : σ → Checked (Flow σ α)) : ℕ → σ → Checked α
  | 0, _ => .error .outOfFuel
  | fuel + 1, s => do
      match ← round s with
      | .goOn s => loop round fuel s
      | .leave a => pure a

section Rules

variable {σ α β : Type}

theorem loop_of_goOn {round : σ → Checked (Flow σ α)} {fuel : ℕ} {s s' : σ}
    (h : round s = .ok (.goOn s')) : loop round (fuel + 1) s = loop round fuel s' := by
  rw [loop, h]
  rfl

theorem loop_of_leave {round : σ → Checked (Flow σ α)} {fuel : ℕ} {s : σ} {a : α}
    (h : round s = .ok (.leave a)) : loop round (fuel + 1) s = .ok a := by
  rw [loop, h]
  rfl

inductive Visits (round : σ → Checked (Flow σ α)) (s : σ) : σ → Prop where
  | start : Visits round s s
  | goOn {t t' : σ} : Visits round s t → round t = .ok (.goOn t') → Visits round s t'

theorem Visits.invariant {round : σ → Checked (Flow σ α)} {I : σ → Prop} {s t : σ}
    (h : Visits round s t) (hround : ∀ t t', I t → round t = .ok (.goOn t') → I t') (hI : I s) :
    I t := by
  induction h with
  | start => exact hI
  | goOn _ hstep ih => exact hround _ _ ih hstep

/-! ## Computations without a fault -/

/-- The round was the last one and gave a value of the kind, or it kept the invariant and made the
state smaller. -/
def Flow.Advances (I : σ → Prop) (measure : σ → ℕ) (P : α → Prop) (s : σ) : Flow σ α → Prop
  | .leave a => P a
  | .goOn s' => I s' ∧ measure s' < measure s

/-- The computation has a value, and the value satisfies the condition. -/
def Gives (x : Checked α) (P : α → Prop) : Prop := ∃ a, x = .ok a ∧ P a

namespace Gives

variable {P : α → Prop} {Q : β → Prop} {data : List UInt8}

theorem pure {a : α} (h : P a) : Gives (Pure.pure a) P := ⟨a, rfl, h⟩

theorem bind {x : Checked α} {f : α → Checked β} (hx : Gives x P) (hf : ∀ a, P a → Gives (f a) Q) :
    Gives (x >>= f) Q := by
  obtain ⟨a, rfl, ha⟩ := hx
  exact hf a ha

theorem ite {c : Prop} [Decidable c] {x y : Checked α} (hx : c → Gives x P)
    (hy : ¬c → Gives y P) : Gives (if c then x else y) P := by
  split
  · next h => exact hx h
  · next h => exact hy h

theorem index {f : UInt8 → Checked β} {i : ℕ} (h : i < data.length)
    (hf : ∀ b, data[i]? = some b → Gives (f b) Q) : Gives (Wire.index data i >>= f) Q :=
  bind ⟨data[i], by simp [Wire.index, h], List.getElem?_eq_getElem h⟩ hf

theorem sliceFrom {f : List UInt8 → Checked β} {n : ℕ} (h : n ≤ data.length)
    (hf : ∀ rest : List UInt8, rest.length = data.length - n → Gives (f rest) Q) :
    Gives (Wire.sliceFrom data n >>= f) Q :=
  bind ⟨data.drop n, if_pos h, List.length_drop⟩ hf

theorem sliceTo {f : List UInt8 → Checked β} {n : ℕ} (h : n ≤ data.length)
    (hf : ∀ part : List UInt8, part.length = n → Gives (f part) Q) :
    Gives (Wire.sliceTo data n >>= f) Q :=
  bind ⟨data.take n, if_pos h, List.length_take_of_le h⟩ hf

/-- A loop gives what its last round gives when the others keep the invariant and make the state
smaller. -/
theorem loop {round : σ → Checked (Flow σ α)} {I : σ → Prop} (measure : σ → ℕ)
    (hround : ∀ s, I s → Gives (round s) (Flow.Advances I measure P s))
    {fuel : ℕ} {s : σ} (hI : I s) (hfuel : measure s < fuel) :
    Gives (Wire.loop round fuel s) P := by
  induction fuel generalizing s with
  | zero => omega
  | succ fuel ih =>
    obtain ⟨flow, hflow, h⟩ := hround s hI
    cases flow with
    | leave a => exact ⟨a, loop_of_leave hflow, h⟩
    | goOn s' =>
      rw [loop_of_goOn hflow]
      exact ih h.1 (by have := h.2; omega)

end Gives

end Rules

/-! ## Big-endian numbers and length-prefixed fields -/

def u16 (b0 b1 : UInt8) : ℕ := b0.toNat <<< 8 ||| b1.toNat

def u24 (b0 b1 b2 : UInt8) : ℕ := b0.toNat <<< 16 ||| b1.toNat <<< 8 ||| b2.toNat

theorem u16_eq (b0 b1 : UInt8) : u16 b0 b1 = b0.toNat * 256 + b1.toNat := by
  rw [u16, ← Nat.shiftLeft_add_eq_or_of_lt b1.toNat_lt, Nat.shiftLeft_eq]

theorem u16_lt (b0 b1 : UInt8) : u16 b0 b1 < 2 ^ 16 := by
  have h0 := b0.toNat_lt
  have h1 := b1.toNat_lt
  rw [u16_eq]
  omega

theorem u24_eq (b0 b1 b2 : UInt8) :
    u24 b0 b1 b2 = b0.toNat * 65536 + b1.toNat * 256 + b2.toNat := by
  have h : b1.toNat <<< 8 ||| b2.toNat < 2 ^ 16 := u16_lt b1 b2
  rw [u24, Nat.lor_assoc, ← Nat.shiftLeft_add_eq_or_of_lt h, Nat.shiftLeft_eq]
  have := u16_eq b1 b2
  rw [u16] at this
  omega

def be16 (n : ℕ) : List UInt8 := [UInt8.ofNat (n / 2 ^ 8), UInt8.ofNat n]

def be24 (n : ℕ) : List UInt8 :=
  [UInt8.ofNat (n / 2 ^ 16), UInt8.ofNat (n / 2 ^ 8), UInt8.ofNat n]

@[simp] theorem length_be16 (n : ℕ) : (be16 n).length = 2 := rfl

@[simp] theorem length_be24 (n : ℕ) : (be24 n).length = 3 := rfl

theorem u16_ofNat {n : ℕ} (h : n < 2 ^ 16) : u16 (UInt8.ofNat (n / 2 ^ 8)) (UInt8.ofNat n) = n := by
  rw [u16_eq, UInt8.toNat_ofNat', UInt8.toNat_ofNat']
  omega

theorem u24_ofNat {n : ℕ} (h : n < 2 ^ 24) :
    u24 (UInt8.ofNat (n / 2 ^ 16)) (UInt8.ofNat (n / 2 ^ 8)) (UInt8.ofNat n) = n := by
  rw [u24_eq, UInt8.toNat_ofNat', UInt8.toNat_ofNat', UInt8.toNat_ofNat']
  omega

def vec8 (field : List UInt8) : List UInt8 := UInt8.ofNat field.length :: field

def vec16 (field : List UInt8) : List UInt8 := be16 field.length ++ field

@[simp] theorem length_vec8 (field : List UInt8) : (vec8 field).length = field.length + 1 := rfl

@[simp] theorem length_vec16 (field : List UInt8) : (vec16 field).length = field.length + 2 := by
  simp [vec16, Nat.add_comm]

end Wire
