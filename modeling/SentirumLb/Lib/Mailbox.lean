import Mathlib

/-! # Mailboxes

Several senders share a mailbox with room for a number of messages, and one
receiver takes them out in order. A sender waits with the messages that are not
in yet. In whatever order things happen, the messages of each sender are taken
out in the order it began to send them, and none is lost or taken out twice.
-/

/-- The messages that each sender waits with, and those that are in, with their senders. -/
structure Mailbox (ι μ : Type) where
  held : ι → List μ
  queue : List (ι × μ)
  isOpen : Bool

namespace Mailbox

variable {ι μ : Type} [DecidableEq ι]

omit [DecidableEq ι] in
def new : Mailbox ι μ := ⟨fun _ => [], [], true⟩

def hold (i : ι) (ms : List μ) (b : Mailbox ι μ) : Mailbox ι μ :=
  { b with held := Function.update b.held i ms }

def send (cap : ℕ) (i : ι) (b : Mailbox ι μ) : Option (Mailbox ι μ) :=
  match b.held i with
  | [] => none
  | m :: ms =>
      if b.isOpen ∧ b.queue.length < cap then
        some { b.hold i ms with queue := b.queue ++ [(i, m)] }
      else none

/-- The first message that a sender waits with cannot go in any more. -/
def refuse (i : ι) (b : Mailbox ι μ) : Option (μ × Mailbox ι μ) :=
  match b.held i with
  | [] => none
  | m :: ms => if b.isOpen then none else some (m, b.hold i ms)

omit [DecidableEq ι] in
def receive (b : Mailbox ι μ) : Option ((ι × μ) × Mailbox ι μ) :=
  match b.queue with
  | [] => none
  | m :: ms => some (m, { b with queue := ms })

omit [DecidableEq ι] in
/-- The receiver goes away, with what is in. -/
def close (b : Mailbox ι μ) : Mailbox ι μ :=
  { b with queue := [], isOpen := false }

def sentBy (i : ι) (ms : List (ι × μ)) : List μ :=
  (ms.filter fun m => m.1 = i).map (·.2)

omit [DecidableEq ι] in
structure Delivers [DecidableEq ι] (cap : ℕ) (begun : ι → List μ) (taken : List (ι × μ))
    (b : Mailbox ι μ) : Prop where
  room : b.queue.length ≤ cap
  conserved : b.isOpen → ∀ i, begun i = sentBy i (taken ++ b.queue) ++ b.held i
  ordered : ∀ i, sentBy i taken <+: begun i
  emptied : b.isOpen = false → b.queue = []

variable {cap : ℕ} {begun : ι → List μ} {taken : List (ι × μ)} {b b' : Mailbox ι μ} {i : ι}

theorem sentBy_append (i : ι) (ms ms' : List (ι × μ)) :
    sentBy i (ms ++ ms') = sentBy i ms ++ sentBy i ms' := by
  simp [sentBy]

theorem sentBy_singleton_self (i : ι) (m : μ) : sentBy i [(i, m)] = [m] := by
  simp [sentBy]

theorem sentBy_singleton_of_ne {i j : ι} (h : j ≠ i) (m : μ) : sentBy i [(j, m)] = [] := by
  simp [sentBy, h]

theorem mem_sentBy {i : ι} {m : μ} {ms : List (ι × μ)} : m ∈ sentBy i ms ↔ (i, m) ∈ ms := by
  simp [sentBy]

theorem delivers_new (cap : ℕ) : (new : Mailbox ι μ).Delivers cap (fun _ => []) [] := by
  constructor <;> simp [new, sentBy]

theorem Delivers.hold (h : b.Delivers cap begun taken) (hheld : b.held i = []) (ms : List μ) :
    (b.hold i ms).Delivers cap (Function.update begun i (begun i ++ ms)) taken := by
  constructor
  · exact h.room
  · intro hopen j
    have hj := h.conserved hopen j
    by_cases hji : j = i
    · subst hji
      simpa [Mailbox.hold, hheld] using hj
    · simpa [Mailbox.hold, hji] using hj
  · intro j
    by_cases hji : j = i
    · subst hji
      rw [Function.update_self]
      exact (h.ordered j).trans (List.prefix_append _ _)
    · rw [Function.update_of_ne hji]
      exact h.ordered j
  · exact h.emptied

theorem Delivers.send (h : b.Delivers cap begun taken) (hsend : b.send cap i = some b') :
    b'.Delivers cap begun taken := by
  unfold Mailbox.send at hsend
  split at hsend
  · cases hsend
  · next m ms hheld =>
    split at hsend
    · next hroom =>
      cases hsend
      constructor
      · change (b.queue ++ [(i, m)]).length ≤ cap
        rw [List.length_append]
        exact hroom.2
      · intro hopen j
        change begun j = sentBy j (taken ++ (b.queue ++ [(i, m)])) ++ Function.update b.held i ms j
        rw [h.conserved hopen j, ← List.append_assoc, sentBy_append _ (taken ++ b.queue)]
        by_cases hji : j = i
        · subst hji
          rw [sentBy_singleton_self, hheld, Function.update_self, List.append_assoc]
          rfl
        · rw [sentBy_singleton_of_ne (Ne.symm hji), Function.update_of_ne hji, List.append_nil]
      · exact h.ordered
      · intro hclosed
        exact absurd hroom.1 (ne_true_of_eq_false hclosed)
    · cases hsend

theorem Delivers.refuse (h : b.Delivers cap begun taken) {m : μ}
    (hrefuse : b.refuse i = some (m, b')) : b'.Delivers cap begun taken := by
  unfold Mailbox.refuse at hrefuse
  split at hrefuse
  · cases hrefuse
  · split at hrefuse
    · cases hrefuse
    · next hclosed =>
      cases hrefuse
      exact ⟨h.room, fun hopen => absurd hopen hclosed, h.ordered, h.emptied⟩

theorem Delivers.receive (h : b.Delivers cap begun taken) {m : ι × μ}
    (hreceive : b.receive = some (m, b')) : b'.Delivers cap begun (taken ++ [m]) := by
  unfold Mailbox.receive at hreceive
  split at hreceive
  · cases hreceive
  · next m ms hqueue =>
    cases hreceive
    have hopen : b.isOpen := by
      by_contra hclosed
      rw [h.emptied (by simpa using hclosed)] at hqueue
      cases hqueue
    have hconserved : ∀ j, begun j = sentBy j (taken ++ [m] ++ ms) ++ b.held j := by
      intro j
      rw [h.conserved hopen j, hqueue, List.append_assoc]
      rfl
    constructor
    · have hroom := h.room
      rw [hqueue] at hroom
      exact (Nat.le_succ _).trans hroom
    · exact fun _ => hconserved
    · intro j
      rw [hconserved j, sentBy_append _ (taken ++ [m]), List.append_assoc]
      exact List.prefix_append _ _
    · intro hclosed
      exact absurd hopen (ne_true_of_eq_false hclosed)

theorem Delivers.close (h : b.Delivers cap begun taken) : b.close.Delivers cap begun taken := by
  refine ⟨Nat.zero_le _, ?_, h.ordered, fun _ => rfl⟩
  rintro ⟨⟩

theorem Delivers.mem_begun (h : b.Delivers cap begun taken) {m : μ} (hm : (i, m) ∈ taken) :
    m ∈ begun i :=
  (h.ordered i).subset (mem_sentBy.mpr hm)

end Mailbox
