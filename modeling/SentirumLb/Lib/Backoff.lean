import Mathlib

/-! # Waiting longer after each failure

The wait starts with one second, doubles with each failure up to a bound, and
starts over with a success. So it depends only on how many failures there were
in a row.
-/

namespace Backoff

/-- The wait after some failures in a row. -/
def wait (cap failures : ℕ) : ℕ := min (2 ^ failures) cap

def next (cap secs : ℕ) : ℕ := min (secs * 2) cap

def failures (outcomes : List Bool) : ℕ := (outcomes.rtakeWhile (! ·)).length

@[simp] theorem wait_zero {cap : ℕ} (hcap : 0 < cap) : wait cap 0 = 1 := by
  rw [wait, pow_zero]
  exact min_eq_left hcap

theorem next_wait (cap n : ℕ) : next cap (wait cap n) = wait cap (n + 1) := by
  unfold next wait
  rw [pow_succ]
  omega

theorem failures_concat (outcomes : List Bool) (ok : Bool) :
    failures (outcomes ++ [ok]) = if ok then 0 else failures outcomes + 1 := by
  unfold failures
  cases ok with
  | true => rw [List.rtakeWhile_concat_neg _ _ _ (by simp)]; rfl
  | false => rw [List.rtakeWhile_concat_pos _ _ _ (by simp)]; simp

end Backoff
