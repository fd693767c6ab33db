import Mathlib.Algebra.Order.Field.Basic
import Mathlib.Tactic.Linarith
import Mathlib.Tactic.Ring

/-! A bucket that is refilled only when it is touched, over any ordered field.
The level may go below zero; only the capacity bounds it from above. -/

namespace LazyBucket

variable {K : Type*} [Field K] [LinearOrder K]

/-- The level after a lazy refill. A clock that went back earns nothing. -/
def refill (capacity rate tokens elapsed : K) : K :=
  min capacity (tokens + max 0 elapsed * rate)

theorem refill_le_capacity (capacity rate tokens elapsed : K) :
    refill capacity rate tokens elapsed ≤ capacity := min_le_left _ _

theorem refill_le_add (capacity rate tokens elapsed : K) :
    refill capacity rate tokens elapsed ≤ tokens + max 0 elapsed * rate := min_le_right _ _

/-- What was charged so far is covered by a full bucket and the time that passed. -/
def Solvent (capacity rate tokens charged span : K) : Prop :=
  tokens + charged ≤ capacity + rate * span

theorem solvent_full (capacity rate : K) : Solvent capacity rate capacity 0 0 := by
  simp [Solvent]

variable [IsStrictOrderedRing K]

theorem le_refill {capacity rate tokens : K} (hrate : 0 ≤ rate) (htokens : tokens ≤ capacity)
    (elapsed : K) : tokens ≤ refill capacity rate tokens elapsed := by
  have hearned : 0 ≤ max 0 elapsed * rate := mul_nonneg (le_max_left _ _) hrate
  exact le_min htokens (by linarith)

@[simp] theorem refill_full {capacity rate : K} (hrate : 0 ≤ rate) (elapsed : K) :
    refill capacity rate capacity elapsed = capacity :=
  le_antisymm (refill_le_capacity _ _ _ _) (le_refill hrate le_rfl elapsed)

theorem refill_refill {capacity rate : K} (hrate : 0 ≤ rate) (tokens : K) {first second : K}
    (hfirst : 0 ≤ first) (hsecond : 0 ≤ second) :
    refill capacity rate (refill capacity rate tokens first) second =
      refill capacity rate tokens (first + second) := by
  have hearned : 0 ≤ second * rate := mul_nonneg hsecond hrate
  have hsum : tokens + (first + second) * rate = tokens + first * rate + second * rate := by ring
  simp only [refill, max_eq_right hfirst, max_eq_right hsecond,
    max_eq_right (add_nonneg hfirst hsecond), hsum, ← min_add_add_right, ← min_assoc]
  rw [min_eq_left (show capacity ≤ capacity + second * rate by linarith)]

theorem refill_eq_refill_iff {capacity rate tokens first second : K} (hrate : 0 < rate)
    (hfirst : 0 ≤ first) (h : first < second) :
    refill capacity rate tokens second = refill capacity rate tokens first ↔
      capacity ≤ tokens + first * rate := by
  have hsecond : 0 ≤ second := hfirst.trans h.le
  have hless : tokens + first * rate < tokens + second * rate := by
    have := mul_lt_mul_of_pos_right h hrate
    linarith
  simp only [refill, max_eq_right hfirst, max_eq_right hsecond]
  constructor
  · intro heq
    by_contra hnot
    have hlow := not_le.mp hnot
    rw [min_eq_right hlow.le] at heq
    have hgt : tokens + first * rate < min capacity (tokens + second * rate) := lt_min hlow hless
    exact absurd heq hgt.ne'
  · intro hfull
    rw [min_eq_left hfull, min_eq_left (hfull.trans hless.le)]

theorem Solvent.refill {capacity rate tokens charged span elapsed : K}
    (h : Solvent capacity rate tokens charged span) (helapsed : 0 ≤ elapsed) :
    Solvent capacity rate (refill capacity rate tokens elapsed) charged (span + elapsed) := by
  have hle := refill_le_add capacity rate tokens elapsed
  rw [max_eq_right helapsed] at hle
  unfold Solvent at h ⊢
  linarith [mul_add rate span elapsed, mul_comm elapsed rate]

theorem Solvent.charge {capacity rate tokens charged span : K}
    (h : Solvent capacity rate tokens charged span) (amount : K) :
    Solvent capacity rate (tokens - amount) (charged + amount) span := by
  unfold Solvent at h ⊢
  linarith

theorem Solvent.mono {capacity rate tokens less charged span : K}
    (h : Solvent capacity rate tokens charged span) (hle : less ≤ tokens) :
    Solvent capacity rate less charged span := le_trans (by linarith) h

theorem Solvent.charged_le {capacity rate tokens charged span : K}
    (h : Solvent capacity rate tokens charged span) (htokens : 0 ≤ tokens) :
    charged ≤ capacity + rate * span := le_trans (by linarith) h

end LazyBucket
