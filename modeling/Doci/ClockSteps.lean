import Doci.Reconciliation

/-! The bucket on a server clock that may step back. -/

namespace Doci

open LazyBucket

inductive BucketOp where
  | acquire (requested : Int)
  | adjust (delta : Int)

/-- The operation on a key that is still there: its expiry is left out. -/
def BucketOp.run (cfg : BucketConfig) (now : ℚ) (key : BucketKey) : BucketOp → BucketKey
  | acquire requested => (acquireLua cfg requested now key).1
  | adjust delta => adjustLua cfg delta now key

/-- What an operation leaves of the tokens that it finds. -/
def BucketOp.leaves (cfg : BucketConfig) (tokens : ℚ) : BucketOp → ℚ
  | acquire requested => if requested ≤ tokens then tokens - requested else tokens
  | adjust delta => min cfg.capacity (tokens - delta)

/-- The tokens that an operation hands out; a refund is negative. -/
def BucketOp.charge (tokens : ℚ) : BucketOp → Int
  | acquire requested => if requested ≤ tokens then requested else 0
  | adjust delta => delta

/-- The refill that an operation credits before it does anything else. -/
def credited (cfg : BucketConfig) (now : ℚ) (key : BucketKey) : ℚ :=
  available cfg now key - balance cfg key

/-- The refill credited by an operation at `first` and one at `second`. -/
def creditedTwice (cfg : BucketConfig) (op : BucketOp) (first second : ℚ) (h : BucketHash) : ℚ :=
  credited cfg first (some h) + credited cfg second (op.run cfg first (some h))

/-- Operations in turn, each with its reading of the clock. -/
abbrev BucketSchedule := List (ℚ × BucketOp)

def runOps (cfg : BucketConfig) : BucketSchedule → BucketKey → BucketKey
  | [], key => key
  | (now, op) :: ops, key => runOps cfg ops (op.run cfg now key)

/-- The balances that the operations see. -/
def seen (cfg : BucketConfig) : BucketSchedule → BucketKey → List ℚ
  | [], _ => []
  | (now, op) :: ops, key => available cfg now key :: seen cfg ops (op.run cfg now key)

def handedOut (cfg : BucketConfig) : BucketSchedule → BucketKey → Int
  | [], _ => 0
  | (now, op) :: ops, key => op.charge (available cfg now key) + handedOut cfg ops (op.run cfg now key)

/-- The same operations on a clock that stays where it would have stepped back. -/
def forward (latest : ℚ) : BucketSchedule → BucketSchedule
  | [] => []
  | (now, op) :: ops => (max latest now, op) :: forward (max latest now) ops

/-- The elapsed time alone fills the bucket again after the operation. -/
def BucketOp.Refilled (cfg : BucketConfig) (tokens elapsed : ℚ) : BucketOp → Prop
  | acquire requested => cfg.capacity + (if requested ≤ tokens then requested else 0) ≤
      tokens + elapsed * cfg.rate
  | adjust delta => cfg.capacity + delta ≤ tokens + elapsed * cfg.rate

theorem BucketOp.run_eq (cfg : BucketConfig) (now : ℚ) (key : BucketKey) (op : BucketOp) :
    op.run cfg now key = store cfg now (op.leaves cfg (available cfg now key)) := by
  cases op with
  | acquire requested =>
    by_cases h : requested ≤ available cfg now key <;> simp [run, leaves, acquireLua, h]
  | adjust delta => exact adjustLua_eq cfg delta now key

theorem BucketOp.leaves_le (cfg : BucketConfig) (tokens : ℚ) (op : BucketOp) :
    op.leaves cfg tokens + op.charge tokens ≤ tokens := by
  cases op with
  | acquire requested =>
    by_cases h : requested ≤ tokens <;> simp [leaves, charge, h]
  | adjust delta =>
    have hmin := min_le_right cfg.capacity (tokens - delta)
    simp only [leaves, charge]
    linarith

theorem BucketOp.refilled_iff {cfg : BucketConfig} (htpm : 0 < cfg.tpm) {tokens elapsed : ℚ}
    (helapsed : 0 ≤ elapsed) (op : BucketOp) :
    op.Refilled cfg tokens elapsed ↔ cfg.capacity ≤ op.leaves cfg tokens + elapsed * cfg.rate := by
  have hearned : 0 ≤ elapsed * cfg.rate := mul_nonneg helapsed (cfg.rate_pos htpm).le
  cases op with
  | acquire requested =>
    by_cases h : requested ≤ tokens
    · simp only [Refilled, leaves, h, if_true]
      constructor <;> intro hle <;> linarith
    · simp [Refilled, leaves, h]
  | adjust delta =>
    simp only [Refilled, leaves, min_add, le_min_iff]
    constructor
    · intro hle
      exact ⟨by linarith, by linarith⟩
    · rintro ⟨_, hle⟩
      linarith

theorem creditedTwice_eq_iff {cfg : BucketConfig} (htpm : 0 < cfg.tpm) (h : BucketHash)
    (op : BucketOp) {back later : ℚ} (hback : back < h.ts) (hlater : h.ts ≤ later) :
    creditedTwice cfg op back later h = creditedTwice cfg op h.ts later h ↔
      op.Refilled cfg (min cfg.capacity h.tokens) (later - h.ts) := by
  have hstay : available cfg back (some h) = min cfg.capacity h.tokens := by
    simp [available, refill, max_eq_left (sub_nonpos.mpr hback.le)]
  have hsame : available cfg h.ts (some h) = min cfg.capacity h.tokens := by
    simp [available, refill]
  have helapsed : 0 ≤ later - h.ts := sub_nonneg.mpr hlater
  have hmore : later - h.ts < later - back := by linarith
  rw [op.refilled_iff htpm helapsed, ← refill_eq_refill_iff (cfg.rate_pos htpm) helapsed hmore]
  simp only [creditedTwice, credited, hstay, hsame, op.run_eq, balance_store, add_right_inj,
    sub_left_inj]
  rfl

/-- Each operation that reads a later clock than the one before it either follows one at the
latest reading so far or finds the bucket full by the time since that reading. -/
def NeverAhead (cfg : BucketConfig) (latest : ℚ) : BucketSchedule → BucketKey → Prop
  | [], _ => True
  | (now, op) :: ops, key =>
    (∀ h ∈ key, h.ts = latest ∨ now ≤ h.ts ∨
      cfg.capacity ≤ h.tokens + (max latest now - latest) * cfg.rate) ∧
    NeverAhead cfg (max latest now) ops (op.run cfg now key)

theorem max_sub_eq_iff {ts latest now : ℚ} (h : ts ≤ latest) :
    max 0 (now - ts) = max latest now - latest ↔ ts = latest ∨ now ≤ ts := by
  rcases le_total now ts with hnow | hnow
  · rw [max_eq_left (sub_nonpos.mpr hnow), max_eq_left (hnow.trans h)]
    simp [hnow]
  · rw [max_eq_right (sub_nonneg.mpr hnow)]
    rcases le_total now latest with hlate | hlate
    · rw [max_eq_left hlate]
      constructor
      · intro heq
        exact .inr (by linarith)
      · rintro (rfl | hle) <;> linarith
    · rw [max_eq_right hlate]
      constructor
      · intro heq
        exact .inl (by linarith)
      · rintro (rfl | hle) <;> linarith

theorem available_forward_iff {cfg : BucketConfig} (htpm : 0 < cfg.tpm) (h h' : BucketHash)
    (htokens : h'.tokens = h.tokens) (hts : h.ts ≤ h'.ts) (now : ℚ) :
    available cfg now (some h) = available cfg (max h'.ts now) (some h') ↔
      h.ts = h'.ts ∨ now ≤ h.ts ∨ cfg.capacity ≤ h.tokens + (max h'.ts now - h'.ts) * cfg.rate := by
  have hspan : 0 ≤ max h'.ts now - h'.ts := sub_nonneg.mpr (le_max_left _ _)
  have hle : max h'.ts now - h'.ts ≤ max 0 (now - h.ts) := by
    rcases le_total h'.ts now with hnow | hnow
    · rw [max_eq_right hnow]
      exact le_max_of_le_right (by linarith)
    · rw [max_eq_left hnow, sub_self]
      exact le_max_left _ _
  have hrefill : available cfg now (some h) =
      refill cfg.capacity cfg.rate h.tokens (max 0 (now - h.ts)) := by
    simp [available, refill]
  rw [hrefill, ← or_assoc, ← max_sub_eq_iff hts]
  simp only [available, htokens]
  rcases hle.eq_or_lt with heq | hlt
  · simp [heq]
  · rw [refill_eq_refill_iff (cfg.rate_pos htpm) hspan hlt]
    simp [hlt.ne']

theorem seen_forward_iff {cfg : BucketConfig} (htpm : 0 < cfg.tpm) {ops : BucketSchedule}
    (h h' : BucketHash) (htokens : h'.tokens = h.tokens) (hts : h.ts ≤ h'.ts) :
    seen cfg ops (some h) = seen cfg (forward h'.ts ops) (some h') ↔
      NeverAhead cfg h'.ts ops (some h) := by
  induction ops generalizing h h' with
  | nil => simp [seen, forward, NeverAhead]
  | cons first ops ih =>
    obtain ⟨now, op⟩ := first
    have hhead := available_forward_iff htpm h h' htokens hts now
    simp only [seen, forward, NeverAhead, List.cons.injEq, Option.mem_def, Option.some.injEq,
      forall_eq']
    rw [hhead]
    refine and_congr_right fun hgood => ?_
    have hsame := hhead.mpr hgood
    rw [op.run_eq, op.run_eq, hsame]
    exact ih _ ⟨op.leaves cfg (available cfg (max h'.ts now) (some h')), max h'.ts now,
      max h'.ts now + cfg.ttl⟩ rfl (le_max_right _ _)

theorem handedOut_le {cfg : BucketConfig} (htpm : 0 < cfg.tpm) {ops : BucketSchedule}
    {h : BucketHash} {latest : ℚ} (hts : h.ts ≤ latest)
    (hnever : NeverAhead cfg latest ops (some h)) :
    balance cfg (runOps cfg ops (some h)) + handedOut cfg ops (some h) ≤
      h.tokens + cfg.rate * ((ops.map Prod.fst).foldl max latest - latest) := by
  induction ops generalizing h latest with
  | nil => simp [runOps, handedOut, balance]
  | cons first ops ih =>
    obtain ⟨now, op⟩ := first
    obtain ⟨hgood, hrest⟩ := hnever
    have hfound : available cfg now (some h) ≤ h.tokens + (max latest now - latest) * cfg.rate := by
      have hsame := (available_forward_iff htpm h { h with ts := latest } rfl hts now).mpr
        (hgood h rfl)
      have hle := refill_le_add cfg.capacity cfg.rate h.tokens (max latest now - latest)
      rw [max_eq_right (sub_nonneg.mpr (le_max_left latest now))] at hle
      exact hsame.trans_le hle
    have hleft := op.leaves_le cfg (available cfg now (some h))
    rw [op.run_eq] at hrest
    have hlater := ih (le_max_right latest now) hrest
    simp only [runOps, handedOut, op.run_eq, List.map_cons, List.foldl_cons]
    simp only [store] at hlater ⊢
    push_cast
    linarith

end Doci
