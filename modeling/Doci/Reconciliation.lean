import Doci.TokenBucket
import Mathlib.Algebra.Order.BigOperators.Group.List
import Mathlib.Algebra.BigOperators.Group.List.Basic

/-! `TokenBucketMiddleware.awrap_model_call`: reserve the estimate, call the model,
then settle the difference to the reported total. -/

namespace Doci

open LazyBucket

structure UsageMetadata where
  totalTokens : Option Int := none

structure ResponseMessage where
  usageMetadata : Option UsageMetadata := none

/-- A model response, or the bare message that an inner middleware may return. -/
inductive ModelResponse where
  | response (result : List ResponseMessage)
  | bare (message : ResponseMessage)

def ModelResponse.messages : ModelResponse → List ResponseMessage
  | response result => result
  | bare message => [message]

/-- `_actual_total_tokens`: the last reported total that is not zero. -/
def actualTotalTokens (r : ModelResponse) : Option Int :=
  r.messages.reverse.findSome? fun msg =>
    msg.usageMetadata.bind fun usage => usage.totalTokens.filter (· != 0)

/-- The loop of `acquire`, polling at the given readings of the clock. It is still
waiting when they run out. -/
def acquire (cfg : BucketConfig) (tokens : Int) : List ℚ → BucketKey → Option BucketKey
  | [], _ => none
  | now :: polls, key =>
    let reply := acquireLua cfg (clampRequest cfg tokens) now key
    if reply.2 ≤ 0 then some reply.1 else acquire cfg tokens polls reply.1

/-- One model call: what the middleware computes and when its scripts run. -/
structure ModelCall where
  estimate : Int
  response : ModelResponse
  polls : List ℚ
  settledAt : ℚ

def awrapModelCall (cfg : BucketConfig) (call : ModelCall) (key : BucketKey) :
    Option BucketKey := do
  let key ← acquire cfg call.estimate call.polls key
  match actualTotalTokens call.response with
  | some actual => return adjust cfg (actual - call.estimate) call.settledAt key
  | none => return key

def awrapModelCalls (cfg : BucketConfig) : List ModelCall → BucketKey → Option BucketKey
  | [], key => some key
  | call :: calls, key => (awrapModelCall cfg call key).bind (awrapModelCalls cfg calls)

/-- The stored tokens; a missing key stands for a full bucket. -/
def balance (cfg : BucketConfig) (key : BucketKey) : ℚ := (key.map BucketHash.tokens).getD cfg.capacity

/-- No poll of the loop finds more than was stored. -/
def Unrefilled (cfg : BucketConfig) (tokens : Int) : List ℚ → BucketKey → Prop
  | [], _ => True
  | now :: polls, key => available cfg now key = balance cfg key ∧
      Unrefilled cfg tokens polls (acquireLua cfg (clampRequest cfg tokens) now key).1

/-- No refill in the call, and no refund that the capacity cuts off. -/
def ModelCall.Quiet (cfg : BucketConfig) (call : ModelCall) (key : BucketKey) : Prop :=
  Unrefilled cfg call.estimate call.polls key ∧
    ∀ reserved, acquire cfg call.estimate call.polls key = some reserved →
      available cfg call.settledAt reserved = balance cfg reserved ∧
      ∀ actual, actualTotalTokens call.response = some actual →
        balance cfg reserved - (actual - call.estimate : Int) ≤ cfg.capacity

def QuietCalls (cfg : BucketConfig) : List ModelCall → BucketKey → Prop
  | [], _ => True
  | call :: calls, key => call.Quiet cfg key ∧
      ∀ next, awrapModelCall cfg call key = some next → QuietCalls cfg calls next

@[simp] theorem balance_store (cfg : BucketConfig) (now tokens : ℚ) :
    balance cfg (store cfg now tokens) = tokens := rfl

theorem acquire_balance {cfg : BucketConfig} (htpm : 0 < cfg.tpm) {tokens : Int} {polls : List ℚ}
    {key reserved : BucketKey} (hquiet : Unrefilled cfg tokens polls key)
    (h : acquire cfg tokens polls key = some reserved) :
    balance cfg reserved = balance cfg key - clampRequest cfg tokens := by
  induction polls generalizing key with
  | nil => simp [acquire] at h
  | cons now polls ih =>
    obtain ⟨hfound, hlater⟩ := hquiet
    obtain ⟨_, hreply⟩ | ⟨_, wait, hwait, hreply⟩ :=
      acquireLua_cases htpm (clampRequest cfg tokens) now key
    · simp only [acquire, hreply, le_refl, if_true, Option.some.injEq] at h
      rw [← h, balance_store, hfound]
    · simp only [acquire, hreply, not_le.mpr hwait, if_false] at h
      rw [hreply] at hlater
      rw [ih hlater h, balance_store, hfound]

/-- What the clamp inside `acquire` withholds from the reservation. -/
def excess (cfg : BucketConfig) (tokens : Int) : Int := tokens - clampRequest cfg tokens

theorem excess_eq_max (cfg : BucketConfig) {tokens : Int} (h : 0 ≤ tokens) :
    excess cfg tokens = max 0 (tokens - cfg.tpm) := by
  simp only [excess, clampRequest_eq_min]
  omega

theorem awrapModelCall_balance {cfg : BucketConfig} (htpm : 0 < cfg.tpm) {call : ModelCall}
    {actual : Int} (hactual : actualTotalTokens call.response = some actual)
    {key next : BucketKey} (hquiet : call.Quiet cfg key)
    (h : awrapModelCall cfg call key = some next) :
    balance cfg next = balance cfg key - actual + excess cfg call.estimate := by
  cases hres : acquire cfg call.estimate call.polls key with
  | none => simp [awrapModelCall, hres] at h
  | some reserved =>
    have hreserved := acquire_balance htpm hquiet.1 hres
    obtain ⟨hfound, hroom⟩ := hquiet.2 reserved hres
    have hfits := hroom actual hactual
    simp only [awrapModelCall, hres, Option.bind_eq_bind, Option.bind_some, hactual,
      Option.pure_def, Option.some.injEq] at h
    have hsettled : balance cfg next = balance cfg reserved - (actual - call.estimate : Int) := by
      subst h
      by_cases hzero : actual - call.estimate = 0
      · simp [adjust, hzero]
      · rw [adjust, if_neg hzero, adjustLua_eq, balance_store, hfound, min_eq_right hfits]
    rw [hsettled, hreserved, excess]
    push_cast
    ring

def actualTotals (calls : List ModelCall) : List Int :=
  calls.filterMap fun call => actualTotalTokens call.response

theorem awrapModelCalls_balance {cfg : BucketConfig} (htpm : 0 < cfg.tpm) {calls : List ModelCall}
    (hreported : ∀ call ∈ calls, ∃ actual, actualTotalTokens call.response = some actual)
    {key last : BucketKey} (hquiet : QuietCalls cfg calls key)
    (h : awrapModelCalls cfg calls key = some last) :
    balance cfg last = balance cfg key - (actualTotals calls).sum +
      ((calls.map fun call => excess cfg call.estimate).sum : Int) := by
  induction calls generalizing key with
  | nil =>
    simp only [awrapModelCalls, Option.some.injEq] at h
    simp [h, actualTotals]
  | cons call calls ih =>
    obtain ⟨next, hnext, hlast⟩ := Option.bind_eq_some_iff.mp h
    obtain ⟨actual, hactual⟩ := hreported call (by simp)
    have hcall := awrapModelCall_balance htpm hactual hquiet.1 hnext
    have hrest := ih (fun c hc => hreported c (by simp [hc])) (hquiet.2 next hnext) hlast
    rw [hrest, hcall]
    simp only [actualTotals, List.filterMap_cons, hactual, List.sum_cons, List.map_cons]
    push_cast
    ring

theorem excess_sum_eq_zero_iff {cfg : BucketConfig} {calls : List ModelCall}
    (hestimate : ∀ call ∈ calls, 0 ≤ call.estimate) :
    (calls.map fun call => excess cfg call.estimate).sum = 0 ↔
      ∀ call ∈ calls, call.estimate ≤ cfg.tpm := by
  induction calls with
  | nil => simp
  | cons call calls ih =>
    have hcall := excess_eq_max cfg (hestimate call (by simp))
    have hrest : ∀ c ∈ calls, 0 ≤ c.estimate := fun c hc => hestimate c (by simp [hc])
    have hsum : 0 ≤ (calls.map fun c => excess cfg c.estimate).sum := by
      apply List.sum_nonneg
      intro x hx
      obtain ⟨c, hc, rfl⟩ := List.mem_map.mp hx
      rw [excess_eq_max cfg (hrest c hc)]
      exact le_max_left _ _
    simp only [List.map_cons, List.sum_cons, List.forall_mem_cons, ← ih hrest]
    omega

def freshBucket : BucketConfig := { tpm := 1000, windowS := 60 }

/-- A call on the fresh bucket that is granted and settled at once. -/
def promptCall (estimate total : Int) : ModelCall where
  estimate := estimate
  response := .bare { usageMetadata := some { totalTokens := some total } }
  polls := [0]
  settledAt := 0

theorem promptCall_quiet {estimate total : Int} (tokens : Int)
    (hres : acquire freshBucket estimate [0] none = some (some ⟨tokens, 0, 120⟩))
    (htotal : total ≠ 0) (hlow : tokens ≤ 1000) (hfits : tokens - (total - estimate) ≤ 1000) :
    (promptCall estimate total).Quiet freshBucket none := by
  refine ⟨⟨by simp [available, refill, balance], trivial⟩, fun reserved hreserved => ?_⟩
  obtain rfl := Option.some.inj (hres.symm.trans hreserved)
  refine ⟨?_, fun actual hactual => ?_⟩
  · have : (tokens : ℚ) ≤ 1000 := by exact_mod_cast hlow
    simpa [available, refill, balance, BucketConfig.capacity, freshBucket, promptCall] using this
  · have hreported : actualTotalTokens (promptCall estimate total).response = some total := by
      simp [actualTotalTokens, promptCall, ModelResponse.messages, htotal]
    obtain rfl := Option.some.inj (hreported.symm.trans hactual)
    simp only [balance, Option.map_some, Option.getD_some, BucketConfig.capacity, freshBucket]
    exact_mod_cast hfits

end Doci
