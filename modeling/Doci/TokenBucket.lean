import Doci.LazyBucket
import Mathlib.Data.Rat.Floor
import Mathlib.Tactic.FieldSimp

/-! The two Lua scripts of the rate limiter and the client side of
`RedisTokenBucket`. Numbers are exact and times are seconds of the server clock. -/

namespace Doci

open LazyBucket

structure BucketConfig where
  tpm : Int
  windowS : Int
  ttlS : Option Int := none

def BucketConfig.capacity (cfg : BucketConfig) : ℚ := cfg.tpm

def BucketConfig.rate (cfg : BucketConfig) : ℚ := cfg.tpm / max 1 cfg.windowS

def BucketConfig.ttl (cfg : BucketConfig) : Int := cfg.ttlS.getD (max (cfg.windowS * 2) 60)

theorem BucketConfig.rate_pos {cfg : BucketConfig} (h : 0 < cfg.tpm) : 0 < cfg.rate := by
  have hwindow : (0 : ℚ) < (max 1 cfg.windowS : Int) := by
    exact_mod_cast lt_of_lt_of_le one_pos (le_max_left 1 cfg.windowS)
  have htpm : (0 : ℚ) < cfg.tpm := by exact_mod_cast h
  simpa [rate] using div_pos htpm hwindow

/-- The hash of the bucket and the instant at which the server drops its key. -/
structure BucketHash where
  tokens : ℚ
  ts : ℚ
  expireAt : ℚ
  deriving DecidableEq

abbrev BucketKey := Option BucketHash

/-- What the scripts compute first: the stored tokens, refilled up to `now`. -/
def available (cfg : BucketConfig) (now : ℚ) : BucketKey → ℚ
  | none => refill cfg.capacity cfg.rate cfg.capacity (now - now)
  | some h => refill cfg.capacity cfg.rate h.tokens (now - h.ts)

/-- `HSET` followed by `EXPIRE`. -/
def store (cfg : BucketConfig) (now tokens : ℚ) : BucketKey :=
  some { tokens := tokens, ts := now, expireAt := now + cfg.ttl }

/-- `_ACQUIRE_LUA`: the key afterwards and the wait in milliseconds. -/
def acquireLua (cfg : BucketConfig) (requested : Int) (now : ℚ) (key : BucketKey) :
    BucketKey × Int :=
  let tokens := available cfg now key
  if requested ≤ tokens then (store cfg now (tokens - requested), 0)
  else (store cfg now tokens, ⌈(requested - tokens) / cfg.rate * 1000⌉)

/-- `_ADJUST_LUA`: a signed debit, clamped at the capacity. -/
def adjustLua (cfg : BucketConfig) (delta : Int) (now : ℚ) (key : BucketKey) : BucketKey :=
  let tokens := available cfg now key - delta
  store cfg now (if cfg.capacity < tokens then cfg.capacity else tokens)

/-- The request that `RedisTokenBucket.acquire` passes to its script. -/
def clampRequest (cfg : BucketConfig) (tokens : Int) : Int :=
  let need := max 0 tokens
  if cfg.capacity < need then cfg.tpm else need

/-- `RedisTokenBucket.adjust`: a zero delta does not reach the server. -/
def adjust (cfg : BucketConfig) (delta : Int) (now : ℚ) (key : BucketKey) : BucketKey :=
  if delta = 0 then key else adjustLua cfg delta now key

theorem clampRequest_eq_min (cfg : BucketConfig) (tokens : Int) :
    clampRequest cfg tokens = min (max 0 tokens) cfg.tpm := by
  have hcast : cfg.capacity < (max 0 tokens : Int) ↔ cfg.tpm < max 0 tokens := by
    simp only [BucketConfig.capacity, Int.cast_lt]
  unfold clampRequest
  dsimp only
  split_ifs with h
  · exact (min_eq_right (le_of_lt (hcast.mp h))).symm
  · exact (min_eq_left (not_lt.mp (fun hlt => h (hcast.mpr hlt)))).symm

theorem clampRequest_nonneg {cfg : BucketConfig} (htpm : 0 ≤ cfg.tpm) (tokens : Int) :
    0 ≤ clampRequest cfg tokens := by
  rw [clampRequest_eq_min]
  exact le_min (le_max_left _ _) htpm

theorem available_le_capacity (cfg : BucketConfig) (now : ℚ) (key : BucketKey) :
    available cfg now key ≤ cfg.capacity := by
  cases key with
  | none => exact refill_le_capacity _ _ _ _
  | some h => exact refill_le_capacity _ _ _ _

/-- A poll that takes nothing cannot be told, at any later reading, from no poll at all. -/
theorem available_store {cfg : BucketConfig} (htpm : 0 < cfg.tpm) {key : BucketKey} {now later : ℚ}
    (hts : ∀ h ∈ key, h.ts ≤ now) (hlater : now ≤ later) :
    available cfg later (store cfg now (available cfg now key)) = available cfg later key := by
  have hrate := (cfg.rate_pos htpm).le
  cases hkey : key with
  | none => simp [store, available, hrate]
  | some h =>
    have helapsed : 0 ≤ now - h.ts := sub_nonneg.mpr (hts h hkey)
    simp only [store, available]
    rw [refill_refill hrate h.tokens helapsed (sub_nonneg.mpr hlater)]
    congr 1
    ring

theorem acquireLua_cases {cfg : BucketConfig} (htpm : 0 < cfg.tpm) (requested : Int) (now : ℚ)
    (key : BucketKey) :
    (requested ≤ available cfg now key ∧
      acquireLua cfg requested now key = (store cfg now (available cfg now key - requested), 0)) ∨
    (available cfg now key < requested ∧ ∃ wait, 0 < wait ∧
      acquireLua cfg requested now key = (store cfg now (available cfg now key), wait)) := by
  by_cases h : requested ≤ available cfg now key
  · exact .inl ⟨h, by simp [acquireLua, h]⟩
  · have hlt := not_le.mp h
    refine .inr ⟨hlt, ⌈(requested - available cfg now key) / cfg.rate * 1000⌉, ?_,
      by simp only [acquireLua, h, if_false]⟩
    have hmissing : 0 < (requested : ℚ) - available cfg now key := sub_pos.mpr hlt
    exact Int.ceil_pos.mpr (mul_pos (div_pos hmissing (cfg.rate_pos htpm)) (by norm_num))

theorem adjustLua_eq (cfg : BucketConfig) (delta : Int) (now : ℚ) (key : BucketKey) :
    adjustLua cfg delta now key =
      store cfg now (min cfg.capacity (available cfg now key - delta)) := by
  unfold adjustLua
  dsimp only
  split_ifs with h
  · rw [min_eq_left h.le]
  · rw [min_eq_right (not_lt.mp h)]

end Doci
