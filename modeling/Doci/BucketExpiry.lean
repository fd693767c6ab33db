import Doci.Reconciliation

/-! The server drops the bucket's key: what an operation then sees, against the lazy refill of
the state that was dropped. -/

namespace Doci

open LazyBucket

/-- The key as the server finds it. -/
def keyAt (now : ℚ) (key : BucketKey) : BucketKey := key.filter fun h => now < h.expireAt

/-- The states of the key: operations at any readings of the clock, the key dropped or not. -/
inductive Touched (cfg : BucketConfig) : BucketKey → Prop
  | fresh : Touched cfg none
  | acquire {key : BucketKey} (touched : Touched cfg key) (tokens : Int) (now : ℚ) :
    Touched cfg (acquireLua cfg (clampRequest cfg tokens) now (keyAt now key)).1
  | adjust {key : BucketKey} (touched : Touched cfg key) (delta : Int) (now : ℚ) :
    Touched cfg (adjust cfg delta now (keyAt now key))

/-- After every idle period of at least the lifetime an operation sees what the lazy refill
would have given it. -/
def ExpiryUnseen (cfg : BucketConfig) (h : BucketHash) : Prop :=
  ∀ idle : ℚ, cfg.ttl ≤ idle →
    keyAt (h.ts + idle) (some h) = none ∧
    available cfg (h.ts + idle) (keyAt (h.ts + idle) (some h)) =
      available cfg (h.ts + idle) (some h)

theorem Touched.expireAt {cfg : BucketConfig} {key : BucketKey} (touched : Touched cfg key) :
    ∀ h ∈ key, h.expireAt = h.ts + cfg.ttl := by
  induction touched with
  | fresh => simp
  | @acquire key _ tokens now _ =>
    intro h hkey
    by_cases hgrant : clampRequest cfg tokens ≤ available cfg now (keyAt now key)
    · simp only [acquireLua, hgrant, if_true, store, Option.mem_def, Option.some.injEq] at hkey
      simp [← hkey]
    · simp only [acquireLua, hgrant, if_false, store, Option.mem_def, Option.some.injEq] at hkey
      simp [← hkey]
  | @adjust key _ delta now ih =>
    intro h hkey
    by_cases hzero : delta = 0
    · simp only [Doci.adjust, hzero, if_true, keyAt, Option.mem_filter_iff] at hkey
      exact ih h hkey.1
    · simp only [Doci.adjust, hzero, if_false, adjustLua_eq, store, Option.mem_def,
        Option.some.injEq] at hkey
      simp [← hkey]

theorem BucketConfig.ttl_pos {cfg : BucketConfig} (hdefault : cfg.ttlS = none) : 0 < cfg.ttl := by
  simp only [ttl, hdefault, Option.getD_none]
  omega

/-- The default lifetime is that of two refills of the whole bucket. -/
theorem BucketConfig.two_refills {cfg : BucketConfig} (htpm : 0 < cfg.tpm)
    (hdefault : cfg.ttlS = none) : 2 * cfg.capacity ≤ cfg.rate * cfg.ttl := by
  have hwindow : 0 < max 1 cfg.windowS := by omega
  have hlong : 2 * max 1 cfg.windowS ≤ cfg.ttl := by
    simp only [ttl, hdefault, Option.getD_none]
    omega
  have hwindow' : (0 : ℚ) < (max 1 cfg.windowS : Int) := by exact_mod_cast hwindow
  have hlong' : (2 : ℚ) * (max 1 cfg.windowS : Int) ≤ cfg.ttl := by exact_mod_cast hlong
  have htpm' : (0 : ℚ) < cfg.tpm := by exact_mod_cast htpm
  have hrate : cfg.rate * (max 1 cfg.windowS : Int) = cfg.capacity := by
    rw [rate, capacity, div_mul_cancel₀ _ hwindow'.ne']
  calc 2 * cfg.capacity = cfg.rate * (2 * (max 1 cfg.windowS : Int)) := by rw [← hrate]; ring
    _ ≤ cfg.rate * cfg.ttl := mul_le_mul_of_nonneg_left hlong' (cfg.rate_pos htpm).le

theorem available_dropped (cfg : BucketConfig) (htpm : 0 < cfg.tpm) (now : ℚ) :
    available cfg now none = cfg.capacity := refill_full (cfg.rate_pos htpm).le _

theorem unseen_iff_covered {cfg : BucketConfig} (htpm : 0 < cfg.tpm) (hdefault : cfg.ttlS = none)
    {h : BucketHash} (hexpire : h.expireAt = h.ts + cfg.ttl) :
    ExpiryUnseen cfg h ↔ cfg.capacity ≤ h.tokens + cfg.rate * cfg.ttl := by
  have hrate := cfg.rate_pos htpm
  have httl : (0 : ℚ) < cfg.ttl := by exact_mod_cast cfg.ttl_pos hdefault
  have hgone : ∀ idle : ℚ, cfg.ttl ≤ idle → keyAt (h.ts + idle) (some h) = none := by
    intro idle hidle
    have hlate : h.expireAt ≤ h.ts + idle := by linarith
    simp [keyAt, hlate]
  have hlazy : ∀ idle : ℚ, 0 ≤ idle → available cfg (h.ts + idle) (some h) =
      min cfg.capacity (h.tokens + idle * cfg.rate) := by
    intro idle hidle
    simp [available, refill, max_eq_right hidle]
  constructor
  · intro hunseen
    obtain ⟨hnone, hsame⟩ := hunseen cfg.ttl le_rfl
    rw [hnone, available_dropped cfg htpm, hlazy _ httl.le] at hsame
    have hle := min_le_right cfg.capacity (h.tokens + cfg.ttl * cfg.rate)
    linarith
  · intro hcovered idle hidle
    have hmore : cfg.rate * cfg.ttl ≤ idle * cfg.rate := by
      rw [mul_comm]
      exact mul_le_mul_of_nonneg_right hidle hrate.le
    refine ⟨hgone idle hidle, ?_⟩
    rw [hgone idle hidle, available_dropped cfg htpm, hlazy idle (httl.le.trans hidle)]
    exact (min_eq_left (by linarith)).symm

theorem touched_overdrawn {delta : Int} (hdelta : 0 < delta) :
    Touched freshBucket (some ⟨1000 - delta, 0, 120⟩) := by
  have hkey : some ⟨1000 - delta, 0, 120⟩ = adjust freshBucket delta 0 (keyAt 0 none) := by
    have hle : (1000 : ℚ) - delta ≤ 1000 := by
      have : (0 : ℚ) < delta := by exact_mod_cast hdelta
      linarith
    simp [adjust, hdelta.ne', adjustLua_eq, keyAt, available, refill, store, freshBucket,
      BucketConfig.capacity, BucketConfig.ttl, hle]
  rw [hkey]
  exact Touched.fresh.adjust delta 0

end Doci
