import Doci.Reconciliation

/-! `RedisTokenBucket.acquire` when nobody else touches the bucket: how good the advised waits are
and how many polls it takes. -/

namespace Doci

open LazyBucket

/-- The sleep of `acquire` after a wait in milliseconds, before its jitter. -/
def sleepFor (maxSleep : ℚ) (wait : Int) : ℚ := min (wait / 1000) maxSleep

/-- The readings of the clock at successive polls: after a wait the next poll follows the sleep,
and jitter and a late wake-up make it later still. -/
def Sleeps (cfg : BucketConfig) (maxSleep : ℚ) (tokens : Int) : List ℚ → BucketKey → Prop
  | now :: next :: polls, key =>
    let reply := acquireLua cfg (clampRequest cfg tokens) now key
    (0 < reply.2 → now + sleepFor maxSleep reply.2 ≤ next) ∧
      Sleeps cfg maxSleep tokens (next :: polls) reply.1
  | _, _ => True

theorem clampRequest_le_capacity (cfg : BucketConfig) (tokens : Int) :
    (clampRequest cfg tokens : ℚ) ≤ cfg.capacity := by
  have hle : clampRequest cfg tokens ≤ cfg.tpm := by
    rw [clampRequest_eq_min]
    exact min_le_right _ _
  unfold BucketConfig.capacity
  exact_mod_cast hle

/-- A request within the capacity is there once its missing part has been refilled. -/
theorem available_ge_iff {cfg : BucketConfig} (htpm : 0 < cfg.tpm) {need held now later : ℚ}
    (hneed : need ≤ cfg.capacity) (hlater : now ≤ later) :
    need ≤ available cfg later (store cfg now held) ↔ (need - held) / cfg.rate ≤ later - now := by
  have hrate := cfg.rate_pos htpm
  have hspan : 0 ≤ later - now := sub_nonneg.mpr hlater
  rw [div_le_iff₀ hrate]
  simp only [store, available, refill, max_eq_right hspan, le_min_iff]
  constructor
  · rintro ⟨_, hle⟩
    linarith
  · intro hle
    exact ⟨hneed, by linarith⟩

theorem acquireLua_denied {cfg : BucketConfig} {need : Int} {now : ℚ}
    {key : BucketKey} (hdenied : 0 < (acquireLua cfg need now key).2) :
    available cfg now key < need ∧ acquireLua cfg need now key =
      (store cfg now (available cfg now key),
        ⌈(need - available cfg now key) / cfg.rate * 1000⌉) := by
  have hlow : ¬ (need : ℚ) ≤ available cfg now key := by
    intro h
    simp [acquireLua, h] at hdenied
  exact ⟨not_le.mp hlow, by simp only [acquireLua, hlow, if_false]⟩

theorem acquireLua_granted {cfg : BucketConfig} {need : Int} {now : ℚ} {key : BucketKey}
    (h : need ≤ available cfg now key) :
    acquireLua cfg need now key = (store cfg now (available cfg now key - need), 0) := by
  simp [acquireLua, h]

section Waits

variable {cfg : BucketConfig} {need wait : Int} {now later : ℚ} {key : BucketKey}

theorem granted_after_wait (htpm : 0 < cfg.tpm) (hneed : need ≤ cfg.capacity)
    (hdenied : 0 < (acquireLua cfg need now key).2)
    (hlater : now + ((acquireLua cfg need now key).2 : ℚ) / 1000 ≤ later) :
    need ≤ available cfg later (acquireLua cfg need now key).1 := by
  have hpos : (0 : ℚ) < (acquireLua cfg need now key).2 := by exact_mod_cast hdenied
  have hnow : now ≤ later := by linarith
  obtain ⟨_, hreply⟩ := acquireLua_denied hdenied
  rw [hreply] at hlater ⊢
  have hceil := Int.le_ceil ((need - available cfg now key) / cfg.rate * 1000)
  rw [available_ge_iff htpm hneed hnow]
  simp only at hlater
  linarith

theorem denied_before_wait (htpm : 0 < cfg.tpm) (hneed : need ≤ cfg.capacity)
    (hdenied : 0 < (acquireLua cfg need now key).2) (hnow : now ≤ later)
    (hearly : later < now + (((acquireLua cfg need now key).2 : ℚ) - 1) / 1000) :
    available cfg later (acquireLua cfg need now key).1 < need := by
  obtain ⟨_, hreply⟩ := acquireLua_denied hdenied
  rw [hreply] at hearly ⊢
  have hceil := Int.ceil_lt_add_one ((need - available cfg now key) / cfg.rate * 1000)
  simp only at hearly
  rw [← not_le, available_ge_iff htpm hneed hnow]
  intro hle
  linarith

theorem missing_later (htpm : 0 < cfg.tpm) {held : ℚ} (hneed : need ≤ cfg.capacity)
    (hlater : now ≤ later) (hlow : available cfg later (store cfg now held) < need) :
    (need - available cfg later (store cfg now held)) / cfg.rate =
      (need - held) / cfg.rate - (later - now) := by
  have hrate := cfg.rate_pos htpm
  have hspan : 0 ≤ later - now := sub_nonneg.mpr hlater
  simp only [store, available, refill, max_eq_right hspan] at hlow ⊢
  have hfits : held + (later - now) * cfg.rate ≤ cfg.capacity := by
    by_contra hfull
    rw [min_eq_left (not_le.mp hfull).le] at hlow
    exact absurd hlow (not_lt.mpr hneed)
  rw [min_eq_right hfits]
  field_simp
  ring

/-- A denied poll and the sleep after it. The next poll may be denied again only if the sleep
was cut off. -/
theorem denied_step (htpm : 0 < cfg.tpm) {maxSleep : ℚ} (hsleep : 0 < maxSleep) {tokens : Int}
    {next : ℚ} {polls : List ℚ}
    (hdenied : 0 < (acquireLua cfg (clampRequest cfg tokens) now key).2)
    (hpolls : Sleeps cfg maxSleep tokens (now :: next :: polls) key) :
    now ≤ next ∧
    acquire cfg tokens (now :: next :: polls) key =
      acquire cfg tokens (next :: polls) (store cfg now (available cfg now key)) ∧
    Sleeps cfg maxSleep tokens (next :: polls) (store cfg now (available cfg now key)) ∧
    (available cfg next (store cfg now (available cfg now key)) < clampRequest cfg tokens →
      now + maxSleep ≤ next) := by
  have hneed := clampRequest_le_capacity cfg tokens
  obtain ⟨hafter, hrest⟩ := hpolls
  have hnext := hafter hdenied
  have hwait : (0 : ℚ) < (acquireLua cfg (clampRequest cfg tokens) now key).2 := by
    exact_mod_cast hdenied
  have hdelay : 0 < sleepFor maxSleep (acquireLua cfg (clampRequest cfg tokens) now key).2 :=
    lt_min (by positivity) hsleep
  obtain ⟨_, hreply⟩ := acquireLua_denied hdenied
  have hkey : (acquireLua cfg (clampRequest cfg tokens) now key).1 =
      store cfg now (available cfg now key) := by rw [hreply]
  refine ⟨by linarith, ?_, hkey ▸ hrest, fun hlow => ?_⟩
  · rw [acquire, ← hkey]
    simp [not_le.mpr hdenied]
  · by_contra hshort
    rw [← hkey] at hlow
    refine absurd (granted_after_wait htpm hneed hdenied ?_) (not_le.mpr hlow)
    unfold sleepFor at hnext
    rcases min_choice (((acquireLua cfg (clampRequest cfg tokens) now key).2 : ℚ) / 1000)
      maxSleep with hmin | hmin <;> rw [hmin] at hnext
    · exact hnext
    · exact absurd hnext hshort

/-- The measure is the refill that is missing: a sleep that is cut off earns a full sleep of it. -/
theorem acquire_within (htpm : 0 < cfg.tpm) {maxSleep : ℚ} (hsleep : 0 < maxSleep) {tokens : Int}
    {n : ℕ} {polls : List ℚ} (hts : ∀ h ∈ key, h.ts ≤ now)
    (hdenied : 0 < (acquireLua cfg (clampRequest cfg tokens) now key).2)
    (hmissing : (clampRequest cfg tokens - available cfg now key) / cfg.rate ≤ n * maxSleep)
    (hlen : n ≤ polls.length) (hpolls : Sleeps cfg maxSleep tokens (now :: polls) key) :
    ∃ last ∈ polls, now ≤ last ∧ acquire cfg tokens (now :: polls) key =
      some (store cfg last (available cfg last key - clampRequest cfg tokens)) := by
  induction n generalizing now polls key with
  | zero =>
    obtain ⟨hlow, _⟩ := acquireLua_denied hdenied
    have hpos := div_pos (sub_pos.mpr hlow) (cfg.rate_pos htpm)
    simp only [Nat.cast_zero, zero_mul] at hmissing
    exact absurd hmissing (not_le.mpr hpos)
  | succ n ih =>
    cases polls with
    | nil => simp at hlen
    | cons next polls =>
      obtain ⟨hlate, hloop, hrest, hcut⟩ := denied_step htpm hsleep hdenied hpolls
      have hkeep : ∀ later, now ≤ later →
          available cfg later (store cfg now (available cfg now key)) = available cfg later key :=
        fun later hlater => available_store htpm hts hlater
      rw [hloop]
      obtain ⟨hgrant, hreply⟩ | ⟨hlow, wait, hwait, hreply⟩ := acquireLua_cases htpm
        (clampRequest cfg tokens) next (store cfg now (available cfg now key))
      · refine ⟨next, by simp, hlate, ?_⟩
        rw [acquire]
        simp only [hreply, le_refl, if_true]
        rw [hkeep next hlate]
      · have hless := missing_later htpm (clampRequest_le_capacity cfg tokens) hlate hlow
        have hspan := hcut hlow
        have hstored : ∀ h ∈ store cfg now (available cfg now key), h.ts ≤ next := by
          simpa [store] using hlate
        have hagain : 0 < (acquireLua cfg (clampRequest cfg tokens) next
            (store cfg now (available cfg now key))).2 := by
          rw [hreply]
          exact hwait
        push_cast at hmissing
        obtain ⟨last, hmem, hle, hresult⟩ := ih hstored hagain (by rw [hless]; linarith)
          (by simpa using hlen) hrest
        refine ⟨last, by simp [hmem], hlate.trans hle, ?_⟩
        rw [hresult, hkeep last (hlate.trans hle)]

end Waits

/-- The advised wait is right up to a millisecond, and a lone waiter gets its tokens within one
poll for each full sleep that the wait takes, and takes them once. -/
theorem lone_waiter {cfg : BucketConfig} (htpm : 0 < cfg.tpm) {maxSleep : ℚ} (hsleep : 0 < maxSleep)
    (tokens : Int) {now : ℚ} {key : BucketKey} (hts : ∀ h ∈ key, h.ts ≤ now) :
    (∀ wait, 0 < wait → (acquireLua cfg (clampRequest cfg tokens) now key).2 = wait →
      (∀ later : ℚ, now + wait / 1000 ≤ later →
        (acquireLua cfg (clampRequest cfg tokens) later
          (acquireLua cfg (clampRequest cfg tokens) now key).1).2 = 0) ∧
      (∀ later : ℚ, now ≤ later → later < now + (wait - 1) / 1000 →
        0 < (acquireLua cfg (clampRequest cfg tokens) later
          (acquireLua cfg (clampRequest cfg tokens) now key).1).2) ∧
      ∀ polls : List ℚ, 1 + ⌈wait / (1000 * maxSleep)⌉ ≤ polls.length →
        Sleeps cfg maxSleep tokens (now :: polls) key →
        ∃ last ∈ polls, now ≤ last ∧ acquire cfg tokens (now :: polls) key =
          some (store cfg last (available cfg last key - clampRequest cfg tokens))) ∧
    ((acquireLua cfg (clampRequest cfg tokens) now key).2 = 0 → ∀ polls : List ℚ,
      acquire cfg tokens (now :: polls) key =
        some (store cfg now (available cfg now key - clampRequest cfg tokens))) := by
  have hneed := clampRequest_le_capacity cfg tokens
  refine ⟨fun wait hpos hwait => ?_, fun hzero polls => ?_⟩
  · have hdenied : 0 < (acquireLua cfg (clampRequest cfg tokens) now key).2 := hwait ▸ hpos
    refine ⟨fun later hlater => ?_, fun later hnow hearly => ?_, fun polls hlen hpolls => ?_⟩
    · rw [← hwait] at hlater
      rw [acquireLua_granted (granted_after_wait htpm hneed hdenied hlater)]
    · rw [← hwait] at hearly
      have hlow := denied_before_wait htpm hneed hdenied hnow hearly
      obtain ⟨hhigh, _⟩ | ⟨_, again, hagain, hreply⟩ := acquireLua_cases htpm
        (clampRequest cfg tokens) later (acquireLua cfg (clampRequest cfg tokens) now key).1
      · exact absurd hhigh (not_le.mpr hlow)
      · rw [hreply]
        exact hagain
    · obtain ⟨_, hreply⟩ := acquireLua_denied hdenied
      have hceil := Int.le_ceil
        ((clampRequest cfg tokens - available cfg now key) / cfg.rate * 1000)
      have hwait' : ⌈(clampRequest cfg tokens - available cfg now key) / cfg.rate * 1000⌉ = wait := by
        rw [← hwait, hreply]
      rw [hwait'] at hceil
      have hbound : (wait : ℚ) / 1000 ≤ polls.length * maxSleep := by
        have hsleeps := Int.le_ceil ((wait : ℚ) / (1000 * maxSleep))
        have hcount : (⌈(wait : ℚ) / (1000 * maxSleep)⌉ : ℚ) ≤ polls.length := by
          have : ⌈(wait : ℚ) / (1000 * maxSleep)⌉ ≤ (polls.length : Int) := by linarith
          exact_mod_cast this
        have hratio := hsleeps.trans hcount
        rw [div_le_iff₀ (by positivity)] at hratio
        linarith
      exact acquire_within htpm hsleep hts hdenied (by linarith) le_rfl hpolls
  · obtain ⟨_, hreply⟩ | ⟨_, wait, hpos, hreply⟩ :=
      acquireLua_cases htpm (clampRequest cfg tokens) now key
    · rw [acquire]
      simp [hreply]
    · rw [hreply] at hzero
      exact absurd hzero hpos.ne'

/-- An overdrawn bucket of 1000 tokens: the request is clamped, the advised wait of 72 seconds is
slept in pieces of 30. -/
theorem lone_waiter_overdrawn : ∃ last ∈ [(30 : ℚ), 61, 92, 130], 0 ≤ last ∧
    acquire freshBucket 5000 [0, 30, 61, 92, 130] (some ⟨-200, 0, 120⟩) =
      some (store freshBucket last (available freshBucket last (some ⟨-200, 0, 120⟩) -
        clampRequest freshBucket 5000)) :=
  ((lone_waiter (by decide) (show (0 : ℚ) < 30 by norm_num) 5000 (by simp)).1 72000 (by decide)
    (by decide +kernel)).2.2 _ (by decide +kernel)
    (by refine ⟨?_, ?_, ?_, ?_, trivial⟩ <;> decide +kernel)

end Doci
