import Doci.TokenBucket
import Mathlib.Algebra.BigOperators.Group.List.Basic

/-! The fleet of workers that share one bucket. Each script runs atomically, in
any order, at non-decreasing readings of the server clock. -/

namespace Doci

open LazyBucket

inductive Entry (W : Type) where
  | grant (worker : W) (need : Int) (now : ℚ)
  | deny (worker : W) (need wait : Int) (now : ℚ)
  | settle (worker : W) (delta : Int) (now : ℚ)
  deriving DecidableEq

def Entry.amount {W : Type} : Entry W → Int
  | grant _ need _ => need
  | deny _ _ _ _ => 0
  | settle _ delta _ => delta

def Entry.time {W : Type} : Entry W → ℚ
  | grant _ _ now => now
  | deny _ _ _ now => now
  | settle _ _ now => now

/-- Net tokens charged: all grants plus all signed deltas. -/
def charged {W : Type} (log : List (Entry W)) : Int := (log.map Entry.amount).sum

def firstTouch {W : Type} (log : List (Entry W)) : Option ℚ := log.head?.map Entry.time

theorem charged_append {W : Type} (log new : List (Entry W)) :
    charged (log ++ new) = charged log + charged new := by
  simp [charged]

theorem firstTouch_append {W : Type} {log : List (Entry W)} {start : ℚ} (h : firstTouch log = some start)
    (new : List (Entry W)) : firstTouch (log ++ new) = some start := by
  cases log with
  | nil => simp [firstTouch] at h
  | cons e log => simpa [firstTouch] using h

/-- The shared key, the last clock reading, and the request each worker waits with
inside the loop of `acquire`. -/
structure Fleet (W : Type) where
  key : BucketKey
  clock : ℚ
  waiting : W → Option Int

inductive FleetMove (W : Type) where
  | enter (worker : W) (tokens : Int)
  | poll (worker : W) (now : ℚ)
  | adjust (worker : W) (delta : Int) (now : ℚ)
  | abandon (worker : W)

section Fleet

variable {W : Type} [DecidableEq W]

/-- The server clock does not go back and the key has not expired. -/
def Fleet.Live (s : Fleet W) (now : ℚ) : Prop :=
  s.clock ≤ now ∧ ∀ h ∈ s.key, now < h.expireAt

instance (s : Fleet W) (now : ℚ) : Decidable (s.Live now) :=
  inferInstanceAs (Decidable (_ ∧ ∀ h ∈ s.key, now < h.expireAt))

/-- One move of one worker. A poll that answers zero leaves the loop. -/
def Fleet.step (cfg : BucketConfig) (s : Fleet W) :
    FleetMove W → Option (Fleet W × List (Entry W))
  | .enter w tokens =>
    if s.waiting w = none then
      some ({ s with waiting := Function.update s.waiting w (some (clampRequest cfg tokens)) }, [])
    else none
  | .poll w now =>
    match s.waiting w with
    | none => none
    | some need =>
      if s.Live now then
        let reply := acquireLua cfg need now s.key
        if reply.2 ≤ 0 then
          some ({ key := reply.1, clock := now, waiting := Function.update s.waiting w none },
            [.grant w need now])
        else some ({ s with key := reply.1, clock := now }, [.deny w need reply.2 now])
      else none
  | .adjust w delta now =>
    if s.waiting w = none then
      if delta = 0 then some (s, [])
      else if s.Live now then
        some ({ s with key := adjust cfg delta now s.key, clock := now }, [.settle w delta now])
      else none
    else none
  | .abandon w => some ({ s with waiting := Function.update s.waiting w none }, [])

inductive FleetRun (cfg : BucketConfig) : List (Entry W) → Fleet W → Prop
  | start (clock : ℚ) : FleetRun cfg [] { key := none, clock := clock, waiting := fun _ => none }
  | step {log new : List (Entry W)} {s t : Fleet W} {move : FleetMove W}
      (run : FleetRun cfg log s) (h : s.step cfg move = some (t, new)) : FleetRun cfg (log ++ new) t

def Fleet.exec (cfg : BucketConfig) : List (FleetMove W) → Fleet W →
    Option (Fleet W × List (Entry W))
  | [], s => some (s, [])
  | move :: moves, s => do
    let (t, new) ← s.step cfg move
    let (u, rest) ← Fleet.exec cfg moves t
    return (u, new ++ rest)

theorem FleetRun.exec {cfg : BucketConfig} {moves : List (FleetMove W)} {log new : List (Entry W)}
    {s t : Fleet W} (run : FleetRun cfg log s) (h : Fleet.exec cfg moves s = some (t, new)) :
    FleetRun cfg (log ++ new) t := by
  induction moves generalizing log new s with
  | nil =>
    simp only [Fleet.exec, Option.some.injEq, Prod.mk.injEq] at h
    obtain ⟨rfl, rfl⟩ := h
    simpa using run
  | cons move moves ih =>
    simp only [Fleet.exec, Option.bind_eq_bind, Option.bind_eq_some_iff, Prod.exists,
      Option.pure_def, Option.some.injEq, Prod.mk.injEq] at h
    obtain ⟨u, first, hstep, v, rest, hrest, rfl, rfl⟩ := h
    rw [← List.append_assoc]
    exact ih (run.step hstep) hrest

theorem Fleet.step_cases {cfg : BucketConfig} (htpm : 0 < cfg.tpm) {s t : Fleet W}
    {move : FleetMove W} {new : List (Entry W)} (h : s.step cfg move = some (t, new)) :
    (new = [] ∧ t.key = s.key ∧ t.clock = s.clock) ∨
    (∃ w need now, new = [.grant w need now] ∧ s.Live now ∧ t.clock = now ∧
      s.waiting w = some need ∧ need ≤ available cfg now s.key ∧ t.key = store cfg now (available cfg now s.key - need)) ∨
    (∃ w need wait now, new = [.deny w need wait now] ∧ s.Live now ∧ t.clock = now ∧
      t.key = store cfg now (available cfg now s.key)) ∨
    (∃ w delta now, new = [.settle w delta now] ∧ s.Live now ∧ t.clock = now ∧
      t.key = store cfg now (min cfg.capacity (available cfg now s.key - delta))) := by
  cases move with
  | enter w tokens =>
    simp only [step] at h
    split_ifs at h
    simp only [Option.some.injEq, Prod.mk.injEq] at h
    obtain ⟨rfl, rfl⟩ := h
    exact .inl ⟨rfl, rfl, rfl⟩
  | abandon w =>
    simp only [step, Option.some.injEq, Prod.mk.injEq] at h
    obtain ⟨rfl, rfl⟩ := h
    exact .inl ⟨rfl, rfl, rfl⟩
  | poll w now =>
    cases hw : s.waiting w with
    | none => simp [step, hw] at h
    | some need =>
      simp only [step, hw] at h
      split_ifs at h with hlive hwait
      · obtain ⟨hneed, hreply⟩ | ⟨_, wait, hpos, hreply⟩ := acquireLua_cases htpm need now s.key
        · simp only [hreply, Option.some.injEq, Prod.mk.injEq] at h
          obtain ⟨rfl, rfl⟩ := h
          exact .inr (.inl ⟨w, need, now, rfl, hlive, rfl, hw, hneed, rfl⟩)
        · simp only [hreply] at hwait
          omega
      · obtain ⟨_, hreply⟩ | ⟨_, wait, _, hreply⟩ := acquireLua_cases htpm need now s.key
        · simp [hreply] at hwait
        · simp only [hreply, Option.some.injEq, Prod.mk.injEq] at h
          obtain ⟨rfl, rfl⟩ := h
          exact .inr (.inr (.inl ⟨w, need, wait, now, rfl, hlive, rfl, rfl⟩))
  | adjust w delta now =>
    simp only [step] at h
    split_ifs at h with _ hzero hlive
    · simp only [Option.some.injEq, Prod.mk.injEq] at h
      obtain ⟨rfl, rfl⟩ := h
      exact .inl ⟨rfl, rfl, rfl⟩
    · simp only [adjust, hzero, if_false, adjustLua_eq, Option.some.injEq, Prod.mk.injEq] at h
      obtain ⟨rfl, rfl⟩ := h
      exact .inr (.inr (.inr ⟨w, delta, now, rfl, hlive, rfl, rfl⟩))

theorem Fleet.step_waiting {cfg : BucketConfig} {s t : Fleet W} {move : FleetMove W}
    {new : List (Entry W)} (h : s.step cfg move = some (t, new)) {w : W} {need : Int}
    (hw : t.waiting w = some need) :
    s.waiting w = some need ∨ ∃ tokens, need = clampRequest cfg tokens := by
  have keep {v : W} {asked : Option Int}
      (ht : t.waiting = Function.update s.waiting v asked)
      (hasked : ∀ n, asked = some n → ∃ tokens, n = clampRequest cfg tokens) :
      s.waiting w = some need ∨ ∃ tokens, need = clampRequest cfg tokens := by
    rw [ht, Function.update_apply] at hw
    split_ifs at hw
    · exact .inr (hasked need hw)
    · exact .inl hw
  cases move with
  | enter v tokens =>
    simp only [step] at h
    split_ifs at h
    simp only [Option.some.injEq, Prod.mk.injEq] at h
    exact keep (by rw [← h.1]) (fun n hn => ⟨tokens, (Option.some.inj hn).symm⟩)
  | abandon v =>
    simp only [step, Option.some.injEq, Prod.mk.injEq] at h
    exact keep (by rw [← h.1]) (fun n hn => by simp at hn)
  | poll v now =>
    cases hv : s.waiting v with
    | none => simp [step, hv] at h
    | some asked =>
      simp only [step, hv] at h
      split_ifs at h
      · simp only [Option.some.injEq, Prod.mk.injEq] at h
        exact keep (by rw [← h.1]) (fun n hn => by simp at hn)
      · simp only [Option.some.injEq, Prod.mk.injEq] at h
        rw [← h.1] at hw
        exact .inl hw
  | adjust v delta now =>
    simp only [step] at h
    split_ifs at h
    all_goals
      simp only [Option.some.injEq, Prod.mk.injEq] at h
      rw [← h.1] at hw
      exact .inl hw

/-- Waiting requests are not negative. Before the first touch nothing was logged;
afterwards the stored tokens cover every charge since. -/
structure Fleet.Covered (cfg : BucketConfig) (log : List (Entry W)) (s : Fleet W) : Prop where
  asked : ∀ w need, s.waiting w = some need → 0 ≤ need
  fresh : s.key = none → log = []
  paid : ∀ h, s.key = some h → h.ts = s.clock ∧ h.tokens ≤ cfg.capacity ∧
    ∃ start, firstTouch log = some start ∧
      Solvent cfg.capacity cfg.rate h.tokens (charged log) (h.ts - start)

omit [DecidableEq W] in
theorem Fleet.Covered.found {cfg : BucketConfig} {log : List (Entry W)} {s : Fleet W} {now : ℚ}
    (hc : s.Covered cfg log) (hlive : s.Live now) (e : Entry W) (he : e.time = now) :
    ∃ start, firstTouch (log ++ [e]) = some start ∧
      Solvent cfg.capacity cfg.rate (available cfg now s.key) (charged log) (now - start) := by
  cases hkey : s.key with
  | none =>
    have hlog := hc.fresh hkey
    subst hlog
    refine ⟨now, by simp [firstTouch, he], ?_⟩
    simpa [available, refill, charged] using solvent_full cfg.capacity cfg.rate
  | some h =>
    obtain ⟨hts, _, start, hstart, hpaid⟩ := hc.paid h hkey
    have helapsed : 0 ≤ now - h.ts := by rw [hts]; exact sub_nonneg.mpr hlive.1
    refine ⟨start, firstTouch_append hstart [e], ?_⟩
    have hnow := hpaid.refill helapsed
    rwa [show h.ts - start + (now - h.ts) = now - start by ring] at hnow

theorem Fleet.Covered.touch {cfg : BucketConfig} {log : List (Entry W)} {s t : Fleet W}
    {move : FleetMove W} {tokens now : ℚ} {e : Entry W} (htpm : 0 < cfg.tpm) (hc : s.Covered cfg log)
    (h : s.step cfg move = some (t, [e])) (hlive : s.Live now) (he : e.time = now)
    (hclock : t.clock = now) (hkey : t.key = store cfg now tokens) (hcap : tokens ≤ cfg.capacity)
    (hle : tokens ≤ available cfg now s.key - e.amount) : t.Covered cfg (log ++ [e]) := by
  obtain ⟨start, hstart, hpaid⟩ := hc.found hlive e he
  refine ⟨fun w need hw => ?_, fun hnone => by simp [hkey, store] at hnone, fun g hg => ?_⟩
  · rcases Fleet.step_waiting h hw with hw | ⟨tokens, rfl⟩
    · exact hc.asked w need hw
    · exact clampRequest_nonneg htpm.le tokens
  · simp only [hkey, store, Option.some.injEq] at hg
    subst hg
    refine ⟨hclock.symm, hcap, start, hstart, ?_⟩
    have hnew := (hpaid.charge e.amount).mono hle
    simpa [charged_append, charged] using hnew

theorem Fleet.Covered.step {cfg : BucketConfig} (htpm : 0 < cfg.tpm) {log new : List (Entry W)}
    {s t : Fleet W} {move : FleetMove W} (hc : s.Covered cfg log)
    (h : s.step cfg move = some (t, new)) : t.Covered cfg (log ++ new) := by
  have hcap (now : ℚ) := available_le_capacity cfg now s.key
  obtain ⟨rfl, hkey, hclock⟩ | ⟨w, need, now, rfl, hlive, hclock, hw, hneed, hkey⟩ |
    ⟨w, need, wait, now, rfl, hlive, hclock, hkey⟩ | ⟨w, delta, now, rfl, hlive, hclock, hkey⟩ :=
    Fleet.step_cases htpm h
  · rw [List.append_nil]
    refine ⟨fun w need hw => ?_, hkey ▸ hc.fresh, by rw [hkey, hclock]; exact hc.paid⟩
    rcases Fleet.step_waiting h hw with hw | ⟨tokens, rfl⟩
    · exact hc.asked w need hw
    · exact clampRequest_nonneg htpm.le tokens
  · have hnonneg : (0 : ℚ) ≤ need := by exact_mod_cast hc.asked w need hw
    exact hc.touch htpm h hlive rfl hclock hkey (by linarith [hcap now]) le_rfl
  · exact hc.touch htpm h hlive rfl hclock hkey (hcap now) (by simp [Entry.amount])
  · exact hc.touch htpm h hlive rfl hclock hkey (min_le_left _ _) (min_le_right _ _)

theorem FleetRun.covered {cfg : BucketConfig} (htpm : 0 < cfg.tpm) {log : List (Entry W)}
    {s : Fleet W} (run : FleetRun cfg log s) : s.Covered cfg log := by
  induction run with
  | start clock => exact ⟨by simp, fun _ => rfl, by simp⟩
  | step run h ih => exact ih.step htpm h

theorem Fleet.Covered.granted {cfg : BucketConfig} (htpm : 0 < cfg.tpm) {log : List (Entry W)}
    {s t : Fleet W} {move : FleetMove W} {w : W} {need : Int} {now : ℚ} (hc : s.Covered cfg log)
    (h : s.step cfg move = some (t, [.grant w need now])) :
    ∃ start, firstTouch (log ++ [.grant w need now]) = some start ∧
      charged (log ++ [.grant w need now]) ≤ cfg.capacity + cfg.rate * (now - start) := by
  obtain ⟨hnil, _⟩ | ⟨_, _, _, hnew, _, _, _, hneed, hkey⟩ | ⟨_, _, _, _, hnew, _⟩ |
    ⟨_, _, _, hnew, _⟩ := Fleet.step_cases htpm h
  · simp at hnil
  · simp only [List.cons.injEq, Entry.grant.injEq, and_true] at hnew
    obtain ⟨rfl, rfl, rfl⟩ := hnew
    obtain ⟨_, _, start, hstart, hpaid⟩ := (hc.step htpm h).paid _ hkey
    exact ⟨start, hstart, hpaid.charged_le (sub_nonneg.mpr hneed)⟩
  · simp at hnew
  · simp at hnew

theorem FleetRun.granted {cfg : BucketConfig} (htpm : 0 < cfg.tpm) {log : List (Entry W)}
    {s : Fleet W} (run : FleetRun cfg log s) {before after : List (Entry W)} {w : W} {need : Int}
    {now : ℚ} (hlog : log = before ++ .grant w need now :: after) :
    ∃ start, firstTouch log = some start ∧
      charged (before ++ [.grant w need now]) ≤ cfg.capacity + cfg.rate * (now - start) := by
  induction run generalizing after with
  | start clock => simp at hlog
  | @step log new s t move run h ih =>
    have earlier {rest : List (Entry W)} (hrest : log = before ++ .grant w need now :: rest) :
        ∃ start, firstTouch (log ++ new) = some start ∧
          charged (before ++ [.grant w need now]) ≤ cfg.capacity + cfg.rate * (now - start) := by
      obtain ⟨start, hstart, hle⟩ := ih hrest
      exact ⟨start, firstTouch_append hstart new, hle⟩
    have hshort : new = [] ∨ ∃ e, new = [e] := by
      obtain ⟨rfl, _⟩ | ⟨_, _, _, rfl, _⟩ | ⟨_, _, _, _, rfl, _⟩ | ⟨_, _, _, rfl, _⟩ :=
        Fleet.step_cases htpm h
      · exact .inl rfl
      all_goals exact .inr ⟨_, rfl⟩
    rcases hshort with rfl | ⟨e, rfl⟩
    · exact earlier (by simpa using hlog)
    · rcases List.eq_nil_or_concat after with rfl | ⟨rest, last, rfl⟩
      · obtain ⟨rfl, he⟩ := List.append_inj' hlog rfl
        simp only [List.cons.injEq, and_true] at he
        subst he
        exact (run.covered htpm).granted htpm h
      · rw [List.concat_eq_append, ← List.cons_append, ← List.append_assoc] at hlog
        exact earlier (List.append_inj' hlog rfl).1

omit [DecidableEq W] in
theorem Fleet.Covered.denied {cfg : BucketConfig} (htpm : 0 < cfg.tpm) {log : List (Entry W)}
    {s : Fleet W} (hc : s.Covered cfg log) {need : Int} {now later : ℚ} (hlive : s.Live now)
    (hwait : (acquireLua cfg need now s.key).2 ≠ 0) (hlater : now ≤ later) :
    available cfg later (acquireLua cfg need now s.key).1 = available cfg later s.key := by
  obtain ⟨_, hreply⟩ | ⟨_, wait, _, hreply⟩ := acquireLua_cases htpm need now s.key
  · simp [hreply] at hwait
  · rw [hreply]
    refine available_store htpm (fun h hkey => ?_) hlater
    rw [(hc.paid h hkey).1]
    exact hlive.1

/-- Over every interleaving: what was charged when a grant is answered is at most the
capacity plus what the elapsed time earned, the store never holds more than the capacity,
and a poll that answers a wait takes nothing. -/
theorem rate_law {cfg : BucketConfig} (htpm : 0 < cfg.tpm) {log : List (Entry W)} {s : Fleet W}
    (run : FleetRun cfg log s) :
    (∀ before w need now after, log = before ++ .grant w need now :: after →
      ∃ start, firstTouch log = some start ∧
        charged (before ++ [.grant w need now]) ≤ cfg.capacity + cfg.rate * (now - start)) ∧
    (∀ h, s.key = some h → h.tokens ≤ cfg.capacity) ∧
    (∀ need now, s.Live now → (acquireLua cfg need now s.key).2 ≠ 0 →
      ∀ later, now ≤ later →
        available cfg later (acquireLua cfg need now s.key).1 = available cfg later s.key) :=
  ⟨fun _ _ _ _ _ hlog => run.granted htpm hlog,
    fun h hkey => ((run.covered htpm).paid h hkey).2.1,
    fun _ _ hlive hwait _ hlater => (run.covered htpm).denied htpm hlive hwait hlater⟩

/-- Two workers: one is granted 700 of 1000 tokens, the other is denied 600 six seconds
later, then the first one returns 200. -/
theorem rate_law_two_workers : ∃ s : Fleet Bool,
    FleetRun { tpm := 1000, windowS := 60 }
      [.grant true 700 0, .deny false 600 12000 6, .settle true (-200) 6] s ∧
    ∀ h, s.key = some h → h.tokens ≤ 1000 := by
  have hlog : (Fleet.exec (W := Bool) { tpm := 1000, windowS := 60 }
      [.enter true 700, .poll true 0, .enter false 600, .poll false 6, .adjust true (-200) 6]
      { key := none, clock := 0, waiting := fun _ => none }).map Prod.snd =
      some [.grant true 700 0, .deny false 600 12000 6, .settle true (-200) 6] := by
    decide +kernel
  obtain ⟨⟨s, log⟩, hexec, rfl⟩ := Option.map_eq_some_iff.mp hlog
  have run := (FleetRun.start 0).exec hexec
  exact ⟨s, run, (rate_law (by decide) run).2.1⟩

end Fleet

end Doci
