import Doci.Monitor

/-! The record of a finished task: right exactly when no message was recorded as queued after the
last attempt had ended. -/

namespace Doci

open Coroutine

def Board.hooks (b : Board) : List Hook := b.history.map Prod.fst

def hookFields (run : TaskRun) (now : String) : Hook → Fields
  | .queued attempt => queuedFields (run.message attempt) now
  | .running _ => runningFields now
  | .ended attempt => endedFields (run.result attempt) now

/-- The message of the attempt was published, and a worker has started on it. -/
def Hook.Known (b : Board) : Hook → Prop
  | queued attempt => attempt ∈ b.kicked
  | running attempt => attempt ∈ b.kicked ∧ attempt ∈ b.started
  | ended attempt => attempt ∈ b.kicked ∧ attempt ∈ b.started

def Hook.worker : Hook → Option Nat
  | queued _ => none
  | running attempt => some attempt
  | ended attempt => some attempt

/-- What every reachable board satisfies. An attempt follows the end of the one before. -/
structure Board.Sound (run : TaskRun) (b : Board) : Prop where
  follows : ∀ k ∈ b.kicked, ∃ n, k = n + 1 ∧ n ∈ b.started ∧ (n = 0 ∨ .ended n ∈ b.hooks)
  known : ∀ h ∈ b.hooks, h.Known b
  ordered : b.hooks.Pairwise fun newer older =>
    ∀ n m, older = .ended n → newer.worker = some m → n < m
  clearing : ∀ m ∈ b.clearing, m ∈ b.kicked ∧ .queued m ∉ b.hooks
  fields : ∀ e ∈ b.history, ∃ now, e.2 = hookFields run now e.1
  record : b.clearing = [] → ∀ e, b.history.head? = some e → ∀ fv ∈ e.2, b.record fv.1 = some fv.2

def Board.Grows (b b' : Board) : Prop :=
  b.hooks ⊆ b'.hooks ∧ b.kicked ⊆ b'.kicked ∧ b.started ⊆ b'.started

/-- Nothing has happened that only actor `n` does. -/
def Board.Same (n : Nat) (b b' : Board) : Prop :=
  (.ended n ∈ b'.hooks → .ended n ∈ b.hooks) ∧
    (.queued (n + 1) ∈ b'.hooks → .queued (n + 1) ∈ b.hooks)

/-- Actor `n` relies on the others to leave the hooks of its attempt and of its message alone. -/
def monitor (run : TaskRun) (n : Nat) : Contract MonitorReply Empty Board where
  meaning := Board.meaning run
  inv := Board.Sound run
  rely := fun b b' => b.Grows b' ∧ b.Same n b'
  guar := fun b b' => b.Grows b' ∧ ∀ m, m ≠ n → b.Same m b'
  fate := fun _ _ fate => fate = .done
  rely_refl := fun _ => ⟨⟨fun _ h => h, fun _ h => h, fun _ h => h⟩, fun h => h, fun h => h⟩
  rely_trans := fun h h' => ⟨⟨fun _ hx => h'.1.1 (h.1.1 hx), fun _ hx => h'.1.2.1 (h.1.2.1 hx),
    fun _ hx => h'.1.2.2 (h.1.2.2 hx)⟩, fun hx => h.2.1 (h'.2.1 hx), fun hx => h.2.2 (h'.2.2 hx)⟩

def Board.Busy (n : Nat) (b : Board) : Prop :=
  n ∈ b.kicked ∧ n ∈ b.started ∧ .ended n ∉ b.hooks ∧ .queued (n + 1) ∉ b.hooks

def Board.Ready (n : Nat) (b : Board) : Prop :=
  n ∈ b.started ∧ (n = 0 ∨ .ended n ∈ b.hooks) ∧ .queued (n + 1) ∉ b.hooks

def Board.Announcing (n : Nat) (b : Board) : Prop :=
  n + 1 ∈ b.kicked ∧ .queued (n + 1) ∉ b.hooks

section Monitor

variable {run : TaskRun} {b b' : Board} {n m k : Nat} {hook : Hook} {mapping : Fields}

theorem Board.Busy.stable (h : b.Busy n) (hrely : (monitor run n).rely b b') : b'.Busy n :=
  ⟨hrely.1.2.1 h.1, hrely.1.2.2 h.2.1, fun hx => h.2.2.1 (hrely.2.1 hx),
    fun hx => h.2.2.2 (hrely.2.2 hx)⟩

theorem Board.Ready.stable (h : b.Ready n) (hrely : (monitor run n).rely b b') : b'.Ready n :=
  ⟨hrely.1.2.2 h.1, h.2.1.imp_right fun hx => hrely.1.1 hx, fun hx => h.2.2 (hrely.2.2 hx)⟩

theorem Board.Announcing.stable (h : b.Announcing n) (hrely : (monitor run n).rely b b') :
    b'.Announcing n :=
  ⟨hrely.1.2.1 h.1, fun hx => h.2 (hrely.2.2 hx)⟩

theorem Board.Sound.ended_before (h : b.Sound run) (hk : k ∈ b.kicked) (hm : 1 ≤ m) (hlt : m < k) :
    .ended m ∈ b.hooks := by
  induction k using Nat.strongRecOn with
  | _ k ih =>
    obtain ⟨n, rfl, _, hn⟩ := h.follows k hk
    rcases hn with rfl | hn
    · omega
    · by_cases heq : m = n
      · exact heq ▸ hn
      · exact ih n (by omega) (h.known _ hn).1 (by omega)

theorem setAll_not_mem {record : String → Option String} {field : String}
    (h : field ∉ mapping.map Prod.fst) : Board.setAll record mapping field = record field := by
  induction mapping generalizing record with
  | nil => rfl
  | cons e mapping ih =>
    obtain ⟨hne, hrest⟩ := not_or.mp (List.mem_cons.not.mp h)
    exact (ih hrest).trans (Function.update_of_ne hne ..)

theorem setAll_mem {record : String → Option String} (hnodup : (mapping.map Prod.fst).Nodup)
    {fv : String × String} (hfv : fv ∈ mapping) : Board.setAll record mapping fv.1 = some fv.2 := by
  induction mapping generalizing record with
  | nil => cases hfv
  | cons e mapping ih =>
    obtain ⟨hnot, hrest⟩ := List.nodup_cons.mp hnodup
    rcases List.mem_cons.mp hfv with rfl | hfv
    · exact (setAll_not_mem hnot).trans (Function.update_self ..)
    · exact ih hrest hfv

theorem hookFields_nodup (now : String) (hook : Hook) :
    ((hookFields run now hook).map Prod.fst).Nodup := by
  cases hook with
  | queued attempt => simp [hookFields, queuedFields]
  | running attempt => simp [hookFields, runningFields]
  | ended attempt =>
    simp only [hookFields]
    cases run.result attempt <;> simp [endedFields]

theorem Hook.Known.grows (h : hook.Known b) (hgrows : b.Grows b') : hook.Known b' := by
  cases hook with
  | queued attempt => exact hgrows.2.1 h
  | running attempt => exact ⟨hgrows.2.1 h.1, hgrows.2.2 h.2⟩
  | ended attempt => exact ⟨hgrows.2.1 h.1, hgrows.2.2 h.2⟩

end Monitor

section Steps

variable {run : TaskRun} {b b' : Board} {n m k : Nat} {hook : Hook} {now : String}

theorem grows_hset : b.Grows (Board.meaning run (.hset hook (hookFields run now hook)) b).2 :=
  ⟨List.subset_cons_of_subset _ fun _ h => h, fun _ h => h, fun _ h => h⟩

theorem Board.Sound.hset (h : b.Sound run) (hknown : hook.Known b)
    (hfresh : ∀ m, hook.worker = some m → .ended m ∉ b.hooks) :
    (Board.meaning run (.hset hook (hookFields run now hook)) b).2.Sound run := by
  refine ⟨fun k hk => ?_, ?_, ?_, ?_, ?_, ?_⟩
  · obtain ⟨n, rfl, hn, hended⟩ := h.follows k hk
    exact ⟨n, rfl, hn, hended.imp_right (List.mem_cons_of_mem _)⟩
  · intro h' hh'
    rcases List.mem_cons.mp hh' with rfl | hh'
    · exact hknown.grows grows_hset
    · exact (h.known h' hh').grows grows_hset
  · refine List.pairwise_cons.mpr ⟨fun older holder n m hn hm => ?_, h.ordered⟩
    subst hn
    have hkicked := (h.known _ holder).1
    have hm_kicked : m ∈ b.kicked := by
      cases hook <;> simp only [Hook.worker, reduceCtorEq, Option.some.injEq] at hm
      all_goals exact hm ▸ hknown.1
    obtain ⟨k, rfl, _⟩ := h.follows m hm_kicked
    by_contra hle
    rcases Nat.lt_or_eq_of_le (Nat.le_of_not_lt hle) with hlt | heq
    · exact hfresh _ hm (h.ended_before hkicked (by omega) hlt)
    · exact hfresh _ hm (heq ▸ holder)
  · intro m hm
    obtain ⟨hm, hne⟩ := List.mem_filter.mp hm
    obtain ⟨hkicked, hnot⟩ := h.clearing m hm
    refine ⟨hkicked, fun hmem => ?_⟩
    rcases List.mem_cons.mp hmem with heq | hmem
    · exact of_decide_eq_true hne heq
    · exact hnot hmem
  · intro e he
    rcases List.mem_cons.mp he with rfl | he
    · exact ⟨now, rfl⟩
    · exact h.fields e he
  · intro _ e he fv hfv
    obtain rfl : (hook, hookFields run now hook) = e := Option.some.inj he
    exact setAll_mem (hookFields_nodup now hook) hfv

theorem Board.Sound.hdel (h : b.Sound run) (hm : m ∈ b.kicked) (hnot : .queued m ∉ b.hooks)
    (fields : List String) : (Board.meaning run (.hdel m fields) b).2.Sound run := by
  refine ⟨h.follows, fun h' hh' => ?_, h.ordered, fun k hk => ?_, h.fields, nofun⟩
  · exact (h.known h' hh').grows ⟨fun _ h => h, fun _ h => h, fun _ h => h⟩
  · rcases List.mem_cons.mp hk with rfl | hk
    · exact ⟨hm, hnot⟩
    · exact h.clearing k hk

theorem Board.Sound.kick (h : b.Sound run) (hn : n ∈ b.started)
    (hended : n = 0 ∨ .ended n ∈ b.hooks) :
    (Board.meaning run (.kick (n + 1)) b).2.Sound run := by
  refine ⟨fun k hk => ?_, fun h' hh' => ?_, h.ordered, fun m hm => ?_, h.fields, h.record⟩
  · rcases List.mem_cons.mp hk with rfl | hk
    · exact ⟨n, rfl, hn, hended⟩
    · exact h.follows k hk
  · exact (h.known h' hh').grows ⟨fun _ h => h, List.subset_cons_of_subset _ fun _ h => h,
      fun _ h => h⟩
  · obtain ⟨hkicked, hnot⟩ := h.clearing m hm
    exact ⟨List.mem_cons_of_mem _ hkicked, hnot⟩

end Steps

section Actors

variable {run : TaskRun} {b : Board} {n : Nat}

theorem keeps_await {A B : Board → Prop} {c : MonitorCmd} (hA : A b)
    (hbefore : ∀ s t, A s → (monitor run n).rely s t → A t)
    (hafter : ∀ s t, B s → (monitor run n).rely s t → B t)
    (hstep : ∀ t, t.Sound run → A t → (Board.meaning run c t).2.Sound run ∧
      (monitor run n).guar t (Board.meaning run c t).2 ∧ B (Board.meaning run c t).2) :
    Keeps (monitor run n) (Ends (fun _ t => B t) fun _ => True) (perform c) b := by
  apply Keeps.perform
  rintro t hrely hinv fate rfl
  obtain ⟨hsound, hguar, hB⟩ := hstep t hinv (hbefore b t hA hrely)
  refine ⟨hsound, hguar, fun u hu _ => Ends.intro (fun _ _ => hafter _ u hB hu) fun _ _ => trivial⟩

theorem guar_refl (b : Board) : (monitor run n).guar b b :=
  ⟨((monitor run n).rely_refl b).1, fun _ _ => ⟨fun h => h, fun h => h⟩⟩

theorem keeps_look {A : Board → Prop} {c : MonitorCmd} (hA : A b)
    (hstable : ∀ s t, A s → (monitor run n).rely s t → A t)
    (hsame : ∀ t, (Board.meaning run c t).2 = t) :
    Keeps (monitor run n) (Ends (fun _ t => A t) fun _ => True) (perform c) b :=
  keeps_await hA hstable hstable fun t hinv hA => by
    rw [hsame t]
    exact ⟨hinv, guar_refl t, hA⟩

theorem keeps_markQueued (hinv : b.Sound run) (h : b.Announcing n) :
    Keeps (monitor run n) (Ends (fun _ _ => True) fun _ => True) (markQueued run (n + 1)) b := by
  have hstable : ∀ s t, Board.Announcing n s → (monitor run n).rely s t → Board.Announcing n t :=
    fun _ _ h hrely => h.stable hrely
  have hnow := keeps_look (c := .now) h hstable fun _ => rfl
  refine hnow.andThen hinv fun now t hinv h => ?_
  have hdel : Keeps (monitor run n) (Ends (fun _ t => t.Announcing n) fun _ => True)
      (perform (.hdel (n + 1) runtimeFields)) t := by
    refine keeps_await h hstable hstable fun t hinv h => ⟨hinv.hdel h.1 h.2 _, ?_, h⟩
    exact ⟨⟨fun _ h => h, fun _ h => h, fun _ h => h⟩, fun _ _ => ⟨fun h => h, fun h => h⟩⟩
  refine hdel.andThen hinv fun _ t hinv h => ?_
  refine keeps_await h hstable (fun _ _ _ _ => trivial) fun t hinv h => ⟨?_, ⟨grows_hset, ?_⟩, trivial⟩
  · exact hinv.hset h.1 nofun
  · intro m hm
    refine ⟨fun hx => (List.mem_cons.mp hx).resolve_left nofun, fun hx => ?_⟩
    refine (List.mem_cons.mp hx).resolve_left fun heq => hm ?_
    injection heq with heq
    omega

theorem keeps_kick (hinv : b.Sound run) (h : b.Ready n) :
    Keeps (monitor run n) (Ends (fun _ _ => True) fun _ => True) (kick run (n + 1)) b := by
  have hkick : Keeps (monitor run n) (Ends (fun _ t => t.Announcing n) fun _ => True)
      (perform (.kick (n + 1))) b := by
    refine keeps_await h (fun _ _ h hrely => h.stable hrely) (fun _ _ h hrely => h.stable hrely)
      fun t hinv h => ⟨hinv.kick h.1 h.2.1, ⟨⟨fun _ h => h, List.subset_cons_of_subset _ fun _ h => h,
        fun _ h => h⟩, fun _ _ => ⟨fun h => h, fun h => h⟩⟩, List.mem_cons_self, h.2.2⟩
  exact hkick.andThen hinv fun _ t hinv h => keeps_markQueued hinv h

theorem keeps_hset {hook : Hook} {now : String} {B : Board → Prop} (h : b.Busy n)
    (hworker : hook.worker = some n)
    (hafter : ∀ s t, B s → (monitor run n).rely s t → B t)
    (hstep : ∀ t, t.Busy n → B (Board.meaning run (.hset hook (hookFields run now hook)) t).2) :
    Keeps (monitor run n) (Ends (fun _ t => B t) fun _ => True)
      (perform (.hset hook (hookFields run now hook))) b := by
  refine keeps_await h (fun _ _ h hrely => h.stable hrely) hafter fun t hinv h =>
    ⟨hinv.hset ?_ ?_, ⟨grows_hset, ?_⟩, hstep t h⟩
  · cases hook <;> simp only [Hook.worker, reduceCtorEq, Option.some.injEq] at hworker
    all_goals exact hworker ▸ ⟨h.1, h.2.1⟩
  · intro m hm
    obtain rfl := Option.some.inj (hworker.symm.trans hm)
    exact h.2.2.1
  · intro m hm
    refine ⟨fun hx => (List.mem_cons.mp hx).resolve_left ?_,
      fun hx => (List.mem_cons.mp hx).resolve_left ?_⟩
    · rintro rfl
      exact hm (Option.some.inj hworker)
    · rintro rfl
      cases hworker

theorem keeps_runAttempt (hinv : b.Sound run) (h : b.Busy n) :
    Keeps (monitor run n) (Ends (fun _ _ => True) fun _ => True) (runAttempt run n) b := by
  have hstable : ∀ s t, Board.Busy n s → (monitor run n).rely s t → Board.Busy n t :=
    fun _ _ h hrely => h.stable hrely
  have hstarted : Keeps (monitor run n) (Ends (fun _ t => t.Busy n) fun _ => True) (markStarted n)
      b := by
    refine (keeps_look (c := .now) h hstable fun _ => rfl).andThen hinv fun now t hinv h => ?_
    have hset : Keeps (monitor run n) (Ends (fun _ t => t.Busy n) fun _ => True)
        (perform (.hset (.running n) (hookFields run now (.running n)))) t := by
      refine keeps_hset h rfl hstable fun t h => ⟨h.1, h.2.1, fun hx => ?_, fun hx => ?_⟩
      · exact h.2.2.1 ((List.mem_cons.mp hx).resolve_left nofun)
      · exact h.2.2.2 ((List.mem_cons.mp hx).resolve_left nofun)
    exact hset
  refine hstarted.andThen hinv fun _ t hinv h => ?_
  refine (keeps_look (c := .execute n) h hstable fun _ => rfl).andThen hinv
    fun result t hinv h => ?_
  have hended : Keeps (monitor run n) (Ends (fun _ t => t.Ready n) fun _ => True) (markEnded run n)
      t := by
    refine (keeps_look (c := .now) h hstable fun _ => rfl).andThen hinv fun now t hinv h => ?_
    have hset : Keeps (monitor run n) (Ends (fun _ t => t.Ready n) fun _ => True)
        (perform (.hset (.ended n) (hookFields run now (.ended n)))) t := by
      refine keeps_hset h rfl (fun _ _ h hrely => Board.Ready.stable h hrely) fun t h =>
        ⟨h.2.1, .inr List.mem_cons_self, fun hx => ?_⟩
      exact h.2.2.2 ((List.mem_cons.mp hx).resolve_left nofun)
    exact hset
  refine hended.andThen hinv fun _ t hinv h => ?_
  cases result with
  | success executionTime => exact fun _ _ _ => trivial
  | failed error errorType isTimeout =>
    simp only [retryOnError]
    split_ifs
    · exact fun _ _ _ => trivial
    · exact keeps_kick hinv h
    · exact fun _ _ _ => trivial

end Actors

section Runs

variable {run : TaskRun} {n : Nat} {c : Config MonitorReply Empty Board Nat}

def AllStarted (c : Config MonitorReply Empty Board Nat) : Prop :=
  ∀ t ∈ c.threads, t.tag ∈ c.shared.started

theorem boardEvent_cases {b b' : Board} {e : BoardEvent}
    {new : List (Thread MonitorReply Empty Nat)} (h : boardEvent run b e = some (b', new)) :
    (∃ duration, b' = { b with clock := b.clock + duration } ∧ new = []) ∨
      ∃ n, n ∉ b.started ∧ (n = 0 ∨ n ∈ b.kicked) ∧ b' = { b with started := n :: b.started } ∧
        new = [⟨n, actor run n⟩] := by
  cases e with
  | tick duration =>
    obtain ⟨rfl, rfl⟩ := Prod.mk.inj (Option.some.inj h)
    exact .inl ⟨duration, rfl, rfl⟩
  | send =>
    simp only [boardEvent, Option.ite_none_left_eq_some, Option.some.injEq, Prod.mk.injEq] at h
    obtain ⟨hnot, rfl, rfl⟩ := h
    exact .inr ⟨0, hnot, .inl rfl, rfl, rfl⟩
  | deliver attempt =>
    simp only [boardEvent, Option.ite_none_right_eq_some, Option.some.injEq, Prod.mk.injEq] at h
    obtain ⟨⟨hkicked, hnot⟩, rfl, rfl⟩ := h
    exact .inr ⟨attempt, hnot, .inr hkicked, rfl, rfl⟩

theorem Board.Sound.start {b : Board} (h : b.Sound run) :
    Board.Sound run { b with started := n :: b.started } := by
  have hgrows : b.Grows { b with started := n :: b.started } :=
    ⟨fun _ h => h, fun _ h => h, List.subset_cons_of_subset _ fun _ h => h⟩
  refine ⟨fun k hk => ?_, fun h' hh' => (h.known h' hh').grows hgrows, h.ordered, h.clearing,
    h.fields, h.record⟩
  obtain ⟨m, hm, hstarted, hended⟩ := h.follows k hk
  exact ⟨m, hm, List.mem_cons_of_mem _ hstarted, hended⟩

theorem keeps_actor {b : Board} (hinv : b.Sound run) (hnot : n ∉ b.started)
    (hn : n = 0 ∨ n ∈ b.kicked) :
    Keeps (monitor run n) (Ends (fun _ _ => True) fun _ => True) (actor run n)
      { b with started := n :: b.started } := by
  have hqueued : .queued (n + 1) ∉ b.hooks := by
    intro hmem
    obtain ⟨m, hm, hstarted, _⟩ := hinv.follows _ (hinv.known _ hmem)
    obtain rfl : n = m := by omega
    exact hnot hstarted
  cases n with
  | zero => exact keeps_kick hinv.start ⟨List.mem_cons_self, .inl rfl, hqueued⟩
  | succ n =>
    exact keeps_runAttempt hinv.start ⟨hn.resolve_left nofun, List.mem_cons_self,
      fun hmem => hnot (hinv.known _ hmem).2, hqueued⟩

theorem meaning_started (run : TaskRun) (cmd : MonitorCmd) (b : Board) :
    (Board.meaning run cmd b).2.started = b.started := by
  cases cmd <;> rfl

theorem allStarted_reach {start : Config MonitorReply Empty Board Nat}
    (reach : Reach (board run) (fun _ _ => True) start c) (h : AllStarted start) : AllStarted c := by
  refine reach.tags (K := fun n (b : Board) => n ∈ b.started) h (fun n cmd b hn => ?_) (fun _ _ _ _ => nofun)
    (fun _ _ _ hn => hn) fun e b b' new henv => ?_
  · exact (meaning_started run cmd b).symm ▸ hn
  · rcases boardEvent_cases henv with ⟨_, rfl, rfl⟩ | ⟨n, _, _, rfl, rfl⟩
    · exact ⟨fun _ hn => hn, nofun⟩
    · exact ⟨fun _ hn => List.mem_cons_of_mem _ hn, by simp⟩

def monitorDiscipline (run : TaskRun) :
    Discipline (board run) (fun c _ => True ∧ AllStarted c) where
  inv := Board.Sound run
  contract := monitor run
  post _ := Ends (fun _ _ => True) fun _ => True
  apart n m := n ≠ m
  meaning_eq _ := rfl
  inv_eq _ := rfl
  apart_symm h := h.symm
  others h _ _ hguar := ⟨hguar.1, hguar.2 _ h.symm⟩
  fates _ _ _ hadmits _ := of_decide_eq_true (p := _ = Fate.done) hadmits
  exit_keeps _ _ _ ht := nomatch ht
  exit_apart _ ht := nomatch ht
  exit_pairwise := List.Pairwise.nil
  death_inv _ _ h := h
  death_rely _ _ _ _ := (monitor run _).rely_refl _
  env_inv := by
    intro c e s new _ henv hinv
    rcases boardEvent_cases henv with ⟨_, rfl, _⟩ | ⟨n, _, _, rfl, _⟩
    · exact ⟨hinv.follows, hinv.known, hinv.ordered, hinv.clearing, hinv.fields, hinv.record⟩
    · exact hinv.start
  env_rely := by
    intro c e s new _ henv _ t _
    rcases boardEvent_cases henv with ⟨_, rfl, _⟩ | ⟨n, _, _, rfl, _⟩
    · exact (monitor run t.tag).rely_refl _
    · exact ⟨⟨fun _ h => h, fun _ h => h, List.subset_cons_of_subset _ fun _ h => h⟩,
        fun h => h, fun h => h⟩
  env_keeps := by
    intro c e s new _ henv hinv t ht
    rcases boardEvent_cases henv with ⟨_, _, rfl⟩ | ⟨n, hnot, hn, rfl, rfl⟩
    · cases ht
    · obtain rfl := List.mem_singleton.mp ht
      exact keeps_actor hinv hnot hn
  env_apart := by
    intro c e s new hok henv _
    rcases boardEvent_cases henv with ⟨_, _, rfl⟩ | ⟨n, hnot, _, _, rfl⟩
    · exact ⟨List.Pairwise.nil, fun _ _ _ hu => (nomatch hu)⟩
    · refine ⟨List.pairwise_singleton _ _, fun t ht u hu heq => ?_⟩
      obtain rfl := List.mem_singleton.mp hu
      have htag : t.tag = n := heq
      exact hnot (htag ▸ hok.2 t ht)

theorem sound_reach (reach : Reach (board run) (fun _ _ => True) ⟨{}, []⟩ c) :
    c.shared.Sound run := by
  have hstart : AllStarted (⟨{}, []⟩ : Config MonitorReply Empty Board Nat) :=
    fun _ ht => (nomatch ht)
  have hreach := reach.strengthen fun _ h => allStarted_reach h hstart
  refine (hreach.safe (monitorDiscipline run) ⟨?_, fun _ ht => (nomatch ht), List.Pairwise.nil⟩).inv
  exact ⟨nofun, nofun, List.Pairwise.nil, nofun, nofun, nofun⟩

def Board.Shows (run : TaskRun) (n : Nat) (b : Board) : Prop :=
  ∃ now, (.ended n, endedFields (run.result n) now) ∈ b.history ∧
    ∀ fv ∈ endedFields (run.result n) now, b.record fv.1 = some fv.2

def Board.Prompt (n : Nat) (b : Board) : Prop :=
  b.hooks.Pairwise fun newer older => older = .ended n → ∀ m, newer ≠ .queued m

theorem Board.Sound.newer_queued {b : Board} (h : b.Sound run) (hmax : ∀ m ∈ b.kicked, m ≤ n)
    {newer older : List Hook} (hhooks : b.hooks = newer ++ .ended n :: older) :
    ∀ hook ∈ newer, ∃ m, hook = .queued m := by
  intro hook hhook
  have hordered := h.ordered
  rw [hhooks, List.pairwise_append] at hordered
  have hafter := hordered.2.2 hook hhook (.ended n) List.mem_cons_self n
  have hknown := h.known hook (hhooks ▸ List.mem_append_left _ hhook)
  cases hook with
  | queued m => exact ⟨m, rfl⟩
  | running m => exact absurd (hmax m hknown.1) (Nat.not_le_of_lt (hafter m rfl rfl))
  | ended m => exact absurd (hmax m hknown.1) (Nat.not_le_of_lt (hafter m rfl rfl))

end Runs

/-- When the last attempt has ended and every message's hook has run, the record shows that end
if and only if no message was recorded as queued after it. -/
theorem shown_iff {run : TaskRun} {c : Config MonitorReply Empty Board Nat} {n : Nat}
    (reach : Reach (board run) (fun _ _ => True) ⟨{}, []⟩ c)
    (hmax : ∀ m ∈ c.shared.kicked, m ≤ n) (hended : .ended n ∈ c.shared.hooks)
    (hsent : ∀ m ∈ c.shared.kicked, .queued m ∈ c.shared.hooks) :
    c.shared.Shows run n ↔ c.shared.Prompt n := by
  have hsound := sound_reach reach
  have hclear : c.shared.clearing = [] := List.eq_nil_iff_forall_not_mem.mpr fun m hm =>
    (hsound.clearing m hm).2 (hsent m (hsound.clearing m hm).1)
  obtain ⟨newer, older, hhooks⟩ := List.append_of_mem hended
  have hqueued := hsound.newer_queued hmax hhooks
  cases newer with
  | nil =>
    obtain ⟨e, rest, hhistory, he, hrest⟩ := List.map_eq_cons_iff.mp hhooks
    have hrecord := hsound.record hclear e (by rw [hhistory, List.head?_cons])
    obtain ⟨now, hfields⟩ := hsound.fields e (hhistory ▸ List.mem_cons_self)
    rw [he] at hfields
    have hentry : (.ended n, endedFields (run.result n) now) = e := Prod.ext he.symm hfields.symm
    refine iff_of_true ⟨now, ?_, ?_⟩ ?_
    · rw [hhistory, hentry]
      exact List.mem_cons_self
    · intro fv hfv
      exact hrecord fv (hentry ▸ hfv)
    · have hordered := hsound.ordered
      rw [Board.Prompt, hhooks, List.nil_append]
      rw [hhooks, List.nil_append, List.pairwise_cons] at hordered
      refine List.pairwise_cons.mpr ⟨fun _ _ _ _ => nofun, ?_⟩
      refine hordered.2.imp_of_mem fun {newer hook} _ hhook _ heq => ?_
      exact absurd (hordered.1 hook hhook n n heq rfl) (Nat.lt_irrefl n)
  | cons hook newer =>
    obtain ⟨m, rfl⟩ := hqueued hook List.mem_cons_self
    refine iff_of_false (fun ⟨now, _, hshown⟩ => ?_) fun hprompt => ?_
    · obtain ⟨e, rest, hhistory, he, _⟩ := List.map_eq_cons_iff.mp hhooks
      obtain ⟨now', hfields⟩ := hsound.fields e (hhistory ▸ List.mem_cons_self)
      rw [he] at hfields
      have hstate := hsound.record hclear e (by rw [hhistory, List.head?_cons]) ("state", "queued")
        (by simp [hfields, hookFields, queuedFields])
      cases hresult : run.result n with
      | success executionTime =>
        have hshown' := hshown ("state", "success") (by simp [hresult, endedFields])
        simp [hstate] at hshown'
      | failed error errorType isTimeout =>
        have hshown' := hshown ("state", "failed") (by simp [hresult, endedFields])
        simp [hstate] at hshown'
    · rw [Board.Prompt, hhooks, List.pairwise_append] at hprompt
      exact hprompt.2.2 _ List.mem_cons_self (.ended n) List.mem_cons_self rfl m rfl

section Example

def oneAttempt : TaskRun where
  message _ := ⟨"id", "mine", "[]", "{}", "{}"⟩
  result _ := .success "1.5"
  retries _ := false
  isoFormat now := now.repr

def sendDone (i n : Nat) : List (Move Empty BoardEvent) := List.replicate n (.run i .done)

def queuedFirst : List (Move Empty BoardEvent) :=
  .env .send :: sendDone 0 4 ++ [.env (.deliver 1)] ++ sendDone 1 5

def queuedLast : List (Move Empty BoardEvent) :=
  .env .send :: sendDone 0 1 ++ [.env (.deliver 1)] ++ sendDone 1 5 ++ sendDone 0 3

theorem shown_iff_prompt : ∃ c, Reach (board oneAttempt) (fun _ _ => True) ⟨{}, []⟩ c ∧
    c.shared.Shows oneAttempt 1 := by
  have hrun : ((board oneAttempt).exec queuedFirst ⟨{}, []⟩).any (fun c =>
      c.shared.kicked = [1] && c.shared.hooks = [.ended 1, .running 1, .queued 1]) = true := by
    decide +kernel
  obtain ⟨c, hc, hrest⟩ := (Option.any_eq_true _ _).mp hrun
  simp only [Bool.and_eq_true, decide_eq_true_eq] at hrest
  obtain ⟨hkicked, hhooks⟩ := hrest
  have reach : Reach (board oneAttempt) (fun _ _ => True) ⟨{}, []⟩ c :=
    Reach.start.exec (fun _ _ => trivial) hc
  refine ⟨c, reach, (shown_iff reach ?_ ?_ ?_).mpr ?_⟩
  · simp [hkicked]
  · simp [hhooks]
  · simp [hkicked, hhooks]
  · simp [Board.Prompt, hhooks]

theorem finished_shown_queued : ∃ c, Reach (board oneAttempt) (fun _ _ => True) ⟨{}, []⟩ c ∧
    (∀ t ∈ c.threads, t.ended.isSome) ∧ c.shared.kicked = [1] ∧ .ended 1 ∈ c.shared.hooks ∧
    c.shared.record "state" = some "queued" ∧ c.shared.record "finished_at" = none := by
  have hrun : ((board oneAttempt).exec queuedLast ⟨{}, []⟩).any (fun c =>
      c.threads.all (fun t => t.ended.isSome) && c.shared.kicked = [1] &&
      c.shared.hooks.contains (.ended 1) && c.shared.record "state" = some "queued" &&
      c.shared.record "finished_at" = none) = true := by
    decide +kernel
  obtain ⟨c, hc, hrest⟩ := (Option.any_eq_true _ _).mp hrun
  simp only [Bool.and_eq_true, decide_eq_true_eq, List.contains_iff_mem, List.all_eq_true] at hrest
  exact ⟨c, Reach.start.exec (fun _ _ => trivial) hc, hrest.1.1.1.1, hrest.1.1.1.2, hrest.1.1.2,
    hrest.1.2, hrest.2⟩

end Example

end Doci
