import Doci.Tasks
import Mathlib.Data.List.Perm.Basic
import Mathlib.Data.List.Perm.Subperm

/-! The Redis Stream broker of `doci/taskiq/broker.py` in time: workers of one consumer group, whose
unacknowledged messages are delivered again once they have been idle. Times are milliseconds. -/

namespace Doci

structure TaskiqConfig where
  idleTimeoutMs : Nat := 30 * 60 * 1000
  maxAsyncTasks : Nat := 1

/-- `TIMEOUT_S` of the task. -/
def Workflow.timeoutMs : Workflow → Nat
  | .submitted _ => miningTimeout * 1000
  | .audit => auditTimeout * 1000

structure QueuedTask where
  id : Nat
  task : Workflow
  execution : ExecutionId
  deriving DecidableEq

structure Delivery where
  message : QueuedTask
  worker : Nat
  startedAt : Option Nat := none
  deriving DecidableEq

/-- `stream` are the messages not delivered yet, `pending` those delivered and not acknowledged with
the time of their last delivery. `active` are the deliveries whose task has not ended, `ended` the
messages whose worker is about to acknowledge them. -/
structure ConsumerGroup where
  now : Nat := 0
  fresh : Nat := 0
  stream : List QueuedTask := []
  pending : List (QueuedTask × Nat) := []
  active : List Delivery := []
  ended : List QueuedTask := []

inductive GroupEvent where
  | tick (duration : Nat)
  | send (task : Workflow)
  | deliver (worker : Nat)
  | reclaim (i worker : Nat)
  | start (i : Nat)
  | finish (i : Nat) (retry : Bool)
  | ack (i : Nat)

namespace ConsumerGroup

def idle (cfg : TaskiqConfig) (g : ConsumerGroup) (worker : Nat) : Bool :=
  (g.active.filter fun x => x.worker = worker && x.startedAt.isSome).length < cfg.maxAsyncTasks

/-- A failed task that is retried is sent as a new message of the same execution. -/
def step (cfg : TaskiqConfig) (g : ConsumerGroup) : GroupEvent → Option ConsumerGroup
  | .tick duration => some { g with now := g.now + duration }
  | .send task =>
    some { g with
      fresh := g.fresh + 1
      stream := g.stream ++ [{ id := g.fresh, task, execution := g.fresh }] }
  | .deliver worker =>
    match g.stream with
    | [] => none
    | message :: stream =>
      some { g with
        stream := stream
        pending := g.pending ++ [(message, g.now)]
        active := g.active ++ [{ message, worker }] }
  | .reclaim i worker => do
    let (message, since) ← g.pending[i]?
    if since + cfg.idleTimeoutMs ≤ g.now then
      some { g with
        pending := g.pending.set i (message, g.now)
        active := g.active ++ [{ message, worker }] }
    else none
  | .start i => do
    let x ← g.active[i]?
    if x.startedAt = none && g.idle cfg x.worker then
      some { g with active := g.active.set i { x with startedAt := some g.now } }
    else none
  | .finish i retry => do
    let x ← g.active[i]?
    if x.startedAt.isSome then
      some { g with
        fresh := g.fresh + 1
        active := g.active.eraseIdx i
        ended := x.message :: g.ended
        stream := if retry then g.stream ++ [{ x.message with id := g.fresh }] else g.stream }
    else none
  | .ack i => do
    let message ← g.ended[i]?
    some { g with
      ended := g.ended.eraseIdx i
      pending := g.pending.filter fun p => p.1 ≠ message }

/-- The groups reached from an empty one by events that `ok` admits. -/
inductive Runs (cfg : TaskiqConfig) (ok : ConsumerGroup → GroupEvent → Bool) : ConsumerGroup → Prop
  | start : Runs cfg ok {}
  | step {g g' : ConsumerGroup} {e : GroupEvent} (run : Runs cfg ok g) (hok : ok g e = true)
      (h : g.step cfg e = some g') : Runs cfg ok g'

/-- The time that passes leaves each running task within its own budget. -/
def withinBudget (g : ConsumerGroup) : GroupEvent → Bool
  | .tick duration => g.active.all fun x =>
    x.startedAt.all fun since => g.now + duration ≤ since + x.message.task.timeoutMs
  | _ => true

/-- The time that passes leaves each unacknowledged message younger than the idle timeout. -/
def acknowledgedInTime (cfg : TaskiqConfig) (g : ConsumerGroup) : GroupEvent → Bool
  | .tick duration => g.pending.all fun p => g.now + duration < p.2 + cfg.idleTimeoutMs
  | _ => true

def executions (g : ConsumerGroup) : List ExecutionId :=
  g.stream.map QueuedTask.execution ++ g.active.map fun x => x.message.execution

structure Sound (cfg : TaskiqConfig) (g : ConsumerGroup) : Prop where
  young : ∀ p ∈ g.pending, g.now < p.2 + cfg.idleTimeoutMs
  distinct : g.executions.Nodup
  known : ∀ n ∈ g.executions, n < g.fresh

section Sound

variable {cfg : TaskiqConfig} {ok : ConsumerGroup → GroupEvent → Bool} {g g' : ConsumerGroup}
  {e : GroupEvent}

theorem Sound.of_subperm (h : g.Sound cfg)
    (hyoung : ∀ p ∈ g'.pending, g'.now < p.2 + cfg.idleTimeoutMs)
    (hsub : g'.executions.Subperm g.executions) (hfresh : g.fresh ≤ g'.fresh) : g'.Sound cfg := by
  obtain ⟨l, hperm, hl⟩ := hsub
  refine ⟨hyoung, hperm.nodup_iff.mp (h.distinct.sublist hl), fun n hn => ?_⟩
  exact Nat.lt_of_lt_of_le (h.known n (hl.subset (hperm.mem_iff.mpr hn))) hfresh

theorem executions_send (task : Workflow) :
    (executions { g with
      fresh := g.fresh + 1
      stream := g.stream ++ [{ id := g.fresh, task, execution := g.fresh }] }).Perm
    (g.fresh :: g.executions) := by
  simp only [executions, List.map_append, List.map_cons, List.map_nil, List.append_assoc]
  exact List.perm_middle

theorem executions_deliver {message : QueuedTask} {stream : List QueuedTask}
    (hstream : g.stream = message :: stream) (worker : Nat) (pending : List (QueuedTask × Nat)) :
    (executions { g with
      stream := stream
      pending := pending
      active := g.active ++ [{ message, worker }] }).Perm g.executions := by
  simp only [executions, hstream, List.map_append, List.map_cons, List.map_nil, ← List.append_assoc]
  exact List.perm_append_singleton _ _

theorem executions_start {i : Nat} {x : Delivery} (hi : g.active[i]? = some x)
    (since : Option Nat) :
    executions { g with active := g.active.set i { x with startedAt := since } } = g.executions := by
  obtain ⟨hlt, rfl⟩ := List.getElem?_eq_some_iff.mp hi
  have hset := List.map_set (f := fun x : Delivery => x.message.execution) (l := g.active) (i := i)
    (a := g.active[i])
  rw [List.set_getElem_self] at hset
  simp only [executions, List.map_set]
  exact congrArg _ hset.symm

theorem executions_finish {i : Nat} {x : Delivery} (hi : g.active[i]? = some x) (retry : Bool) :
    (executions { g with
      fresh := g.fresh + 1
      active := g.active.eraseIdx i
      ended := x.message :: g.ended
      stream := if retry then g.stream ++ [{ x.message with id := g.fresh }]
        else g.stream }).Subperm g.executions := by
  obtain ⟨hlt, rfl⟩ := List.getElem?_eq_some_iff.mp hi
  cases retry with
  | false =>
    exact ((List.Sublist.refl _).append ((List.eraseIdx_sublist g.active i).map _)).subperm
  | true =>
    have hactive := (List.getElem_cons_eraseIdx_perm hlt).map fun x : Delivery =>
      x.message.execution
    simp only [executions, if_true, List.map_append, List.map_cons, List.map_nil,
      List.append_assoc]
    exact (hactive.append_left _).subperm

theorem Sound.step (h : g.Sound cfg) (hidle : 0 < cfg.idleTimeoutMs)
    (hok : acknowledgedInTime cfg g e = true) (hstep : g.step cfg e = some g') : g'.Sound cfg := by
  cases e with
  | tick duration =>
    obtain rfl := Option.some.inj hstep
    refine ⟨fun p hp => ?_, h.distinct, h.known⟩
    exact of_decide_eq_true (List.all_eq_true.mp hok p hp)
  | send task =>
    obtain rfl := Option.some.inj hstep
    have hperm := executions_send (g := g) task
    refine ⟨h.young, hperm.nodup_iff.mpr (List.nodup_cons.mpr ⟨fun hmem => ?_, h.distinct⟩),
      fun n hn => ?_⟩
    · exact Nat.lt_irrefl _ (h.known _ hmem)
    · rcases List.mem_cons.mp (hperm.mem_iff.mp hn) with rfl | hn
      · exact Nat.lt_succ_self _
      · exact Nat.lt_succ_of_lt (h.known n hn)
  | deliver worker =>
    simp only [ConsumerGroup.step] at hstep
    split at hstep
    · cases hstep
    · next message stream hstream =>
      obtain rfl := Option.some.inj hstep
      refine h.of_subperm (fun p hp => ?_) (executions_deliver hstream worker _).subperm
        (Nat.le_refl _)
      rcases List.mem_append.mp hp with hp | hp
      · exact h.young p hp
      · obtain rfl := List.mem_singleton.mp hp
        exact Nat.lt_add_of_pos_right hidle
  | reclaim i worker =>
    simp only [ConsumerGroup.step, Option.bind_eq_bind, Option.bind_eq_some_iff,
      Option.ite_none_right_eq_some] at hstep
    obtain ⟨p, hp, hripe, _⟩ := hstep
    exact absurd hripe (Nat.not_le_of_lt (h.young p (List.mem_of_getElem? hp)))
  | start i =>
    simp only [ConsumerGroup.step, Option.bind_eq_bind, Option.bind_eq_some_iff,
      Option.ite_none_right_eq_some, Option.some.injEq] at hstep
    obtain ⟨x, hx, _, rfl⟩ := hstep
    exact h.of_subperm h.young (executions_start hx _ ▸ List.Subperm.refl _) (Nat.le_refl _)
  | finish i retry =>
    simp only [ConsumerGroup.step, Option.bind_eq_bind, Option.bind_eq_some_iff,
      Option.ite_none_right_eq_some, Option.some.injEq] at hstep
    obtain ⟨x, hx, _, rfl⟩ := hstep
    exact h.of_subperm h.young (executions_finish hx retry) (Nat.le_succ _)
  | ack i =>
    simp only [ConsumerGroup.step, Option.bind_eq_bind, Option.bind_eq_some_iff,
      Option.some.injEq] at hstep
    obtain ⟨message, _, rfl⟩ := hstep
    exact h.of_subperm (fun p hp => h.young p (List.mem_filter.mp hp).1) (List.Subperm.refl _)
      (Nat.le_refl _)

theorem Runs.sound (run : Runs cfg ok g) (hidle : 0 < cfg.idleTimeoutMs)
    (hok : ∀ g e, ok g e = true → acknowledgedInTime cfg g e = true) : g.Sound cfg := by
  induction run with
  | start => exact ⟨nofun, List.nodup_nil, nofun⟩
  | step _ hmove hstep ih => exact ih.step hidle (hok _ _ hmove) hstep

def running (g : ConsumerGroup) : List Delivery := g.active.filter fun x => x.startedAt.isSome

/-- The events of a list in turn, as long as `ok` admits them. -/
def exec (cfg : TaskiqConfig) (ok : ConsumerGroup → GroupEvent → Bool) :
    List GroupEvent → ConsumerGroup → Option ConsumerGroup
  | [], g => some g
  | e :: events, g => if ok g e then (g.step cfg e).bind (exec cfg ok events) else none

theorem Runs.exec {events : List GroupEvent} (run : Runs cfg ok g)
    (h : ConsumerGroup.exec cfg ok events g = some g') : Runs cfg ok g' := by
  induction events generalizing g with
  | nil => exact Option.some.inj h ▸ run
  | cons e events ih =>
    simp only [ConsumerGroup.exec, Option.ite_none_right_eq_some] at h
    obtain ⟨next, hstep, hrest⟩ := Option.bind_eq_some_iff.mp h.2
    exact ih (run.step h.1 hstep) hrest

end Sound

/-- When each delivered message is acknowledged before it has been idle for the idle timeout, no
message and no execution is run by two invocations at the same time. -/
theorem run_once {g : ConsumerGroup} (run : Runs {} (acknowledgedInTime {}) g) :
    g.running.Pairwise fun x y =>
      x.message ≠ y.message ∧ x.message.execution ≠ y.message.execution := by
  have hdistinct := (run.sound (by decide) fun _ _ h => h).distinct
  have hactive := (List.nodup_append.mp hdistinct).2.1
  rw [List.Nodup, List.pairwise_map] at hactive
  refine (hactive.sublist List.filter_sublist).imp fun {x y} hne => ⟨fun heq => hne ?_, hne⟩
  rw [heq]

/-- Two workers: one fails a mining run, acknowledges it and takes the next one, while the other audits;
the retry waits. -/
def workedInTime : List GroupEvent :=
  [.send (.submitted .image), .send .audit, .send (.submitted .pdf), .deliver 0, .start 0,
    .tick (15 * 60 * 1000), .deliver 1, .start 1, .tick (10 * 60 * 1000), .finish 0 true, .ack 0,
    .deliver 0, .start 1, .tick (14 * 60 * 1000)]

theorem run_once_worked : ∃ g, Runs {} (acknowledgedInTime {}) g ∧ g.running.length = 2 ∧
    g.pending.length = 2 ∧ g.stream.length = 1 ∧ g.running.Pairwise fun x y =>
      x.message ≠ y.message ∧ x.message.execution ≠ y.message.execution := by
  have hrun : (exec {} (acknowledgedInTime {}) workedInTime {}).any
      (fun g => g.running.length = 2 && (g.pending.length = 2 && g.stream.length = 1)) = true := by
    decide +kernel
  obtain ⟨g, hg, hcounts⟩ := (Option.any_eq_true _ _).mp hrun
  simp only [Bool.and_eq_true, decide_eq_true_eq] at hcounts
  exact ⟨g, Runs.start.exec hg, hcounts.1, hcounts.2.1, hcounts.2.2, run_once (Runs.start.exec hg)⟩

/-- An audit takes 31 of its 35 minutes, and after 30 a second worker claims its message. -/
def auditedTwice : List GroupEvent :=
  [.send .audit, .deliver 0, .start 0, .tick (30 * 60 * 1000), .reclaim 0 1, .start 1,
    .tick (60 * 1000)]

theorem audit_run_twice : ∃ g, Runs {} withinBudget g ∧ ∃ x y, g.running = [x, y] ∧
    x.message = y.message ∧ x.worker ≠ y.worker := by
  have hrun : (exec {} withinBudget auditedTwice {}).any (fun g =>
      ∃ x ∈ g.running, ∃ y ∈ g.running, g.running = [x, y] ∧ x.message = y.message ∧
        x.worker ≠ y.worker) = true := by
    decide +kernel
  obtain ⟨g, hg, htwice⟩ := (Option.any_eq_true _ _).mp hrun
  obtain ⟨x, -, y, -, hrunning⟩ := of_decide_eq_true htwice
  exact ⟨g, Runs.start.exec hg, x, y, hrunning⟩

end ConsumerGroup

end Doci
