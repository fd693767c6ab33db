import Doci.RelyGuarantee
import Mathlib.Logic.Function.Basic

/-! `doci/taskiq/monitor.py`: the record of one task, written by the sender of each of its
messages and by the worker of each attempt. -/

namespace Doci

open Coroutine

/-- The message of an attempt; `args`, `kwargs` and `labels` are their JSON texts. -/
structure TaskiqMessage where
  taskId : String
  taskName : String
  args : String
  kwargs : String
  labels : String

/-- How an attempt ends: with the JSON text of its execution time, or with an exception. -/
inductive TaskiqResult where
  | success (executionTime : String)
  | failed (error errorType : String) (isTimeout : Bool)

/-- What is sent and returned for each attempt, and whether the retry engine sends another. -/
structure TaskRun where
  message : Nat → TaskiqMessage
  result : Nat → TaskiqResult
  retries : Nat → Bool
  isoFormat : Nat → String

inductive Hook where
  | queued (attempt : Nat)
  | running (attempt : Nat)
  | ended (attempt : Nat)
  deriving DecidableEq

abbrev Fields := List (String × String)

/-- `hdel` and `hset` go to the record of the task; each names the hook that sends it. -/
inductive MonitorCmd where
  | now
  | hdel (attempt : Nat) (fields : List String)
  | hset (hook : Hook) (mapping : Fields)
  | kick (attempt : Nat)
  | execute (attempt : Nat)

abbrev MonitorReply : MonitorCmd → Type
  | .now => String
  | .execute _ => TaskiqResult
  | _ => Unit

abbrev MonitorProg := Prog MonitorReply Empty

def runtimeFields : List String :=
  ["started_at", "finished_at", "error", "error_type", "execution_time"]

/-- The commands of `_touch` on the record. -/
def touch (hook : Hook) (mapping : Fields) : MonitorProg Unit :=
  match hook with
  | .queued attempt => do
    perform (MonitorCmd.hdel attempt runtimeFields)
    perform (MonitorCmd.hset hook mapping)
  | _ => perform (MonitorCmd.hset hook mapping)

def queuedFields (message : TaskiqMessage) (now : String) : Fields :=
  [("task_id", message.taskId), ("task_name", message.taskName), ("state", "queued"),
    ("args", message.args), ("kwargs", message.kwargs), ("labels", message.labels),
    ("queued_at", now)]

def runningFields (now : String) : Fields := [("state", "running"), ("started_at", now)]

def endedFields : TaskiqResult → String → Fields
  | .success executionTime, now =>
    [("state", "success"), ("finished_at", now), ("execution_time", executionTime)]
  | .failed error errorType _, now =>
    [("state", "failed"), ("finished_at", now), ("error", error), ("error_type", errorType)]

section Hooks

variable (run : TaskRun)

/-- `post_send`. -/
def markQueued (attempt : Nat) : MonitorProg Unit := do
  let now ← perform MonitorCmd.now
  touch (.queued attempt) (queuedFields (run.message attempt) now)

/-- `pre_execute`. -/
def markStarted (attempt : Nat) : MonitorProg Unit := do
  let now ← perform MonitorCmd.now
  touch (.running attempt) (runningFields now)

/-- `post_execute` after a success, `on_error` after a failure. -/
def markEnded (attempt : Nat) : MonitorProg Unit := do
  let now ← perform MonitorCmd.now
  touch (.ended attempt) (endedFields (run.result attempt) now)

def kick (attempt : Nat) : MonitorProg Unit := do
  perform (MonitorCmd.kick attempt)
  markQueued run attempt

/-- `RetryUnlessTimeoutMiddleware.on_error`. -/
def retryOnError (attempt : Nat) (isTimeout : Bool) : MonitorProg Unit :=
  if isTimeout then return ()
  else if run.retries attempt then kick run (attempt + 1)
  else return ()

def runAttempt (attempt : Nat) : MonitorProg Unit := do
  markStarted attempt
  let result ← perform (MonitorCmd.execute attempt)
  markEnded run attempt
  match result with
  | .success _ => return ()
  | .failed _ _ isTimeout => retryOnError run attempt isTimeout

/-- The API that sends the first message is actor 0, the worker of an attempt has its number. -/
def actor : Nat → MonitorProg Unit
  | 0 => kick run 1
  | attempt + 1 => runAttempt run (attempt + 1)

end Hooks

/-- `clearing` are the attempts whose message's hook has cleared the record and not yet set it;
`history` lists what was set, the last first. -/
structure Board where
  record : String → Option String := fun _ => none
  clock : Nat := 0
  kicked : List Nat := []
  started : List Nat := []
  clearing : List Nat := []
  history : List (Hook × Fields) := []

def Board.setAll (record : String → Option String) (mapping : Fields) : String → Option String :=
  mapping.foldl (fun record fv => Function.update record fv.1 (some fv.2)) record

def Board.meaning (run : TaskRun) : (c : MonitorCmd) → Board → Except Empty (MonitorReply c) × Board
  | .now, b => (.ok (run.isoFormat b.clock), b)
  | .hdel attempt fields, b =>
    (.ok (), { b with
      record := fun f => if f ∈ fields then none else b.record f
      clearing := attempt :: b.clearing })
  | .hset hook mapping, b =>
    (.ok (), { b with
      record := Board.setAll b.record mapping
      clearing := b.clearing.filter fun attempt => .queued attempt ≠ hook
      history := (hook, mapping) :: b.history })
  | .kick attempt, b => (.ok (), { b with kicked := attempt :: b.kicked })
  | .execute attempt, b => (.ok (run.result attempt), b)

inductive BoardEvent where
  | tick (duration : Nat)
  | send
  | deliver (attempt : Nat)

def boardEvent (run : TaskRun) (b : Board) :
    BoardEvent → Option (Board × List (Thread MonitorReply Empty Nat))
  | .tick duration => some ({ b with clock := b.clock + duration }, [])
  | .send =>
    if 0 ∈ b.started then none
    else some ({ b with started := 0 :: b.started }, [⟨0, actor run 0⟩])
  | .deliver attempt =>
    if attempt ∈ b.kicked ∧ attempt ∉ b.started then
      some ({ b with started := attempt :: b.started }, [⟨attempt, actor run attempt⟩])
    else none

/-- Every await completes; a worker may die. -/
def board (run : TaskRun) : System MonitorReply Empty Board Nat BoardEvent where
  meaning := Board.meaning run
  admits _ _ fate := fate = .done
  env e b := boardEvent run b e
  exit _ _ := []
  death _ b := b

end Doci
