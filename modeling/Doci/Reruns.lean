import Doci.MonitorIndex

/-! `POST /tasks/{task_id}/retry`: any number of requests to run a failed task again, beside each
other, the workers and the retries that the workers send by themselves. -/

namespace Doci

open Coroutine

inductive Sender where
  | api
  | request (number : Nat)
  | worker (delivery : Nat)
  deriving DecidableEq

/-- `again` is what the retry engine sends after a failure of a message, if it does. -/
structure TaskLife where
  first : TaskiqMessage
  result : Nat → TaskiqResult
  again : TaskiqMessage → Option TaskiqMessage
  isoFormat : Nat → String

inductive RetryReply where
  | requeued
  | unknown
  | conflict (state : Option String)
  deriving DecidableEq

namespace RetryReply

def status : RetryReply → Nat
  | requeued => 200
  | unknown => 404
  | conflict _ => 409

def detail : RetryReply → String
  | requeued => "requeued"
  | unknown => "unknown task"
  | conflict state => "task is " ++ state.getD "None" ++ ", only failed tasks can be retried"

end RetryReply

inductive RetryError where
  | keyError (field : String)

/-- What an `HSET` records: a message as queued, a start, or an end and whether the worker sends a
retry after it. -/
inductive RetryMark where
  | queued (sender : Sender)
  | running
  | ended (delivery : Nat) (resends : Bool)

inductive RetryCmd where
  | now
  | hgetall (request : Nat)
  | hdel (fields : List String)
  | hset (mark : RetryMark) (mapping : Fields)
  | kick (sender : Sender) (message : TaskiqMessage)
  | execute (delivery : Nat)
  | respond (request : Nat) (reply : RetryReply)

abbrev RetryAnswer : RetryCmd → Type
  | .now => String
  | .hgetall _ => Row
  | .execute _ => TaskiqResult
  | _ => Unit

abbrev RetryProg := Prog RetryAnswer RetryError

def Row.state (row : Row) : Option String := row.lookup "state"

def Row.Failed (row : Row) : Prop := row.state = some "failed"

instance (row : Row) : Decidable row.Failed := inferInstanceAs (Decidable (_ = _))

/-- A request that reads such a record sends a message. -/
def Row.Retryable (row : Row) : Prop := row.Failed ∧ (row.lookup "task_name").isSome

instance (row : Row) : Decidable row.Retryable := inferInstanceAs (Decidable (_ ∧ _))

section Programs

variable (life : TaskLife)

/-- `post_send`. -/
def recordQueued (sender : Sender) (message : TaskiqMessage) : RetryProg Unit := do
  let now ← perform RetryCmd.now
  perform (RetryCmd.hdel runtimeFields)
  perform (RetryCmd.hset (.queued sender) (queuedFields message now))

/-- `kicker.kiq`. -/
def kiq (sender : Sender) (message : TaskiqMessage) : RetryProg Unit := do
  perform (RetryCmd.kick sender message)
  recordQueued sender message

def retryTask (request : Nat) : RetryProg Unit := do
  let row ← perform (RetryCmd.hgetall request)
  if row.entries = [] then perform (RetryCmd.respond request .unknown)
  else if ¬ row.Failed then perform (RetryCmd.respond request (.conflict row.state))
  else
    match row.lookup "task_name" with
    | none => throw (.keyError "task_name")
    | some taskName => do
      kiq (.request request) {
        taskId := life.first.taskId
        taskName
        args := (row.lookup "args").getD "[]"
        kwargs := (row.lookup "kwargs").getD "\x7b\x7d"
        labels := (row.lookup "labels").getD "\x7b\x7d" }
      perform (RetryCmd.respond request .requeued)

/-- What `RetryUnlessTimeoutMiddleware` sends after the result. -/
def resent (message : TaskiqMessage) : TaskiqResult → Option TaskiqMessage
  | .success _ => none
  | .failed _ _ isTimeout => if isTimeout then none else life.again message

def runDelivery (delivery : Nat) (message : TaskiqMessage) : RetryProg Unit := do
  let started ← perform RetryCmd.now
  perform (RetryCmd.hset .running (runningFields started))
  let result ← perform (RetryCmd.execute delivery)
  let finished ← perform RetryCmd.now
  perform (RetryCmd.hset (.ended delivery (resent life message result).isSome)
    (endedFields result finished))
  match resent life message result with
  | none => return ()
  | some retry => kiq (.worker delivery) retry

end Programs

/-- `failures` counts the changes of the record to `failed`. `taken` lists who is to send a message
for which of them, up to the moment where it is recorded as queued, and `answers` who has sent one.
Requests and deliveries are numbered in the order in which they start. -/
structure RetryBoard where
  row : Row := ∅
  clock : Nat := 0
  messages : List TaskiqMessage := []
  failures : Nat := 0
  taken : List (Sender × Nat) := []
  answers : List (Sender × Nat) := []
  replies : List (Nat × RetryReply) := []
  sent : Bool := false
  requests : Nat := 0
  deliveries : Nat := 0

namespace RetryBoard

def set (b : RetryBoard) (mark : RetryMark) (mapping : Fields) : RetryBoard :=
  let row := b.row.hset mapping
  let turned : Prop := row.Failed ∧ ¬ b.row.Failed
  let failures := if turned then b.failures + 1 else b.failures
  { b with
    row
    failures
    taken :=
      match mark with
      | .queued sender => b.taken.filter (·.1 ≠ sender)
      | .running => b.taken
      | .ended delivery resends =>
        if turned ∧ resends then (.worker delivery, failures) :: b.taken else b.taken }

def take (b : RetryBoard) (request : Nat) : RetryBoard :=
  if b.row.Retryable then { b with taken := (.request request, b.failures) :: b.taken } else b

def send (b : RetryBoard) (sender : Sender) (message : TaskiqMessage) : RetryBoard :=
  { b with
    messages := b.messages ++ [message]
    answers := (b.taken.find? (·.1 = sender)).toList ++ b.answers }

def meaning (life : TaskLife) :
    (c : RetryCmd) → RetryBoard → Except RetryError (RetryAnswer c) × RetryBoard
  | .now, b => (.ok (life.isoFormat b.clock), b)
  | .hgetall request, b => (.ok b.row, b.take request)
  | .hdel fields, b => (.ok (), { b with row := b.row.hdel fields })
  | .hset mark mapping, b => (.ok (), b.set mark mapping)
  | .kick sender message, b => (.ok (), b.send sender message)
  | .execute delivery, b => (.ok (life.result delivery), b)
  | .respond request reply, b => (.ok (), { b with replies := (request, reply) :: b.replies })

/-- One that dies before it has sent its message sends none. -/
def die (sender : Sender) (b : RetryBoard) : RetryBoard :=
  if b.answers.any (·.1 = sender) then b else { b with taken := b.taken.filter (·.1 ≠ sender) }

end RetryBoard

inductive RetryEvent where
  | tick (duration : Nat)
  | send
  | request
  | deliver (message : Nat)
  | expire

/-- A message can be delivered more than once. -/
def retryEvent (life : TaskLife) (b : RetryBoard) :
    RetryEvent → Option (RetryBoard × List (Thread RetryAnswer RetryError Sender))
  | .tick duration => some ({ b with clock := b.clock + duration }, [])
  | .send =>
    if b.sent then none else some ({ b with sent := true }, [⟨.api, kiq .api life.first⟩])
  | .request =>
    some ({ b with requests := b.requests + 1 }, [⟨.request b.requests, retryTask life b.requests⟩])
  | .deliver message =>
    match b.messages[message]? with
    | none => none
    | some message =>
      some ({ b with deliveries := b.deliveries + 1 },
        [⟨.worker b.deliveries, runDelivery life b.deliveries message⟩])
  | .expire => some ({ b with row := ∅ }, [])

/-- Every await completes; the process that is at one may die. -/
def retryBoard (life : TaskLife) : System RetryAnswer RetryError RetryBoard Sender RetryEvent where
  meaning := RetryBoard.meaning life
  admits _ _ fate :=
    match fate with
    | .done => true
    | _ => false
  env e b := retryEvent life b e
  exit _ _ := []
  death := RetryBoard.die

abbrev RetryConfig := Config RetryAnswer RetryError RetryBoard Sender

def readsRecord (c : RetryConfig) : Move RetryError RetryEvent → Bool
  | .run i _ =>
    match c.threads[i]? with
    | some t =>
      match t.prog with
      | .await (.hgetall _) _ => true
      | _ => false
    | none => false
  | _ => false

/-- A request that reads a failure finds the name of the task beside it, and no other has taken that
failure up and not yet recorded it as queued. -/
def FailuresApart (c : RetryConfig) (move : Move RetryError RetryEvent) : Prop :=
  readsRecord c move = true → c.shared.row.Failed →
    c.shared.row.Retryable ∧ ∀ e ∈ c.shared.taken, e.2 ≠ c.shared.failures

instance (c : RetryConfig) (move : Move RetryError RetryEvent) : Decidable (FailuresApart c move) :=
  inferInstanceAs (Decidable (_ → _ → _))

/-- A request that got `requeued` has sent its message, and one that got anything else has sent none;
the conflict is told of a state that is not `failed`. -/
def RetryBoard.Replied (b : RetryBoard) (request : Nat) : RetryReply → Prop
  | .requeued => ∃ failure, (.request request, failure) ∈ b.answers
  | .unknown => ∀ failure, (.request request, failure) ∉ b.answers
  | .conflict state => state ≠ some "failed" ∧ ∀ failure, (.request request, failure) ∉ b.answers

structure RetryBoard.RunOnce (b : RetryBoard) : Prop where
  once : (b.answers.map Prod.snd).Nodup
  replied : ∀ x ∈ b.replies, b.Replied x.1 x.2

/-- The request is told something before it ends. -/
def RetryBoard.Heard (sender : Sender) (b : RetryBoard) : Prop :=
  ∀ request, sender = .request request → ∃ reply, (request, reply) ∈ b.replies

end Doci
