import Doci.ServiceCalls
import Doci.Tasks

/-! The worker with its broker: entries of the stream are delivered and, when they stay
unacknowledged, delivered again; tasks, submit handlers and other calls run side by side. -/

namespace Doci

open Coroutine

/-- `stream` are the entries that were not delivered yet, `pending` those that were and are
not acknowledged. `history` lists the run statements that took effect, the last one first. -/
structure World where
  docs : Store
  runs : ExecutionId → Option WorkflowRow
  history : List RunStatement
  checkpoints : ThreadId → Option CheckpointId
  stream : List StreamEntry
  pending : List StreamEntry
  reply : Nat

namespace World

def fresh (w : World) : Nat := w.docs.fresh

def take (w : World) : World := { w with docs := { w.docs with fresh := w.docs.fresh + 1 } }

def execute (w : World) (statement : RunStatement) : Except Exc Unit × World :=
  match statement.effect w.docs.now (w.runs statement.target) with
  | none => (.error Store.violation, w)
  | some row =>
    (.ok (), { w with
      runs := fun id => if id = statement.target then row else w.runs id
      history := statement :: w.history })

def send (w : World) (message : Message) : World :=
  { w.take with stream := w.stream ++ [{ id := w.fresh, message }] }

def meaning : (c : WorkCmd) → World → Except Exc (WorkReply c) × World
  | .doc c, w => ((Store.meaning c w.docs).1, { w with docs := (Store.meaning c w.docs).2 })
  | .external, w => (.ok w.reply, w)
  | .aput thread, w =>
    (.ok (), { w.take with
      checkpoints := fun t => if t = thread then some w.fresh else w.checkpoints t })
  | .agetTuple thread, w => (.ok (w.checkpoints thread), w)
  | .utcnow, w => (.ok w.docs.now, w)
  | .run statement, w => w.execute statement
  | .getRun id, w => (.ok (w.runs id), w)
  | .kiq call, w => (.ok w.fresh, w.send { taskId := w.fresh, call })
  | .rekick message, w => (.ok (), w.send message)
  | .ack entry, w => (.ok (), { w with pending := w.pending.filter (· ≠ entry) })

/-- The clock is no await. -/
def admits (c : WorkCmd) (w : World) (fate : Fate Exc) : Bool :=
  match c with
  | .doc c => Store.admits c w.docs fate
  | .utcnow => fate = .done
  | _ => fate.raised.all Exc.fromOutside

end World

inductive Job where
  | submit (kind : WorkflowKind) (document : DocumentId) (dossierKey : Option String)
    (annotateReflect : Bool)
  | submitAudit (document : DocumentId) (mining : ExecutionId) (dossierKey language : String)
  | service (call : ServiceCall)
  | attempt (entry : StreamEntry)
  | after (entry : StreamEntry)

/-- Each thread has a number of its own: its database connection and the execution that it
may create. -/
structure WorkTag where
  number : Nat
  job : Job

abbrev WorkThread := Thread WorkReply Exc WorkTag

abbrev Factory := Config WorkReply Exc World WorkTag

def Job.entry : Job → Option StreamEntry
  | attempt entry => some entry
  | after entry => some entry
  | _ => none

inductive WorkEvent where
  | submit (kind : WorkflowKind) (document : DocumentId) (dossierKey : Option String)
    (annotateReflect : Bool)
  | submitAudit (document : DocumentId) (mining : ExecutionId) (dossierKey language : String)
  | service (call : ServiceCall)
  | deliver
  | reclaim (i : Nat)
  | put (document : DocumentId) (data : Bytes)
  | tick (duration : Time)
  | answer (reply : Nat)
  | expire (thread : ThreadId)

def WorkEvent.handles (w : World) : WorkEvent → Option StreamEntry
  | deliver => w.stream.head?
  | reclaim i => w.pending[i]?
  | _ => none

section Factory

variable (cfg : WorkerConfig)

def Job.prog (number : Nat) : Job → WorkProg Unit
  | submit kind document dossierKey annotateReflect =>
    Doci.submit number kind document dossierKey annotateReflect
  | submitAudit document mining dossierKey language =>
    Doci.submitAudit number document mining dossierKey language
  | service call => onDocuments do
      let _ ← call.run cfg.media number
      return ()
  | attempt entry => entry.message.call.body cfg number
  | after _ => return ()

def start (w : World) (job : Job) : World × List WorkThread :=
  (w.take, [{ tag := { number := w.fresh, job }, prog := job.prog cfg w.fresh }])

def workEvent (w : World) : WorkEvent → Option (World × List WorkThread)
  | .submit kind document dossierKey annotateReflect =>
    some (start cfg w (.submit kind document dossierKey annotateReflect))
  | .submitAudit document mining dossierKey language =>
    some (start cfg w (.submitAudit document mining dossierKey language))
  | .service call => some (start cfg w (.service call))
  | .deliver =>
    match w.stream with
    | [] => none
    | entry :: stream =>
      some (start cfg { w with stream := stream, pending := w.pending ++ [entry] } (.attempt entry))
  | .reclaim i => do
    let entry ← w.pending[i]?
    return start cfg w (.attempt entry)
  | .put document data =>
    let objects := fun k => if k = .original document then some data else w.docs.objects k
    some ({ w with docs := { w.docs with objects := objects } }, [])
  | .tick duration => some ({ w with docs := { w.docs with now := w.docs.now + duration } }, [])
  | .answer reply => some ({ w with reply := reply }, [])
  | .expire thread =>
    some ({ w with checkpoints := fun t => if t = thread then none else w.checkpoints t }, [])

/-- An attempt that has ended is handed to the middlewares and acknowledged. -/
def workExit (tag : WorkTag) (result : Except Exc Unit) : List WorkThread :=
  match tag.job with
  | .attempt entry =>
    [{ tag := { tag with job := .after entry }, prog := afterTask cfg entry result }]
  | _ => []

def factory : System WorkReply Exc World WorkTag WorkEvent where
  meaning := World.meaning
  admits := World.admits
  env := fun e w => workEvent cfg w e
  exit := workExit cfg
  death := fun tag w => { w with docs := w.docs.rollback tag.number }

theorem factory_exit_pairwise {tag : WorkTag} {result : Except Exc Unit} :
    (((factory cfg).exit tag result).map Thread.tag).Pairwise fun _ _ => True :=
  List.pairwise_of_forall fun _ _ => trivial

end Factory

/-- Any documents, and nothing submitted yet. -/
def World.opening (docs : Store) : World where
  docs := docs
  runs := fun _ => none
  history := []
  checkpoints := fun _ => none
  stream := []
  pending := []
  reply := 0

def textStore : Store where
  media := ReadCommitted.Table.empty.insert none (.original 1)
    { id := 2, mimeType := some .txt, sizeBytes := some 1 }
  document := ReadCommitted.Table.empty.insert none 1 { mediaId := 2, name := none, status := .ready }
  part := ReadCommitted.Table.empty
  objects := fun k => if k = .original 1 then some [7] else none
  mediaKey := fun m => if m = 2 then some (.original 1) else none
  partKey := fun _ => none
  snapshots := fun _ => []
  now := 0
  fresh := 3

def quietWorker : WorkerConfig where
  media := { zipNames := fun _ => .error .badZipFile, chunks := fun data => [data] }
  graphs :=
    { image := fun _ _ _ _ => .ret { thumbMediaId := none, extractRef := none, annotationRef := none }
      pdf := fun _ _ _ => .ret { pageCount := none, pages := [] }
      audit := fun _ => .ret () }
  retry := smartRetry

/-- Thread `i` runs through that many awaits. -/
def awaits (i n : Nat) : List (Move Exc WorkEvent) := List.replicate n (.run i .done)

def auditSubmitted : List (Move Exc WorkEvent) :=
  .env (.submitAudit 1 0 "k" "English") :: awaits 0 2 ++ [.exit 0]

/-- Execution 3, a mining run of document 1 with a dossier, is submitted and delivered and runs
through that many awaits; the twelfth creates the row of its audit. -/
def minedWithDossier (n : Nat) : List (Move Exc WorkEvent) :=
  .env (.submit .documentMining 1 (some "k") false) :: awaits 0 4 ++ [.exit 0, .env .deliver] ++
    awaits 0 n

/-- An await that completes, an exit, or an event that hands out no entry. -/
def plainMove : Move Exc WorkEvent → Bool
  | .run _ fate => fate = .done
  | .exit _ => true
  | .die _ => false
  | .env .deliver => false
  | .env (.reclaim _) => false
  | .env _ => true

theorem plainMove_handles {e : WorkEvent} {w : World} (h : plainMove (.env e) = true) :
    e.handles w = none := by
  cases e <;> first | rfl | cases h

end Doci
