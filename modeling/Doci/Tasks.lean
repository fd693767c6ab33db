import Doci.Documents
import Doci.Executions

/-! The worker's tasks, the submit handlers and the retry of a failed task, as programs
over the services, the checkpointer and the broker. -/

namespace Doci

open Coroutine

/-- The arguments of a task. The three mining tasks take the same ones. -/
inductive TaskCall where
  | run (kind : WorkflowKind) (document : DocumentId) (execution : ExecutionId) (thread : ThreadId)
    (dossierKey : Option String) (annotateReflect : Bool)
  | audit (document : DocumentId) (auditExecution miningExecution : ExecutionId)
    (thread : ThreadId) (dossierKey language : String)
  deriving DecidableEq

namespace TaskCall

def document : TaskCall → DocumentId
  | run _ document _ _ _ _ => document
  | audit document _ _ _ _ _ => document

def execution : TaskCall → ExecutionId
  | run _ _ execution _ _ _ => execution
  | audit _ execution _ _ _ _ => execution

def thread : TaskCall → ThreadId
  | run _ _ _ thread _ _ => thread
  | audit _ _ _ thread _ _ => thread

def workflow : TaskCall → Workflow
  | run kind _ _ _ _ _ => .submitted kind
  | audit _ _ _ _ _ _ => .audit

def dossierKey : TaskCall → Option String
  | run _ _ _ _ dossierKey _ => dossierKey
  | audit _ _ _ _ dossierKey _ => some dossierKey

/-- `MAX_RETRIES` of the task's module. -/
def maxRetries : TaskCall → Nat
  | run _ _ _ _ _ _ => 3
  | audit _ _ _ _ _ _ => 1

end TaskCall

structure Message where
  taskId : TaskId
  call : TaskCall
  retries : Nat := 0
  deriving DecidableEq

structure StreamEntry where
  id : Nat
  message : Message
  deriving DecidableEq

/-- `external` is an await of something outside (a model call, another table): its reply
is whatever the world holds ready. -/
inductive WorkCmd where
  | doc (c : DocCmd)
  | external
  | aput (thread : ThreadId)
  | agetTuple (thread : ThreadId)
  | utcnow
  | run (statement : RunStatement)
  | getRun (id : ExecutionId)
  | kiq (call : TaskCall)
  | rekick (message : Message)
  | ack (entry : StreamEntry)

def WorkReply : WorkCmd → Type
  | .doc c => DocReply c
  | .external => Nat
  | .agetTuple _ => Option CheckpointId
  | .utcnow => Time
  | .getRun _ => Option WorkflowRow
  | .kiq _ => TaskId
  | _ => Unit

abbrev WorkProg (α : Type) := Prog WorkReply Exc α

def perform (c : WorkCmd) : WorkProg (WorkReply c) := Coroutine.perform c

def onDocuments {α : Type} (p : DocProg α) : WorkProg α := p.expand fun c => perform (.doc c)

/-- What the nodes of the child graphs await. -/
inductive NodeCmd where
  | external
  | aput (thread : ThreadId)
  | stream (key : ObjectKey)
  | ensureThumb (source : MediaId) (data : Bytes) (mime : Option Mime)
  | ensurePart (id : DocumentId) (locator : String) (kind : PartKind) (data : Bytes)
    (mime : Option Mime) (page : Option Nat)
  | setPartThumb (part : PartId) (thumb : MediaId)
  | setPageCount (id : DocumentId) (count : Nat)

def NodeReply : NodeCmd → Type
  | .external => Nat
  | .stream _ => Bytes
  | .ensureThumb _ _ _ => MediaRecord
  | .ensurePart _ _ _ _ _ _ => DocumentPartRecord
  | _ => Unit

abbrev NodeProg (α : Type) := Prog NodeReply Exc α

def NodeCmd.run (session : Session) : (c : NodeCmd) → WorkProg (NodeReply c)
  | external => perform .external
  | aput thread => perform (.aput thread)
  | stream key => onDocuments (statement (.streamObject key))
  | ensureThumb source data mime => onDocuments (Doci.ensureThumb source data mime)
  | ensurePart id locator kind data mime page =>
    onDocuments (Doci.ensurePart session id locator kind data mime page)
  | setPartThumb part thumb => onDocuments (Doci.setPartThumb part thumb)
  | setPageCount id count => onDocuments (Doci.setPageCount id count)

structure ImageResult where
  thumbMediaId : Option MediaId
  extractRef : Option String
  annotationRef : Option String

structure PdfResult where
  pageCount : Option Nat
  pages : List PageResult

structure Graphs where
  image (call : TaskCall) (media : MediaId) (part : PartId) (spec : Option Nat) :
    NodeProg ImageResult
  pdf (call : TaskCall) (media : MediaId) (spec : Option Nat) : NodeProg PdfResult
  audit (call : TaskCall) : NodeProg Unit

/-- `SmartRetryMiddleware`: the message that is sent again after a failure, if any. -/
structure RetryPolicy where
  next : Message → Option Message
  same_call : ∀ message again, next message = some again →
    again.call = message.call ∧ again.taskId = message.taskId

/-- The middleware's own count: an attempt more as long as the task's limit leaves one. -/
def smartRetry : RetryPolicy where
  next message :=
    if message.retries + 1 < message.call.maxRetries then
      some { message with retries := message.retries + 1 } else none
  same_call message again h := by
    simp only [Option.ite_none_right_eq_some, Option.some.injEq] at h
    exact h.2 ▸ ⟨rfl, rfl⟩

structure WorkerConfig where
  media : MediaConfig
  graphs : Graphs
  retry : RetryPolicy
  checkpointTtl : Nat := 259200

section Runtime

variable (cfg : WorkerConfig)

def langgraphMeta (thread : ThreadId) : WorkProg LangGraphMeta := do
  let checkpoint ← perform (.agetTuple thread)
  match checkpoint with
  | none => return { threadId := thread }
  | some id =>
    let now : Time ← perform .utcnow
    return { threadId := thread, checkpointId := some id,
             checkpointDeadline := some (now + cfg.checkpointTtl * 1000000) }

def finalMetadata (execution : ExecutionId) (thread : ThreadId) : WorkProg WorkflowMetadata := do
  match ← perform (.getRun execution) with
  | none => throw (.workflowExecutionNotFound execution)
  | some row =>
    let langgraph ← langgraphMeta cfg thread
    return { row.metadata with langgraph := some langgraph }

/-- `if dossier_key`. -/
def truthy : Option String → Bool
  | none => false
  | some key => key ≠ ""

/-- The dossier of the key with its documents; an unknown key gives none. -/
def resolveDossierSpec (dossierKey : Option String) : WorkProg (Option Nat) := do
  if truthy dossierKey then
    let dossier : Nat ← perform .external
    if dossier = 0 then return none
    else
      let spec : Nat ← perform .external
      return some spec
  else return none

/-- `enqueue_audit`; the new execution and its thread get the caller's number. -/
def enqueueAudit (number : Nat) (chainedFrom : Option ExecutionId) (document : DocumentId)
    (mining : ExecutionId) (dossierKey language : String) : WorkProg ExecutionId := do
  perform (.run (.create number .audit document { documentId := document, dossierKey := dossierKey }
    { langgraph := some { threadId := number } } chainedFrom))
  let _ ← perform (.kiq (.audit document number mining number dossierKey language))
  return number

end Runtime

section MiningGraph

structure MiningState where
  mediaId : MediaId
  mimeType : Option Mime
  documentType : Option DocumentType
  unsupportedReason : Option String := none

def Mime.text : Mime → String
  | pdf => "application/pdf"
  | png => "image/png"
  | jpeg => "image/jpeg"
  | gif => "image/gif"
  | webp => "image/webp"
  | bmp => "image/bmp"
  | tiff => "image/tiff"
  | docx => "application/vnd.openxmlformats-officedocument.wordprocessingml.document"
  | xlsx => "application/vnd.openxmlformats-officedocument.spreadsheetml.sheet"
  | pptx => "application/vnd.openxmlformats-officedocument.presentationml.presentation"
  | txt => "text/plain"
  | markdown => "text/markdown"
  | csv => "text/csv"

def classify : Option Mime → Option DocumentType
  | some .pdf => some .pdf
  | some .png | some .jpeg | some .gif | some .webp | some .bmp | some .tiff => some .image
  | _ => none

/-- `FinalizeDocument.__call__`. -/
def finalizeDocument (cfg : MediaConfig) (session : Session) (document : DocumentId) :
    DocProg DocumentRecord :=
  tryCatch (finalize cfg session document) fun e =>
    match e with
    | .alreadyFinalized _ => getDocument document
    | _ => throw e

variable (cfg : WorkerConfig) (session : Session)

def finalizeNode (document : DocumentId) : WorkProg MiningState := do
  let doc ← onDocuments (finalizeDocument cfg.media session document)
  return { mediaId := doc.row.mediaId, mimeType := doc.mimeType, documentType := classify doc.mimeType }

def prepareImageNode (document : DocumentId) : WorkProg PartId := do
  let part ← onDocuments (ensureSourcePart document .image)
  return part.row.id

def recordImageThumbNode (part : PartId) (thumb : Option MediaId) : WorkProg Unit :=
  match thumb with
  | none => return ()
  | some thumb => onDocuments (setPartThumb part thumb)

def unsupportedNode (state : MiningState) : MiningState :=
  let mime := (state.mimeType.map Mime.text).getD "None"
  { state with unsupportedReason := some ("unsupported type: " ++ mime) }

/-- `ainvoke` of the graph of `build_document_mining_graph`, with a checkpoint after each
node and the edges of `route_by_type`. -/
def documentMiningGraph (call : TaskCall) (spec : Option Nat) : WorkProg MiningState := do
  perform (.aput call.thread)
  let state ← finalizeNode cfg session call.document
  perform (.aput call.thread)
  match state.documentType with
  | some .pdf =>
    let _ ← (cfg.graphs.pdf call state.mediaId spec).expand (NodeCmd.run session)
    perform (.aput call.thread)
    return state
  | some .image =>
    let part ← prepareImageNode call.document
    perform (.aput call.thread)
    let image ← (cfg.graphs.image call state.mediaId part spec).expand (NodeCmd.run session)
    perform (.aput call.thread)
    recordImageThumbNode part image.thumbMediaId
    perform (.aput call.thread)
    return state
  | none =>
    perform (.aput call.thread)
    return unsupportedNode state

end MiningGraph

section Tasks

variable (cfg : WorkerConfig) (number : Nat)

/-- `TIMEOUT_S` of the mining tasks and of the audit. -/
def miningTimeout : Nat := 15 * 60

def auditTimeout : Nat := 35 * 60

def recordFailure (call : TaskCall) (error : String) (raised : Exc) : WorkProg Unit := do
  let metadata ← finalMetadata cfg call.execution call.thread
  perform (.run (.finish call.execution .failed { error := some error } metadata))
  throw raised

/-- The course that the four tasks share: `work` makes the output, `chain` follows its
recording. -/
def runTask (call : TaskCall) (timedOut : String) (work : WorkProg Output) (chain : WorkProg Unit) :
    WorkProg Unit := do
  perform (.run (.markRunning call.execution))
  tryCatch (do
      let output ← work
      let metadata ← finalMetadata cfg call.execution call.thread
      perform (.run (.finish call.execution .succeeded { output := some output } metadata))
      chain)
    fun e =>
      match e with
      | .timeoutError => recordFailure cfg call timedOut (.taskTimeout call.execution)
      | e => recordFailure cfg call e.str e

def miningTimedOut : String := "timed out after " ++ toString miningTimeout ++ "s"

def miningWork (call : TaskCall) : WorkProg Output := do
  let spec ← resolveDossierSpec call.dossierKey
  let state ← documentMiningGraph cfg number call spec
  return .mining call.document state.documentType state.mimeType state.unsupportedReason

/-- Auto-chain an audit of the run when a dossier was given. -/
def chainAudit (call : TaskCall) : WorkProg Unit :=
  if truthy call.dossierKey then do
    let _ ← enqueueAudit number (some call.execution) call.document call.execution
      (call.dossierKey.getD "") "English"
    return ()
  else return ()

def runDocumentMining (call : TaskCall) : WorkProg Unit :=
  runTask cfg call miningTimedOut (miningWork cfg number call) (chainAudit number call)

/-- The document, if it is READY. -/
def readyDocument (document : DocumentId) : WorkProg DocumentRecord := do
  let doc ← onDocuments (getDocument document)
  if doc.row.status ≠ .ready then throw (.documentNotReady document doc.row.status)
  else return doc

def imageWork (call : TaskCall) : WorkProg Output := do
  let doc ← readyDocument call.document
  let part ← onDocuments (ensureSourcePart call.document .image)
  let spec ← resolveDossierSpec call.dossierKey
  let result ← (cfg.graphs.image call doc.row.mediaId part.row.id spec).expand (NodeCmd.run number)
  recordImageThumbNode part.row.id result.thumbMediaId
  return .image call.document part.row.id result.thumbMediaId result.extractRef result.annotationRef

def runDocumentMiningImage (call : TaskCall) : WorkProg Unit :=
  runTask cfg call miningTimedOut (imageWork cfg number call) (return ())

def pdfWork (call : TaskCall) : WorkProg Output := do
  let doc ← readyDocument call.document
  let spec ← resolveDossierSpec call.dossierKey
  let result ← (cfg.graphs.pdf call doc.row.mediaId spec).expand (NodeCmd.run number)
  return .pdf call.document result.pageCount result.pages

def runDocumentMiningPdf (call : TaskCall) : WorkProg Unit :=
  runTask cfg call miningTimedOut (pdfWork cfg number call) (return ())

def auditWork (call : TaskCall) : WorkProg Output := do
  (cfg.graphs.audit call).expand (NodeCmd.run number)
  let verdict : Nat ← perform .external
  let findings : Nat ← perform .external
  return .audit call.document (call.dossierKey.getD "") (if verdict = 0 then none else some verdict)
    findings

def runAudit (call : TaskCall) : WorkProg Unit :=
  runTask cfg call "audit timed out" (auditWork cfg number call) (return ())

def TaskCall.body (call : TaskCall) : WorkProg Unit :=
  match call with
  | .run .documentMining _ _ _ _ _ => runDocumentMining cfg number call
  | .run .image _ _ _ _ _ => runDocumentMiningImage cfg number call
  | .run .pdf _ _ _ _ _ => runDocumentMiningPdf cfg number call
  | .audit _ _ _ _ _ _ => runAudit cfg number call

/-- `RetryUnlessTimeoutMiddleware.on_error`. -/
def onError (message : Message) : Exc → WorkProg Unit
  | .taskTimeout _ => return ()
  | _ =>
    match cfg.retry.next message with
    | some again => perform (.rekick again)
    | none => return ()

def afterTask (entry : StreamEntry) : Except Exc Unit → WorkProg Unit
  | .ok _ => perform (.ack entry)
  | .error e => do
    onError cfg entry.message e
    perform (.ack entry)

/-- `POST /workflows`; the execution and its thread get the caller's number. -/
def submit (kind : WorkflowKind) (document : DocumentId) (dossierKey : Option String)
    (annotateReflect : Bool) : WorkProg Unit := do
  let _ ← onDocuments (getDocument document)
  perform (.run (.create number (.submitted kind) document { documentId := document, dossierKey, annotateReflect }
    { langgraph := some { threadId := number } } none))
  let taskId ← perform (.kiq (.run kind document number number dossierKey annotateReflect))
  perform (.run (.setMetadata number
    { taskiq := { taskId := some taskId }, langgraph := some { threadId := number } }))

/-- `POST /audits`. -/
def submitAudit (document : DocumentId) (mining : ExecutionId) (dossierKey language : String) :
    WorkProg Unit := do
  let _ ← enqueueAudit number none document mining dossierKey language
  return ()

structure WorkflowStatusModel where
  executionId : ExecutionId
  workflow : Workflow
  documentId : DocumentId
  status : WorkflowStatus
  running : Bool
  error : Option String
  startedAt : Option Time
  finishedAt : Option Time

/-- The reply of `GET /workflows/{id}`. -/
def getStatus (id : ExecutionId) (row : WorkflowRow) : WorkflowStatusModel where
  executionId := id
  workflow := row.workflow
  documentId := row.entityId
  status := row.status
  running := row.status = .queued || row.status = .running
  error := row.result.bind (·.error)
  startedAt := row.startedAt
  finishedAt := row.finishedAt

end Tasks

end Doci
