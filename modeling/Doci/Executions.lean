import Doci.Store

/-! The rows of `workflow_execution` and the statements of `WorkflowExecutionService`. -/

namespace Doci

abbrev ThreadId := Nat
abbrev TaskId := Nat
abbrev CheckpointId := Nat

inductive WorkflowStatus where
  | queued | running | succeeded | failed
  deriving DecidableEq

def WorkflowStatus.name : WorkflowStatus → String
  | queued => "QUEUED"
  | running => "RUNNING"
  | succeeded => "SUCCEEDED"
  | failed => "FAILED"

/-- The workflows that `POST /workflows` submits. -/
inductive WorkflowKind where
  | documentMining | image | pdf
  deriving DecidableEq

inductive Workflow where
  | submitted (kind : WorkflowKind)
  | audit
  deriving DecidableEq

def Workflow.name : Workflow → String
  | submitted .documentMining => "document_mining"
  | submitted .image => "image"
  | submitted .pdf => "pdf"
  | audit => "audit"

inductive DocumentType where
  | pdf | image
  deriving DecidableEq

structure WorkflowInput where
  documentId : DocumentId
  dossierKey : Option String := none
  annotateReflect : Bool := false
  deriving DecidableEq

structure PageResult where
  pageNumber : Option Nat
  kind : Option PartKind
  pageMediaId : Option MediaId
  thumbMediaId : Option MediaId
  extractRef : Option String
  annotationRef : Option String
  deriving DecidableEq

/-- The `output` of each task. -/
inductive Output where
  | mining (document : DocumentId) (documentType : Option DocumentType) (mimeType : Option Mime)
    (unsupportedReason : Option String)
  | image (document : DocumentId) (part : PartId) (thumb : Option MediaId)
    (extractRef annotationRef : Option String)
  | pdf (document : DocumentId) (pageCount : Option Nat) (pages : List PageResult)
  | audit (document : DocumentId) (dossierKey : String) (verdict : Option Nat) (findingCount : Nat)
  deriving DecidableEq

structure WorkflowResult where
  output : Option Output := none
  error : Option String := none
  deriving DecidableEq

structure TaskiqMeta where
  taskId : Option TaskId := none
  deriving DecidableEq

structure LangGraphMeta where
  threadId : ThreadId
  checkpointId : Option CheckpointId := none
  checkpointDeadline : Option Time := none
  deriving DecidableEq

structure WorkflowMetadata where
  taskiq : TaskiqMeta := {}
  langgraph : Option LangGraphMeta := none
  retryCount : Nat := 0
  deriving DecidableEq

/-- A row; `chainedFrom` is no column, it records the mining run whose task created an
audit's row. -/
structure WorkflowRow where
  workflow : Workflow
  entityId : DocumentId
  status : WorkflowStatus := .queued
  input : WorkflowInput
  result : Option WorkflowResult := none
  metadata : WorkflowMetadata
  startedAt : Option Time := none
  finishedAt : Option Time := none
  chainedFrom : Option ExecutionId := none
  deriving DecidableEq

inductive RunStatement where
  | create (id : ExecutionId) (workflow : Workflow) (entity : DocumentId) (input : WorkflowInput)
    (metadata : WorkflowMetadata) (chainedFrom : Option ExecutionId)
  | setMetadata (id : ExecutionId) (metadata : WorkflowMetadata)
  | markRunning (id : ExecutionId)
  | finish (id : ExecutionId) (status : WorkflowStatus) (result : WorkflowResult)
    (metadata : WorkflowMetadata)
  deriving DecidableEq

def RunStatement.target : RunStatement → ExecutionId
  | create id _ _ _ _ _ => id
  | setMetadata id _ => id
  | markRunning id => id
  | finish id _ _ _ => id

/-- The columns that an `UPDATE` sets. -/
def RunStatement.update (now : Time) : RunStatement → WorkflowRow → WorkflowRow
  | create _ _ _ _ _ _, row => row
  | setMetadata _ metadata, row => { row with metadata := metadata }
  | markRunning _, row => { row with status := .running, startedAt := some now }
  | finish _ status result metadata, row =>
    { row with status := status, result := some result, metadata := metadata, finishedAt := some now }

/-- What the statement makes of its row; `none` is a primary key that is taken. -/
def RunStatement.effect (now : Time) :
    RunStatement → Option WorkflowRow → Option (Option WorkflowRow)
  | create _ workflow entity input metadata chainedFrom, none =>
    some (some { workflow, entityId := entity, input, metadata, chainedFrom })
  | create _ _ _ _ _ _, some _ => none
  | statement, row => some (row.map (statement.update now))

def WorkflowStatus.isTerminal : WorkflowStatus → Bool
  | succeeded => true
  | failed => true
  | _ => false

end Doci
