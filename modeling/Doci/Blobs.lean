import Doci.DateForms
import Doci.IsoTimes
import Doci.JsonValues
import Doci.Uuids

/-! The versioned blobs of an execution: what `to_json` writes and what `from_json` makes of it. -/

namespace Doci.Blobs

open Numerals

/-- The first four are the `ValueError`s of `_require_compatible`, `int`, `UUID` and
`datetime.fromisoformat`. -/
inductive BlobError where
  | incompatible (stored current : String)
  | literal (version : String)
  | uuid
  | time
  | keyError (name : String)
  | attributeError
  | typeError
  deriving DecidableEq

def BlobError.isValueError : BlobError → Bool
  | incompatible .. | literal .. | uuid | time => true
  | keyError _ | attributeError | typeError => false

def workflowInputVersion : String := "v1.1"

def workflowResultVersion : String := "v1.0"

def workflowMetadataVersion : String := "v1.0"

section Version

variable (data : CharData)

/-- The digits of a literal, where single underscores may stand between them. -/
def literalDigits : List Char → Option (List Digit)
  | [] => none
  | [c] => (data.decimal c).map ([·])
  | c :: d :: s =>
    match data.decimal c, if d = '_' then literalDigits s else literalDigits (d :: s) with
    | some digit, some digits => some (digit :: digits)
    | _, _ => none

def splitSign : List Char → ℤ × List Char
  | '-' :: s => (-1, s)
  | '+' :: s => (1, s)
  | s => (1, s)

/-- `int(s)`; it refuses more than 4300 digits. -/
def intOf (s : List Char) : Option ℤ :=
  let signed := splitSign (strip s)
  match literalDigits data signed.2 with
  | some digits => if digits.length ≤ 4300 then some (signed.1 * value digits) else none
  | none => none

def major (version : String) : Option ℤ :=
  intOf data ((version.toList.dropWhile fun c => c == 'v' || c == 'V').takeWhile (· ≠ '.'))

def requireCompatible (stored current : String) : Except BlobError Unit :=
  match major data stored with
  | none => .error (.literal stored)
  | some storedMajor =>
    match major data current with
    | none => .error (.literal current)
    | some currentMajor =>
      if storedMajor ≠ currentMajor then .error (.incompatible stored current) else .ok ()

/-- `data.get("version", current)`, once it is found compatible. -/
def versionIn (d : Dict) (current : String) : Except BlobError String :=
  match d.get "version" with
  | none => (requireCompatible data current current).map fun _ => current
  | some (.str stored) => (requireCompatible data stored current).map fun _ => stored
  | some _ => .error .attributeError

end Version

/-- `UUID(str(value))`: but for a number, no text of another value holds 32 digits only. -/
def uuidIn : Json → Except BlobError Uuid
  | .str s => (uuidOf s).elim (.error .uuid) .ok
  | .int n => (uuidOf (toString n)).elim (.error .uuid) .ok
  | _ => .error .uuid

def dt : Json → Except BlobError (Option DateTime)
  | .null => .ok none
  | .str s => (fromIsoformat s).elim (.error .time) fun t => .ok (some t)
  | _ => .error .typeError

def iso (t : Option DateTime) : Json := (t.map fun t => Json.str t.isoformat).getD .null

/-- The fields that `from_json` hands through are of any JSON value. -/
structure WorkflowInput where
  documentId : Uuid
  dossierKey : Json := .null
  annotateReflect : Json := .bool false
  version : String := workflowInputVersion

structure WorkflowResult where
  output : Json := .null
  error : Json := .null
  version : String := workflowResultVersion

structure TaskiqMeta where
  taskId : Json := .null

structure LangGraphMeta where
  threadId : Json
  checkpointId : Json := .null
  checkpointDeadline : Option DateTime := none

structure WorkflowMetadata where
  taskiq : TaskiqMeta := {}
  langgraph : Option LangGraphMeta := none
  retryCount : Json := .int 0
  version : String := workflowMetadataVersion

def WorkflowInput.toJson (x : WorkflowInput) : Dict :=
  [("version", .str x.version), ("document_id", .str (uuidText x.documentId)),
    ("dossier_key", x.dossierKey), ("annotate_reflect", x.annotateReflect)]

def WorkflowResult.toJson (x : WorkflowResult) : Dict :=
  [("version", .str x.version), ("output", x.output), ("error", x.error)]

def TaskiqMeta.toJson (x : TaskiqMeta) : Dict := [("task_id", x.taskId)]

def LangGraphMeta.toJson (x : LangGraphMeta) : Dict :=
  [("thread_id", x.threadId), ("checkpoint_id", x.checkpointId),
    ("checkpoint_deadline", iso x.checkpointDeadline)]

def WorkflowMetadata.toJson (x : WorkflowMetadata) : Dict :=
  [("version", .str x.version), ("taskiq", .obj x.taskiq.toJson),
    ("langgraph", (x.langgraph.map fun l => Json.obj l.toJson).getD .null), ("retry_count", x.retryCount)]

def TaskiqMeta.fromJson (d : Dict) : TaskiqMeta := { taskId := (d.get "task_id").getD .null }

def LangGraphMeta.fromJson (d : Dict) : Except BlobError LangGraphMeta :=
  match d.get "thread_id" with
  | none => .error (.keyError "thread_id")
  | some threadId =>
    (dt ((d.get "checkpoint_deadline").getD .null)).map fun deadline =>
      { threadId, checkpointId := (d.get "checkpoint_id").getD .null, checkpointDeadline := deadline }

/-- `TaskiqMeta.from_json(value or {})`. -/
def taskiqIn (value : Json) : Except BlobError TaskiqMeta :=
  match value with
  | .obj d => .ok (.fromJson d)
  | value => if value.truthy then .error .attributeError else .ok (.fromJson [])

/-- `LangGraphMeta.from_json(lg) if lg else None`. -/
def langgraphIn (lg : Json) : Except BlobError (Option LangGraphMeta) :=
  if lg.truthy then
    match lg with
    | .obj d => (LangGraphMeta.fromJson d).map some
    | _ => .error .typeError
  else .ok none

section Read

variable (data : CharData)

def WorkflowInput.fromJson (d : Dict) : Except BlobError WorkflowInput := do
  let version ← versionIn data d workflowInputVersion
  match d.get "document_id" with
  | none => .error (.keyError "document_id")
  | some documentId =>
    let documentId ← uuidIn documentId
    return {
      documentId
      dossierKey := (d.get "dossier_key").getD .null
      annotateReflect := (d.get "annotate_reflect").getD (.bool false)
      version }

def WorkflowResult.fromJson (d : Dict) : Except BlobError WorkflowResult := do
  let version ← versionIn data d workflowResultVersion
  return { output := (d.get "output").getD .null, error := (d.get "error").getD .null, version }

def WorkflowMetadata.fromJson (d : Dict) : Except BlobError WorkflowMetadata := do
  let version ← versionIn data d workflowMetadataVersion
  let taskiq ← taskiqIn ((d.get "taskiq").getD .null)
  let langgraph ← langgraphIn ((d.get "langgraph").getD .null)
  return { taskiq, langgraph, retryCount := (d.get "retry_count").getD (.int 0), version }

end Read

end Doci.Blobs
