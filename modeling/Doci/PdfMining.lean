import Doci.PageKinds
import Doci.Results
import Doci.TaskGroups

/-! The mining graphs: a PDF is split into parts, its pages are read side by side, and what is read is
saved for the run. -/

namespace Doci

open Coroutine ReadCommitted

/-- The parts of `PdfPage`; the signals are what a page is classified by. -/
structure SplitPage where
  number : Nat
  count : Nat
  content : Bytes
  signals : PdfPage

/-- What the PDF and image libraries make of bytes: the pages of a file one by one, the PNG and the
Markdown of a page, and thumbnails. One page of one file always gives the same bytes, where the library
puts a random file id into each page that it saves. -/
structure PageLibraries where
  pages : Bytes → List (Bytes × PdfPage)
  png : Bytes → Bytes
  markdown : Bytes → String
  minimap : Bytes → Bytes
  shrink : Bytes → Bytes

/-- `answer` is what the models reply to the questions in turn. -/
structure MiningConfig where
  media : MediaConfig
  libraries : PageLibraries
  answer : Nat → (q : Question) → Answer q
  reflectRounds : Option Nat := none
  concurrency : Nat := 4

/-- `PageRef` of the graph's state. -/
structure PageRef where
  number : Nat
  kind : PageKind
  media : Option MediaId
  part : PartId

/-- What the graphs are given besides the document's blob. -/
structure MiningInput where
  execution : ExecutionId
  document : DocumentId
  dossier : Option DossierSpec
  reflect : Bool

structure ImageInput where
  media : Option MediaId
  part : PartId
  execution : ExecutionId
  dossier : Option DossierSpec
  reflect : Bool

structure PageOutput where
  pageNumber : Nat
  kind : PageKind
  pageMediaId : Option MediaId
  thumbMediaId : Option MediaId
  extractRef : Option String
  annotationRef : Option String

/-- The last state of a run's graph. -/
inductive Mined where
  | pdf (pageCount : Nat) (pages : List PageOutput)
  | image (part : PartId) (result : ImageResult)
  | unsupported (reason : Option String)

structure Mine where
  store : Store
  results : ResultTable
  asked : Nat
  succeeded : List (ExecutionId × DocumentId × Mined)

/-- `toThread` is the await of work in another thread; `succeed` stands for `mark_succeeded`. -/
inductive MiningCmd where
  | store (c : DocCmd)
  | toThread
  | ask (q : Question)
  | upsertResult (key : ResultKey) (content : Json)
  | succeed (execution : ExecutionId) (document : DocumentId) (mined : Mined)

abbrev MiningReply : MiningCmd → Type
  | .store c => DocReply c
  | .toThread => Unit
  | .ask q => Answer q
  | .upsertResult _ _ => ResultId
  | .succeed _ _ _ => Unit

abbrev MiningProg (α : Type) := Prog MiningReply Exc α

inductive PageJob where
  | page (input : MiningInput) (page : PageRef)
  | thumbnail (media : Option MediaId)
  | transcribe (input : ImageInput)
  | extract (image : Bytes)
  | annotate (image : Bytes) (dossier : Option DossierSpec) (reflect : Bool)

inductive PageValue where
  | page (output : PageOutput)
  | update (result : ImageResult)
  | markdown (text : String)
  | annotation (answer : ImageAnnotation)

abbrev MiningTask (α : Type) := TaskProg MiningReply PageJob PageValue Exc α

/-- A `DELETE FROM media` takes the results of the parts that it deletes with it. -/
def Mine.cascade (results : ResultTable) (store : Store) : DocCmd → ResultTable
  | .deleteMedia _ => results.restrict fun part => (store.partRow none part).isSome
  | _ => results

def Mine.meaning (cfg : MiningConfig) : (c : MiningCmd) → Mine → Except Exc (MiningReply c) × Mine
  | .store c, s => ((Store.meaning c s.store).1,
    { s with
      store := (Store.meaning c s.store).2
      results := Mine.cascade s.results (Store.meaning c s.store).2 c })
  | .toThread, s => (.ok (), s)
  | .ask q, s => (.ok (cfg.answer s.asked q), { s with asked := s.asked + 1 })
  | .upsertResult key content, s =>
    if (s.store.partRow none key.2.1).isNone then (.error Store.violation, s)
    else if !content.storable then (.error (.external "unsupported Unicode escape sequence"), s)
    else
      (.ok (s.results.upsert key content).1, { s with results := (s.results.upsert key content).2 })
  | .succeed execution document mined, s =>
    (.ok (), { s with succeeded := (execution, document, mined) :: s.succeeded })

def Mine.admits : MiningCmd → Mine → Fate Exc → Bool
  | .store c, s, fate => Store.admits c s.store fate
  | _, _, fate => fate.raised.all Exc.fromOutside

section Activities

variable (cfg : MiningConfig)

def onStore {α : Type} (p : DocProg α) : MiningProg α :=
  p.expand fun c => Coroutine.perform (MiningCmd.store c)

def toThread : MiningProg Unit := Coroutine.perform MiningCmd.toThread

def ask (q : Question) : MiningProg (Answer q) := Coroutine.perform (MiningCmd.ask q)

/-- `MediaService.download`. -/
def download : Option MediaId → DocProg Bytes
  | none => throw (.external "None")
  | some id => do
    let record ← fetchMedia id
    statement (.streamObject record.objectKey)

/-- `SplitPdf._iter_pages`. -/
def iterPages (data : Bytes) : List SplitPage :=
  let pages := cfg.libraries.pages data
  pages.zipIdx.map fun page =>
    { number := page.2 + 1, count := pages.length, content := page.1.1, signals := page.1.2 }

/-- `WorkflowResultService.save`. -/
def saveResult (execution : ExecutionId) (part : PartId) (kind payload : String) : MiningProg ResultId :=
  match ResultKind.ofValue kind with
  | none => throw (.external ("'" ++ kind ++ "' is not a valid ResultKind"))
  | some kind =>
    match kind.content payload with
    | none => throw (.external "JSONDecodeError")
    | some content => Coroutine.perform (MiningCmd.upsertResult (execution, part, kind) content)

/-- `SaveResultToPostgres.__call__`. -/
def save (execution : ExecutionId) (part : PartId) (kind payload : String) : MiningProg String := do
  let id ← saveResult execution part kind payload
  return toString id

/-- How often a first annotation is reviewed. -/
def reflectIters (reflect : Bool) : Nat := if reflect then cfg.reflectRounds.getD 0 else 0

def reviewText (text : String) (fields : List FieldSpec) (dossier : Option DossierSpec) :
    Nat → TextAnnotation → MiningProg TextAnnotation
  | 0, annotation => return annotation
  | rounds + 1, annotation => do
    let revised ← ask (.reflectText (textReflectPrompt text fields dossier annotation))
    reviewText text fields dossier rounds revised

/-- `AnnotateText.__call__`. -/
def annotateText (text : String) (fields : List FieldSpec) (dossier : Option DossierSpec)
    (reflect : Bool) : MiningProg TextAnnotation := do
  let annotation ← ask (.annotateText (textPrompt text fields dossier))
  reviewText text fields dossier (reflectIters cfg reflect) annotation

/-- `image_message` in an activity. -/
def visionMessage (prompt : String) (image : Bytes) : MiningProg ImageMessage :=
  match imageMessage cfg.media.zipNames prompt image with
  | .error text => throw (.external text)
  | .ok message => return message

def reviewImage (image : Bytes) (fields : List FieldSpec) (dossier : Option DossierSpec) :
    Nat → ImageAnnotation → MiningProg ImageAnnotation
  | 0, annotation => return annotation
  | rounds + 1, annotation => do
    let message ← visionMessage cfg (imageReflectPrompt fields dossier annotation) image
    let revised ← ask (.reflectImage message)
    reviewImage image fields dossier rounds revised

/-- `AnnotateImage.__call__`. -/
def annotateImage (image : Bytes) (fields : List FieldSpec) (dossier : Option DossierSpec)
    (reflect : Bool) : MiningProg ImageAnnotation := do
  let message ← visionMessage cfg (imagePrompt fields dossier) image
  let annotation ← ask (.annotateImage message)
  reviewImage cfg image fields dossier (reflectIters cfg reflect) annotation

/-- `ExtractContentImage.__call__`. -/
def extractContentImage (image : Bytes) : MiningProg String := do
  let message ← visionMessage cfg "Transcribe this image to Markdown." image
  let content ← ask (.transcribe message)
  return content.asText

def recordThumb (part : PartId) : Option MediaId → MiningProg Unit
  | none => return ()
  | some thumb => onStore (setPartThumb part thumb)

end Activities

section ImageGraph

variable (cfg : MiningConfig)

def thumbnailNode (media : Option MediaId) : MiningProg ImageResult := do
  let data ← onStore (download media)
  toThread
  let thumb ← onStore (ensureThumb (media.getD 0) (cfg.libraries.shrink data) (some .png))
  return { thumbMediaId := some thumb.row.id, extractRef := none, annotationRef := none }

/-- What the two passes over an image leave, in their order. -/
def imagePasses : List PageValue → Option (String × ImageAnnotation)
  | [.markdown text, PageValue.annotation answer] => some (text, answer)
  | _ => none

def saveImage (input : ImageInput) (text : String) (answer : ImageAnnotation) :
    MiningProg ImageResult := do
  let extract ← save input.execution input.part "extract.md" text
  let annotated ← save input.execution input.part "annotation.json" answer.modelDumpJson
  return { thumbMediaId := none, extractRef := some extract, annotationRef := some annotated }

def transcribeNode (input : ImageInput) : MiningTask ImageResult := do
  let data ← TaskProg.lift (onStore (download input.media))
  let values ← TaskProg.gather [.extract data, .annotate data input.dossier input.reflect] 2
  match imagePasses values with
  | none => throw (.external "gather")
  | some (text, answer) => TaskProg.lift (saveImage input text answer)

/-- The update that a node returns, over the state. -/
def ImageResult.update (state : ImageResult) : PageValue → ImageResult
  | .update result =>
    { thumbMediaId := result.thumbMediaId.or state.thumbMediaId
      extractRef := result.extractRef.or state.extractRef
      annotationRef := result.annotationRef.or state.annotationRef }
  | _ => state

/-- The image graph: its two branches in one step, then `done`. -/
def imageGraph (input : ImageInput) : MiningTask ImageResult := do
  let updates ← TaskProg.gather [.thumbnail input.media, .transcribe input] 2
  return updates.foldl ImageResult.update
    { thumbMediaId := none, extractRef := none, annotationRef := none }

end ImageGraph

section PdfGraph

variable (cfg : MiningConfig) (session : Session)

/-- What `split_node` gives `ensure_part` to render. -/
def rendered (kind : PageKind) (content : Bytes) : Bytes :=
  match kind with
  | .text => content
  | .image => cfg.libraries.png content

def splitPages (document : DocumentId) : List SplitPage → MiningProg (List PageRef)
  | [] => return []
  | page :: pages => do
    let kind := classifyPage page.signals
    let part ← onStore (ensurePart session document (pageLocator page.number) (storedPage kind).1
      (rendered cfg kind page.content) (some (storedPage kind).2) (some page.number))
    let refs ← splitPages document pages
    return { number := page.number, kind, media := part.row.mediaId, part := part.row.id } :: refs

def pageCount (pages : List SplitPage) : Nat := (pages.getLast?.map SplitPage.count).getD 0

def splitNode (document : DocumentId) (media : Option MediaId) : MiningProg (List PageRef × Nat) := do
  let data ← onStore (download media)
  toThread
  let refs ← splitPages cfg session document (iterPages cfg data)
  onStore (setPageCount document (pageCount (iterPages cfg data)))
  return (refs, pageCount (iterPages cfg data))

def ProcessNode.textPage (input : MiningInput) (page : PageRef) : MiningProg PageOutput := do
  let data ← onStore (download page.media)
  toThread
  let annotation ← annotateText cfg (cfg.libraries.markdown data) [] input.dossier input.reflect
  let thumb ← onStore (ensureThumb (page.media.getD 0) (cfg.libraries.minimap data) (some .png))
  onStore (setPartThumb page.part thumb.row.id)
  let extract ← save input.execution page.part "extract.md" (cfg.libraries.markdown data)
  let annotated ← save input.execution page.part "annotation.json" annotation.modelDumpJson
  return {
    pageNumber := page.number
    kind := page.kind
    pageMediaId := page.media
    thumbMediaId := some thumb.row.id
    extractRef := some extract
    annotationRef := some annotated }

def pageImageInput (input : MiningInput) (page : PageRef) : ImageInput where
  media := page.media
  part := page.part
  execution := input.execution
  dossier := input.dossier
  reflect := input.reflect

def ProcessNode.imagePage (input : MiningInput) (page : PageRef) : MiningTask PageOutput := do
  let result ← imageGraph (pageImageInput input page)
  TaskProg.lift (recordThumb page.part result.thumbMediaId)
  return {
    pageNumber := page.number
    kind := page.kind
    pageMediaId := page.media
    thumbMediaId := result.thumbMediaId
    extractRef := result.extractRef
    annotationRef := result.annotationRef }

def pageOutputs (values : List PageValue) : List PageOutput :=
  values.filterMap fun value => match value with
    | .page output => some output
    | _ => none

def sortPages (outputs : List PageOutput) : List PageOutput :=
  outputs.insertionSort fun a b => a.pageNumber ≤ b.pageNumber

def processNode (input : MiningInput) (pages : List PageRef) : MiningTask (List PageOutput) := do
  let values ← TaskProg.gather (pages.map (.page input)) cfg.concurrency
  return sortPages (pageOutputs values)

/-- The PDF graph: split, process, done. -/
def pdfGraph (input : MiningInput) (media : Option MediaId) : MiningTask Mined := do
  let (pages, count) ← TaskProg.lift (splitNode cfg session input.document media)
  let outputs ← processNode cfg input pages
  return .pdf count outputs

/-- What a job of the graphs does. -/
def PageJob.run : PageJob → MiningTask PageValue
  | page input ref =>
    match ref.kind with
    | .text => TaskProg.lift do return .page (← ProcessNode.textPage cfg input ref)
    | .image => do return .page (← ProcessNode.imagePage input ref)
  | thumbnail media => TaskProg.lift do return .update (← thumbnailNode cfg media)
  | transcribe input => do return .update (← transcribeNode input)
  | extract image => TaskProg.lift do return .markdown (← extractContentImage cfg image)
  | annotate image dossier reflect =>
    TaskProg.lift do return PageValue.annotation (← annotateImage cfg image [] dossier reflect)

end PdfGraph

section Tasks

variable (cfg : MiningConfig) (session : Session)

/-- An attempt of one of the mining tasks; the dossier is what its key resolves to. -/
structure Attempt where
  kind : WorkflowKind
  input : MiningInput

def readyNow (document : DocumentId) : DocProg DocumentRecord := do
  let doc ← getDocument document
  if doc.row.status ≠ .ready then throw (.documentNotReady document doc.row.status)
  else return doc

def imageInput (input : MiningInput) (media : MediaId) (part : PartId) : ImageInput where
  media := some media
  part := part
  execution := input.execution
  dossier := input.dossier
  reflect := input.reflect

/-- The image graph between its part's registration and its thumbnail. -/
def imageBranch (input : MiningInput) (media : MediaId) : MiningTask Mined := do
  let part ← TaskProg.lift (onStore (ensureSourcePart input.document .image))
  let result ← imageGraph (imageInput input media part.row.id)
  TaskProg.lift (recordThumb part.row.id result.thumbMediaId)
  return .image part.row.id result

def miningGraph (input : MiningInput) : MiningTask Mined := do
  let doc ← TaskProg.lift (onStore (finalizeDocument cfg.media session input.document))
  let state : MiningState := {
    mediaId := doc.row.mediaId
    mimeType := doc.mimeType
    documentType := classify doc.mimeType }
  match state.documentType with
  | some .pdf => pdfGraph cfg session input (some state.mediaId)
  | some .image => imageBranch input state.mediaId
  | none => return .unsupported (unsupportedNode state).unsupportedReason

def Attempt.graph (attempt : Attempt) : MiningTask Mined :=
  match attempt.kind with
  | .documentMining => miningGraph cfg session attempt.input
  | .image => do
    let doc ← TaskProg.lift (onStore (readyNow attempt.input.document))
    imageBranch attempt.input doc.row.mediaId
  | .pdf => do
    let doc ← TaskProg.lift (onStore (readyNow attempt.input.document))
    pdfGraph cfg session attempt.input (some doc.row.mediaId)

/-- `succeeded` records whose document was mined and what the graph ended with. -/
def Attempt.run (attempt : Attempt) : MiningTask Unit := do
  let mined ← attempt.graph cfg session
  TaskProg.lift (Coroutine.perform
    (MiningCmd.succeed attempt.input.execution attempt.input.document mined))

end Tasks

section System

/-- Calls of the services, uploads and time as before, and attempts of mining tasks. -/
inductive MiningEvent where
  | store (e : StoreEvent)
  | attempt (attempt : Attempt)

inductive MiningTag where
  | call (tag : CallTag)
  | attempt (session : Session) (attempt : Attempt)

def MiningTag.session : MiningTag → Session
  | call tag => tag.session
  | attempt session _ => session

def miningEvent (cfg : MiningConfig) (s : Mine) :
    MiningEvent → Option (Mine × List (MiningTag × MiningTask Unit))
  | .store e => (storeEvent cfg.media s.store e).map fun r =>
    ({ s with store := r.1 }, r.2.map fun t => (.call t.tag, TaskProg.lift (onStore t.prog)))
  | .attempt attempt =>
    some ({ s with store := { s.store with fresh := s.store.fresh + 1 } },
      [(.attempt s.store.fresh attempt, attempt.run cfg s.store.fresh)])

def mining (cfg : MiningConfig) : Workers MiningReply Exc Mine MiningTag MiningEvent PageJob PageValue where
  meaning := Mine.meaning cfg
  admits := Mine.admits
  interrupts := Exc.fromOutside
  env := fun e s => miningEvent cfg s e
  death := fun tag s => { s with store := s.store.rollback tag.session }
  body := PageJob.run cfg

end System

end Doci
