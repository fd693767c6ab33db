import Doci.Exits

/-! When a failed attempt of a mining task is sent again: the graph under its time budget, the
recording of a failure, and the retry middleware. -/

namespace Doci

open Coroutine

/-- `TaskTimeout` is raised by the tasks alone. -/
def Exc.Foreign : Exc → Prop
  | taskTimeout _ => False
  | _ => True

instance : DecidablePred Exc.Foreign := fun e => by
  cases e <;> unfold Exc.Foreign <;> infer_instance

/-- How `wait_for` on a graph ends. Once the budget has elapsed it raises its `TimeoutError`,
unless the graph raises something else as it is cancelled. -/
inductive GraphEnd (α : Type) where
  | returned (value : α)
  | raised (e : Exc) (foreign : e.Foreign)
  | elapsed (e : Exc) (foreign : e.Foreign)

def GraphEnd.isElapsed {α : Type} : GraphEnd α → Bool
  | elapsed _ _ => true
  | _ => false

/-- The awaits of an attempt: those outside its graph, and the graph as a whole. -/
inductive AttemptCmd where
  | work (c : WorkCmd)
  | mining (spec : Option Nat)
  | image (media : MediaId) (part : PartId) (spec : Option Nat)
  | pdf (media : MediaId) (spec : Option Nat)

def AttemptReply : AttemptCmd → Type
  | .work c => WorkReply c
  | .mining _ => GraphEnd MiningState
  | .image _ _ _ => GraphEnd ImageResult
  | .pdf _ _ => GraphEnd PdfResult

abbrev AttemptProg (α : Type) := Prog AttemptReply Exc α

abbrev AttemptAwait := Await AttemptReply Exc

/-- An await of an attempt, and whether it took effect: one that is answered did, one that raises
may have. -/
structure AttemptStep where
  await : AttemptAwait
  effective : Bool
  answered : ∀ reply, await.2 = .ok reply → effective = true

def AttemptStep.done (c : AttemptCmd) (reply : AttemptReply c) : AttemptStep where
  await := ⟨c, .ok reply⟩
  effective := true
  answered _ _ := rfl

def AttemptStep.failed (c : AttemptCmd) (e : Exc) (effective : Bool) : AttemptStep where
  await := ⟨c, .error e⟩
  effective := effective
  answered _ h := by cases h

def onTask {α : Type} (p : WorkProg α) : AttemptProg α :=
  p.expand fun c => (Coroutine.perform (AttemptCmd.work c) : AttemptProg (WorkReply c))

def askGraph (c : AttemptCmd) : AttemptProg (AttemptReply c) := Coroutine.perform c

def waitFor {α : Type} : GraphEnd α → AttemptProg α
  | .returned value => .ret value
  | .raised e _ => .throw e
  | .elapsed e _ => .throw e

def update (statement : RunStatement) : WorkProg Unit := perform (.run statement)

section Attempt

variable (cfg : WorkerConfig) (number : Nat) (call : TaskCall)

def miningAttempt : AttemptProg Output := do
  let spec ← onTask (resolveDossierSpec call.dossierKey)
  let graph : GraphEnd MiningState ← askGraph (.mining spec)
  let state ← waitFor graph
  return .mining call.document state.documentType state.mimeType state.unsupportedReason

def imageAttempt : AttemptProg Output := do
  let doc ← onTask (readyDocument call.document)
  let part ← onTask (onDocuments (ensureSourcePart call.document .image))
  let spec ← onTask (resolveDossierSpec call.dossierKey)
  let graph : GraphEnd ImageResult ← askGraph (.image doc.row.mediaId part.row.id spec)
  let result ← waitFor graph
  onTask (recordImageThumbNode part.row.id result.thumbMediaId)
  return .image call.document part.row.id result.thumbMediaId result.extractRef result.annotationRef

def pdfAttempt : AttemptProg Output := do
  let doc ← onTask (readyDocument call.document)
  let spec ← onTask (resolveDossierSpec call.dossierKey)
  let graph : GraphEnd PdfResult ← askGraph (.pdf doc.row.mediaId spec)
  let result ← waitFor graph
  return .pdf call.document result.pageCount result.pages

def attemptWork : WorkflowKind → AttemptProg Output
  | .documentMining => miningAttempt call
  | .image => imageAttempt call
  | .pdf => pdfAttempt call

def attemptChain : WorkflowKind → WorkProg Unit
  | .documentMining => chainAudit number call
  | _ => return ()

/-- The body of the `try`. -/
def attemptBody (kind : WorkflowKind) : AttemptProg Unit := do
  let output ← attemptWork call kind
  let metadata ← onTask (finalMetadata cfg call.execution call.thread)
  onTask (update (.finish call.execution .succeeded { output := some output } metadata))
  onTask (attemptChain number call kind)

/-- The `except` clauses. -/
def attemptFailed : Exc → WorkProg Unit
  | .timeoutError => recordFailure cfg call miningTimedOut (.taskTimeout call.execution)
  | e => recordFailure cfg call e.str e

def attempt (kind : WorkflowKind) : AttemptProg Unit := do
  onTask (update (.markRunning call.execution))
  tryCatch (attemptBody cfg number call kind) fun e => onTask (attemptFailed cfg call e)

def endOf {α : Type} : Except Exc α → WorkProg (GraphEnd α)
  | .ok value => .ret (.returned value)
  | .error e => if h : e.Foreign then .ret (.raised e h) else .throw e

def inline : (c : AttemptCmd) → WorkProg (AttemptReply c)
  | .work c => perform c
  | .mining spec => (documentMiningGraph cfg number call spec).settle endOf
  | .image media part spec =>
    ((cfg.graphs.image call media part spec).expand (NodeCmd.run number)).settle endOf
  | .pdf media spec => ((cfg.graphs.pdf call media spec).expand (NodeCmd.run number)).settle endOf

end Attempt

section Inline

variable {cfg : WorkerConfig} {number : Nat} {call : TaskCall}

theorem expand_onTask {α : Type} (p : WorkProg α) :
    (onTask p).expand (inline cfg number call) = p :=
  Prog.expand_back (fun c => Prog.expand_perform (inline cfg number call) (.work c)) p

theorem inline_waitFor {α : Type} (p : WorkProg α) :
    ((p.settle endOf).bind fun graph => (waitFor graph).expand (inline cfg number call)) = p := by
  have hend : ∀ r : Except Exc α, ((endOf r).bind fun graph =>
      (waitFor graph).expand (inline cfg number call)) = (match r with
        | .ok value => .ret value
        | .error e => .throw e) := by
    intro r
    cases r with
    | ok value => rfl
    | error e =>
      by_cases he : e.Foreign
      · simp only [endOf, dif_pos he]
        rfl
      · simp only [endOf, dif_neg he]
        rfl
  refine (Prog.settle_assoc _ _ _).trans ?_
  induction p with
  | ret value => exact hend (.ok value)
  | throw e => exact hend (.error e)
  | await c rest ih => exact congrArg (Prog.await c) (funext ih)

theorem inline_graph {α β : Type} (p : WorkProg α) (next : α → AttemptProg β) :
    ((p.settle endOf).bind fun graph =>
      ((waitFor graph).bind next).expand (inline cfg number call)) =
      p.bind fun value => (next value).expand (inline cfg number call) := by
  simp only [Prog.expand_bind]
  rw [← Prog.bind_assoc, inline_waitFor]

theorem inline_askGraph {β : Type} (c : AttemptCmd) (next : AttemptReply c → AttemptProg β) :
    ((askGraph c).bind next).expand (inline cfg number call) =
      (inline cfg number call c).bind fun graph => (next graph).expand (inline cfg number call) := by
  rw [Prog.expand_bind, askGraph, Prog.expand_perform]

theorem inline_miningAttempt :
    (miningAttempt call).expand (inline cfg number call) = miningWork cfg number call := by
  unfold miningAttempt miningWork
  simp only [bind_eq, Prog.expand_bind, expand_onTask]
  refine congrArg _ (funext fun spec => ?_)
  exact (inline_askGraph _ _).trans (inline_graph _ _)

theorem inline_imageAttempt :
    (imageAttempt call).expand (inline cfg number call) = imageWork cfg number call := by
  unfold imageAttempt imageWork
  simp only [bind_eq, Prog.expand_bind, expand_onTask]
  refine congrArg _ (funext fun doc => congrArg _ (funext fun part => congrArg _ (funext fun spec => ?_)))
  refine (inline_askGraph _ _).trans ((inline_graph _ _).trans (congrArg _ (funext fun result => ?_)))
  rw [Prog.expand_bind, expand_onTask]
  rfl

theorem inline_pdfAttempt :
    (pdfAttempt call).expand (inline cfg number call) = pdfWork cfg number call := by
  unfold pdfAttempt pdfWork
  simp only [bind_eq, Prog.expand_bind, expand_onTask]
  refine congrArg _ (funext fun doc => congrArg _ (funext fun spec => ?_))
  exact (inline_askGraph _ _).trans (inline_graph _ _)

def inlineWork (cfg : WorkerConfig) (number : Nat) (call : TaskCall) : WorkflowKind → WorkProg Output
  | .documentMining => miningWork cfg number call
  | .image => imageWork cfg number call
  | .pdf => pdfWork cfg number call

theorem inline_attemptWork (kind : WorkflowKind) :
    (attemptWork call kind).expand (inline cfg number call) = inlineWork cfg number call kind := by
  cases kind
  · exact inline_miningAttempt
  · exact inline_imageAttempt
  · exact inline_pdfAttempt

theorem attempt_inline (kind : WorkflowKind) {document : DocumentId} {execution : ExecutionId}
    {thread : ThreadId} {dossierKey : Option String} {annotateReflect : Bool}
    (hcall : call = .run kind document execution thread dossierKey annotateReflect) :
    (attempt cfg number call kind).expand (inline cfg number call) = call.body cfg number := by
  have hcourse : call.body cfg number =
      runTask cfg call miningTimedOut (inlineWork cfg number call kind)
        (attemptChain number call kind) := by
    subst hcall
    cases kind <;> rfl
  have hfailed : (fun e => attemptFailed cfg call e) = fun e => (match e with
      | .timeoutError => recordFailure cfg call miningTimedOut (.taskTimeout call.execution)
      | e => recordFailure cfg call e.str e) := by
    funext e
    cases e <;> rfl
  rw [hcourse, ← inline_attemptWork]
  unfold attempt attemptBody runTask
  simp only [bind_eq, tryCatch_eq, Prog.expand_bind, Prog.expand_tryCatch, expand_onTask, hfailed]
  rfl

end Inline

section Raises

variable {cfg : WorkerConfig} {number : Nat} {call : TaskCall}

theorem raises_perform_then {α : Type} {c : WorkCmd} {next : WorkReply c → WorkProg α}
    (h : ∀ reply, (next reply).Raises Exc.Foreign) :
    ((perform c).bind next).Raises Exc.Foreign :=
  (raises_perform c).bind h

theorem raises_resolveDossierSpec (key : Option String) :
    (resolveDossierSpec key).Raises Exc.Foreign := by
  unfold resolveDossierSpec
  split
  · refine raises_perform_then fun dossier => ?_
    split
    · trivial
    · exact raises_perform_then fun _ => trivial
  · trivial

theorem raises_finalMetadata (execution : ExecutionId) (thread : ThreadId) :
    (finalMetadata cfg execution thread).Raises Exc.Foreign := by
  refine raises_perform_then fun found => ?_
  cases found with
  | none => trivial
  | some row =>
    refine Prog.Raises.bind ?_ fun _ => trivial
    refine raises_perform_then fun checkpoint => ?_
    cases checkpoint with
    | none => trivial
    | some id => exact raises_perform_then fun _ => trivial

theorem raises_onDocuments {α : Type} {p : DocProg α} (h : p.Raises Exc.Foreign) :
    (onDocuments p).Raises Exc.Foreign :=
  h.expand fun c => raises_perform (WorkCmd.doc c)

theorem raises_getDocument (document : DocumentId) : (getDocument document).Raises Exc.Foreign := by
  refine (raises_perform _).bind fun found => ?_
  cases found <;> trivial

theorem raises_readyDocument (document : DocumentId) :
    (readyDocument document).Raises Exc.Foreign := by
  refine (raises_onDocuments (raises_getDocument document)).bind fun doc => ?_
  split <;> trivial

theorem raises_partFromRow (found : Option DocumentPartRecord) :
    (partFromRow found).Raises Exc.Foreign := by
  cases found <;> trivial

theorem raises_ensureSourcePart (document : DocumentId) (kind : PartKind) :
    (ensureSourcePart document kind).Raises Exc.Foreign := by
  refine (raises_perform _).bind fun found => ?_
  cases found with
  | some part => trivial
  | none =>
    refine (raises_getDocument document).bind fun doc => (raises_perform _).bind fun inserted => ?_
    cases inserted with
    | some part => trivial
    | none => exact (raises_perform _).bind raises_partFromRow

theorem raises_recordImageThumbNode (part : PartId) (thumb : Option MediaId) :
    (recordImageThumbNode part thumb).Raises Exc.Foreign := by
  cases thumb with
  | none => trivial
  | some thumb => exact raises_onDocuments (raises_perform _)

theorem raises_attemptChain (kind : WorkflowKind) :
    (attemptChain number call kind).Raises Exc.Foreign := by
  cases kind with
  | documentMining =>
    show (chainAudit number call).Raises Exc.Foreign
    unfold chainAudit
    split
    · refine Prog.Raises.bind ?_ fun _ => trivial
      refine raises_perform_then fun _ => ?_
      exact Prog.Raises.bind (raises_perform _) fun _ => trivial
    · trivial
  | _ => trivial

theorem raises_onTask {α : Type} {p : WorkProg α} (h : p.Raises Exc.Foreign) :
    (onTask p).Raises Exc.Foreign :=
  h.expand fun c => raises_perform (AttemptCmd.work c)

theorem raises_waitFor {α : Type} (graph : GraphEnd α) : (waitFor graph).Raises Exc.Foreign := by
  cases graph with
  | returned value => trivial
  | raised e foreign => exact foreign
  | elapsed e foreign => exact foreign

theorem raises_attemptWork (kind : WorkflowKind) :
    (attemptWork call kind).Raises Exc.Foreign := by
  cases kind with
  | documentMining =>
    refine (raises_onTask (raises_resolveDossierSpec _)).bind fun spec => ?_
    refine (raises_perform _).bind fun graph => ?_
    exact (raises_waitFor graph).bind fun _ => trivial
  | image =>
    refine (raises_onTask (raises_readyDocument _)).bind fun doc => ?_
    refine (raises_onTask (raises_onDocuments (raises_ensureSourcePart _ _))).bind fun part => ?_
    refine (raises_onTask (raises_resolveDossierSpec _)).bind fun spec => ?_
    refine (raises_perform _).bind fun graph => ?_
    refine (raises_waitFor graph).bind fun result => ?_
    exact (raises_onTask (raises_recordImageThumbNode _ _)).bind fun _ => trivial
  | pdf =>
    refine (raises_onTask (raises_readyDocument _)).bind fun doc => ?_
    refine (raises_onTask (raises_resolveDossierSpec _)).bind fun spec => ?_
    refine (raises_perform _).bind fun graph => ?_
    exact (raises_waitFor graph).bind fun _ => trivial

theorem raises_attemptBody (kind : WorkflowKind) :
    (attemptBody cfg number call kind).Raises Exc.Foreign := by
  refine (raises_attemptWork kind).bind fun output => ?_
  refine (raises_onTask (raises_finalMetadata _ _)).bind fun metadata => ?_
  refine (raises_onTask (raises_perform _)).bind fun _ => ?_
  exact raises_onTask (raises_attemptChain kind)

end Raises

section Policy

def attemptError : Exc → String
  | .timeoutError => miningTimedOut
  | e => e.str

/-- The error that a step leaves in the row of the execution. -/
def AttemptStep.recordedError (execution : ExecutionId) (step : AttemptStep) : Option String :=
  match step.await.1 with
  | .work (.run (.finish id .failed record _)) =>
    if id = execution ∧ step.effective = true then record.error else none
  | _ => none

/-- The error is recorded, and the recording is answered. -/
def Recorded (execution : ExecutionId) (steps : List AttemptStep) (text : String) : Prop :=
  ∃ step ∈ steps, (∃ reply, step.await.2 = .ok reply) ∧ step.recordedError execution = some text

def budgetElapsed : AttemptAwait → Bool
  | ⟨.mining _, .ok graph⟩ => graph.isElapsed
  | ⟨.image _ _ _, .ok graph⟩ => graph.isElapsed
  | ⟨.pdf _ _, .ok graph⟩ => graph.isElapsed
  | _ => false

def Elapsed (steps : List AttemptStep) : Prop := ∃ step ∈ steps, budgetElapsed step.await = true

def isRekick : WorkAwait → Bool
  | ⟨.rekick _, _⟩ => true
  | _ => false

/-- The middleware sends the message again after this exception. -/
def Rekicked (cfg : WorkerConfig) (entry : StreamEntry) (e : Exc) : Prop :=
  ∃ trace result, (afterTask cfg entry (.error e)).Trace trace result ∧
    ∃ a ∈ trace, isRekick a = true

/-- A failed attempt is sent again unless its own budget elapsed, and its row does not say that
it timed out when it did not. -/
def RetriesUnlessElapsed (cfg : WorkerConfig) (entry : StreamEntry) (steps : List AttemptStep)
    (e : Exc) : Prop :=
  (Rekicked cfg entry e ↔ ¬ Elapsed steps) ∧ (¬ Elapsed steps →
    ∀ step ∈ steps, step.recordedError entry.message.call.execution ≠ some miningTimedOut)

variable (cfg : WorkerConfig) (number : Nat) (call : TaskCall) (kind : WorkflowKind)

/-- How the body of the `try` and the recording of its failure may go: without a `TimeoutError`
while the budget lasts, unless its recording leaves nothing in the row; and with nothing but the
budget's `TimeoutError`, recorded, once it has elapsed. -/
def ProperFailure (body handled : List AttemptStep) (raised : Exc) : Prop :=
  (Elapsed body → raised = .timeoutError ∧ Recorded call.execution handled miningTimedOut) ∧
  (¬ Elapsed body → attemptError raised ≠ miningTimedOut ∨
    ∀ step ∈ handled, step.recordedError call.execution = none)

def FailsOrderly (steps : List AttemptStep) (e : Exc) : Prop :=
  ∀ started body raised handled, steps = started :: (body ++ handled) →
    started.await = ⟨.work (.run (.markRunning call.execution)), .ok ()⟩ →
    (attemptBody cfg number call kind).Trace (body.map AttemptStep.await) (.error raised) →
    (onTask (attemptFailed cfg call raised)).Trace (handled.map AttemptStep.await) (.error e) →
    ProperFailure call body handled raised

end Policy

section Retries

variable {cfg : WorkerConfig} {number : Nat} {call : TaskCall} {kind : WorkflowKind}
  {trace : List AttemptAwait} {steps body handled : List AttemptStep} {e raised : Exc}
  {entry : StreamEntry}

theorem attemptFailed_eq (e : Exc) : attemptFailed cfg call e = recordFailure cfg call
    (attemptError e) (if e = .timeoutError then .taskTimeout call.execution else e) := by
  cases e <;> rfl

theorem recordFailure_ends {text : String} {inner : List WorkAwait}
    (h : (recordFailure cfg call text raised).Trace inner (.error e)) :
    (∃ reads metadata, inner = reads ++
        [⟨.run (.finish call.execution .failed { error := some text } metadata), .ok ()⟩] ∧
      (∀ a ∈ reads, a.1.Aside) ∧ e = raised) ∨
    (∃ reads metadata, inner = reads ++
        [⟨.run (.finish call.execution .failed { error := some text } metadata), .error e⟩] ∧
      ∀ a ∈ reads, a.1.Aside) ∨
    (finalMetadata cfg call.execution call.thread).Trace inner (.error e) := by
  rcases h.of_bind with ⟨reads, metadata, last, hreads, hlast, rfl⟩ | ⟨e', hreads, he⟩
  · have haside := hreads.uses (uses_finalMetadata _ _)
    rcases hlast.of_bind with ⟨first, value, rest, hfirst, hrest, rfl⟩ | ⟨e', hfirst, he⟩
    · obtain rfl := hfirst.of_perform
      obtain ⟨rfl, he⟩ := hrest.of_throw
      exact .inl ⟨reads, metadata, rfl, haside, Except.error.inj he⟩
    · obtain rfl := hfirst.of_perform
      obtain rfl := Except.error.inj he
      exact .inr (.inl ⟨reads, metadata, rfl, haside⟩)
  · obtain rfl := Except.error.inj he
    exact .inr (.inr hreads)

theorem AttemptStep.recordedError_aside {step : AttemptStep} {a : WorkAwait} {execution : ExecutionId}
    (h : step.await = ⟨.work a.1, a.2⟩) (haside : a.1.Aside) : step.recordedError execution = none := by
  obtain ⟨c, reply⟩ := a
  simp only [recordedError, h]
  cases c with
  | run statement => exact haside.elim
  | _ => rfl

/-- The failure is recorded, or another exception takes its place. -/
theorem attemptFailed_ends
    (h : (onTask (attemptFailed cfg call raised)).Trace (handled.map AttemptStep.await) (.error e))
    (hforeign : ∀ step ∈ handled, ∀ e, step.await.2 = .error e → e.Foreign) :
    (∀ step ∈ handled, ∀ text, step.recordedError call.execution = some text →
      text = attemptError raised) ∧
    (Recorded call.execution handled (attemptError raised) ∧
        e = (if raised = .timeoutError then .taskTimeout call.execution else raised) ∨
      (¬ ∃ text, Recorded call.execution handled text) ∧ e.Foreign) := by
  obtain ⟨inner, hinner, hmap⟩ := Prog.Trace.of_inject AttemptCmd.work h
  have hwork : ∀ step ∈ handled, ∃ a ∈ inner, step.await = ⟨.work a.1, a.2⟩ := by
    intro step hstep
    have hmem : step.await ∈ handled.map AttemptStep.await := List.mem_map_of_mem hstep
    rw [hmap] at hmem
    obtain ⟨a, ha, heq⟩ := List.mem_map.mp hmem
    exact ⟨a, ha, heq.symm⟩
  have hstep : ∀ a ∈ inner, ∃ step ∈ handled, step.await = ⟨.work a.1, a.2⟩ := by
    intro a ha
    have hmem : (⟨.work a.1, a.2⟩ : AttemptAwait) ∈ handled.map AttemptStep.await := by
      rw [hmap]
      exact List.mem_map_of_mem ha
    exact List.mem_map.mp hmem
  have hlast : ∀ (reads : List WorkAwait) (a : WorkAwait), inner = reads ++ [a] →
      (∀ b ∈ reads, b.1.Aside) → ∀ step ∈ handled, ∀ text,
        step.recordedError call.execution = some text → step.await = ⟨.work a.1, a.2⟩ := by
    rintro reads a rfl haside step hmem text htext
    obtain ⟨b, hb, heq⟩ := hwork step hmem
    rcases List.mem_append.mp hb with hb | hb
    · rw [AttemptStep.recordedError_aside heq (haside b hb)] at htext
      cases htext
    · obtain rfl := List.mem_singleton.mp hb
      exact heq
  rw [attemptFailed_eq] at hinner
  rcases recordFailure_ends hinner with
    ⟨reads, metadata, hinner, haside, he⟩ | ⟨reads, metadata, hinner, haside⟩ | hreads
  · refine ⟨fun step hmem text htext => ?_, .inl ⟨?_, he⟩⟩
    · have heq := hlast reads _ hinner haside step hmem text htext
      simp only [AttemptStep.recordedError, heq] at htext
      split_ifs at htext
      exact (Option.some.inj htext).symm
    · obtain ⟨step, hmem, heq⟩ := hstep _ (hinner ▸ List.mem_append_right reads List.mem_cons_self)
      obtain ⟨await, effective, answered⟩ := step
      obtain rfl : await = _ := heq
      refine ⟨_, hmem, ⟨(), rfl⟩, ?_⟩
      simp [AttemptStep.recordedError, answered () rfl]
  · refine ⟨fun step hmem text htext => ?_, .inr ⟨?_, ?_⟩⟩
    · have heq := hlast reads _ hinner haside step hmem text htext
      simp only [AttemptStep.recordedError, heq] at htext
      split_ifs at htext
      exact (Option.some.inj htext).symm
    · rintro ⟨text, ⟨await, effective, answered⟩, hmem, ⟨reply, hreply⟩, htext⟩
      obtain rfl : await = _ := hlast reads _ hinner haside _ hmem text htext
      cases hreply
    · obtain ⟨⟨await, effective, answered⟩, hmem, heq⟩ :=
        hstep _ (hinner ▸ List.mem_append_right reads List.mem_cons_self)
      obtain rfl : await = _ := heq
      exact hforeign _ hmem _ rfl
  · have hnone : ∀ step ∈ handled, step.recordedError call.execution = none := by
      intro step hmem
      obtain ⟨a, ha, heq⟩ := hwork step hmem
      exact AttemptStep.recordedError_aside heq (hreads.uses (uses_finalMetadata _ _) a ha)
    refine ⟨fun step hmem text htext => ?_, .inr ⟨?_, ?_⟩⟩
    · rw [hnone step hmem] at htext
      cases htext
    · rintro ⟨text, step, hmem, _, htext⟩
      rw [hnone step hmem] at htext
      cases htext
    · refine hreads.raises (raises_finalMetadata _ _) fun a ha e' he' => ?_
      obtain ⟨⟨await, effective, answered⟩, hmem, heq⟩ := hstep a ha
      obtain rfl : await = _ := heq
      exact hforeign _ hmem e' he'

theorem rekicked_iff {again : Message} (hnext : cfg.retry.next entry.message = some again) :
    Rekicked cfg entry e ↔ e.Foreign := by
  have hforeign : e.Foreign → onError cfg entry.message e = perform (.rekick again) := by
    intro he
    cases e with
    | taskTimeout execution => exact he.elim
    | _ =>
      simp only [onError, hnext]
      rfl
  constructor
  · rintro ⟨trace, result, htrace, a, ha, hrekick⟩
    by_contra he
    have hquiet : onError cfg entry.message e = return () := by
      cases e with
      | taskTimeout execution => rfl
      | _ => exact (he trivial).elim
    rw [afterTask, hquiet] at htrace
    obtain rfl := htrace.of_perform
    obtain rfl := List.mem_singleton.mp ha
    cases hrekick
  · intro he
    refine ⟨[⟨.rekick again, .ok ()⟩, ⟨.ack entry, .ok ()⟩], .ok (), ?_, _, List.mem_cons_self, rfl⟩
    rw [afterTask, hforeign he]
    exact .await (.await (.ret ()))

/-- No failure is recorded within the `try`. -/
def AttemptCmd.Unfailing : AttemptCmd → Prop
  | work (.run (.finish _ .failed _ _)) => False
  | _ => True

theorem WorkCmd.Aside.unfailing {c : WorkCmd} (h : c.Aside) : (AttemptCmd.work c).Unfailing := by
  cases c with
  | run statement => exact h.elim
  | _ => trivial

theorem unfailing_onTask {α : Type} {p : WorkProg α}
    (h : p.Uses fun c => (AttemptCmd.work c).Unfailing) : (onTask p).Uses AttemptCmd.Unfailing :=
  Prog.Uses.expand_of h fun _ hc => uses_perform hc

theorem unfailing_inner {α : Type} {p : WorkProg α} (h : p.Uses WorkCmd.Inner) :
    (onTask p).Uses AttemptCmd.Unfailing :=
  unfailing_onTask (h.mono fun _ hc => hc.aside.unfailing)

theorem unfailing_waitFor {α : Type} (graph : GraphEnd α) :
    (waitFor graph).Uses AttemptCmd.Unfailing := by
  cases graph <;> trivial

theorem unfailing_attemptWork : (attemptWork call kind).Uses AttemptCmd.Unfailing := by
  have hspec := unfailing_inner ((uses_resolveDossierSpec call.dossierKey).mono fun _ h => h.1)
  have hready := unfailing_inner ((uses_readyDocument call.document).mono fun _ h => h.1)
  cases kind with
  | documentMining =>
    refine hspec.bind fun spec => Prog.Uses.bind (uses_perform trivial) fun graph => ?_
    exact (unfailing_waitFor graph).bind fun _ => trivial
  | image =>
    refine hready.bind fun doc => (unfailing_inner (uses_onDocuments _)).bind fun part => ?_
    refine hspec.bind fun spec => Prog.Uses.bind (uses_perform trivial) fun graph => ?_
    refine (unfailing_waitFor graph).bind fun result => ?_
    exact (unfailing_inner ((uses_recordImageThumbNode _ _).mono fun _ h => h.1)).bind fun _ => trivial
  | pdf =>
    refine hready.bind fun doc => hspec.bind fun spec => ?_
    refine Prog.Uses.bind (uses_perform trivial) fun graph => ?_
    exact (unfailing_waitFor graph).bind fun _ => trivial

theorem unfailing_attemptChain : (onTask (attemptChain number call kind)).Uses AttemptCmd.Unfailing := by
  cases kind with
  | documentMining =>
    apply unfailing_onTask
    show (chainAudit number call).Uses _
    unfold chainAudit
    split
    · refine Prog.Uses.bind ?_ fun _ => trivial
      refine Prog.Uses.bind (uses_perform trivial) fun _ => ?_
      exact Prog.Uses.bind (uses_perform trivial) fun _ => trivial
    · trivial
  | _ => trivial

theorem unfailing_attemptBody : (attemptBody cfg number call kind).Uses AttemptCmd.Unfailing := by
  refine unfailing_attemptWork.bind fun output => ?_
  refine (unfailing_onTask ((uses_finalMetadata _ _).mono fun _ h => h.unfailing)).bind fun metadata => ?_
  refine Prog.Uses.bind ?_ fun _ => unfailing_attemptChain
  exact unfailing_onTask (uses_perform trivial)

theorem recordedError_unfailing {step : AttemptStep} (h : step.await.1.Unfailing)
    (execution : ExecutionId) : step.recordedError execution = none := by
  obtain ⟨⟨c, reply⟩, effective, answered⟩ := step
  cases c with
  | work c =>
    cases c with
    | run statement =>
      cases statement with
      | finish id status record metadata =>
        cases status with
        | failed => exact h.elim
        | _ => rfl
      | _ => rfl
    | _ => rfl
  | _ => rfl

theorem not_elapsed_onTask {α : Type} {p : WorkProg α} {result : Except Exc α}
    (h : (onTask p).Trace (steps.map AttemptStep.await) result) : ¬ Elapsed steps := by
  obtain ⟨inner, _, hmap⟩ := Prog.Trace.of_inject AttemptCmd.work h
  rintro ⟨step, hstep, helapsed⟩
  have hmem : step.await ∈ steps.map AttemptStep.await := List.mem_map_of_mem hstep
  rw [hmap] at hmem
  obtain ⟨a, _, heq⟩ := List.mem_map.mp hmem
  rw [← heq] at helapsed
  cases helapsed

theorem trace_update {statement : RunStatement} {result : Except Exc Unit}
    (h : (onTask (update statement)).Trace trace result) :
    trace = [⟨.work (.run statement), result⟩] := by
  obtain ⟨inner, hinner, rfl⟩ := Prog.Trace.of_inject AttemptCmd.work h
  obtain rfl := Prog.Trace.of_perform (c := WorkCmd.run statement) hinner
  rfl

theorem elapsed_append (h : ¬ Elapsed handled) (started : AttemptStep)
    (hstarted : budgetElapsed started.await = false) :
    Elapsed (started :: (body ++ handled)) ↔ Elapsed body := by
  constructor
  · rintro ⟨a, ha, helapsed⟩
    rcases List.mem_cons.mp ha with rfl | ha
    · rw [hstarted] at helapsed
      cases helapsed
    · rcases List.mem_append.mp ha with ha | ha
      · exact ⟨a, ha, helapsed⟩
      · exact (h ⟨a, ha, helapsed⟩).elim
  · rintro ⟨a, ha, helapsed⟩
    exact ⟨a, List.mem_cons_of_mem _ (List.mem_append_left _ ha), helapsed⟩

theorem retries_iff_orderly
    (hbody : (attemptBody cfg number call kind).Trace (body.map AttemptStep.await) (.error raised))
    (hhandled : (onTask (attemptFailed cfg call raised)).Trace (handled.map AttemptStep.await) (.error e))
    (hforeign : ∀ step ∈ body ++ handled, ∀ e, step.await.2 = .error e → e.Foreign) :
    ((e.Foreign ↔ ¬ Elapsed body) ∧ (¬ Elapsed body →
        ∀ step ∈ handled, step.recordedError call.execution ≠ some miningTimedOut)) ↔
      ProperFailure call body handled raised := by
  have hraised : raised.Foreign := by
    refine hbody.raises (raises_attemptBody kind) fun a ha e he => ?_
    obtain ⟨step, hstep, rfl⟩ := List.mem_map.mp ha
    exact hforeign step (List.mem_append_left _ hstep) e he
  obtain ⟨honly, hends⟩ := attemptFailed_ends hhandled fun step hstep =>
    hforeign step (List.mem_append_right _ hstep)
  rcases hends with ⟨hrecorded, he⟩ | ⟨hnone, he⟩
  · -- the failure is recorded: a `TimeoutError` as the budget's
    obtain ⟨a, ha, hanswered, htext⟩ := id hrecorded
    have htimed : e.Foreign ↔ raised ≠ .timeoutError := by
      rw [he]
      split_ifs with htimeout
      · exact iff_of_false id (not_not.mpr htimeout)
      · exact iff_of_true hraised htimeout
    have htimeout : raised = .timeoutError → attemptError raised = miningTimedOut := by
      rintro rfl
      rfl
    constructor
    · rintro ⟨hretry, hrecord⟩
      constructor
      · intro helapsed
        have hraised : raised = .timeoutError := by
          by_contra hne
          exact hretry.mp (htimed.mpr hne) helapsed
        exact ⟨hraised, htimeout hraised ▸ hrecorded⟩
      · intro helapsed
        refine .inl fun htimedOut => hrecord helapsed a ha ?_
        rw [htext, htimedOut]
    · rintro ⟨helapsed, hother⟩
      have hplain : ¬ Elapsed body → attemptError raised ≠ miningTimedOut := by
        intro hbudget
        rcases hother hbudget with hne | hnone
        · exact hne
        · rw [hnone a ha] at htext
          cases htext
      refine ⟨htimed.trans ⟨fun hne hbudget => hne (helapsed hbudget).1, fun hbudget hraised =>
        hplain hbudget (htimeout hraised)⟩, fun hbudget b hb hsame => ?_⟩
      exact hplain hbudget (honly b hb _ hsame).symm
  · -- another exception takes the place of the failure
    constructor
    · rintro ⟨hretry, hrecord⟩
      refine ⟨fun helapsed => (hretry.mp he helapsed).elim, fun hbudget => ?_⟩
      by_cases htext : attemptError raised = miningTimedOut
      · refine .inr fun b hb => Option.eq_none_iff_forall_ne_some.mpr fun text hsome => ?_
        exact hrecord hbudget b hb (by rw [hsome, honly b hb text hsome, htext])
      · exact .inl htext
    · rintro ⟨helapsed, hother⟩
      have hbudget : ¬ Elapsed body := fun hbudget => hnone ⟨_, (helapsed hbudget).2⟩
      refine ⟨iff_of_true he hbudget, fun _ b hb hsame => ?_⟩
      rcases hother hbudget with hne | hquiet
      · exact hne (honly b hb _ hsame).symm
      · rw [hquiet b hb] at hsame
        cases hsame

end Retries

/-- A failed attempt of a mining task is sent again if and only if its own budget has not
elapsed, and its row then does not say that it timed out, exactly when it fails in order: no
`TimeoutError` ends the body before the budget elapses, and once it has, its recording does not
fail. -/
theorem attempt_retry_iff {cfg : WorkerConfig} {number : Nat} {kind : WorkflowKind}
    {entry : StreamEntry} {again : Message} {steps : List AttemptStep} {e : Exc}
    (h : (attempt cfg number entry.message.call kind).Trace (steps.map AttemptStep.await) (.error e))
    (hforeign : ∀ step ∈ steps, ∀ e, step.await.2 = .error e → e.Foreign)
    (hnext : cfg.retry.next entry.message = some again) :
    RetriesUnlessElapsed cfg entry steps e ↔ FailsOrderly cfg number entry.message.call kind steps e := by
  rw [RetriesUnlessElapsed, rekicked_iff hnext]
  have hstart : ∀ started : AttemptStep,
      started.await.1 = .work (.run (.markRunning entry.message.call.execution)) →
      budgetElapsed started.await = false ∧
        started.recordedError entry.message.call.execution = none := by
    rintro ⟨⟨c, reply⟩, effective, answered⟩ (rfl : c = _)
    exact ⟨rfl, rfl⟩
  have hcase : ∀ started body raised handled, steps = started :: (body ++ handled) →
      started.await = ⟨.work (.run (.markRunning entry.message.call.execution)), .ok ()⟩ →
      (attemptBody cfg number entry.message.call kind).Trace (body.map AttemptStep.await)
        (.error raised) →
      (onTask (attemptFailed cfg entry.message.call raised)).Trace (handled.map AttemptStep.await)
        (.error e) →
      (((e.Foreign ↔ ¬ Elapsed steps) ∧ (¬ Elapsed steps → ∀ step ∈ steps,
          step.recordedError entry.message.call.execution ≠ some miningTimedOut)) ↔
        ProperFailure entry.message.call body handled raised) := by
    rintro started body raised handled rfl hstarted hbody hhandled
    obtain ⟨hlasting, hsilent⟩ := hstart started (congrArg Sigma.fst hstarted)
    rw [← retries_iff_orderly hbody hhandled fun a ha => hforeign a (List.mem_cons_of_mem _ ha),
      elapsed_append (not_elapsed_onTask hhandled) _ hlasting]
    have hquiet : ∀ a ∈ body, a.recordedError entry.message.call.execution = none := fun a ha =>
      recordedError_unfailing (hbody.uses unfailing_attemptBody _ (List.mem_map_of_mem ha)) _
    refine and_congr_right fun _ => imp_congr_right fun _ => ⟨fun hall a ha => ?_, fun hall a ha => ?_⟩
    · exact hall a (List.mem_cons_of_mem _ (List.mem_append_right _ ha))
    · rcases List.mem_cons.mp ha with rfl | ha
      · rw [hsilent]
        exact nofun
      · rcases List.mem_append.mp ha with ha | ha
        · rw [hquiet a ha]
          exact nofun
        · exact hall a ha
  rcases h.of_bind with ⟨first, value, rest, hfirst, hrest, hmap⟩ | ⟨e', hfirst, he⟩
  · obtain rfl := trace_update hfirst
    obtain ⟨started, later, rfl, hstarted, hlater⟩ := List.map_eq_cons_iff.mp hmap
    rcases hrest.of_tryCatch with ⟨_, _, hok⟩ | ⟨body, raised, handled, hbody, hhandled, hrest⟩
    · cases hok
    · obtain ⟨body, handled, rfl, rfl, rfl⟩ := List.map_eq_append_iff.mp (hlater.trans hrest)
      constructor
      · rintro hpolicy started' body' raised' handled' hsteps hstarted' hbody' hhandled'
        exact (hcase started' body' raised' handled' hsteps hstarted' hbody' hhandled').mp hpolicy
      · intro horderly
        exact (hcase started body raised handled rfl hstarted hbody hhandled).mpr
          (horderly started body raised handled rfl hstarted hbody hhandled)
  · -- `mark_running` fails before the `try`
    obtain rfl := Except.error.inj he
    obtain ⟨⟨await, effective, answered⟩, later, rfl, hstarted, hlater⟩ :=
      List.map_eq_cons_iff.mp (trace_update hfirst)
    obtain rfl := List.map_eq_nil_iff.mp hlater
    obtain rfl : await = _ := hstarted
    obtain ⟨hlasting, hsilent⟩ := hstart ⟨_, effective, answered⟩ rfl
    refine iff_of_true ⟨iff_of_true (hforeign _ List.mem_cons_self _ rfl) ?_, fun _ a ha => ?_⟩ ?_
    · rintro ⟨a, ha, helapsed⟩
      obtain rfl := List.mem_singleton.mp ha
      rw [hlasting] at helapsed
      cases helapsed
    · obtain rfl := List.mem_singleton.mp ha
      rw [hsilent]
      exact nofun
    · rintro started' body raised handled hsteps hstarted'
      obtain ⟨rfl, _⟩ := List.cons.inj hsteps
      cases hstarted'

section Example

def miningEntry : StreamEntry where
  id := 0
  message := { taskId := 7, call := .run .documentMining 1 2 3 none false }

def miningRow : WorkflowRow where
  workflow := .submitted .documentMining
  entityId := 1
  status := .running
  input := { documentId := 1 }
  metadata := {}

/-- The attempt whose graph ends so, and whose failure is then recorded by the last await. -/
def recordedSteps (graph : GraphEnd MiningState) (recording : AttemptStep) : List AttemptStep :=
  [.done (.work (.run (.markRunning 2))) (), .done (.mining none) graph,
    .done (.work (.getRun 2)) (some miningRow), .done (.work (.agetTuple 3)) none, recording]

def markFailed (text : String) : AttemptCmd :=
  .work (.run (.finish 2 .failed { error := some text } { langgraph := some { threadId := 3 } }))

/-- The budget elapses, and the checkpointer cannot be reached afterwards. -/
def abandonedSteps : List AttemptStep :=
  [.done (.work (.run (.markRunning 2))) (), .done (.mining none) (.elapsed .timeoutError trivial),
    .done (.work (.getRun 2)) (some miningRow),
    .failed (.work (.agetTuple 3)) (.external "ConnectionError") false]

theorem attempt_retry_external :
    RetriesUnlessElapsed quietWorker miningEntry
        (recordedSteps (.raised (.external "boom") trivial) (.done (markFailed "boom") ()))
        (.external "boom") ↔
      FailsOrderly quietWorker 9 miningEntry.message.call .documentMining
        (recordedSteps (.raised (.external "boom") trivial) (.done (markFailed "boom") ()))
        (.external "boom") := by
  have hnext : quietWorker.retry.next miningEntry.message =
      some { miningEntry.message with retries := 1 } := rfl
  refine attempt_retry_iff (.await (.await (.await (.await (.await (.throw _)))))) ?_ hnext
  intro a ha e he
  simp only [recordedSteps, List.mem_cons, List.not_mem_nil, or_false] at ha
  rcases ha with rfl | rfl | rfl | rfl | rfl <;> cases he

/-- A `TimeoutError` from inside the graph ends the run for good, as timed out; it is recorded so
although the run is sent again when the recording commits and raises; and an attempt whose budget
elapsed is sent again when the recording fails. -/
theorem attempt_retry_fails :
    ((attempt quietWorker 9 miningEntry.message.call .documentMining).Trace
        ((recordedSteps (.raised .timeoutError trivial)
          (.done (markFailed miningTimedOut) ())).map AttemptStep.await) (.error (.taskTimeout 2)) ∧
      ¬ RetriesUnlessElapsed quietWorker miningEntry
        (recordedSteps (.raised .timeoutError trivial) (.done (markFailed miningTimedOut) ()))
        (.taskTimeout 2)) ∧
    ((attempt quietWorker 9 miningEntry.message.call .documentMining).Trace
        ((recordedSteps (.raised .timeoutError trivial)
          (.failed (markFailed miningTimedOut) (.external "ConnectionError") true)).map
            AttemptStep.await) (.error (.external "ConnectionError")) ∧
      ¬ RetriesUnlessElapsed quietWorker miningEntry
        (recordedSteps (.raised .timeoutError trivial)
          (.failed (markFailed miningTimedOut) (.external "ConnectionError") true))
        (.external "ConnectionError")) ∧
    ((attempt quietWorker 9 miningEntry.message.call .documentMining).Trace
        (abandonedSteps.map AttemptStep.await) (.error (.external "ConnectionError")) ∧
      ¬ RetriesUnlessElapsed quietWorker miningEntry abandonedSteps (.external "ConnectionError")) := by
  have hnext : quietWorker.retry.next miningEntry.message =
      some { miningEntry.message with retries := 1 } := rfl
  have hlasting : ∀ recording : AttemptStep, budgetElapsed recording.await = false →
      ¬ Elapsed (recordedSteps (.raised .timeoutError trivial) recording) := by
    rintro recording hrecording ⟨a, ha, helapsed⟩
    simp only [recordedSteps, List.mem_cons, List.not_mem_nil, or_false] at ha
    rcases ha with rfl | rfl | rfl | rfl | rfl
    case inr.inr.inr.inr =>
      rw [hrecording] at helapsed
      cases helapsed
    all_goals cases helapsed
  refine ⟨⟨.await (.await (.await (.await (.await (.throw _))))), fun hpolicy => ?_⟩,
    ⟨.await (.await (.await (.await (.await (.throw _))))), fun hpolicy => ?_⟩,
    ⟨.await (.await (.await (.await (.throw _)))), fun hpolicy => ?_⟩⟩
  · exact (rekicked_iff hnext).mp (hpolicy.1.mpr (hlasting _ rfl))
  · refine hpolicy.2 (hlasting _ rfl) (.failed (markFailed miningTimedOut) (.external "ConnectionError") true)
      ?_ rfl
    simp [recordedSteps]
  · refine hpolicy.1.mp ((rekicked_iff hnext).mpr trivial) ?_
    exact ⟨_, List.mem_cons_of_mem _ List.mem_cons_self, rfl⟩

end Example

end Doci
