import Doci.Worker

/-! Which commands each thread issues: whose rows it creates and updates, what it sends and
what it acknowledges. -/

namespace Doci

open Coroutine

def TaskCall.isMining (call : TaskCall) : Prop := call.workflow = .submitted .documentMining

/-- What a result records agrees with the status that it is stored under. -/
def WorkflowResult.Suits (result : WorkflowResult) : WorkflowStatus → Prop
  | .succeeded => result.error = none
  | .failed => result.error.isSome
  | _ => False

inductive Job.Creates (number : Nat) : Job → RunStatement → Prop
  | submit (kind : WorkflowKind) (document : DocumentId) (dossierKey : Option String)
    (annotateReflect : Bool) :
    Creates number (.submit kind document dossierKey annotateReflect)
      (.create number (.submitted kind) document
        { documentId := document, dossierKey, annotateReflect }
        { langgraph := some { threadId := number } } none)
  | submitAudit (document : DocumentId) (mining : ExecutionId) (dossierKey language : String) :
    Creates number (.submitAudit document mining dossierKey language)
      (.create number .audit document { documentId := document, dossierKey := dossierKey }
        { langgraph := some { threadId := number } } none)
  | chain (entry : StreamEntry) (dossierKey : String) (hmining : entry.message.call.isMining)
    (htruthy : truthy entry.message.call.dossierKey = true) :
    Creates number (.attempt entry)
      (.create number .audit entry.message.call.document
        { documentId := entry.message.call.document, dossierKey := dossierKey }
        { langgraph := some { threadId := number } } (some entry.message.call.execution))

def WorkTag.Permits (tag : WorkTag) : WorkCmd → Prop
  | .run (.create id workflow entity input metadata chainedFrom) =>
    tag.job.Creates tag.number (.create id workflow entity input metadata chainedFrom)
  | .run (.setMetadata id metadata) => id = tag.number ∧ metadata.taskiq.taskId.isSome ∧
    ∃ kind document dossierKey reflect, tag.job = .submit kind document dossierKey reflect
  | .run (.markRunning id) => ∃ entry, tag.job = .attempt entry ∧ id = entry.message.call.execution
  | .run (.finish id status result _) => result.Suits status ∧
    ∃ entry, tag.job = .attempt entry ∧ id = entry.message.call.execution
  | .kiq call => call.execution = tag.number
  | .rekick message => ∃ entry, tag.job = .after entry ∧ message.call = entry.message.call
  | .ack entry => tag.job = .after entry
  | _ => True

/-- The statement neither inserts a document nor writes the original of one. -/
def DocCmd.Derived : DocCmd → Prop
  | .insertDocument _ _ _ _ => False
  | .uploadObject key _ => ∀ document, key ≠ .original document
  | _ => True

section Derived

variable {cfg : MediaConfig} {session : Session}

theorem derived_ensureThumb (source : MediaId) (data : Bytes) (mime : Option Mime) :
    (ensureThumb source data mime).Uses DocCmd.Derived := by
  apply Prog.Uses.bind
  · apply (uses_statement trivial).bind
    intro found
    cases found <;> trivial
  · intro src
    apply (uses_statement trivial).bind
    intro existing
    cases existing with
    | some record => trivial
    | none =>
      apply (uses_statement trivial).bind
      rintro ⟨data, mime⟩
      have hupload : (statement (.uploadObject (.thumb src.objectKey) data)).Uses DocCmd.Derived :=
        uses_statement fun _ => nofun
      exact hupload.bind fun _ => uses_statement trivial

theorem derived_finalize (id : DocumentId) : (finalize cfg session id).Uses DocCmd.Derived := by
  apply (uses_fetch trivial).bind
  intro doc
  split_ifs
  · trivial
  · apply Prog.Uses.bind
    · apply Prog.Uses.tryCatch
      · apply (uses_statement trivial).bind
        intro data
        split <;> trivial
      · intro e
        split
        · exact (uses_statement trivial).bind fun _ => trivial
        · exact (uses_statement trivial).bind fun _ => trivial
        · trivial
    · rintro ⟨mime, size⟩
      apply Prog.Uses.bind
      · apply uses_transaction (P := DocCmd.Derived) trivial trivial trivial
        intro _
        exact (uses_statement trivial).bind fun _ => uses_statement trivial
      · intro _
        exact uses_fetch trivial

theorem derived_finalizeDocument (document : DocumentId) :
    (finalizeDocument cfg session document).Uses DocCmd.Derived := by
  apply (derived_finalize document).tryCatch
  intro e
  split
  · exact uses_fetch trivial
  · trivial

theorem derived_ensurePart (id : DocumentId) (locator : String) (kind : PartKind) (data : Bytes)
    (mime : Option Mime) (page : Option Nat) :
    (ensurePart session id locator kind data mime page).Uses DocCmd.Derived := by
  apply (uses_statement trivial).bind
  intro existing
  split
  · trivial
  · apply (uses_statement trivial).bind
    rintro ⟨data, mime⟩
    have hupload : (statement (.uploadObject (.region id locator) data)).Uses DocCmd.Derived :=
      uses_statement fun _ => nofun
    apply hupload.bind
    intro _
    apply Prog.Uses.bind
    · apply uses_transaction (P := DocCmd.Derived) trivial trivial trivial
      intro _
      exact (uses_statement trivial).bind fun _ => uses_statement trivial
    · intro inserted
      cases inserted with
      | some part => trivial
      | none => exact (uses_statement trivial).bind fun _ => uses_partFromRow _

theorem derived_ensureSourcePart (id : DocumentId) (kind : PartKind) :
    (ensureSourcePart id kind).Uses DocCmd.Derived := by
  apply (uses_statement trivial).bind
  intro existing
  cases existing with
  | some part => trivial
  | none =>
    apply (uses_fetch trivial).bind
    intro doc
    apply (uses_statement trivial).bind
    intro inserted
    cases inserted with
    | some part => trivial
    | none => exact (uses_statement trivial).bind fun _ => uses_partFromRow _

theorem derived_delete (ids : List DocumentId) : (delete cfg session ids).Uses DocCmd.Derived := by
  unfold delete
  split_ifs
  · trivial
  · apply uses_transaction (P := DocCmd.Derived) trivial trivial trivial
    intro now
    apply (uses_statement trivial).bind
    intro blobs
    exact (uses_statement trivial).bind fun _ => uses_statement trivial

theorem derived_purgeObjects (rows : List (MediaId × ObjectKey)) :
    (purgeObjects rows).Uses DocCmd.Derived := by
  induction rows with
  | nil => trivial
  | cons row rows ih =>
    apply Prog.Uses.bind
    · apply Prog.Uses.tryCatch
      · exact (uses_statement trivial).bind fun _ => trivial
      · exact fun _ => trivial
    · exact fun purged => ih.bind fun _ => trivial

theorem derived_purgeExpired : purgeExpired.Uses DocCmd.Derived := by
  apply (uses_statement trivial).bind
  intro rows
  split_ifs
  · trivial
  · exact (derived_purgeObjects rows).bind fun ids => .ite trivial (uses_statement trivial)

/-- Every call but an upload is derived. -/
theorem derived_call (call : ServiceCall) (hcall : ∀ name, call ≠ .requestUpload name) :
    (call.run cfg session).Uses DocCmd.Derived := by
  cases call with
  | requestUpload name => exact absurd rfl (hcall name)
  | finalize id => exact derived_finalize id
  | getDocument id => exact uses_fetch trivial
  | ensurePart id locator kind data mime page => exact derived_ensurePart id locator kind data mime page
  | ensureSourcePart id kind => exact derived_ensureSourcePart id kind
  | setPartThumb part thumb => exact uses_statement trivial
  | setPageCount id count => exact uses_statement trivial
  | ensureThumb source data mime => exact derived_ensureThumb source data mime
  | delete ids => exact derived_delete ids
  | softDeleteInvalid =>
    apply (uses_statement trivial).bind
    intro ids
    split_ifs
    · trivial
    · exact derived_delete ids
  | purgeExpired => exact derived_purgeExpired

end Derived

section Uses

variable {P : WorkCmd → Prop} {α : Type} {cfg : WorkerConfig} {number : Nat}

def WorkCmd.Aside : WorkCmd → Prop
  | .doc _ => True
  | .external => True
  | .aput _ => True
  | .agetTuple _ => True
  | .utcnow => True
  | .getRun _ => True
  | _ => False

def WorkCmd.Inner : WorkCmd → Prop
  | .doc _ => True
  | .external => True
  | .aput _ => True
  | _ => False

theorem WorkCmd.Inner.aside {c : WorkCmd} (h : c.Inner) : c.Aside := by
  cases c <;> trivial

/-- The command does to the documents at most what derived statements do. -/
def WorkCmd.Gentle : WorkCmd → Prop
  | .doc c => c.Derived
  | _ => True

/-- What the work of a task awaits. -/
def WorkCmd.OfWork (c : WorkCmd) : Prop := c.Inner ∧ c.Gentle

theorem uses_command {c : WorkCmd} (h : P c) : (perform c).Uses P := uses_perform h

theorem uses_onDocuments (p : DocProg α) : (onDocuments p).Uses WorkCmd.Inner :=
  Prog.Uses.expand p fun _ => uses_command trivial

theorem uses_derived {p : DocProg α} (h : p.Uses DocCmd.Derived) : (onDocuments p).Uses WorkCmd.OfWork :=
  Prog.Uses.expand_of h fun _ hc => uses_command ⟨trivial, hc⟩

theorem uses_nodes (p : NodeProg α) : (p.expand (NodeCmd.run number)).Uses WorkCmd.OfWork := by
  apply Prog.Uses.expand p
  intro c
  cases c with
  | external => exact uses_command ⟨trivial, trivial⟩
  | aput thread => exact uses_command ⟨trivial, trivial⟩
  | stream key => exact uses_derived (uses_statement trivial)
  | ensureThumb source data mime => exact uses_derived (derived_ensureThumb source data mime)
  | ensurePart id locator kind data mime page =>
    exact uses_derived (derived_ensurePart id locator kind data mime page)
  | setPartThumb part thumb => exact uses_derived (uses_statement trivial)
  | setPageCount id count => exact uses_derived (uses_statement trivial)

theorem uses_resolveDossierSpec (key : Option String) :
    (resolveDossierSpec key).Uses WorkCmd.OfWork := by
  unfold resolveDossierSpec
  split_ifs
  · apply (uses_command ⟨trivial, trivial⟩).bind
    intro dossier
    split_ifs
    · trivial
    · exact (uses_command ⟨trivial, trivial⟩).bind fun _ => trivial
  · trivial

theorem uses_recordImageThumbNode (part : PartId) (thumb : Option MediaId) :
    (recordImageThumbNode part thumb).Uses WorkCmd.OfWork := by
  cases thumb with
  | none => trivial
  | some thumb => exact uses_derived (uses_statement trivial)

theorem uses_finalizeNode (document : DocumentId) :
    (finalizeNode cfg number document).Uses WorkCmd.OfWork :=
  (uses_derived (derived_finalizeDocument document)).bind fun _ => trivial

theorem uses_prepareImageNode (document : DocumentId) :
    (prepareImageNode document).Uses WorkCmd.OfWork :=
  (uses_derived (derived_ensureSourcePart document .image)).bind fun _ => trivial

theorem uses_documentMiningGraph (call : TaskCall) (spec : Option Nat) :
    (documentMiningGraph cfg number call spec).Uses WorkCmd.OfWork := by
  have haput : (perform (.aput call.thread)).Uses WorkCmd.OfWork := uses_command ⟨trivial, trivial⟩
  apply haput.bind
  intro _
  apply (uses_finalizeNode _).bind
  intro state
  apply haput.bind
  intro _
  split
  · exact (uses_nodes _).bind fun _ => haput.bind fun _ => trivial
  · apply (uses_prepareImageNode _).bind
    intro part
    apply haput.bind
    intro _
    apply (uses_nodes _).bind
    intro image
    apply haput.bind
    intro _
    exact (uses_recordImageThumbNode _ _).bind fun _ => haput.bind fun _ => trivial
  · exact haput.bind fun _ => trivial

theorem uses_miningWork (call : TaskCall) : (miningWork cfg number call).Uses WorkCmd.OfWork := by
  apply (uses_resolveDossierSpec _).bind
  intro spec
  exact (uses_documentMiningGraph call spec).bind fun _ => trivial

theorem uses_readyDocument (document : DocumentId) :
    (readyDocument document).Uses WorkCmd.OfWork := by
  apply (uses_derived (uses_fetch trivial)).bind
  intro doc
  split_ifs <;> trivial

theorem uses_imageWork (call : TaskCall) : (imageWork cfg number call).Uses WorkCmd.OfWork := by
  apply (uses_readyDocument _).bind
  intro doc
  apply (uses_derived (derived_ensureSourcePart _ .image)).bind
  intro part
  apply (uses_resolveDossierSpec _).bind
  intro spec
  apply (uses_nodes _).bind
  intro result
  exact (uses_recordImageThumbNode _ _).bind fun _ => trivial

theorem uses_pdfWork (call : TaskCall) : (pdfWork cfg number call).Uses WorkCmd.OfWork := by
  apply (uses_readyDocument _).bind
  intro doc
  apply (uses_resolveDossierSpec _).bind
  intro spec
  exact (uses_nodes _).bind fun _ => trivial

theorem uses_auditWork (call : TaskCall) : (auditWork cfg number call).Uses WorkCmd.OfWork := by
  have hexternal : (perform .external).Uses WorkCmd.OfWork := uses_command ⟨trivial, trivial⟩
  apply (uses_nodes _).bind
  intro _
  exact hexternal.bind fun _ => hexternal.bind fun _ => trivial

theorem gentle_finalMetadata (execution : ExecutionId) (thread : ThreadId) :
    (finalMetadata cfg execution thread).Uses fun c => c.Aside ∧ c.Gentle := by
  apply Prog.Uses.bind (uses_command ⟨trivial, trivial⟩)
  intro found
  cases found with
  | none => trivial
  | some row =>
    apply Prog.Uses.bind
    · apply Prog.Uses.bind (uses_command ⟨trivial, trivial⟩)
      intro checkpoint
      cases checkpoint with
      | none => trivial
      | some id => exact (uses_command ⟨trivial, trivial⟩).bind fun _ => trivial
    · exact fun _ => trivial

theorem uses_finalMetadata (execution : ExecutionId) (thread : ThreadId) :
    (finalMetadata cfg execution thread).Uses WorkCmd.Aside :=
  (gentle_finalMetadata execution thread).mono fun _ h => h.1

/-- The task of a message: its work and what follows the record of its success. -/
structure TaskCall.Body (cfg : WorkerConfig) (number : Nat) (call : TaskCall) where
  timedOut : String
  work : WorkProg Output
  chain : WorkProg Unit
  inner : work.Uses WorkCmd.Inner
  chains : ¬ call.isMining ∧ chain = .ret () ∨ call.isMining ∧ chain = chainAudit number call
  body_eq : call.body cfg number = runTask cfg call timedOut work chain

def TaskCall.course (cfg : WorkerConfig) (number : Nat) : (call : TaskCall) → call.Body cfg number
  | .run .documentMining document execution thread dossierKey reflect =>
    let call := .run .documentMining document execution thread dossierKey reflect
    ⟨miningTimedOut, miningWork cfg number call, chainAudit number call,
      (uses_miningWork call).mono fun _ h => h.1, .inr ⟨rfl, rfl⟩, rfl⟩
  | .run .image document execution thread dossierKey reflect =>
    let call := .run .image document execution thread dossierKey reflect
    ⟨miningTimedOut, imageWork cfg number call, .ret (), (uses_imageWork call).mono fun _ h => h.1,
      .inl ⟨nofun, rfl⟩, rfl⟩
  | .run .pdf document execution thread dossierKey reflect =>
    let call := .run .pdf document execution thread dossierKey reflect
    ⟨miningTimedOut, pdfWork cfg number call, .ret (), (uses_pdfWork call).mono fun _ h => h.1,
      .inl ⟨nofun, rfl⟩, rfl⟩
  | .audit document execution mining thread dossierKey language =>
    let call := .audit document execution mining thread dossierKey language
    ⟨"audit timed out", auditWork cfg number call, .ret (), (uses_auditWork call).mono fun _ h => h.1,
      .inl ⟨nofun, rfl⟩, rfl⟩

end Uses

section Permits

variable {cfg : WorkerConfig} {tag : WorkTag} {α : Type}

theorem WorkTag.permits_aside {c : WorkCmd} (h : c.Aside) : tag.Permits c := by
  cases c <;> trivial

theorem WorkTag.permits_onDocuments (p : DocProg α) : (onDocuments p).Uses tag.Permits :=
  (uses_onDocuments p).mono fun _ h => permits_aside h.aside

theorem uses_recordFailure {entry : StreamEntry} (hjob : tag.job = .attempt entry) (error : String)
    (raised : Exc) : (recordFailure cfg entry.message.call error raised).Uses tag.Permits := by
  apply ((uses_finalMetadata _ _).mono fun _ h => WorkTag.permits_aside h).bind
  intro metadata
  exact (uses_command ⟨rfl, entry, hjob, rfl⟩).bind fun _ => trivial

theorem uses_enqueueAudit {chainedFrom : Option ExecutionId} {document : DocumentId}
    {mining : ExecutionId} {dossierKey language : String}
    (hcreates : tag.job.Creates tag.number (.create tag.number .audit document
      { documentId := document, dossierKey := dossierKey }
      { langgraph := some { threadId := tag.number } } chainedFrom)) :
    (enqueueAudit tag.number chainedFrom document mining dossierKey language).Uses tag.Permits := by
  apply Prog.Uses.bind (uses_command hcreates)
  intro _
  have hkiq : (perform (.kiq (.audit document tag.number mining tag.number dossierKey
      language))).Uses tag.Permits := uses_command rfl
  exact hkiq.bind fun _ => trivial

theorem uses_chainAudit {entry : StreamEntry} (hjob : tag.job = .attempt entry)
    (hmining : entry.message.call.isMining) :
    (chainAudit tag.number entry.message.call).Uses tag.Permits := by
  unfold chainAudit
  split_ifs with htruthy
  · have hcreates : tag.job.Creates tag.number _ :=
      hjob ▸ Job.Creates.chain entry (entry.message.call.dossierKey.getD "") hmining htruthy
    exact (uses_enqueueAudit hcreates).bind fun _ => trivial
  · trivial

theorem uses_runTask {entry : StreamEntry} (hjob : tag.job = .attempt entry) {timedOut : String}
    {work : WorkProg Output} {chain : WorkProg Unit} (hwork : work.Uses WorkCmd.Inner)
    (hchain : chain.Uses tag.Permits) :
    (runTask cfg entry.message.call timedOut work chain).Uses tag.Permits := by
  apply (uses_command ⟨entry, hjob, rfl⟩).bind
  intro _
  apply Prog.Uses.tryCatch
  · apply (hwork.mono fun _ h => WorkTag.permits_aside h.aside).bind
    intro output
    apply ((uses_finalMetadata _ _).mono fun _ h => WorkTag.permits_aside h).bind
    intro metadata
    exact (uses_command ⟨rfl, entry, hjob, rfl⟩).bind fun _ => hchain
  · intro e
    split
    · exact uses_recordFailure hjob _ _
    · exact uses_recordFailure hjob _ _

theorem uses_attempt {entry : StreamEntry} (hjob : tag.job = .attempt entry) :
    (entry.message.call.body cfg tag.number).Uses tag.Permits := by
  obtain ⟨timedOut, work, chain, hinner, hchains, hbody⟩ :=
    entry.message.call.course cfg tag.number
  rw [hbody]
  apply uses_runTask hjob hinner
  rcases hchains with ⟨_, rfl⟩ | ⟨hmining, rfl⟩
  · trivial
  · exact uses_chainAudit hjob hmining

theorem uses_job (number : Nat) (job : Job) :
    (job.prog cfg number).Uses (WorkTag.Permits { number, job }) := by
  cases job with
  | submit kind document dossierKey reflect =>
    apply (WorkTag.permits_onDocuments _).bind
    intro _
    apply (uses_command (Job.Creates.submit kind document dossierKey reflect)).bind
    intro _
    have hkiq : (perform (.kiq (.run kind document number number dossierKey reflect))).Uses
        (WorkTag.Permits ⟨number, .submit kind document dossierKey reflect⟩) := uses_command rfl
    apply hkiq.bind
    intro taskId
    exact uses_command ⟨rfl, rfl, kind, document, dossierKey, reflect, rfl⟩
  | submitAudit document mining dossierKey language =>
    have huses : (enqueueAudit number none document mining dossierKey language).Uses
        (WorkTag.Permits ⟨number, .submitAudit document mining dossierKey language⟩) :=
      uses_enqueueAudit (.submitAudit document mining dossierKey language)
    exact huses.bind fun _ => trivial
  | service call => exact WorkTag.permits_onDocuments _
  | attempt entry => exact uses_attempt rfl
  | after entry => trivial

theorem uses_afterTask {entry : StreamEntry} (hjob : tag.job = .after entry) (result : Except Exc Unit) :
    (afterTask cfg entry result).Uses tag.Permits := by
  have hack : (perform (.ack entry)).Uses tag.Permits := uses_command hjob
  cases result with
  | ok value => exact hack
  | error e =>
    refine Prog.Uses.bind ?_ fun _ => hack
    unfold onError
    split
    · trivial
    · split
      · next again hagain =>
        exact uses_command ⟨entry, hjob, (cfg.retry.same_call _ _ hagain).1⟩
      · trivial

end Permits

section Gentle

variable {cfg : WorkerConfig} {number : Nat}

theorem gentle_recordFailure (call : TaskCall) (error : String) (raised : Exc) :
    (recordFailure cfg call error raised).Uses WorkCmd.Gentle := by
  apply ((gentle_finalMetadata _ _).mono fun _ h => h.2).bind
  intro metadata
  exact (uses_command trivial).bind fun _ => trivial

theorem gentle_enqueueAudit (chainedFrom : Option ExecutionId) (document : DocumentId)
    (mining : ExecutionId) (dossierKey language : String) :
    (enqueueAudit number chainedFrom document mining dossierKey language).Uses WorkCmd.Gentle := by
  apply Prog.Uses.bind (uses_command trivial)
  intro _
  exact (uses_command trivial).bind fun _ => trivial

theorem gentle_chainAudit (call : TaskCall) : (chainAudit number call).Uses WorkCmd.Gentle :=
  .ite ((gentle_enqueueAudit _ _ _ _ _).bind fun _ => trivial) trivial

theorem TaskCall.gentle_work (call : TaskCall) :
    (call.course cfg number).work.Uses WorkCmd.Gentle := by
  cases call with
  | run kind document execution thread dossierKey reflect =>
    cases kind with
    | documentMining => exact (uses_miningWork _).mono fun _ h => h.2
    | image => exact (uses_imageWork _).mono fun _ h => h.2
    | pdf => exact (uses_pdfWork _).mono fun _ h => h.2
  | audit document execution mining thread dossierKey language =>
    exact (uses_auditWork _).mono fun _ h => h.2

theorem gentle_attempt (call : TaskCall) : (call.body cfg number).Uses WorkCmd.Gentle := by
  rw [(call.course cfg number).body_eq]
  apply Prog.Uses.bind (uses_command trivial)
  intro _
  apply Prog.Uses.tryCatch
  · apply call.gentle_work.bind
    intro output
    apply ((gentle_finalMetadata _ _).mono fun _ h => h.2).bind
    intro metadata
    apply Prog.Uses.bind (uses_command trivial)
    intro _
    rcases (call.course cfg number).chains with ⟨_, hchain⟩ | ⟨_, hchain⟩
    · rw [hchain]
      trivial
    · rw [hchain]
      exact gentle_chainAudit call
  · intro e
    split
    · exact gentle_recordFailure _ _ _
    · exact gentle_recordFailure _ _ _

/-- Only an upload inserts a document, and no thread writes the original of one. -/
theorem gentle_job (number : Nat) (job : Job) (hjob : ∀ name, job ≠ .service (.requestUpload name)) :
    (job.prog cfg number).Uses WorkCmd.Gentle := by
  cases job with
  | submit kind document dossierKey reflect =>
    apply ((uses_derived (uses_fetch trivial)).mono fun _ h => h.2).bind
    intro _
    apply Prog.Uses.bind (uses_command trivial)
    intro _
    exact (uses_command trivial).bind fun _ => uses_command trivial
  | submitAudit document mining dossierKey language =>
    exact (gentle_enqueueAudit _ _ _ _ _).bind fun _ => trivial
  | service call =>
    have hcall : (call.run cfg.media number).Uses DocCmd.Derived :=
      derived_call call fun name h => hjob name (congrArg Job.service h)
    have hrun : ((call.run cfg.media number).bind fun _ => .ret ()).Uses DocCmd.Derived := hcall.bind fun _ => trivial
    exact (uses_derived hrun).mono fun _ h => h.2
  | attempt entry => exact gentle_attempt entry.message.call
  | after entry => trivial

theorem gentle_afterTask (entry : StreamEntry) (result : Except Exc Unit) :
    (afterTask cfg entry result).Uses WorkCmd.Gentle := by
  have hack : (perform (.ack entry)).Uses WorkCmd.Gentle := uses_command trivial
  cases result with
  | ok value => exact hack
  | error e =>
    refine Prog.Uses.bind ?_ fun _ => hack
    unfold onError
    split
    · trivial
    · split
      · exact uses_command trivial
      · trivial

end Gentle

end Doci
