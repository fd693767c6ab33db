import Doci.Exits
import Doci.Money
import Mathlib.Data.List.Sort

/-! The audit's findings and verdict: the tables of `AuditService`, the tools that write them,
and `run_audit` with agents that call these tools as they like. -/

namespace Doci

open Coroutine

abbrev FindingId := Nat

/-- JSON values are kept as their texts. -/
structure FindingRow where
  id : FindingId
  executionId : ExecutionId
  ruleKey : Option String
  severity : String
  status : String
  message : String
  evidence : List String
  createdAt : Time

structure VerdictRow where
  executionId : ExecutionId
  dossierKey : Option String
  documentId : Option DocumentId
  verdict : String
  rationale : Option String
  deriving DecidableEq

/-- The `output` of an audit. -/
structure AuditOutput where
  documentId : DocumentId
  dossierKey : String
  verdict : Option String
  findingCount : Nat
  deriving DecidableEq

/-- `work` are the awaits that the audit shares with the mining tasks; `succeed` is
`mark_succeeded`. -/
inductive AuditCmd where
  | work (c : WorkCmd)
  | insertFinding (execution : ExecutionId) (ruleKey : Option String)
    (severity status message : String) (evidence : List String)
  | selectFindings (execution : ExecutionId)
  | deleteFinding (execution : ExecutionId) (finding : FindingId)
  | clearFindings (execution : ExecutionId)
  | clearVerdict (execution : ExecutionId)
  | upsertVerdict (row : VerdictRow)
  | selectVerdict (execution : ExecutionId)
  | succeed (execution : ExecutionId) (output : AuditOutput) (metadata : WorkflowMetadata)

def AuditReply : AuditCmd → Type
  | .work c => WorkReply c
  | .insertFinding _ _ _ _ _ _ => FindingRow
  | .selectFindings _ => List FindingRow
  | .deleteFinding _ _ => Nat
  | .upsertVerdict _ => VerdictRow
  | .selectVerdict _ => Option VerdictRow
  | _ => Unit

abbrev AuditProg (α : Type) := Prog AuditReply Exc α

def askAudit (c : AuditCmd) : AuditProg (AuditReply c) := Coroutine.perform c

def onWork {α : Type} (p : WorkProg α) : AuditProg α := p.expand fun c => askAudit (.work c)

/-- `audit_finding`, `audit_verdict` by its primary key, and the outputs of the audits beside
their rows. -/
structure AuditWorld where
  world : World
  findings : List FindingRow
  verdicts : ExecutionId → Option VerdictRow
  outputs : ExecutionId → Option AuditOutput

namespace AuditWorld

def setVerdict (w : AuditWorld) (execution : ExecutionId) (row : Option VerdictRow) : AuditWorld :=
  { w with verdicts := fun e => if e = execution then row else w.verdicts e }

/-- `ORDER BY created_at, id`. -/
def ofRun (w : AuditWorld) (execution : ExecutionId) : List FindingRow :=
  (w.findings.filter fun row => row.executionId = execution).insertionSort fun a b =>
    a.createdAt < b.createdAt ∨ a.createdAt = b.createdAt ∧ a.id ≤ b.id

/-- A statement that a constraint refuses is an await that raises before its effect. -/
def meaning : (c : AuditCmd) → AuditWorld → Except Exc (AuditReply c) × AuditWorld
  | .work c, w => ((World.meaning c w.world).1, { w with world := (World.meaning c w.world).2 })
  | .insertFinding execution ruleKey severity status message evidence, w =>
    let row : FindingRow :=
      { id := w.world.fresh, executionId := execution, ruleKey, severity, status, message,
        evidence, createdAt := w.world.docs.now }
    (.ok row, { w with world := w.world.take, findings := w.findings ++ [row] })
  | .selectFindings execution, w => (.ok (w.ofRun execution), w)
  | .deleteFinding execution finding, w =>
    let gone := w.findings.filter fun row => row.executionId = execution ∧ row.id = finding
    let rest := w.findings.filter fun row => ¬ (row.executionId = execution ∧ row.id = finding)
    (.ok gone.length, { w with findings := rest })
  | .clearFindings execution, w =>
    (.ok (), { w with findings := w.findings.filter fun row => row.executionId ≠ execution })
  | .clearVerdict execution, w => (.ok (), w.setVerdict execution none)
  | .upsertVerdict row, w => (.ok row, w.setVerdict row.executionId (some row))
  | .selectVerdict execution, w => (.ok (w.verdicts execution), w)
  | .succeed execution output metadata, w =>
    match w.world.execute (.finish execution .succeeded {} metadata) with
    | (reply, world) =>
      (reply, { w with
        world
        outputs := fun e =>
          if e = execution && (w.world.runs e).isSome then some output else w.outputs e })

/-- What the rest of the system may do meanwhile: anything but to the findings and the verdict
of this execution. So no other attempt of it runs, and no purge deletes its document, which would
take the verdict with it (`ON DELETE CASCADE` on `audit_verdict.document_id`). -/
def Elsewhere (execution : ExecutionId) (w w' : AuditWorld) : Prop :=
  w'.verdicts execution = w.verdicts execution ∧ w'.ofRun execution = w.ofRun execution

theorem Elsewhere.refl (execution : ExecutionId) (w : AuditWorld) : Elsewhere execution w w :=
  ⟨rfl, rfl⟩

end AuditWorld

section Tools

/-- The calls of the agents; `read` is any tool that does not write the audit's tables. -/
inductive ToolCall where
  | recordFinding (status severity message : String) (ruleKey : Option String)
    (evidence : Option (List String))
  | deleteFinding (findingId : String)
  | listFindings
  | setVerdict (verdict rationale : String)
  | read

inductive ToolReply where
  | rejected (error : String)
  | recorded (finding : FindingId)
  | deleted (deleted : Bool)
  | findings (rows : List FindingRow)
  | verdict (verdict : String)
  | read (reply : Nat)

/-- `!r` of a text, and `UUID` of one; `none` is its `ValueError`. -/
structure TextData where
  repr : String → String
  uuid : String → Option FindingId

/-- `_VERDICT` and `_STATUS`. -/
def verdictValues : List String := ["pass", "needs_review", "fail"]

variable (text : TextData) (execution : ExecutionId)

def recordFinding (status severity message : String) (ruleKey : Option String)
    (evidence : Option (List String)) : AuditProg ToolReply :=
  if status ∉ verdictValues then
    return .rejected ("status must be one of ['fail', 'needs_review', 'pass'], got " ++
      text.repr status ++ ".")
  else if strip message.toList = [] then
    return .rejected "message is required (explain the finding)."
  else do
    let row : FindingRow ←
      askAudit (.insertFinding execution ruleKey severity status message (evidence.getD []))
    return .recorded row.id

def deleteFinding (findingId : String) : AuditProg ToolReply :=
  match text.uuid findingId with
  | none => return .rejected ("finding_id must be a UUID, got " ++ text.repr findingId ++ ".")
  | some finding => do
    let deleted : Nat ← askAudit (.deleteFinding execution finding)
    return .deleted (deleted ≠ 0)

def listFindings : AuditProg ToolReply := do
  let rows : List FindingRow ← askAudit (.selectFindings execution)
  return .findings rows

def setVerdict (dossierKey : Option String) (document : Option DocumentId)
    (verdict rationale : String) : AuditProg ToolReply :=
  if verdict ∉ verdictValues then
    return .rejected ("verdict must be one of ['fail', 'needs_review', 'pass'], got " ++
      text.repr verdict ++ ".")
  else do
    let row : VerdictRow ← askAudit (.upsertVerdict
      { executionId := execution, dossierKey, documentId := document, verdict,
        rationale := some rationale })
    return .verdict row.verdict

def ToolCall.run (dossierKey : String) (document : DocumentId) : ToolCall → AuditProg ToolReply
  | recordFinding status severity message ruleKey evidence =>
    Doci.recordFinding text execution status severity message ruleKey evidence
  | deleteFinding findingId => Doci.deleteFinding text execution findingId
  | listFindings => Doci.listFindings execution
  | setVerdict verdict rationale =>
    Doci.setVerdict text execution (some dossierKey) (some document) verdict rationale
  | read => do
    let reply : Nat ← askAudit (.work .external)
    return .read reply

end Tools

section Agents

inductive Phase where
  | find | reflect | verdict

def Phase.offers : Phase → ToolCall → Bool
  | find, .recordFinding _ _ _ _ _ => true
  | reflect, .recordFinding _ _ _ _ _ => true
  | reflect, .deleteFinding _ => true
  | reflect, .listFindings => true
  | verdict, .listFindings => true
  | verdict, .setVerdict _ _ => true
  | _, .read => true
  | _, _ => false

/-- Any calls of the phase's tools, each chosen after the replies to those before it. -/
structure Agent (phase : Phase) where
  course : Prog (fun _ : ToolCall => ToolReply) Exc Unit
  offered : course.Uses fun c => phase.offers c = true

structure AuditAgents where
  find : Agent .find
  reflect : Agent .reflect
  verdict : Agent .verdict

end Agents

section Audit

/-- `AuditService.clear`. -/
def clearAudit (execution : ExecutionId) : AuditProg Unit := do
  askAudit (.clearFindings execution)
  askAudit (.clearVerdict execution)

variable (text : TextData) (cfg : WorkerConfig) (agents : AuditAgents) (document : DocumentId)
  (execution mining : ExecutionId) (thread : ThreadId) (dossierKey language : String)

def Agent.run {phase : Phase} (agent : Agent phase) : AuditProg Unit :=
  agent.course.expand (ToolCall.run text execution dossierKey document)

def findNode : AuditProg Unit := do
  clearAudit execution
  agents.find.run text document execution dossierKey

def reflectNode : AuditProg Unit := agents.reflect.run text document execution dossierKey

def verdictNode : AuditProg Unit := agents.verdict.run text document execution dossierKey

/-- `ainvoke` of the graph of `build_audit_graph`, with a checkpoint after each node. -/
def auditGraph : AuditProg Unit := do
  askAudit (.work (.aput thread))
  findNode text agents document execution dossierKey
  askAudit (.work (.aput thread))
  reflectNode text agents document execution dossierKey
  askAudit (.work (.aput thread))
  verdictNode text agents document execution dossierKey
  askAudit (.work (.aput thread))

def auditOutput : AuditProg AuditOutput := do
  let verdict : Option VerdictRow ← askAudit (.selectVerdict execution)
  let findings : List FindingRow ← askAudit (.selectFindings execution)
  return { documentId := document, dossierKey, verdict := verdict.map (·.verdict),
           findingCount := findings.length }

/-- The body of the `try` of `run_audit`. -/
def auditBody : AuditProg Unit := do
  auditGraph text agents document execution thread dossierKey
  let output ← auditOutput document execution dossierKey
  let metadata ← onWork (finalMetadata cfg execution thread)
  askAudit (.succeed execution output metadata)

/-- The `except` clauses of `run_audit`. -/
def auditFailed (e : Exc) : AuditProg Unit :=
  let call : TaskCall := .audit document execution mining thread dossierKey language
  match e with
  | .timeoutError => onWork (recordFailure cfg call "audit timed out" (.taskTimeout execution))
  | e => onWork (recordFailure cfg call e.str e)

/-- `run_audit` over the tables of the audit. -/
def auditTask : AuditProg Unit := do
  askAudit (.work (.run (.markRunning execution)))
  tryCatch (auditBody text cfg agents document execution thread dossierKey)
    (auditFailed cfg document execution mining thread dossierKey language)

end Audit

section Writes

def upserted (execution : ExecutionId) : AuditCmd × Fate Exc → Option VerdictRow
  | (.upsertVerdict row, fate) =>
    if row.executionId = execution ∧ fate.effective = true then some row else none
  | _ => none

/-- The verdicts stored for the execution, in the order of the calls. -/
def accepted (execution : ExecutionId) (log : List (AuditCmd × Fate Exc)) : List VerdictRow :=
  log.filterMap (upserted execution)

def clearsVerdict (execution : ExecutionId) : AuditCmd × Fate Exc → Bool
  | (.clearVerdict e, fate) => decide (e = execution) && fate.effective
  | _ => false

def verdictAfter (execution : ExecutionId) (row : Option VerdictRow) (a : AuditCmd × Fate Exc) :
    Option VerdictRow :=
  if clearsVerdict execution a then none else (upserted execution a).or row

def AuditCmd.Closing : AuditCmd → Prop
  | work _ => True
  | selectFindings _ => True
  | selectVerdict _ => True
  | succeed _ _ _ => True
  | _ => False

/-- The commands of the agents' tools; a verdict is stored for this run only and is one of the
three. -/
def AuditCmd.ByTools (execution : ExecutionId) (document : DocumentId) (dossierKey : String) :
    AuditCmd → Prop
  | upsertVerdict row => row.executionId = execution ∧ row.documentId = some document ∧
      row.dossierKey = some dossierKey ∧ row.verdict ∈ verdictValues
  | clearVerdict _ => False
  | succeed _ _ _ => False
  | _ => True

/-- The commands before `mark_succeeded`. -/
def AuditCmd.Early : AuditCmd → Prop
  | succeed _ _ _ => False
  | _ => True

def AuditCmd.Silent : AuditCmd → Prop
  | upsertVerdict _ => False
  | clearVerdict _ => False
  | succeed _ _ _ => False
  | _ => True

open AuditWorld

variable {execution : ExecutionId} {document : DocumentId} {dossierKey : String}
  {log : List (AuditCmd × Fate Exc)} {s t : AuditWorld}

theorem outcome_verdicts (a : AuditCmd × Fate Exc) (w : AuditWorld) :
    (outcome meaning a.1 w a.2).2.verdicts execution =
      verdictAfter execution (w.verdicts execution) a := by
  obtain ⟨c, fate⟩ := a
  rw [outcome_snd_eq]
  cases hfate : fate.effective with
  | false => cases c <;> simp [verdictAfter, clearsVerdict, upserted, hfate]
  | true =>
    cases c with
    | clearVerdict e =>
      by_cases he : e = execution
      · simp [verdictAfter, clearsVerdict, meaning, AuditWorld.setVerdict, hfate, he]
      · simp [verdictAfter, clearsVerdict, upserted, meaning, AuditWorld.setVerdict, he, Ne.symm he]
    | upsertVerdict row =>
      by_cases he : row.executionId = execution
      · simp [verdictAfter, clearsVerdict, upserted, meaning, AuditWorld.setVerdict, hfate, he]
      · simp [verdictAfter, clearsVerdict, upserted, meaning, AuditWorld.setVerdict, he, Ne.symm he]
    | _ => rfl

theorem foldl_verdictAfter (row : Option VerdictRow)
    (hclear : ∀ a ∈ log, clearsVerdict execution a = false) :
    log.foldl (verdictAfter execution) row = (accepted execution log).getLast?.or row := by
  induction log using List.reverseRecOn with
  | nil => rfl
  | append_singleton log a ih =>
    rw [List.foldl_append, ih fun b hb => hclear b (List.mem_append_left _ hb)]
    have hlast := hclear a (List.mem_append_right _ List.mem_cons_self)
    simp only [List.foldl_cons, List.foldl_nil, verdictAfter, hlast, Bool.false_eq_true, if_false,
      accepted, List.filterMap_append, List.filterMap_cons, List.filterMap_nil]
    cases hupserted : upserted execution a with
    | none => simp
    | some stored => simp

theorem foldl_verdictAfter_clear {front back : List (AuditCmd × Fate Exc)} (row : Option VerdictRow)
    (hback : ∀ a ∈ back, clearsVerdict execution a = false) :
    (front ++ (.clearVerdict execution, .done) :: back).foldl (verdictAfter execution) row =
      (accepted execution back).getLast? := by
  have hcleared : clearsVerdict execution (.clearVerdict execution, .done) = true := by
    simp [clearsVerdict, Fate.effective]
  rw [List.foldl_append, List.foldl_cons]
  simp only [verdictAfter, hcleared, if_true]
  rw [foldl_verdictAfter none hback, Option.or_none]

theorem upserted_eq_none {a : AuditCmd × Fate Exc} (h : ∀ row, a.1 ≠ .upsertVerdict row) :
    upserted execution a = none := by
  obtain ⟨c, fate⟩ := a
  cases c with
  | upsertVerdict row => exact (h row rfl).elim
  | _ => rfl

theorem AuditCmd.Silent.accepted (h : ∀ a ∈ log, a.1.Silent) : accepted execution log = [] := by
  refine List.filterMap_eq_nil_iff.mpr fun a ha => upserted_eq_none fun row hrow => ?_
  have hsilent := h a ha
  rwa [hrow] at hsilent

theorem AuditCmd.Closing.accepted (h : ∀ a ∈ log, a.1.Closing) : accepted execution log = [] := by
  refine List.filterMap_eq_nil_iff.mpr fun a ha => upserted_eq_none fun row hrow => ?_
  have hclosing := h a ha
  rwa [hrow] at hclosing

theorem AuditCmd.ByTools.clearsVerdict {a : AuditCmd × Fate Exc}
    (h : a.1.ByTools execution document dossierKey) : clearsVerdict execution a = false := by
  obtain ⟨c, fate⟩ := a
  cases c with
  | clearVerdict e => exact h.elim
  | _ => rfl

theorem AuditCmd.Closing.elsewhere {a : AuditCmd × Fate Exc} (h : a.1.Closing) (w : AuditWorld) :
    Elsewhere execution w (outcome meaning a.1 w a.2).2 := by
  obtain ⟨c, fate⟩ := a
  rw [outcome_snd_eq]
  cases fate.effective with
  | false => exact Elsewhere.refl _ _
  | true =>
    cases c with
    | work c => exact ⟨rfl, rfl⟩
    | selectFindings e => exact ⟨rfl, rfl⟩
    | selectVerdict e => exact ⟨rfl, rfl⟩
    | succeed e output metadata => exact ⟨rfl, rfl⟩
    | _ => exact h.elim

end Writes

section Uses

variable {text : TextData} {cfg : WorkerConfig} {agents : AuditAgents} {document : DocumentId}
  {execution : ExecutionId} {thread : ThreadId} {dossierKey : String} {phase : Phase}

theorem uses_askAudit {P : AuditCmd → Prop} {α : Type} {c : AuditCmd}
    {next : AuditReply c → AuditProg α} (h : P c) (hnext : ∀ reply, (next reply).Uses P) :
    ((askAudit c).bind next).Uses P :=
  (uses_perform h).bind hnext

theorem silent_tool {c : ToolCall} (h : ∀ verdict rationale, c ≠ .setVerdict verdict rationale) :
    (c.run text execution dossierKey document).Uses AuditCmd.Silent := by
  cases c with
  | recordFinding status severity message ruleKey evidence =>
    simp only [ToolCall.run, recordFinding]
    split
    · trivial
    · split
      · trivial
      · exact uses_askAudit trivial fun _ => trivial
  | deleteFinding findingId =>
    simp only [ToolCall.run, deleteFinding]
    split
    · trivial
    · exact uses_askAudit trivial fun _ => trivial
  | listFindings => exact uses_askAudit trivial fun _ => trivial
  | setVerdict verdict rationale => exact (h verdict rationale rfl).elim
  | read => exact uses_askAudit trivial fun _ => trivial

theorem AuditCmd.Silent.byTools {c : AuditCmd} (h : c.Silent) :
    c.ByTools execution document dossierKey := by
  cases c with
  | upsertVerdict row => exact h.elim
  | _ => exact h

theorem byTools_tool (c : ToolCall) :
    (c.run text execution dossierKey document).Uses
      (AuditCmd.ByTools execution document dossierKey) := by
  cases c with
  | setVerdict verdict rationale =>
    simp only [ToolCall.run, setVerdict]
    split
    · trivial
    · next hverdict =>
      exact uses_askAudit ⟨rfl, rfl, rfl, not_not.mp hverdict⟩ fun _ => trivial
  | _ => exact (silent_tool fun _ _ => ToolCall.noConfusion).mono fun _ h => h.byTools

theorem byTools_agent {agent : Agent phase} :
    (agent.run text document execution dossierKey).Uses
      (AuditCmd.ByTools execution document dossierKey) :=
  Prog.Uses.expand _ byTools_tool

theorem early_onWork {α : Type} {p : WorkProg α} : (onWork p).Uses AuditCmd.Early :=
  Prog.Uses.expand p fun _ => uses_perform trivial

theorem closing_onWork {α : Type} {p : WorkProg α} : (onWork p).Uses AuditCmd.Closing :=
  Prog.Uses.expand p fun _ => uses_perform trivial

theorem uses_auditFailed {P : AuditCmd → Prop} {e : Exc} {mining : ExecutionId} {language : String}
    (hwork : ∀ c, P (.work c)) :
    (auditFailed cfg document execution mining thread dossierKey language e).Uses P := by
  unfold auditFailed
  split
  · exact Prog.Uses.expand _ fun c => uses_perform (hwork c)
  · exact Prog.Uses.expand _ fun c => uses_perform (hwork c)

theorem early_agent {agent : Agent phase} :
    (agent.run text document execution dossierKey).Uses AuditCmd.Early :=
  byTools_agent.mono fun c h => by
    cases c with
    | succeed _ _ _ => exact h
    | _ => trivial

theorem early_auditGraph :
    (auditGraph text agents document execution thread dossierKey).Uses AuditCmd.Early := by
  refine uses_askAudit trivial fun _ => ?_
  refine Prog.Uses.bind ?_ fun _ => ?_
  · refine Prog.Uses.bind ?_ fun _ => early_agent
    exact uses_askAudit trivial fun _ => uses_perform trivial
  · refine uses_askAudit trivial fun _ => ?_
    refine early_agent.bind fun _ => ?_
    refine uses_askAudit trivial fun _ => ?_
    refine early_agent.bind fun _ => ?_
    exact uses_perform trivial

theorem uses_auditOutput {P : AuditCmd → Prop} (hverdict : P (.selectVerdict execution))
    (hfindings : P (.selectFindings execution)) :
    (auditOutput document execution dossierKey).Uses P := by
  refine uses_askAudit hverdict fun _ => ?_
  exact uses_askAudit hfindings fun _ => trivial

end Uses

section Verdict

open AuditWorld

variable {text : TextData} {cfg : WorkerConfig} {agents : AuditAgents} {document : DocumentId}
  {execution mining : ExecutionId} {thread : ThreadId} {dossierKey language : String}
  {log : List (AuditCmd × Fate Exc)} {s t : AuditWorld}

theorem Elsewhere.of_closing {α : Type} {p : AuditProg α} {result : Except Exc α}
    (h : p.Runs meaning (Elsewhere execution) s log result t) (hlog : ∀ a ∈ log, a.1.Closing) :
    Elsewhere execution s t := by
  have hsame : ∀ w w', Elsewhere execution w w' →
      (w'.verdicts execution, w'.ofRun execution) = (w.verdicts execution, w.ofRun execution) :=
    fun _ _ h => Prod.ext h.1 h.2
  have hview := h.view (fun v _ => v) hsame
    fun a ha w => hsame _ _ ((hlog a ha).elsewhere w)
  rw [List.foldl_fixed] at hview
  exact ⟨congrArg Prod.fst hview, congrArg Prod.snd hview⟩

theorem Elsewhere.trans {s t u : AuditWorld} (h : Elsewhere execution s t)
    (h' : Elsewhere execution t u) : Elsewhere execution s u :=
  ⟨h'.1.trans h.1, h'.2.trans h.2⟩

theorem auditGraph_clears
    (h : (auditGraph text agents document execution thread dossierKey).Runs meaning
      (Elsewhere execution) s log (.ok ()) t) :
    ∃ front back, log = front ++ (.clearVerdict execution, .done) :: back ∧
      (∀ a ∈ front, a.1.Silent) ∧ ∀ a ∈ back, a.1.ByTools execution document dossierKey := by
  have hrefl := Elsewhere.refl execution
  obtain ⟨start, _, rest, _, hstart, hrest, rfl⟩ := h.of_bind_ok hrefl
  obtain ⟨found, _, later, _, hfound, hlater, rfl⟩ := hrest.of_bind_ok hrefl
  obtain ⟨cleared, _, finding, _, hcleared, hfinding, rfl⟩ := hfound.of_bind_ok hrefl
  obtain ⟨findings, _, verdict, _, hfindings, hverdict, rfl⟩ := hcleared.of_bind_ok hrefl
  obtain ⟨before, fate, _, rfl, hreply, _⟩ := hverdict.of_perform
  have hdone : fate = .done := by
    cases fate with
    | done => rfl
    | lost e => cases hreply
    | late e => cases hreply
  have hlaterUses : ∀ a ∈ later, a.1.ByTools execution document dossierKey := by
    refine hlater.uses (P := AuditCmd.ByTools execution document dossierKey) ?_
    refine uses_askAudit trivial fun _ => ?_
    refine byTools_agent.bind fun _ => ?_
    refine uses_askAudit trivial fun _ => ?_
    refine byTools_agent.bind fun _ => ?_
    exact uses_perform trivial
  refine ⟨start ++ findings, finding ++ later, ?_, ?_, ?_⟩
  · simp [hdone, List.append_assoc]
  · intro a ha
    rcases List.mem_append.mp ha with ha | ha
    · exact hstart.uses (uses_perform trivial) a ha
    · exact hfindings.uses (uses_perform trivial) a ha
  · intro a ha
    rcases List.mem_append.mp ha with ha | ha
    · exact hfinding.uses byTools_agent a ha
    · exact hlaterUses a ha

theorem auditGraph_verdict
    (h : (auditGraph text agents document execution thread dossierKey).Runs meaning
      (Elsewhere execution) s log (.ok ()) t) :
    t.verdicts execution = (accepted execution log).getLast? ∧
      ∀ row ∈ accepted execution log, row.documentId = some document ∧
        row.dossierKey = some dossierKey ∧ row.verdict ∈ verdictValues := by
  obtain ⟨front, back, rfl, hfront, hback⟩ := auditGraph_clears h
  have haccepted : accepted execution (front ++ (.clearVerdict execution, .done) :: back) =
      accepted execution back := by
    have hnone : accepted execution front = [] := AuditCmd.Silent.accepted hfront
    simp only [accepted] at hnone ⊢
    rw [List.filterMap_append, hnone, List.nil_append, List.filterMap_cons_none rfl]
  rw [haccepted]
  constructor
  · rw [h.view (verdictAfter execution) (fun _ _ h => h.1) fun a _ w => outcome_verdicts a w]
    exact foldl_verdictAfter_clear _ fun a ha => (hback a ha).clearsVerdict
  · intro row hrow
    obtain ⟨⟨c, fate⟩, ha, hstored⟩ := List.mem_filterMap.mp hrow
    have htools := hback _ ha
    cases c with
    | upsertVerdict stored =>
      simp only [upserted, Option.ite_none_right_eq_some, Option.some.injEq] at hstored
      obtain ⟨_, rfl⟩ := hstored
      exact htools.2
    | _ => cases hstored

theorem auditOutput_eq {output : AuditOutput}
    (h : (auditOutput document execution dossierKey).Runs meaning (Elsewhere execution) s log
      (.ok output) t) :
    output = { documentId := document, dossierKey,
               verdict := (s.verdicts execution).map (·.verdict),
               findingCount := (s.ofRun execution).length } := by
  have hrefl := Elsewhere.refl execution
  obtain ⟨first, row, rest, u, hfirst, hrest, rfl⟩ := h.of_bind_ok hrefl
  obtain ⟨second, rows, last, v, hsecond, hlast, rfl⟩ := hrest.of_bind_ok hrefl
  obtain ⟨before, fate, hbefore, rfl, hrow, hafter⟩ := hfirst.of_perform
  obtain ⟨before', fate', hbefore', rfl, hrows, _⟩ := hsecond.of_perform
  have hrow' : row = s.verdicts execution := by
    cases fate with
    | done => exact (Except.ok.inj hrow).trans hbefore.1
    | lost e => cases hrow
    | late e => cases hrow
  have hrows' : rows = s.ofRun execution := by
    cases fate' with
    | done =>
      calc rows = before'.ofRun execution := Except.ok.inj hrows
        _ = u.ofRun execution := hbefore'.2
        _ = before.ofRun execution := by
          refine hafter.2.trans ?_
          rw [outcome_snd_eq]
          cases fate.effective <;> rfl
        _ = s.ofRun execution := hbefore.2
    | lost e => cases hrows
    | late e => cases hrows
  cases hlast
  rw [hrow', hrows']

theorem not_mem_early {a : AuditCmd × Fate Exc} {output : AuditOutput}
    {metadata : WorkflowMetadata} (ha : a.1 = .succeed execution output metadata)
    (h : ∀ b ∈ log, b.1.Early) : a ∉ log := by
  intro hmem
  have hearly := h a hmem
  rw [ha] at hearly
  exact hearly

theorem auditBody_graph {result : Except Exc Unit} {output : AuditOutput}
    {metadata : WorkflowMetadata} {fate : Fate Exc}
    (h : (auditBody text cfg agents document execution thread dossierKey).Runs meaning
      (Elsewhere execution) s log result t)
    (hsucceed : (.succeed execution output metadata, fate) ∈ log) :
    ∃ graph rest u, log = graph ++ rest ∧ (∀ a ∈ rest, a.1.Closing) ∧ Elsewhere execution u t ∧
      (auditGraph text agents document execution thread dossierKey).Runs meaning
        (Elsewhere execution) s graph (.ok ()) u ∧
      output = { documentId := document, dossierKey,
                 verdict := (u.verdicts execution).map (·.verdict),
                 findingCount := (u.ofRun execution).length } := by
  have hrefl := Elsewhere.refl execution
  rcases h.of_bind hrefl with ⟨graph, _, rest, u, hgraph, hrest, rfl⟩ | ⟨_, _, hgraph, _⟩
  swap
  · exact (not_mem_early rfl (hgraph.uses early_auditGraph) hsucceed).elim
  replace hsucceed := (List.mem_append.mp hsucceed).resolve_left
    (not_mem_early rfl (hgraph.uses early_auditGraph))
  have hclosing : ∀ a ∈ rest, a.1.Closing := by
    refine hrest.uses (P := AuditCmd.Closing) ?_
    refine (uses_auditOutput trivial trivial).bind fun _ => ?_
    exact closing_onWork.bind fun _ => uses_perform trivial
  refine ⟨graph, rest, u, rfl, hclosing, Elsewhere.of_closing hrest hclosing, hgraph, ?_⟩
  rcases hrest.of_bind hrefl with ⟨first, found, later, v, hfirst, hlater, rfl⟩ | ⟨_, _, hfirst, _⟩
  swap
  · exact (not_mem_early rfl (hfirst.uses (uses_auditOutput trivial trivial)) hsucceed).elim
  replace hsucceed := (List.mem_append.mp hsucceed).resolve_left
    (not_mem_early rfl (hfirst.uses (uses_auditOutput trivial trivial)))
  rw [← auditOutput_eq hfirst]
  rcases hlater.of_bind hrefl with ⟨second, _, last, _, hsecond, hlast, rfl⟩ | ⟨_, _, hsecond, _⟩
  swap
  · exact (not_mem_early rfl (hsecond.uses early_onWork) hsucceed).elim
  replace hsucceed := (List.mem_append.mp hsucceed).resolve_left
    (not_mem_early rfl (hsecond.uses early_onWork))
  obtain ⟨_, _, _, rfl, _⟩ := hlast.of_perform
  simp only [List.mem_singleton, Prod.mk.injEq, AuditCmd.succeed.injEq, true_and] at hsucceed
  exact hsucceed.1.1

/-- What `run_audit` records with SUCCEEDED: the last verdict that its agents stored after the
clear, or none. -/
theorem auditTask_verdict {result : Except Exc Unit} {output : AuditOutput}
    {metadata : WorkflowMetadata} {fate : Fate Exc}
    (h : (auditTask text cfg agents document execution mining thread dossierKey language).Runs meaning
      (Elsewhere execution) s log result t)
    (hsucceed : (.succeed execution output metadata, fate) ∈ log) :
    t.verdicts execution = (accepted execution log).getLast? ∧
      (∀ row ∈ accepted execution log, row.documentId = some document ∧
        row.dossierKey = some dossierKey ∧ row.verdict ∈ verdictValues) ∧
      output = { documentId := document, dossierKey,
                 verdict := (t.verdicts execution).map (·.verdict),
                 findingCount := (t.ofRun execution).length } := by
  have hrefl := Elsewhere.refl execution
  rcases h.of_bind hrefl with ⟨start, _, later, s', hstart, hlater, rfl⟩ | ⟨_, _, hstart, _⟩
  swap
  · exact (not_mem_early rfl (hstart.uses (uses_perform trivial)) hsucceed).elim
  have hstarted : ∀ a ∈ start, a.1.Closing := hstart.uses (uses_perform trivial)
  replace hsucceed := (List.mem_append.mp hsucceed).resolve_left
    (not_mem_early rfl (hstart.uses (uses_perform trivial)))
  -- the handler comes after the body and touches neither table
  have hbody : ∃ body handled ended u, later = body ++ handled ∧ (∀ a ∈ handled, a.1.Closing) ∧
      (.succeed execution output metadata, fate) ∈ body ∧ Elsewhere execution u t ∧
      (auditBody text cfg agents document execution thread dossierKey).Runs meaning
        (Elsewhere execution) s' body ended u := by
    rcases hlater.of_tryCatch hrefl with
      ⟨value, u, hbody, hafter, _⟩ | ⟨body, e, handled, u, hbody, hhandled, rfl⟩
    · exact ⟨later, [], _, u, (List.append_nil _).symm, fun _ ha => (List.not_mem_nil ha).elim,
        hsucceed, hafter, hbody⟩
    · have hearly := hhandled.uses (P := AuditCmd.Early) (uses_auditFailed fun _ => trivial)
      have hclosing := hhandled.uses (P := AuditCmd.Closing) (uses_auditFailed fun _ => trivial)
      exact ⟨body, handled, _, u, rfl, hclosing,
        (List.mem_append.mp hsucceed).resolve_right (not_mem_early rfl hearly),
        Elsewhere.of_closing hhandled hclosing, hbody⟩
  obtain ⟨body, handled, ended, u, rfl, hhandled, hmem, hafter, hbody⟩ := hbody
  obtain ⟨graph, rest, v, rfl, hrest, hlast, hgraph, rfl⟩ := auditBody_graph hbody hmem
  obtain ⟨hverdict, hstored⟩ := auditGraph_verdict hgraph
  have haccepted : accepted execution (start ++ ((graph ++ rest) ++ handled)) =
      accepted execution graph := by
    have hnone : ∀ l, (∀ a ∈ l, a.1.Closing) → accepted execution l = [] :=
      fun _ h => AuditCmd.Closing.accepted h
    simp only [accepted, List.filterMap_append] at hnone ⊢
    rw [hnone _ hstarted, hnone _ hrest, hnone _ hhandled]
    simp
  have hkept := Elsewhere.trans hlast hafter
  rw [haccepted, hkept.1, hkept.2]
  exact ⟨hverdict, hstored, rfl⟩

end Verdict

section Example

open AuditWorld

def plainText : TextData where
  repr text := "'" ++ text ++ "'"
  uuid text := text.toNat?

def Agent.idle (phase : Phase) : Agent phase where
  course := .ret ()
  offered := trivial

/-- Two calls of `set_verdict`; the first one is refused. -/
def insistent : Agent .verdict where
  course := .await (.setVerdict "approved" "fine") fun _ =>
    .await (.setVerdict "needs_review" "one invoice is missing") fun _ => .ret ()
  offered := ⟨rfl, fun _ => ⟨rfl, fun _ => trivial⟩⟩

def agentsWith (verdict : Agent .verdict) : AuditAgents where
  find := .idle .find
  reflect := .idle .reflect
  verdict := verdict

def auditWorld : AuditWorld where
  world := { World.opening textStore with runs := fun e => if e = 2 then some auditRow else none }
  findings := []
  verdicts _ := none
  outputs _ := none

def auditRun (verdict : Agent .verdict) : List (AuditCmd × Fate Exc) × Except Exc Unit × AuditWorld :=
  (auditTask plainText quietWorker (agentsWith verdict) 1 2 0 3 "k" "English").exec meaning auditWorld

def concluded (verdict : Option String) : AuditCmd :=
  .succeed 2 { documentId := 1, dossierKey := "k", verdict, findingCount := 0 }
    { langgraph := some { threadId := 3, checkpointId := some 6,
                          checkpointDeadline := some 259200000000 } }

theorem auditTask_verdict_insistent :
    (concluded (some "needs_review"), .done) ∈ (auditRun insistent).1 ∧
      (auditRun insistent).2.2.verdicts 2 = (accepted 2 (auditRun insistent).1).getLast? := by
  have hmem : (concluded (some "needs_review"), .done) ∈ (auditRun insistent).1 :=
    List.mem_iff_getElem?.mpr ⟨13, rfl⟩
  exact ⟨hmem, (auditTask_verdict (Prog.runs_exec (Elsewhere.refl 2) _ _) hmem).1⟩

/-- No call of `set_verdict`: the audit succeeds without a verdict. -/
theorem silent_audit_succeeds :
    (auditTask plainText quietWorker (agentsWith (.idle .verdict)) 1 2 0 3 "k" "English").Runs meaning
        (Elsewhere 2) auditWorld (auditRun (.idle .verdict)).1 (.ok ()) (auditRun (.idle .verdict)).2.2 ∧
      (concluded none, .done) ∈ (auditRun (.idle .verdict)).1 ∧
      ((auditRun (.idle .verdict)).2.2.world.runs 2).map (·.status) = some .succeeded ∧
      (auditRun (.idle .verdict)).2.2.verdicts 2 = none :=
  ⟨Prog.runs_exec (Elsewhere.refl 2) _ _, List.mem_iff_getElem?.mpr ⟨12, rfl⟩, rfl, rfl⟩

end Example

end Doci
