import Doci.Conduct
import Doci.Traces

/-! The exits of a task's body: the row is left RUNNING exactly when no result was recorded and the
metadata for one could not be read. -/

namespace Doci

open Coroutine

abbrev WorkAwait := Await WorkReply Exc

def RunStatement.sets : RunStatement → Option WorkflowStatus
  | markRunning _ => some .running
  | finish _ status _ _ => some status
  | _ => none

def setsStatus (execution : ExecutionId) : WorkAwait → Option WorkflowStatus
  | ⟨.run statement, .ok _⟩ => if statement.target = execution then statement.sets else none
  | _ => none

def exitStatus (execution : ExecutionId) (trace : List WorkAwait) : Option WorkflowStatus :=
  (trace.filterMap (setsStatus execution)).getLast?

def recordsResult (execution : ExecutionId) : WorkAwait → Bool
  | ⟨.run (.finish id _ _ _), .ok _⟩ => id = execution
  | _ => false

/-- A read of `final_metadata` that fails: of the row, which may be gone, or of the checkpoint. -/
def failsRead : WorkAwait → Bool
  | ⟨.getRun _, .error _⟩ => true
  | ⟨.getRun _, .ok none⟩ => true
  | ⟨.agetTuple _, .error _⟩ => true
  | ⟨.utcnow, .error _⟩ => true
  | _ => false

/-- The body has recorded no result and ends at a failed read of the metadata. -/
def MetadataLost (execution : ExecutionId) (trace : List WorkAwait) : Prop :=
  (∀ a ∈ trace, recordsResult execution a = false) ∧ trace.getLast?.any failsRead = true

/-- The commands that follow `mark_running`. -/
def WorkCmd.Later (execution : ExecutionId) : WorkCmd → Prop
  | .run (.markRunning _) => False
  | .run (.finish id status _ _) => id = execution ∧ status.isTerminal = true
  | _ => True

section Exits

variable {cfg : WorkerConfig} {number : Nat} {call : TaskCall} {execution : ExecutionId}
  {trace : List WorkAwait}

theorem WorkCmd.Aside.later {c : WorkCmd} (h : c.Aside) : c.Later execution := by
  cases c <;> trivial

theorem later_recordFailure (error : String) (raised : Exc) :
    (recordFailure cfg call error raised).Uses (WorkCmd.Later call.execution) := by
  apply ((uses_finalMetadata _ _).mono fun _ h => h.later).bind
  intro metadata
  exact (uses_command ⟨rfl, rfl⟩).bind fun _ => trivial

theorem later_chainAudit : (chainAudit number call).Uses (WorkCmd.Later execution) := by
  unfold chainAudit
  split_ifs
  · refine Prog.Uses.bind ?_ fun _ => trivial
    apply Prog.Uses.bind (uses_command trivial)
    intro _
    have hkiq : (perform (.kiq (.audit call.document number call.execution number
        (call.dossierKey.getD "") "English"))).Uses (WorkCmd.Later execution) :=
      uses_command trivial
    exact hkiq.bind fun _ => trivial
  · trivial

theorem finalMetadata_error {e : Exc} {thread : ThreadId}
    (h : (finalMetadata cfg execution thread).Trace trace (.error e)) :
    trace.getLast?.any failsRead = true := by
  rcases h.of_bind with ⟨first, found, second, hfirst, hsecond, rfl⟩ | ⟨e', hfirst, _⟩
  · obtain rfl := hfirst.of_perform
    cases found with
    | none =>
      obtain ⟨rfl, _⟩ := hsecond.of_throw
      rfl
    | some row =>
      rcases hsecond.of_bind with ⟨third, langgraph, fourth, hthird, hfourth, rfl⟩ | ⟨e', hthird, _⟩
      · cases hfourth.of_ret.2
      · rcases hthird.of_bind with ⟨fifth, checkpoint, sixth, hfifth, hsixth, rfl⟩ | ⟨e', hfifth, _⟩
        · obtain rfl := hfifth.of_perform
          cases checkpoint with
          | none => cases hsixth.of_ret.2
          | some id =>
            rcases hsixth.of_bind with ⟨_, now, _, _, hrest, _⟩ | ⟨e', hclock, _⟩
            · cases hrest.of_ret.2
            · obtain rfl := hclock.of_perform
              rfl
        · obtain rfl := hfifth.of_perform
          rfl
  · obtain rfl := hfirst.of_perform
    rfl

def updateFails (execution : ExecutionId) : WorkAwait → Bool
  | ⟨.run (.finish id _ _ _), .error _⟩ => id = execution
  | _ => false

def UpdatesSucceed (execution : ExecutionId) (trace : List WorkAwait) : Prop :=
  ∀ a ∈ trace, updateFails execution a = false

theorem UpdatesSucceed.subset {trace' : List WorkAwait} (h : UpdatesSucceed execution trace)
    (hsub : trace' ⊆ trace) : UpdatesSucceed execution trace' :=
  fun a ha => h a (hsub ha)

theorem finish_recorded {status : WorkflowStatus} {record : WorkflowResult}
    {metadata : WorkflowMetadata} {next : Except Exc Unit → WorkProg Unit}
    {result : Except Exc Unit}
    (h : ((perform (.run (.finish execution status record metadata))).settle next).Trace trace
      result) (hupdates : UpdatesSucceed execution trace) :
    ∃ a ∈ trace, recordsResult execution a = true := by
  obtain ⟨first, reply, second, hfirst, _, rfl⟩ := h.of_settle
  obtain rfl := hfirst.of_perform
  have hmem : (⟨.run (.finish execution status record metadata), reply⟩ : WorkAwait) ∈
      [⟨.run (.finish execution status record metadata), reply⟩] ++ second :=
    List.mem_cons_self
  cases reply with
  | ok value => exact ⟨_, hmem, decide_eq_true rfl⟩
  | error e =>
    have hfails := hupdates _ hmem
    simp [updateFails] at hfails

theorem recordFailure_exit {error : String} {raised : Exc} {result : Except Exc Unit}
    (h : (recordFailure cfg call error raised).Trace trace result)
    (hupdates : UpdatesSucceed call.execution trace) :
    (∃ a ∈ trace, recordsResult call.execution a = true) ∨
      trace.getLast?.any failsRead = true := by
  rcases h.of_bind with ⟨first, metadata, second, _, hsecond, rfl⟩ | ⟨e, hfirst, _⟩
  · obtain ⟨a, ha, hrecords⟩ := finish_recorded hsecond
      (hupdates.subset (List.subset_append_right _ _))
    exact .inl ⟨a, List.mem_append_right _ ha, hrecords⟩
  · exact .inr (finalMetadata_error hfirst)

/-- What follows `mark_running`. -/
def afterRunning (cfg : WorkerConfig) (call : TaskCall) (timedOut : String) (work : WorkProg Output)
    (chain : WorkProg Unit) : WorkProg Unit :=
  tryCatch (do
      let output ← work
      let metadata ← finalMetadata cfg call.execution call.thread
      perform (.run (.finish call.execution .succeeded { output := some output } metadata))
      chain)
    fun e =>
      match e with
      | .timeoutError => recordFailure cfg call timedOut (.taskTimeout call.execution)
      | e => recordFailure cfg call e.str e

theorem afterRunning_exit {timedOut : String} {work : WorkProg Output} {chain : WorkProg Unit}
    {result : Except Exc Unit}
    (h : (afterRunning cfg call timedOut work chain).Trace trace result)
    (hupdates : UpdatesSucceed call.execution trace) :
    (∃ a ∈ trace, recordsResult call.execution a = true) ∨
      trace.getLast?.any failsRead = true := by
  rcases h.of_tryCatch with ⟨value, hbody, _⟩ | ⟨first, e, second, _, hsecond, rfl⟩
  · left
    rcases hbody.of_bind with ⟨first, output, second, _, hsecond, rfl⟩ | ⟨e, _, he⟩
    · rcases hsecond.of_bind with ⟨third, metadata, fourth, _, hfourth, rfl⟩ | ⟨e, _, he⟩
      · obtain ⟨a, ha, hrecords⟩ := finish_recorded hfourth
          (hupdates.subset (List.Subset.trans (List.subset_append_right _ _)
            (List.subset_append_right _ _)))
        exact ⟨a, List.mem_append_right _ (List.mem_append_right _ ha), hrecords⟩
      · cases he
    · cases he
  · have hhandler : (∃ a ∈ second, recordsResult call.execution a = true) ∨
        second.getLast?.any failsRead = true := by
      have hupdates := hupdates.subset (List.subset_append_right first second)
      split at hsecond
      · exact recordFailure_exit hsecond hupdates
      · exact recordFailure_exit hsecond hupdates
    rcases hhandler with ⟨a, ha, hrecords⟩ | hlast
    · exact .inl ⟨a, List.mem_append_right _ ha, hrecords⟩
    · right
      rw [List.getLast?_append]
      cases hsome : second.getLast? with
      | none => simp [hsome] at hlast
      | some a => simpa [hsome] using hlast

theorem later_afterRunning {timedOut : String} {work : WorkProg Output} {chain : WorkProg Unit}
    (hwork : work.Uses WorkCmd.Inner) (hchain : chain.Uses (WorkCmd.Later call.execution)) :
    (afterRunning cfg call timedOut work chain).Uses (WorkCmd.Later call.execution) := by
  apply Prog.Uses.tryCatch
  · apply (hwork.mono fun _ h => h.aside.later).bind
    intro output
    apply ((uses_finalMetadata _ _).mono fun _ h => h.later).bind
    intro metadata
    exact (uses_command ⟨rfl, rfl⟩).bind fun _ => hchain
  · intro e
    split
    · exact later_recordFailure _ _
    · exact later_recordFailure _ _

theorem setsStatus_later {a : WorkAwait} (h : a.1.Later execution) {status : WorkflowStatus}
    (hsets : setsStatus execution a = some status) :
    recordsResult execution a = true ∧ status.isTerminal = true := by
  obtain ⟨cmd, reply⟩ := a
  cases cmd with
  | run statement =>
    cases reply with
    | error e => cases hsets
    | ok value =>
      simp only [setsStatus, Option.ite_none_right_eq_some] at hsets
      cases statement with
      | create _ _ _ _ _ _ => cases hsets.2
      | setMetadata _ _ => cases hsets.2
      | markRunning _ => exact h.elim
      | finish id st result metadata =>
        obtain ⟨_, hst⟩ := hsets
        obtain rfl := Option.some.inj hst
        exact ⟨decide_eq_true h.1, h.2⟩
  | _ => cases hsets

theorem setsStatus_of_records {a : WorkAwait} (h : recordsResult execution a = true) :
    setsStatus execution a ≠ none := by
  obtain ⟨cmd, reply⟩ := a
  cases cmd with
  | run statement =>
    cases reply with
    | error e => cases statement <;> cases h
    | ok value =>
      cases statement with
      | finish id st result metadata =>
        have hid : id = execution := of_decide_eq_true h
        simp [setsStatus, RunStatement.target, RunStatement.sets, hid]
      | _ => cases h
  | _ => cases h

theorem exitStatus_eq {start : WorkAwait} {status : WorkflowStatus}
    (hstart : setsStatus execution start = some status)
    (hlater : ∀ a ∈ trace, a.1.Later execution) :
    (∃ a ∈ trace, recordsResult execution a = true) ∧
        (∃ final, exitStatus execution (start :: trace) = some final ∧ final.isTerminal = true) ∨
      (∀ a ∈ trace, recordsResult execution a = false) ∧
        exitStatus execution (start :: trace) = some status := by
  rw [exitStatus, List.filterMap_cons_some hstart]
  cases hsets : trace.filterMap (setsStatus execution) with
  | nil =>
    refine .inr ⟨fun a ha => ?_, rfl⟩
    rw [Bool.eq_false_iff]
    exact fun hrecords => setsStatus_of_records hrecords (List.filterMap_eq_nil_iff.mp hsets a ha)
  | cons first rest =>
    have hmem : ∀ final ∈ first :: rest, (∃ a ∈ trace, recordsResult execution a = true) ∧
        final.isTerminal = true := by
      intro final hfinal
      rw [← hsets] at hfinal
      obtain ⟨a, ha, hset⟩ := List.mem_filterMap.mp hfinal
      have hrecords := setsStatus_later (hlater a ha) hset
      exact ⟨⟨a, ha, hrecords.1⟩, hrecords.2⟩
    have hlast := hmem _ (List.getLast_mem (List.cons_ne_nil first rest))
    refine .inl ⟨hlast.1, _, ?_, hlast.2⟩
    rw [List.getLast?_cons_cons, List.getLast?_eq_some_getLast]

end Exits

/-- An attempt that has marked its row running, and whose updates succeed, leaves it SUCCEEDED or
FAILED if and only if it does not end at a failed read of the metadata with no result recorded. -/
theorem exits_terminal_iff {cfg : WorkerConfig} {number : Nat} {call : TaskCall}
    {trace : List WorkAwait} {result : Except Exc Unit}
    (h : (call.body cfg number).Trace (⟨.run (.markRunning call.execution), .ok ()⟩ :: trace) result)
    (hupdates : UpdatesSucceed call.execution trace) :
    (∃ status, exitStatus call.execution (⟨.run (.markRunning call.execution), .ok ()⟩ :: trace) =
      some status ∧ status.isTerminal = true) ↔ ¬ MetadataLost call.execution trace := by
  obtain ⟨timedOut, work, chain, hinner, hchains, hbody⟩ := call.course cfg number
  have hchain : chain.Uses (WorkCmd.Later call.execution) := by
    rcases hchains with ⟨_, rfl⟩ | ⟨_, rfl⟩
    · trivial
    · exact later_chainAudit
  have hafter : (afterRunning cfg call timedOut work chain).Trace trace result := by
    rw [hbody] at h
    cases h with
    | await h => exact h
  have hlater := hafter.uses (later_afterRunning hinner hchain)
  have hexit := afterRunning_exit hafter hupdates
  have hstart : setsStatus call.execution ⟨.run (.markRunning call.execution), .ok ()⟩ =
      some .running := if_pos rfl
  rcases exitStatus_eq hstart hlater with ⟨⟨a, ha, hrecords⟩, hterminal⟩ | ⟨hnone, hrunning⟩
  · refine iff_of_true hterminal fun hlost => ?_
    rw [hlost.1 a ha] at hrecords
    cases hrecords
  · refine iff_of_false ?_ fun hnot => hnot ⟨hnone, hexit.resolve_left ?_⟩
    · rintro ⟨status, hstatus, hterminal⟩
      obtain rfl := Option.some.inj (hrunning.symm.trans hstatus)
      cases hterminal
    · rintro ⟨a, ha, hrecords⟩
      rw [hnone a ha] at hrecords
      cases hrecords

section Example

def auditCall : TaskCall := .audit 1 2 0 3 "k" "English"

def auditRow : WorkflowRow where
  workflow := .audit
  entityId := 1
  status := .running
  input := { documentId := 1 }
  metadata := {}

def auditRecorded : List WorkAwait :=
  [⟨.external, .ok (0 : Nat)⟩, ⟨.external, .ok (0 : Nat)⟩, ⟨.getRun 2, .ok (some auditRow)⟩,
    ⟨.agetTuple 3, .ok none⟩,
    ⟨.run (.finish 2 .succeeded { output := some (.audit 1 "k" none 0) }
      { langgraph := some { threadId := 3 } }), .ok ()⟩]

/-- An await of the audit fails, and then the read of its checkpoint. -/
def auditAbandoned : List WorkAwait :=
  [⟨.external, .error (.external "ConnectionError")⟩, ⟨.getRun 2, .ok (some auditRow)⟩,
    ⟨.agetTuple 3, .error (.external "ConnectionError")⟩]

theorem exits_terminal_audit :
    ∃ status, exitStatus 2 (⟨.run (.markRunning 2), .ok ()⟩ :: auditRecorded) = some status ∧
      status.isTerminal = true := by
  have htrace : (auditCall.body quietWorker 9).Trace
      (⟨.run (.markRunning auditCall.execution), .ok ()⟩ :: auditRecorded) (.ok ()) :=
    .await (.await (.await (.await (.await (.await (.ret ()))))))
  refine (exits_terminal_iff htrace ?_).mpr fun hlost => ?_
  · intro a ha
    simp only [auditRecorded, List.mem_cons, List.not_mem_nil, or_false] at ha
    rcases ha with rfl | rfl | rfl | rfl | rfl <;> rfl
  · have hfinish := hlost.1 _ (List.getLast_mem (l := auditRecorded) (List.cons_ne_nil _ _))
    cases hfinish

theorem audit_left_running :
    ∃ trace result, (auditCall.body quietWorker 9).Trace
        (⟨.run (.markRunning auditCall.execution), .ok ()⟩ :: trace) result ∧
      UpdatesSucceed auditCall.execution trace ∧
      exitStatus auditCall.execution (⟨.run (.markRunning auditCall.execution), .ok ()⟩ :: trace) =
        some .running := by
  refine ⟨auditAbandoned, .error (.external "ConnectionError"), .await (.await (.await (.await
    (.throw _)))), ?_, rfl⟩
  intro a ha
  simp only [auditAbandoned, List.mem_cons, List.not_mem_nil, or_false] at ha
  rcases ha with rfl | rfl | rfl <;> rfl

end Example

end Doci
