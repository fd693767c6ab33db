import Doci.Conduct

/-! What one step can do to rows and entries, and what holds of every state: each entry
has its row, and a row keeps the fields that it was created with. -/

namespace Doci

open Coroutine

section Effects

variable {w w' : World}

/-- The rows of `w` with the fields that no statement changes. -/
def World.Extends (w w' : World) : Prop :=
  ∀ id row, w.runs id = some row → ∃ row', w'.runs id = some row' ∧
    row'.workflow = row.workflow ∧ row'.entityId = row.entityId ∧ row'.input = row.input ∧
    row'.chainedFrom = row.chainedFrom

theorem World.Extends.refl (w : World) : w.Extends w :=
  fun _ row h => ⟨row, h, rfl, rfl, rfl, rfl⟩

theorem World.Extends.of_runs (h : w'.runs = w.runs) : w.Extends w' :=
  fun _ row hrow => ⟨row, h ▸ hrow, rfl, rfl, rfl, rfl⟩

theorem World.Extends.trans {w'' : World} (h : w.Extends w') (h' : w'.Extends w'') :
    w.Extends w'' := by
  intro id row hrow
  obtain ⟨row', hrow', hw, he, hi, hc⟩ := h id row hrow
  obtain ⟨row'', hrow'', hw', he', hi', hc'⟩ := h' id row' hrow'
  exact ⟨row'', hrow'', hw'.trans hw, he'.trans he, hi'.trans hi, hc'.trans hc⟩

/-- Rows, history and broker are as before; the numbers and the clock have not gone back. -/
structure World.Still (w w' : World) : Prop where
  runs : w'.runs = w.runs
  history : w'.history = w.history
  stream : w'.stream = w.stream
  pending : w'.pending = w.pending
  fresh : w.fresh ≤ w'.fresh
  now : w.docs.now ≤ w'.docs.now

theorem World.Still.refl (w : World) : w.Still w := ⟨rfl, rfl, rfl, rfl, le_rfl, le_rfl⟩

theorem World.meaning_aside {c : WorkCmd} (h : c.Aside) : w.Still (World.meaning c w).2 := by
  cases c with
  | doc c => exact ⟨rfl, rfl, rfl, rfl, Store.fresh_le c w.docs, (Store.now_eq c w.docs).ge⟩
  | external => exact .refl w
  | aput thread => exact ⟨rfl, rfl, rfl, rfl, Nat.le_succ _, le_rfl⟩
  | agetTuple thread => exact .refl w
  | utcnow => exact .refl w
  | getRun id => exact .refl w
  | run statement => exact h.elim
  | kiq call => exact h.elim
  | rekick message => exact h.elim
  | ack entry => exact h.elim

theorem World.execute_cases (w : World) (statement : RunStatement) :
    (statement.effect w.docs.now (w.runs statement.target) = none ∧
      w.execute statement = (.error Store.violation, w)) ∨
    ∃ row, statement.effect w.docs.now (w.runs statement.target) = some row ∧
      w.execute statement = (.ok (), { w with
        runs := fun id => if id = statement.target then row else w.runs id
        history := statement :: w.history }) := by
  unfold World.execute
  cases h : statement.effect w.docs.now (w.runs statement.target) with
  | none => exact .inl ⟨rfl, rfl⟩
  | some row => exact .inr ⟨row, rfl, rfl⟩

theorem World.execute_row {id : ExecutionId} {row : WorkflowRow} (statement : RunStatement)
    (h : w.runs id = some row) : (w.execute statement).2.runs id =
      some (if id = statement.target then statement.update w.docs.now row else row) := by
  unfold World.execute
  by_cases hid : id = statement.target
  · subst hid
    rw [h]
    cases statement <;> simp [RunStatement.effect, RunStatement.update, h]
  · split <;> simp [hid, h]

theorem World.execute_none {id : ExecutionId} (statement : RunStatement) (h : w.runs id = none) :
    (w.execute statement).2.runs id = none ∨
      ∃ workflow document input metadata chainedFrom,
        statement = .create id workflow document input metadata chainedFrom ∧
        (w.execute statement).2.runs id =
          some { workflow, entityId := document, input, metadata, chainedFrom } := by
  unfold World.execute
  by_cases hid : id = statement.target
  · subst hid
    rw [h]
    cases statement with
    | create id workflow document input metadata chainedFrom =>
      exact .inr ⟨workflow, document, input, metadata, chainedFrom, rfl, by
        simp [RunStatement.effect, RunStatement.target]⟩
    | _ => exact .inl (by simp [RunStatement.effect])
  · split <;> exact .inl (by simp [hid, h])

theorem World.execute_created {id : ExecutionId} {workflow : Workflow} {document : DocumentId}
    {input : WorkflowInput} {metadata : WorkflowMetadata} {chainedFrom : Option ExecutionId}
    (h : (w.execute (.create id workflow document input metadata chainedFrom)).1 = .ok ()) :
    (w.execute (.create id workflow document input metadata chainedFrom)).2.runs id =
      some { workflow, entityId := document, input, metadata, chainedFrom } := by
  unfold World.execute at h ⊢
  simp only [RunStatement.target] at h ⊢
  cases hrow : w.runs id <;> simp_all [RunStatement.effect]

theorem World.execute_extends (statement : RunStatement) : w.Extends (w.execute statement).2 := by
  intro id row hrow
  refine ⟨_, w.execute_row statement hrow, ?_⟩
  split_ifs
  · cases statement <;> exact ⟨rfl, rfl, rfl, rfl⟩
  · exact ⟨rfl, rfl, rfl, rfl⟩

theorem World.meaning_extends (c : WorkCmd) : w.Extends (World.meaning c w).2 := by
  cases c with
  | run statement => exact w.execute_extends statement
  | _ => exact .of_runs rfl

theorem World.meaning_fresh (c : WorkCmd) : w.fresh ≤ (World.meaning c w).2.fresh := by
  cases c with
  | doc c => exact Store.fresh_le c w.docs
  | run statement =>
    obtain ⟨_, heq⟩ | ⟨row, _, heq⟩ := w.execute_cases statement
    · simp [World.meaning, heq]
    · simp [World.meaning, heq, World.fresh]
  | aput thread => exact Nat.le_succ _
  | kiq call => exact Nat.le_succ _
  | rekick message => exact Nat.le_succ _
  | _ => exact le_rfl

structure World.Begins (w : World) (e : WorkEvent) (job : Job) (w' : World) : Prop where
  docs : w'.docs = { w.docs with fresh := w.docs.fresh + 1 }
  runs : w'.runs = w.runs
  history : w'.history = w.history
  entries : ∀ entry, entry ∈ w'.stream ∨ entry ∈ w'.pending ↔ entry ∈ w.stream ∨ entry ∈ w.pending
  pending : ∀ entry ∈ w.pending, entry ∈ w'.pending
  handles : e.handles w = job.entry
  handled : ∀ entry, job.entry = some entry → job = .attempt entry ∧ entry ∈ w'.pending

theorem World.Begins.fresh {e : WorkEvent} {job : Job} (h : w.Begins e job w') :
    w'.fresh = w.fresh + 1 := by
  rw [World.fresh, h.docs]
  rfl

theorem workEvent_cases {cfg : WorkerConfig} {e : WorkEvent} {new : List WorkThread}
    (h : workEvent cfg w e = some (w', new)) :
    (∃ job, w.Begins e job w' ∧
      new = [{ tag := { number := w.fresh, job }, prog := job.prog cfg w.fresh }]) ∨
    new = [] ∧ w.Still w' := by
  have hsame : ∀ job : Job, job.entry = none → e.handles w = none →
      some (start cfg w job) = some (w', new) → ∃ job, w.Begins e job w' ∧
        new = [{ tag := { number := w.fresh, job }, prog := job.prog cfg w.fresh }] := by
    intro job hjob he hstart
    obtain ⟨rfl, rfl⟩ := Prod.mk.inj (Option.some.inj hstart)
    exact ⟨job, ⟨rfl, rfl, rfl, fun _ => Iff.rfl, fun _ h => h, he.trans hjob.symm,
      fun entry he => by simp [hjob] at he⟩, rfl⟩
  cases e with
  | submit kind document dossierKey reflect => exact .inl (hsame _ rfl rfl h)
  | submitAudit document mining dossierKey language => exact .inl (hsame _ rfl rfl h)
  | service call => exact .inl (hsame _ rfl rfl h)
  | deliver =>
    simp only [workEvent] at h
    split at h
    · cases h
    · next entry stream hstream =>
      obtain ⟨rfl, rfl⟩ := Prod.mk.inj (Option.some.inj h)
      refine .inl ⟨.attempt entry, ⟨rfl, rfl, rfl, fun other => ?_, fun other hother => ?_,
        by simp [WorkEvent.handles, hstream, Job.entry], fun other hother => ?_⟩, rfl⟩
      · simp only [World.take, hstream, List.mem_append, List.mem_cons]
        tauto
      · exact List.mem_append_left _ hother
      · obtain rfl := Option.some.inj hother
        exact ⟨rfl, List.mem_append_right _ (List.mem_singleton_self _)⟩
  | reclaim i =>
    simp only [workEvent, Option.bind_eq_bind, Option.bind_eq_some_iff] at h
    obtain ⟨entry, hentry, h⟩ := h
    obtain ⟨rfl, rfl⟩ := Prod.mk.inj (Option.some.inj h)
    refine .inl ⟨.attempt entry, ⟨rfl, rfl, rfl, fun _ => Iff.rfl, fun _ h => h, hentry,
      fun other hother => ?_⟩, rfl⟩
    obtain rfl := Option.some.inj hother
    exact ⟨rfl, List.mem_of_getElem? hentry⟩
  | put document data =>
    obtain ⟨rfl, rfl⟩ := Prod.mk.inj (Option.some.inj h)
    exact .inr ⟨rfl, rfl, rfl, rfl, rfl, le_rfl, le_rfl⟩
  | tick duration =>
    obtain ⟨rfl, rfl⟩ := Prod.mk.inj (Option.some.inj h)
    exact .inr ⟨rfl, rfl, rfl, rfl, rfl, le_rfl, Nat.le_add_right _ _⟩
  | answer reply =>
    obtain ⟨rfl, rfl⟩ := Prod.mk.inj (Option.some.inj h)
    exact .inr ⟨rfl, rfl, rfl, rfl, rfl, le_rfl, le_rfl⟩
  | expire thread =>
    obtain ⟨rfl, rfl⟩ := Prod.mk.inj (Option.some.inj h)
    exact .inr ⟨rfl, rfl, rfl, rfl, rfl, le_rfl, le_rfl⟩

theorem workEvent_runs {cfg : WorkerConfig} {e : WorkEvent} {new : List WorkThread}
    (h : workEvent cfg w e = some (w', new)) : w'.runs = w.runs := by
  rcases workEvent_cases h with ⟨_, hbegins, _⟩ | ⟨_, hstill⟩
  · exact hbegins.runs
  · exact hstill.runs

end Effects

structure WorkflowRow.Fits (row : WorkflowRow) (call : TaskCall) : Prop where
  workflow : row.workflow = call.workflow
  entityId : row.entityId = call.document
  dossierKey : row.input.dossierKey = call.dossierKey

def World.Backed (w : World) (call : TaskCall) : Prop :=
  ∃ row, w.runs call.execution = some row ∧ row.Fits call

def World.Agrees (w : World) : Prop :=
  ∀ entry, entry ∈ w.stream ∨ entry ∈ w.pending → w.Backed entry.message.call

section Agreement

variable {w w' : World} {call : TaskCall} {cfg : WorkerConfig} {tag : WorkTag}

theorem World.Backed.later (h : w.Backed call) (hext : w.Extends w') : w'.Backed call := by
  obtain ⟨row, hrow, hfits⟩ := h
  obtain ⟨row', hrow', hw, he, hi, _⟩ := hext _ row hrow
  exact ⟨row', hrow', hw.trans hfits.workflow, he.trans hfits.entityId, by rw [hi, hfits.dossierKey]⟩

theorem World.Agrees.of_entries (h : w.Agrees) (hext : w.Extends w')
    (hsub : ∀ entry, entry ∈ w'.stream ∨ entry ∈ w'.pending →
      entry ∈ w.stream ∨ entry ∈ w.pending ∨ w'.Backed entry.message.call) : w'.Agrees := by
  intro entry hentry
  rcases hsub entry hentry with hold | hold | hbacked
  · exact (h entry (.inl hold)).later hext
  · exact (h entry (.inr hold)).later hext
  · exact hbacked

def WorkCmd.Unsent : WorkCmd → Prop
  | .kiq _ => False
  | .rekick _ => False
  | _ => True

theorem World.Agrees.unsent (h : w.Agrees) {c : WorkCmd} (hc : c.Unsent) :
    (World.meaning c w).2.Agrees := by
  refine h.of_entries (w.meaning_extends c) fun entry hentry => ?_
  cases c with
  | run statement =>
    obtain ⟨_, heq⟩ | ⟨row, _, heq⟩ := w.execute_cases statement
    · simp only [World.meaning, heq] at hentry
      exact hentry.imp_right .inl
    · simp only [World.meaning, heq] at hentry
      exact hentry.imp_right .inl
  | ack done => exact hentry.imp_right fun hmem => .inl (List.mem_of_mem_filter hmem)
  | kiq call => exact hc.elim
  | rekick message => exact hc.elim
  | _ => exact hentry.imp_right .inl

theorem World.Agrees.send (h : w.Agrees) {message : Message} (hbacked : w.Backed message.call) :
    (w.send message).Agrees := by
  have hext : w.Extends (w.send message) := .of_runs rfl
  refine h.of_entries hext fun entry hentry => ?_
  rcases hentry with hentry | hentry
  · rcases List.mem_append.mp hentry with hentry | hentry
    · exact .inl hentry
    · obtain rfl := List.mem_singleton.mp hentry
      exact .inr (.inr (hbacked.later hext))
  · exact .inr (.inl hentry)

def agreement : Contract WorkReply Exc World where
  meaning := World.meaning
  inv := World.Agrees
  rely := World.Extends
  guar := World.Extends
  fate := fun _ _ _ => True
  rely_refl := .refl
  rely_trans := .trans

theorem outcome_extends (c : WorkCmd) (w : World) (fate : Fate Exc) :
    w.Extends (outcome World.meaning c w fate).2 := by
  rcases outcome_snd World.meaning c w fate with h | h
  · rw [h]
    exact w.meaning_extends c
  · rw [h]
    exact .refl w

theorem agreement_unsent {α : Type} {p : WorkProg α} (huses : p.Uses WorkCmd.Unsent) :
    Keeps agreement (fun _ _ => True) p w := by
  refine Keeps.of_uses (A := fun _ => True) huses (fun _ _ _ _ _ => trivial) ?_ trivial
  intro c t fate hc hinv _ _
  refine ⟨?_, outcome_extends c t fate, trivial⟩
  show World.Agrees (outcome World.meaning c t fate).2
  rcases outcome_snd World.meaning c t fate with h | h
  · rw [h]
    exact hinv.unsent hc
  · rw [h]
    exact hinv

theorem agreement_sent {c : WorkCmd} (hbacked : w.Backed call)
    (hsent : ∀ t, ∃ message, (World.meaning c t).2 = t.send message ∧ message.call = call) :
    Keeps agreement (fun _ _ => True) (perform c) w := by
  apply Keeps.perform
  intro t hrely hinv fate _
  refine ⟨?_, outcome_extends c t fate, fun _ _ _ => trivial⟩
  show World.Agrees (outcome World.meaning c t fate).2
  rcases outcome_snd World.meaning c t fate with h | h
  · obtain ⟨message, hmeaning, rfl⟩ := hsent t
    rw [h, hmeaning]
    exact hinv.send (hbacked.later hrely)
  · rw [h]
    exact hinv

theorem agreement_created {id : ExecutionId} {workflow : Workflow} {document : DocumentId}
    {input : WorkflowInput} {metadata : WorkflowMetadata} {chainedFrom : Option ExecutionId}
    {α : Type} {next : TaskId → WorkProg α} (hinv : w.Agrees) (hid : call.execution = id)
    (hfits : WorkflowRow.Fits { workflow, entityId := document, input, metadata, chainedFrom } call)
    (hnext : ∀ taskId, (next taskId).Uses WorkCmd.Unsent) :
    Keeps agreement (fun _ _ => True)
      ((perform (.run (.create id workflow document input metadata chainedFrom))).bind fun _ =>
        (perform (.kiq call)).bind next) w := by
  subst hid
  have hcreate : Keeps agreement (fun r t => ∀ u : Unit, r = .ok u → t.Backed call)
      (perform (.run (.create call.execution workflow document input metadata chainedFrom))) w := by
    apply Keeps.perform
    intro t hrely hinv fate _
    refine ⟨?_, outcome_extends _ t fate, fun u hu _ _ hr => ?_⟩
    · show World.Agrees (outcome World.meaning _ t fate).2
      rcases outcome_snd World.meaning (.run (.create call.execution workflow document input metadata chainedFrom))
        t fate with h | h
      · rw [h]
        exact hinv.unsent trivial
      · rw [h]
        exact hinv
    · cases fate with
      | lost e => cases hr
      | late e => cases hr
      | done =>
        have hnew : World.Backed (t.execute
            (.create call.execution workflow document input metadata chainedFrom)).2 call :=
          ⟨_, World.execute_created hr, hfits⟩
        exact hnew.later hu
  apply hcreate.bind hinv
  · intro _ t hinv hbacked
    have hsend : Keeps agreement (fun _ _ => True) (perform (.kiq call)) t :=
      agreement_sent (hbacked () rfl) fun t => ⟨_, rfl, rfl⟩
    exact hsend.bind hinv (fun taskId u _ _ => agreement_unsent (hnext taskId)) fun _ _ _ _ => trivial
  · exact fun _ _ _ _ => trivial

theorem WorkCmd.Inner.unsent {c : WorkCmd} (h : c.Inner) : c.Unsent := by
  cases c <;> trivial

theorem WorkCmd.Aside.unsent {c : WorkCmd} (h : c.Aside) : c.Unsent := by
  cases c <;> trivial

theorem agreement_chainAudit (number : Nat) (call : TaskCall) (hinv : w.Agrees) :
    Keeps agreement (fun _ _ => True) (chainAudit number call) w := by
  unfold chainAudit
  split_ifs
  · have hcreated : Keeps agreement (fun _ _ => True) (enqueueAudit number (some call.execution)
        call.document call.execution (call.dossierKey.getD "") "English") w :=
      agreement_created hinv rfl ⟨rfl, rfl, rfl⟩ fun _ => trivial
    exact hcreated.bind hinv (fun _ _ _ _ => agreement_unsent trivial) fun _ _ _ _ => trivial
  · exact agreement_unsent trivial

theorem agreement_recordFailure (call : TaskCall) (error : String) (raised : Exc) :
    Keeps agreement (fun _ _ => True) (recordFailure cfg call error raised) w := by
  apply agreement_unsent
  apply ((uses_finalMetadata _ _).mono fun _ h => h.unsent).bind
  intro metadata
  exact (uses_command trivial).bind fun _ => trivial

theorem agreement_body (number : Nat) (call : TaskCall) (hinv : w.Agrees) :
    Keeps agreement (fun _ _ => True) (call.body cfg number) w := by
  obtain ⟨timedOut, work, chain, hinner, hchains, hbody⟩ := call.course cfg number
  have hrun : ∀ statement t, Keeps agreement (fun _ _ => True) (perform (.run statement)) t :=
    fun _ _ => agreement_unsent (uses_command trivial)
  rw [hbody]
  apply Keeps.bind (hrun _ w) hinv ?_ fun _ _ _ _ => trivial
  intro _ t hinv _
  apply Keeps.tryCatch (Q := fun _ _ => True) ?_ hinv fun _ _ _ _ => trivial
  · intro e u _ _
    split <;> exact agreement_recordFailure _ _ _
  · apply Keeps.bind (agreement_unsent (hinner.mono fun _ h => h.unsent)) hinv ?_ fun _ _ _ _ => trivial
    intro output u hinv _
    apply Keeps.bind (agreement_unsent ((uses_finalMetadata _ _).mono fun _ h => h.unsent)) hinv ?_
      fun _ _ _ _ => trivial
    intro metadata v hinv _
    apply Keeps.bind (hrun _ v) hinv ?_ fun _ _ _ _ => trivial
    intro _ v hinv _
    rcases hchains with ⟨_, rfl⟩ | ⟨_, rfl⟩
    · exact agreement_unsent trivial
    · exact agreement_chainAudit number call hinv

theorem agreement_job (number : Nat) (job : Job) (hinv : w.Agrees) :
    Keeps agreement (fun _ _ => True) (job.prog cfg number) w := by
  cases job with
  | submit kind document dossierKey reflect =>
    apply Keeps.bind (agreement_unsent ((uses_onDocuments _).mono fun _ h => h.unsent)) hinv ?_
      fun _ _ _ _ => trivial
    intro _ t hinv _
    exact agreement_created hinv rfl ⟨rfl, rfl, rfl⟩ fun _ => uses_command trivial
  | submitAudit document mining dossierKey language =>
    have hcreated : Keeps agreement (fun _ _ => True)
        (enqueueAudit number none document mining dossierKey language) w :=
      agreement_created hinv rfl ⟨rfl, rfl, rfl⟩ fun _ => trivial
    exact hcreated.bind hinv (fun _ _ _ _ => agreement_unsent trivial) fun _ _ _ _ => trivial
  | service call => exact agreement_unsent ((uses_onDocuments _).mono fun _ h => h.unsent)
  | attempt entry => exact agreement_body number entry.message.call hinv
  | after entry => exact agreement_unsent trivial

theorem agreement_afterTask {entry : StreamEntry} (result : Except Exc Unit)
    (hbacked : w.Backed entry.message.call) (hinv : w.Agrees) :
    Keeps agreement (fun _ _ => True) (afterTask cfg entry result) w := by
  have hack : ∀ t, Keeps agreement (fun _ _ => True) (perform (.ack entry)) t := fun _ =>
    agreement_unsent (uses_command trivial)
  cases result with
  | ok value => exact hack w
  | error e =>
    refine Keeps.bind (Q := fun _ _ => True) ?_ hinv (fun _ t _ _ => hack t) fun _ _ _ _ => trivial
    unfold onError
    split
    · exact agreement_unsent trivial
    · split
      · next again hagain =>
        refine agreement_sent hbacked fun t => ⟨again, rfl, (cfg.retry.same_call _ _ hagain).1⟩
      · exact agreement_unsent trivial

theorem World.Agrees.begins {e : WorkEvent} {job : Job} (h : w.Agrees) (hbegins : w.Begins e job w') :
    w'.Agrees :=
  h.of_entries (.of_runs hbegins.runs) fun entry hentry =>
    ((hbegins.entries entry).mp hentry).imp_right .inl

theorem World.Agrees.still (h : w.Agrees) (hstill : w.Still w') : w'.Agrees :=
  h.of_entries (.of_runs hstill.runs) fun entry hentry => by
    rw [hstill.stream, hstill.pending] at hentry
    exact hentry.imp_right .inl

theorem agreement_backed {α : Type} {p : WorkProg α} {Q : Except Exc α → World → Prop}
    (h : Keeps agreement Q p w) (hbacked : w.Backed call) :
    Keeps agreement (fun _ t => t.Backed call) p w :=
  (h.along (A := fun t => t.Backed call) hbacked (fun _ _ hb hext => hb.later hext)
    fun _ _ hb hext => hb.later hext).weaken fun _ _ _ hpost => hpost.2

def agreementDiscipline (cfg : WorkerConfig) : Discipline (factory cfg) fun _ _ => True where
  inv := World.Agrees
  contract := fun _ => agreement
  post := fun tag _ w => ∀ entry, tag.job.entry = some entry → w.Backed entry.message.call
  apart := fun _ _ => True
  meaning_eq := fun _ => rfl
  inv_eq := fun _ => rfl
  apart_symm := fun _ => trivial
  others := fun _ _ _ hguar => hguar
  fates := fun _ _ _ _ _ => trivial
  exit_keeps := by
    rintro ⟨number, job⟩ result w hinv hpost t ht
    cases job with
    | attempt entry =>
      obtain rfl := List.mem_singleton.mp ht
      have hbacked := hpost entry rfl
      exact (agreement_backed (agreement_afterTask result hbacked hinv) hbacked).weaken
        fun _ _ _ h e he => Option.some.inj he ▸ h
    | _ => simp [factory, workExit] at ht
  exit_apart := fun _ _ _ _ => trivial
  exit_pairwise := @factory_exit_pairwise cfg
  death_inv := fun _ _ hinv => hinv.of_entries (.of_runs rfl) fun _ h => h.imp_right .inl
  death_rely := fun _ _ _ _ => .of_runs rfl
  env_inv := by
    intro c e w new _ henv hinv
    rcases workEvent_cases henv with ⟨job, hbegins, _⟩ | ⟨_, hstill⟩
    · exact hinv.begins hbegins
    · exact hinv.still hstill
  env_rely := by
    intro c e w new _ henv _ _ _
    rcases workEvent_cases henv with ⟨job, hbegins, _⟩ | ⟨_, hstill⟩
    · exact .of_runs hbegins.runs
    · exact .of_runs hstill.runs
  env_keeps := by
    intro c e w new _ henv hinv t ht
    rcases workEvent_cases henv with ⟨job, hbegins, rfl⟩ | ⟨rfl, _⟩
    · obtain rfl := List.mem_singleton.mp ht
      have hinv' := hinv.begins hbegins
      cases hjob : job.entry with
      | none => exact (agreement_job _ job hinv').weaken fun _ _ _ _ _ he => nomatch he
      | some entry =>
        have hbacked : w.Backed entry.message.call :=
          hinv' entry (.inr (hbegins.handled entry hjob).2)
        exact (agreement_backed (agreement_job _ job hinv') hbacked).weaken
          fun _ _ _ h e he => Option.some.inj he ▸ h
    · simp at ht
  env_apart := fun _ _ _ => ⟨List.pairwise_of_forall fun _ _ => trivial, fun _ _ _ _ => trivial⟩

end Agreement

/-- What holds of every reachable state: numbers are below the next one, entries and the
threads that handle them have their rows, and each thread keeps to its conduct. -/
structure Sound (c : Factory) : Prop where
  agrees : c.shared.Agrees
  numbered : ∀ t ∈ c.threads, t.tag.number < c.shared.fresh
  rows : ∀ id row, c.shared.runs id = some row → id < c.shared.fresh
  backed : ∀ t ∈ c.threads, ∀ entry, t.tag.job.entry = some entry →
    c.shared.Backed entry.message.call
  permitted : ∀ t ∈ c.threads, t.prog.Uses t.tag.Permits

section Sound

variable {cfg : WorkerConfig} {c c' : Factory} {move : Move Exc WorkEvent}

theorem factory_extends (h : (factory cfg).step c move = some c') :
    c.shared.Extends c'.shared ∧ c.shared.fresh ≤ c'.shared.fresh := by
  obtain ⟨_, fate, _, cmd, _, rfl, _, _, _, rfl⟩ | ⟨_, _, _, rfl, _, _, rfl⟩ | ⟨_, _, rfl, _, rfl⟩ |
    ⟨e, w, new, rfl, henv, rfl⟩ := System.step_cases h
  · refine ⟨outcome_extends cmd c.shared fate, ?_⟩
    show c.shared.fresh ≤ (outcome World.meaning cmd c.shared fate).2.fresh
    rcases outcome_snd World.meaning cmd c.shared fate with h | h
    · rw [h]
      exact c.shared.meaning_fresh cmd
    · rw [h]
  · exact ⟨.refl _, le_rfl⟩
  · exact ⟨.of_runs rfl, le_rfl⟩
  · rcases workEvent_cases henv with ⟨_, hbegins, _⟩ | ⟨_, hstill⟩
    · exact ⟨.of_runs hbegins.runs, hbegins.fresh ▸ Nat.le_succ _⟩
    · exact ⟨.of_runs hstill.runs, hstill.fresh⟩

/-- A thread after a step continues one before it, handles the entry of an attempt that
ended, or was started by the event. -/
theorem factory_thread (h : (factory cfg).step c move = some c') {u : WorkThread}
    (hu : u ∈ c'.threads) :
    (∃ t ∈ c.threads, u.tag = t.tag ∧ (t.prog.Uses t.tag.Permits → u.prog.Uses u.tag.Permits)) ∨
    (∃ t ∈ c.threads, ∃ entry, t.tag.job = .attempt entry ∧
      u.tag = { t.tag with job := .after entry } ∧ u.prog.Uses u.tag.Permits) ∨
    ∃ e job, move = .env e ∧ c.shared.Begins e job c'.shared ∧
      u = { tag := { number := c.shared.fresh, job }, prog := job.prog cfg c.shared.fresh } := by
  have hkept : ∀ {i : Nat}, u ∈ c.threads.eraseIdx i → ∃ t ∈ c.threads, u.tag = t.tag ∧
      (t.prog.Uses t.tag.Permits → u.prog.Uses u.tag.Permits) := fun hu =>
    ⟨u, (List.eraseIdx_sublist _ _).subset hu, rfl, fun h => h⟩
  obtain ⟨i, fate, t, cmd, rest, rfl, hi, hprog, _, rfl⟩ | ⟨i, t, result, rfl, hi, _, rfl⟩ |
    ⟨_, _, rfl, _, rfl⟩ | ⟨e, w, new, rfl, henv, rfl⟩ := System.step_cases h
  · rcases List.mem_or_eq_of_mem_set hu with hu | rfl
    · exact .inl ⟨u, hu, rfl, fun h => h⟩
    · refine .inl ⟨t, List.mem_of_getElem? hi, rfl, fun huses => ?_⟩
      rw [hprog] at huses
      exact huses.2 _
  · rcases List.mem_append.mp hu with hu | hu
    · exact .inl (hkept hu)
    · obtain ⟨⟨number, job⟩, prog⟩ := t
      cases job with
      | attempt entry =>
        obtain rfl := List.mem_singleton.mp hu
        exact .inr (.inl ⟨_, List.mem_of_getElem? hi, entry, rfl, rfl, uses_afterTask rfl result⟩)
      | _ => simp [factory, workExit] at hu
  · exact .inl (hkept hu)
  · rcases List.mem_append.mp hu with hu | hu
    · exact .inl ⟨u, hu, rfl, fun h => h⟩
    · rcases workEvent_cases henv with ⟨job, hbegins, rfl⟩ | ⟨rfl, _⟩
      · obtain rfl := List.mem_singleton.mp hu
        exact .inr (.inr ⟨e, job, rfl, hbegins, rfl⟩)
      · simp at hu

theorem Job.Creates.number_eq {number : Nat} {job : Job} {id : ExecutionId} {workflow : Workflow}
    {entity : DocumentId} {input : WorkflowInput} {metadata : WorkflowMetadata}
    {chainedFrom : Option ExecutionId}
    (h : job.Creates number (.create id workflow entity input metadata chainedFrom)) :
    id = number := by
  cases h <;> rfl

theorem Sound.rows_step (hc : Sound c) (h : (factory cfg).step c move = some c') {id : ExecutionId}
    {row : WorkflowRow} (hrow : c'.shared.runs id = some row) : id < c'.shared.fresh := by
  have hfresh := (factory_extends h).2
  have hold : ∀ {old}, c.shared.runs id = some old → id < c'.shared.fresh := fun hold =>
    (hc.rows id _ hold).trans_le hfresh
  obtain ⟨i, fate, t, cmd, rest, rfl, hi, hprog, _, rfl⟩ | ⟨_, _, _, rfl, _, _, rfl⟩ |
    ⟨_, _, rfl, _, rfl⟩ | ⟨e, w, new, rfl, henv, rfl⟩ := System.step_cases h
  · cases hrun : c.shared.runs id with
    | some old => exact hold hrun
    | none =>
      have huses := hc.permitted t (List.mem_of_getElem? hi)
      rw [hprog] at huses
      rcases outcome_snd World.meaning cmd c.shared fate with hs | hs
      · change (outcome World.meaning cmd c.shared fate).2.runs id = some row at hrow
        rw [hs] at hrow
        cases cmd with
        | run statement =>
          rcases World.execute_none statement hrun with hnone | ⟨_, _, _, _, _, rfl, _⟩
          · change (c.shared.execute statement).2.runs id = some row at hrow
            simp [hnone] at hrow
          · calc
              id = t.tag.number := huses.1.number_eq
              _ < c.shared.fresh := hc.numbered t (List.mem_of_getElem? hi)
              _ ≤ _ := hfresh
        | _ => exact hold hrow
      · change (outcome World.meaning cmd c.shared fate).2.runs id = some row at hrow
        rw [hs] at hrow
        exact hold hrow
  · exact hold hrow
  · exact hold hrow
  · rcases workEvent_cases henv with ⟨_, hbegins, _⟩ | ⟨_, hstill⟩
    · exact hold (hbegins.runs ▸ hrow)
    · exact hold (hstill.runs ▸ hrow)

theorem Sound.step (hc : Sound c) (hagrees : c'.shared.Agrees)
    (h : (factory cfg).step c move = some c') : Sound c' := by
  obtain ⟨hext, hfresh⟩ := factory_extends h
  refine ⟨hagrees, fun u hu => ?_, fun id row hrow => hc.rows_step h hrow, fun u hu entry hentry => ?_,
    fun u hu => ?_⟩
  · rcases factory_thread h hu with ⟨t, ht, htag, _⟩ | ⟨t, ht, _, _, htag, _⟩ | ⟨_, _, _, hbegins, rfl⟩
    · exact htag ▸ (hc.numbered t ht).trans_le hfresh
    · exact htag ▸ (hc.numbered t ht).trans_le hfresh
    · exact hbegins.fresh ▸ Nat.lt_succ_self _
  · rcases factory_thread h hu with ⟨t, ht, htag, _⟩ | ⟨t, ht, e, hjob, htag, _⟩ |
      ⟨_, _, _, hbegins, rfl⟩
    · exact (hc.backed t ht entry (htag ▸ hentry)).later hext
    · rw [htag] at hentry
      obtain rfl := Option.some.inj hentry
      exact (hc.backed t ht e (by rw [hjob]; rfl)).later hext
    · exact hagrees entry (.inr (hbegins.handled entry hentry).2)
  · rcases factory_thread h hu with ⟨t, ht, _, huses⟩ | ⟨_, _, _, _, _, huses⟩ | ⟨_, _, _, _, rfl⟩
    · exact huses (hc.permitted t ht)
    · exact huses
    · exact uses_job _ _

theorem sound_of_reach {ok : Factory → Move Exc WorkEvent → Prop} {docs : Store}
    (reach : Reach (factory cfg) ok ⟨World.opening docs, []⟩ c) : Sound c := by
  have hstart : (World.opening docs).Agrees := by
    rintro entry (hentry | hentry) <;> simp [World.opening] at hentry
  have hsafe : (agreementDiscipline cfg).Safe ⟨World.opening docs, []⟩ :=
    ⟨hstart, fun _ ht => (nomatch ht), List.Pairwise.nil⟩
  induction reach with
  | start =>
    exact ⟨hstart, fun _ ht => (nomatch ht), fun _ _ hrow => (nomatch hrow), fun _ ht => (nomatch ht),
      fun _ ht => (nomatch ht)⟩
  | step hreach hok h ih =>
    have hagrees := ((hreach.step hok h).weaken fun _ _ _ => trivial).safe (agreementDiscipline cfg) hsafe
    exact ih.step hagrees.inv h

theorem reach_sound {ok : Factory → Move Exc WorkEvent → Prop} {docs : Store}
    (reach : Reach (factory cfg) ok ⟨World.opening docs, []⟩ c) :
    Reach (factory cfg) (fun c move => ok c move ∧ Sound c) ⟨World.opening docs, []⟩ c :=
  reach.strengthen fun _ => sound_of_reach

end Sound

end Doci
