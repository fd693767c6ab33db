import Doci.AuditChain
import Doci.Original

/-! The mining task on a document whose original validation refuses: as long as its attempts find the
document new, none of its runs succeeds and no audit is chained to one. -/

namespace Doci

open Coroutine

/-- The row of a mining run of document `d`. -/
def WorkflowRow.Mines (d : DocumentId) (row : WorkflowRow) : Prop :=
  row.workflow = .submitted .documentMining ∧ row.entityId = d

/-- The thread attempts a mining run of document `d`. -/
def WorkTag.Mines (d : DocumentId) (tag : WorkTag) : Prop :=
  ∃ entry, tag.job = .attempt entry ∧ entry.message.call.isMining ∧ entry.message.call.document = d

/-- No mining run of document `d` has succeeded, and every audit was chained to another run. -/
structure World.Barren (d : DocumentId) (w : World) : Prop where
  unsucceeded : ∀ x row, w.runs x = some row → row.Mines d → row.status ≠ .succeeded
  chained : ∀ x id, w.Audits x id → ∃ row, w.runs x = some row ∧ ¬ row.Mines d

/-- The statement records the success of `x` or chains an audit to it. -/
def RunStatement.Credits (x : ExecutionId) : RunStatement → Prop
  | .create _ _ _ _ _ chainedFrom => chainedFrom = some x
  | .finish id status _ _ => id = x ∧ status = .succeeded
  | _ => False

def WorkCmd.Credits (x : ExecutionId) : WorkCmd → Prop
  | .run statement => statement.Credits x
  | _ => False

/-- What is put for document `d` is `data`, and the upload that makes it gives it this name. -/
def Unchanged (d : DocumentId) (name : Option String) (data : Bytes) (c : Factory) :
    Move Exc WorkEvent → Prop
  | .env (.put document stored) => document = d → stored = data
  | .env (.service (.requestUpload given)) => c.shared.fresh = d → given = name
  | _ => True

/-- An attempt of a mining run of document `d` that reads the document finds it new. -/
def FindsNew (d : DocumentId) (c : Factory) : Move Exc WorkEvent → Prop
  | .run i _ => ∀ t rest, c.threads[i]? = some t →
    t.prog = .await (.doc (.fetchDocument d false)) rest → t.tag.Mines d → c.shared.docs.FoundNew d
  | _ => True

section Barren

variable {d : DocumentId} {x : ExecutionId} {w w' : World} {tag : WorkTag} {c : WorkCmd}

theorem World.Barren.of_runs (h : w.Barren d) (hruns : w'.runs = w.runs) : w'.Barren d := by
  refine ⟨fun x row hrow => h.unsucceeded x row (hruns ▸ hrow), fun x id ⟨row, hrow, hchained⟩ => ?_⟩
  obtain ⟨row', hrow', hother⟩ := h.chained x id ⟨row, hruns ▸ hrow, hchained⟩
  exact ⟨row', by rwa [hruns], hother⟩

theorem RunStatement.update_mines (statement : RunStatement) (now : Time) (row : WorkflowRow) :
    (statement.update now row).Mines d ↔ row.Mines d := by
  cases statement <;> exact Iff.rfl

/-- Statements that credit other runs alone keep the runs of the document as they are. -/
theorem World.Barren.execute (h : w.Barren d) {statement : RunStatement}
    (hcredits : ∀ x, statement.Credits x → ∃ row, w.runs x = some row ∧ ¬ row.Mines d) :
    (w.execute statement).2.Barren d := by
  have hkept : ∀ {x}, (∃ row, w.runs x = some row ∧ ¬ row.Mines d) →
      ∃ row, (w.execute statement).2.runs x = some row ∧ ¬ row.Mines d := by
    rintro x ⟨row, hrow, hother⟩
    obtain ⟨row', hrow', hworkflow, hentity, _⟩ := w.execute_extends statement x row hrow
    exact ⟨row', hrow', fun hm => hother ⟨hworkflow ▸ hm.1, hentity ▸ hm.2⟩⟩
  refine ⟨fun x row' hrow' hmines => ?_, fun x id ⟨row', hrow', hchained⟩ => ?_⟩
  · cases hrow : w.runs x with
    | none =>
      rcases World.execute_none statement hrow with hnone | ⟨_, _, _, _, _, _, hnew⟩
      · cases hnone.symm.trans hrow'
      · obtain rfl := Option.some.inj (hnew.symm.trans hrow')
        exact nofun
    | some row =>
      have hupdated := Option.some.inj ((w.execute_row statement hrow).symm.trans hrow')
      split_ifs at hupdated with htarget
      · subst hupdated
        have hold := h.unsucceeded x row hrow ((statement.update_mines _ row).mp hmines)
        cases statement with
        | create id workflow entity input metadata chainedFrom => exact hold
        | setMetadata id metadata => exact hold
        | markRunning id => exact nofun
        | finish id status result metadata =>
          intro hs
          obtain ⟨other, hother, hnot⟩ := hcredits x ⟨htarget.symm, hs⟩
          obtain rfl := Option.some.inj (hrow.symm.trans hother)
          exact hnot hmines
      · exact hupdated ▸ h.unsucceeded x row hrow (hupdated ▸ hmines)
  · cases hrow : w.runs id with
    | none =>
      rcases World.execute_none statement hrow with hnone | ⟨_, _, _, _, _, rfl, hnew⟩
      · cases hnone.symm.trans hrow'
      · obtain rfl := Option.some.inj (hnew.symm.trans hrow')
        exact hkept (hcredits x hchained)
    | some row =>
      obtain ⟨row'', hrow'', _, _, _, hsame⟩ := w.execute_extends statement id row hrow
      obtain rfl := Option.some.inj (hrow''.symm.trans hrow')
      exact hkept (h.chained x id ⟨row, hrow, hsame ▸ hchained⟩)

theorem World.Barren.meaning (h : w.Barren d)
    (hcredits : ∀ x, c.Credits x → ∃ row, w.runs x = some row ∧ ¬ row.Mines d) :
    (World.meaning c w).2.Barren d := by
  cases c with
  | run statement => exact h.execute hcredits
  | _ => exact h.of_runs rfl

/-- Only an attempt credits its run. -/
theorem WorkTag.Permits.attempts (hc : tag.Permits c) (h : c.Credits x) : tag.Attempts x := by
  by_contra hx
  cases c with
  | run statement =>
    cases statement with
    | create id workflow entity input metadata chainedFrom => exact hc.chainless hx h
    | finish id status result metadata =>
      obtain ⟨_, entry, hjob, hid⟩ := hc
      exact hx ⟨entry, hjob, hid.symm.trans h.1⟩
    | _ => exact h
  | _ => exact h

theorem WorkCmd.Aside.credits (h : c.Aside) : ¬ c.Credits x := by
  cases c with
  | run statement => exact h.elim
  | _ => exact fun h => h

end Barren

/-- The contract of the threads: the original of document `d` stays what it is, and its mining runs
stay without success. -/
def refusal (d : DocumentId) (name : Option String) (data : Bytes) (tag : WorkTag) :
    Contract WorkReply Exc World where
  meaning := World.meaning
  inv := fun w => w.docs.Originates d name data ∧ w.Barren d
  rely := fun w w' => w.docs.KeepsKeys w'.docs ∧ w.Extends w'
  guar := fun w w' => w.docs.KeepsKeys w'.docs ∧ w.Extends w'
  fate := fun c w fate => fate.raised.all Exc.fromOutside = true ∧
    (tag.Mines d → c = .doc (.fetchDocument d false) → w.docs.FoundNew d)
  rely_refl := fun w => ⟨fun _ _ hm => hm, .refl w⟩
  rely_trans := fun h h' => ⟨fun m k hm => h'.1 m k (h.1 m k hm), h.2.trans h'.2⟩

section Refusal

variable {d : DocumentId} {name : Option String} {data : Bytes} {tag : WorkTag} {w w' : World}
  {cfg : WorkerConfig} {number : Nat} {c : WorkCmd} {α : Type}

theorem Store.Originates.numbered {s : Store} (h : s.Originates d name data) :
    Store.Originates d name data { s with fresh := s.fresh + 1 } :=
  ⟨h.row, h.blob, fun m k hm => (h.key_lt m k hm).trans (Nat.lt_succ_self _), h.object⟩

theorem World.originates (h : w.docs.Originates d name data) (hc : c.Gentle) :
    (World.meaning c w).2.docs.Originates d name data ∧
      w.docs.KeepsKeys (World.meaning c w).2.docs := by
  have hsame : w.docs.Originates d name data ∧ w.docs.KeepsKeys w.docs := ⟨h, fun _ _ hm => hm⟩
  have hnext : Store.Originates d name data w.take.docs ∧ w.docs.KeepsKeys w.take.docs :=
    ⟨h.numbered, fun _ _ hm => hm⟩
  cases c with
  | doc c =>
    have hspares : c.Spares d name fun _ => False := DocCmd.Derived.spares hc
    exact h.meaning hspares fun _ hm => hm.elim
  | run statement =>
    rcases w.execute_cases statement with ⟨_, heq⟩ | ⟨_, _, heq⟩ <;>
      simpa only [World.meaning, heq] using hsame
  | aput thread => exact hnext
  | kiq call => exact hnext
  | rekick message => exact hnext
  | _ => exact hsame

/-- One await that credits other runs alone. -/
theorem refusal_await (hinv : w.docs.Originates d name data ∧ w.Barren d) (hc : c.Gentle)
    (hcredits : ∀ x, c.Credits x → ∃ row, w.runs x = some row ∧ ¬ row.Mines d) (fate : Fate Exc) :
    ((outcome World.meaning c w fate).2.docs.Originates d name data ∧
      World.Barren d (outcome World.meaning c w fate).2) ∧
    w.docs.KeepsKeys (outcome World.meaning c w fate).2.docs ∧
      w.Extends (outcome World.meaning c w fate).2 := by
  refine ⟨?_, ?_, outcome_extends c w fate⟩ <;>
    rcases outcome_snd World.meaning c w fate with ho | ho <;> rw [ho]
  · exact ⟨(World.originates hinv.1 hc).1, hinv.2.meaning hcredits⟩
  · exact hinv
  · exact (World.originates hinv.1 hc).2
  · exact fun _ _ hm => hm

theorem refusal_plain {p : WorkProg α} (hgentle : p.Uses WorkCmd.Gentle)
    (hcredits : p.Uses fun c => ∀ x, ¬ c.Credits x) :
    Keeps (refusal d name data tag) (fun _ _ => True) p w := by
  refine Keeps.of_uses (A := fun _ => True) (hgentle.and hcredits) (fun _ _ _ _ _ => trivial) ?_ trivial
  intro c t fate hc hinv _ _
  obtain ⟨hinv', hguar⟩ := refusal_await hinv hc.1 (fun x hx => absurd hx (hc.2 x)) fate
  exact ⟨hinv', hguar, trivial⟩

/-- A thread that attempts no mining run of the document credits none. -/
theorem refusal_bystander {p : WorkProg α} (hgentle : p.Uses WorkCmd.Gentle)
    (hpermits : p.Uses tag.Permits) (hnot : ¬ tag.Mines d)
    (hbacked : ∀ entry, tag.job = .attempt entry → w.Backed entry.message.call) :
    Keeps (refusal d name data tag) (fun _ _ => True) p w := by
  have hkeeps := Keeps.of_uses (K := refusal d name data tag) (s := w) (hgentle.and hpermits)
    (A := fun t => ∀ entry, tag.job = .attempt entry → t.Backed entry.message.call)
    (fun s t hA hrely _ entry hjob => (hA entry hjob).later hrely.2)
    (fun c t fate hc hinv hA _ => ?_) hbacked
  · exact hkeeps.weaken fun _ _ _ _ => trivial
  · have hcredits : ∀ x, c.Credits x → ∃ row, t.runs x = some row ∧ ¬ row.Mines d := by
      intro x hx
      obtain ⟨entry, hjob, rfl⟩ := hc.2.attempts hx
      obtain ⟨row, hrow, hfits⟩ := hA entry hjob
      exact ⟨row, hrow, fun hm => hnot ⟨entry, hjob, hfits.workflow.symm.trans hm.1,
        hfits.entityId.symm.trans hm.2⟩⟩
    obtain ⟨hinv', hguar⟩ := refusal_await hinv hc.1 hcredits fate
    exact ⟨hinv', hguar, fun entry hjob => (hA entry hjob).later hguar.2⟩

theorem refusal_onDocuments {p : DocProg α} {post : Except Exc α → Store → Prop}
    (h : Keeps (originContract d name data (tag.Mines d)) post p w.docs) :
    Keeps (refusal d name data tag) (fun r t => post r t.docs) (onDocuments p) w := by
  refine Keeps.inject WorkCmd.doc World.docs (originContract d name data (tag.Mines d))
    (refusal d name data tag) (fun _ _ hrely => hrely.1) (fun _ hinv => hinv.1) (fun c w fate hfate => ?_)
    (fun c w fate => ?_) (fun c w fate hinv _ hinv' hkeys => ?_) h
  · exact ⟨hfate.1, fun hmines hc => hfate.2 hmines (congrArg WorkCmd.doc hc)⟩
  · cases fate <;> exact ⟨rfl, rfl⟩
  · have hdocs : (outcome World.meaning (.doc c) w fate).2.docs =
        (outcome Store.meaning c w.docs fate).2 := by
      cases fate <;> rfl
    have hruns : World.runs (outcome World.meaning (.doc c) w fate).2 = w.runs := by
      cases fate <;> rfl
    refine ⟨⟨?_, hinv.2.of_runs hruns⟩, ?_, outcome_extends _ w fate⟩
    · show (outcome World.meaning (.doc c) w fate).2.docs.Originates d name data
      rw [hdocs]
      exact hinv'
    · show w.docs.KeepsKeys (outcome World.meaning (.doc c) w fate).2.docs
      rw [hdocs]
      exact hkeys

section Attempt

variable {call : TaskCall}

theorem refusal_finalizeNode (hrefused : ∀ found, validate cfg.media (.original d) data name ≠ .ok found)
    (hmines : tag.Mines d) (hinv : w.docs.Originates d name data ∧ w.Barren d) :
    Keeps (refusal d name data tag) (Ends (fun _ _ => False) fun _ => True)
      (finalizeNode cfg number d) w := by
  have hdocument : Keeps (refusal d name data tag) (Ends (fun _ _ => False) fun _ => True)
      (onDocuments (finalizeDocument cfg.media number d)) w := by
    apply (refusal_onDocuments (origin_finalizeDocument hrefused hmines hinv.1)).weaken
    intro r t _ h
    cases r with
    | ok value => exact h
    | error e => trivial
  exact hdocument.andThen hinv fun _ _ _ h => h.elim

/-- The work of an attempt never comes to its output. -/
theorem refusal_miningWork (hrefused : ∀ found, validate cfg.media (.original d) data name ≠ .ok found)
    (hmines : tag.Mines d) (hcall : call.document = d)
    (hinv : w.docs.Originates d name data ∧ w.Barren d) :
    Keeps (refusal d name data tag) (Ends (fun _ _ => False) fun _ => True)
      (miningWork cfg number call) w := by
  have hplain : ∀ {β : Type} {p : WorkProg β} t, p.Uses WorkCmd.OfWork →
      Keeps (refusal d name data tag) (Ends (fun _ _ => True) fun _ => True) p t := by
    intro β p t huses
    have hkeeps : Keeps (refusal d name data tag) (fun _ _ => True) p t :=
      refusal_plain (huses.mono fun _ h => h.2) (huses.mono fun _ h _ => h.1.aside.credits)
    exact hkeeps.split (fun _ _ _ => trivial) fun _ _ => trivial
  apply (hplain w (uses_resolveDossierSpec _)).andThen hinv
  intro spec t hinv _
  have hgraph : Keeps (refusal d name data tag) (Ends (fun _ _ => False) fun _ => True)
      (documentMiningGraph cfg number call spec) t := by
    have haput : (perform (.aput call.thread)).Uses WorkCmd.OfWork := uses_command ⟨trivial, trivial⟩
    apply (hplain t haput).andThen hinv
    intro _ u hinv _
    rw [hcall]
    exact (refusal_finalizeNode hrefused hmines hinv).andThen hinv fun _ _ _ h => h.elim
  exact hgraph.andThen hinv fun _ _ _ h => h.elim

theorem refusal_recordFailure (error : String) (raised : Exc) :
    Keeps (refusal d name data tag) (fun _ _ => True) (recordFailure cfg call error raised) w := by
  apply refusal_plain (gentle_recordFailure _ _ _)
  apply ((uses_finalMetadata _ _).mono fun _ h _ => h.credits).bind
  intro metadata
  exact (uses_command fun _ h => nomatch h.2).bind fun _ => trivial

theorem TaskCall.body_mining (h : call.isMining) :
    call.body cfg number = runDocumentMining cfg number call := by
  cases call with
  | run kind document execution thread dossierKey reflect =>
    obtain rfl : kind = .documentMining := Workflow.submitted.inj h
    rfl
  | audit document execution mining thread dossierKey language => cases h

/-- An attempt that finds the document new fails. -/
theorem refusal_attempt (hrefused : ∀ found, validate cfg.media (.original d) data name ≠ .ok found)
    (hmines : tag.Mines d) (hmining : call.isMining) (hcall : call.document = d)
    (hinv : w.docs.Originates d name data ∧ w.Barren d) :
    Keeps (refusal d name data tag) (fun _ _ => True) (call.body cfg number) w := by
  rw [TaskCall.body_mining hmining]
  have hmark : Keeps (refusal d name data tag) (fun _ _ => True)
      (perform (.run (.markRunning call.execution))) w :=
    refusal_plain (uses_command trivial) (uses_command fun _ h => h)
  apply hmark.bind hinv ?_ fun _ _ _ _ => trivial
  intro _ t hinv _
  apply Keeps.tryCatch (Q := fun _ _ => True) ?_ hinv fun _ _ _ _ => trivial
  · intro e u _ _
    split <;> exact refusal_recordFailure _ _
  · exact (refusal_miningWork hrefused hmines hcall hinv).bind hinv (fun _ _ _ h => h.elim)
      fun _ _ _ _ => trivial

theorem refusal_job {job : Job}
    (hrefused : ∀ found, validate cfg.media (.original d) data name ≠ .ok found)
    (hname : ∀ given, job = .service (.requestUpload given) → number = d → given = name)
    (hinv : w.docs.Originates d name data ∧ w.Barren d)
    (hbacked : ∀ entry, job = .attempt entry → w.Backed entry.message.call) :
    Keeps (refusal d name data ⟨number, job⟩) (fun _ _ => True) (job.prog cfg number) w := by
  by_cases hmines : WorkTag.Mines d ⟨number, job⟩
  · obtain ⟨entry, hjob, hmining, hcall⟩ := id hmines
    obtain rfl : job = .attempt entry := hjob
    exact refusal_attempt hrefused hmines hmining hcall hinv
  · by_cases hupload : ∃ given, job = .service (.requestUpload given)
    · obtain ⟨given, rfl⟩ := hupload
      have hrun : Keeps (originContract d name data (WorkTag.Mines d ⟨number, .service (.requestUpload given)⟩))
          (fun _ _ => True) ((requestUpload number number given).bind fun _ => .ret ()) w.docs :=
        (origin_requestUpload (hname given rfl) hinv.1).bind hinv.1 (fun _ _ _ _ _ _ _ => trivial)
          fun _ _ _ _ => trivial
      exact refusal_onDocuments hrun
    · exact refusal_bystander (gentle_job number job (not_exists.mp hupload)) (uses_job number job) hmines hbacked

end Attempt

theorem workEvent_service {e : WorkEvent} {new : List WorkThread} {t : WorkThread}
    {call : ServiceCall} (h : workEvent cfg w e = some (w', new)) (ht : t ∈ new)
    (hjob : t.tag.job = .service call) : e = .service call := by
  have hstart : ∀ u job, some (start cfg u job) = some (w', new) → job = .service call := by
    intro u job h
    obtain ⟨_, rfl⟩ := Prod.mk.inj (Option.some.inj h)
    obtain rfl := List.mem_singleton.mp ht
    exact hjob
  have hnone : ∀ u, some (u, []) = some (w', new) → False := by
    intro u h
    obtain ⟨_, rfl⟩ := Prod.mk.inj (Option.some.inj h)
    exact absurd ht List.not_mem_nil
  cases e with
  | submit kind document dossierKey reflect => cases hstart _ _ h
  | submitAudit document mining dossierKey language => cases hstart _ _ h
  | service other => rw [Job.service.inj (hstart _ _ h)]
  | deliver =>
    simp only [workEvent] at h
    split at h
    · cases h
    · cases hstart _ _ h
  | reclaim i =>
    simp only [workEvent, Option.bind_eq_bind, Option.bind_eq_some_iff] at h
    obtain ⟨entry, _, h⟩ := h
    cases hstart _ _ h
  | put document stored => exact (hnone _ h).elim
  | tick duration => exact (hnone _ h).elim
  | answer reply => exact (hnone _ h).elim
  | expire thread => exact (hnone _ h).elim

theorem workEvent_originates {f : Factory} {e : WorkEvent} {new : List WorkThread}
    (hok : Unchanged d name data f (.env e)) (h : workEvent cfg f.shared e = some (w', new))
    (hinv : f.shared.docs.Originates d name data) :
    w'.docs.Originates d name data ∧ f.shared.docs.KeepsKeys w'.docs := by
  rcases workEvent_cases h with ⟨_, hbegins, _⟩ | ⟨rfl, _⟩
  · rw [hbegins.docs]
    exact ⟨hinv.numbered, fun _ _ hm => hm⟩
  · cases e with
    | put document stored =>
      obtain ⟨rfl, _⟩ := Prod.mk.inj (Option.some.inj h)
      refine ⟨⟨hinv.row, hinv.blob, hinv.key_lt, fun found hfound => ?_⟩, fun _ _ hm => hm⟩
      dsimp only at hfound
      split_ifs at hfound with heq
      · exact Option.some.inj hfound ▸ hok (ObjectKey.original.inj heq).symm
      · exact hinv.object found hfound
    | tick duration =>
      obtain ⟨rfl, _⟩ := Prod.mk.inj (Option.some.inj h)
      exact ⟨⟨hinv.row, hinv.blob, hinv.key_lt, hinv.object⟩, fun _ _ hm => hm⟩
    | answer reply =>
      obtain ⟨rfl, _⟩ := Prod.mk.inj (Option.some.inj h)
      exact ⟨hinv, fun _ _ hm => hm⟩
    | expire thread =>
      obtain ⟨rfl, _⟩ := Prod.mk.inj (Option.some.inj h)
      exact ⟨hinv, fun _ _ hm => hm⟩
    | submit kind document dossierKey reflect => simp [workEvent, start] at h
    | submitAudit document mining dossierKey language => simp [workEvent, start] at h
    | service call => simp [workEvent, start] at h
    | deliver =>
      simp only [workEvent] at h
      split at h
      · cases h
      · simp [start] at h
    | reclaim i =>
      simp only [workEvent, Option.bind_eq_bind, Option.bind_eq_some_iff] at h
      obtain ⟨entry, _, h⟩ := h
      simp [start] at h

theorem World.admits_outside {fate : Fate Exc} (h : World.admits c w fate = true) :
    fate.raised.all Exc.fromOutside = true := by
  cases c with
  | doc c => exact (Bool.and_eq_true_iff.mp h).1
  | utcnow =>
    obtain rfl : fate = .done := of_decide_eq_true h
    rfl
  | _ => exact h

def refusalDiscipline (cfg : WorkerConfig)
    (hrefused : ∀ found, validate cfg.media (.original d) data name ≠ .ok found) :
    Discipline (factory cfg) fun f move =>
      (Unchanged d name data f move ∧ FindsNew d f move) ∧ Sound f where
  inv := fun w => w.docs.Originates d name data ∧ w.Barren d
  contract := refusal d name data
  post := fun _ _ _ => True
  apart := fun _ _ => True
  meaning_eq := fun _ => rfl
  inv_eq := fun _ => rfl
  apart_symm := fun _ => trivial
  others := fun _ _ _ hguar => hguar
  fates := by
    intro f i fate t cmd rest hok hi hprog hadmits _
    refine ⟨World.admits_outside hadmits, fun hmines hcmd => ?_⟩
    subst hcmd
    exact hok.1.2 t rest hi hprog hmines
  exit_keeps := by
    rintro ⟨number, job⟩ result w _ _ t ht
    cases job with
    | attempt entry =>
      obtain rfl := List.mem_singleton.mp ht
      refine refusal_bystander (gentle_afterTask entry result) (uses_afterTask rfl result) ?_ nofun
      rintro ⟨_, hjob, _⟩
      cases hjob
    | _ => simp [factory, workExit] at ht
  exit_apart := fun _ _ _ _ => trivial
  exit_pairwise := @factory_exit_pairwise cfg
  death_inv := fun _ _ hinv => ⟨hinv.1.rollback, hinv.2.of_runs rfl⟩
  death_rely := fun _ _ _ _ => ⟨fun _ _ hm => hm, .of_runs rfl⟩
  env_inv := fun hok henv hinv =>
    ⟨(workEvent_originates hok.1.1 henv hinv.1).1, hinv.2.of_runs (workEvent_runs henv)⟩
  env_rely := fun hok henv hinv _ _ =>
    ⟨(workEvent_originates hok.1.1 henv hinv.1).2, .of_runs (workEvent_runs henv)⟩
  env_keeps := by
    intro f e w new hok henv hinv t ht
    have hinv' : w.docs.Originates d name data ∧ w.Barren d :=
      ⟨(workEvent_originates hok.1.1 henv hinv.1).1, hinv.2.of_runs (workEvent_runs henv)⟩
    have hservice : ∀ call, t.tag.job = .service call → e = .service call :=
      fun _ => workEvent_service henv ht
    rcases workEvent_cases henv with ⟨job, hbegins, rfl⟩ | ⟨rfl, _⟩
    · obtain rfl := List.mem_singleton.mp ht
      refine refusal_job hrefused (fun given hjob hnumber => ?_) hinv' fun entry hjob => ?_
      · obtain rfl := hservice _ hjob
        exact hok.1.1 hnumber
      · have hentry := (hbegins.entries entry).mp
          (.inr (hbegins.handled entry (congrArg Job.entry hjob)).2)
        exact (hok.2.agrees entry hentry).later (.of_runs hbegins.runs)
    · exact absurd ht List.not_mem_nil
  env_apart := fun _ _ _ => ⟨List.pairwise_of_forall fun _ _ => trivial, fun _ _ _ _ => trivial⟩

end Refusal

section Runs

variable {cfg : WorkerConfig} {d : DocumentId} {name : Option String} {data : Bytes} {docs : Store}
  {c : Factory}

/-- In every state of a run in which nothing but `data`, which validation refuses, is put for
document `d` and in which the attempts of its mining runs find the document new whenever they read
it: no mining run of the document has succeeded, and none has an audit. -/
theorem refused_never_succeeds (horiginal : docs.Originates d name data)
    (hrefused : ∀ found, validate cfg.media (.original d) data name ≠ .ok found)
    (reach : Reach (factory cfg) (fun c move => Unchanged d name data c move ∧ FindsNew d c move)
      ⟨World.opening docs, []⟩ c) {x : ExecutionId} {row : WorkflowRow}
    (hrow : c.shared.runs x = some row) (hmines : row.Mines d) :
    row.status ≠ .succeeded ∧ ∀ id, ¬ c.shared.Audits x id := by
  have hstart : (refusalDiscipline cfg hrefused).Safe ⟨World.opening docs, []⟩ := by
    refine ⟨⟨horiginal, ?_, ?_⟩, fun t ht => absurd ht List.not_mem_nil, List.Pairwise.nil⟩
    · intro x row hrow
      cases hrow
    · rintro x id ⟨row, hrow, _⟩
      cases hrow
  have hbarren : c.shared.Barren d := ((reach_sound reach).safe _ hstart).inv.2
  refine ⟨hbarren.unsucceeded x row hrow hmines, fun id haudit => ?_⟩
  obtain ⟨row', hrow', hother⟩ := hbarren.chained x id haudit
  obtain rfl := Option.some.inj (hrow.symm.trans hrow')
  exact hother hmines

end Runs

section Example

/-- A document whose original is a single zero byte. -/
def refusedStore : Store :=
  { uploadedStore with objects := fun k => if k = .original 1 then some [0] else none }

theorem refusedStore_refused (found : Mime × Nat) :
    validate quietWorker.media (.original 1) [0] none ≠ .ok found := by
  have hrefused : validate quietWorker.media (.original 1) [0] none =
      .error (.unsupportedType (.original 1)) := by
    decide +kernel
  rw [hrefused]
  exact nofun

theorem refusedStore_originates : refusedStore.Originates 1 none [0] := by
  refine ⟨?_, ?_, fun m k hm => ?_, fun stored hs => (Option.some.inj hs).symm⟩
  · rintro row (hrow | ⟨_, hrow⟩)
    · obtain rfl := Option.some.inj hrow
      exact ⟨rfl, rfl⟩
    · cases hrow
  · rintro v (hv | ⟨_, hv⟩)
    · obtain rfl := Option.some.inj hv
      rfl
    · cases hv
  · obtain ⟨rfl, _⟩ := Option.ite_none_right_eq_some.mp hm
    decide

/-- The move neither puts an original nor calls a service. -/
def leavesOriginals : Move Exc WorkEvent → Bool
  | .env (.put _ _) => false
  | .env (.service _) => false
  | _ => true

theorem unchanged_of_leavesOriginals {d : DocumentId} {name : Option String} {data : Bytes} {c : Factory}
    {move : Move Exc WorkEvent} (h : leavesOriginals move = true) : Unchanged d name data c move := by
  cases move with
  | env e =>
    cases e with
    | put document stored => cases h
    | service call => cases h
    | _ => trivial
  | _ => trivial

/-- A move that puts nothing, or an await that reads a document while document 1 is new. -/
def readsNew (c : Factory) (move : Move Exc WorkEvent) : Bool :=
  leavesOriginals move && match move with
    | .run i _ => (c.threads[i]?).all fun t =>
      match t.prog with
      | .await (.doc (.fetchDocument _ _)) _ =>
        (c.shared.docs.fetchDocument 1 false).all fun record => record.row.status = .new
      | _ => true
    | _ => true

theorem findsNew_of_readsNew {c : Factory} {move : Move Exc WorkEvent}
    (h : readsNew c move = true) : FindsNew 1 c move := by
  cases move with
  | run i fate =>
    intro t rest hi hprog _ record hrecord
    have hall := (Bool.and_eq_true_iff.mp h).2
    simp only [hi, Option.all_some, hprog, hrecord, decide_eq_true_eq] at hall
    exact hall
  | _ => trivial

theorem refused_never_succeeds_once :
    ∃ c row, Reach (factory quietWorker) (fun c move => Unchanged 1 none [0] c move ∧ FindsNew 1 c move)
        ⟨World.opening refusedStore, []⟩ c ∧
      c.shared.runs 3 = some row ∧ row.Mines 1 ∧ row.status = .failed ∧
      row.status ≠ .succeeded ∧ ∀ id, ¬ c.shared.Audits 3 id := by
  have hrun : ((factory quietWorker).execWhen readsNew (minedWithDossier 10)
      ⟨World.opening refusedStore, []⟩).any (fun c => (c.shared.runs 3).any fun row =>
        row.status = .failed && row.workflow = .submitted .documentMining && row.entityId = 1) =
      true := by
    decide +kernel
  obtain ⟨c, hc, hrest⟩ := (Option.any_eq_true _ _).mp hrun
  obtain ⟨row, hrow, hs⟩ := (Option.any_eq_true _ _).mp hrest
  simp only [Bool.and_eq_true, decide_eq_true_eq] at hs
  have reach : Reach (factory quietWorker) (fun c move => Unchanged 1 none [0] c move ∧ FindsNew 1 c move)
      ⟨World.opening refusedStore, []⟩ c :=
    Reach.start.execWhen (fun _ _ _ h =>
      ⟨unchanged_of_leavesOriginals (Bool.and_eq_true_iff.mp h).1, findsNew_of_readsNew h⟩) hc
  exact ⟨c, row, reach, hrow, ⟨hs.1.2, hs.2⟩, hs.1.1,
    refused_never_succeeds refusedStore_originates refusedStore_refused reach hrow ⟨hs.1.2, hs.2⟩⟩

/-- The first attempt is refused and fails; the next one finds the document invalid and is graceful. -/
def minedAgain : List (Move Exc WorkEvent) :=
  minedWithDossier 10 ++ [.exit 0] ++ awaits 0 2 ++ [.exit 0, .env .deliver] ++ awaits 0 12

theorem refused_succeeds_again :
    refusedStore.Originates 1 none [0] ∧
    (∀ found, validate quietWorker.media (.original 1) [0] none ≠ .ok found) ∧
    ∃ c row id, Reach (factory quietWorker) (Unchanged 1 none [0]) ⟨World.opening refusedStore, []⟩ c ∧
      c.shared.runs 3 = some row ∧ row.Mines 1 ∧ row.status = .succeeded ∧ c.shared.Audits 3 id := by
  have hrun : ((factory quietWorker).execWhen (fun _ => leavesOriginals) minedAgain
      ⟨World.opening refusedStore, []⟩).any (fun c => ((c.shared.runs 3).any fun row =>
        row.status = .succeeded && row.workflow = .submitted .documentMining && row.entityId = 1) &&
        (List.range c.shared.fresh).any fun id => (c.shared.runs id).any fun row =>
          row.chainedFrom = some 3) = true := by
    decide +kernel
  obtain ⟨c, hc, hrest⟩ := (Option.any_eq_true _ _).mp hrun
  obtain ⟨hmined, haudited⟩ := Bool.and_eq_true_iff.mp hrest
  obtain ⟨row, hrow, hs⟩ := (Option.any_eq_true _ _).mp hmined
  simp only [Bool.and_eq_true, decide_eq_true_eq] at hs
  obtain ⟨id, _, haudit⟩ := List.any_eq_true.mp haudited
  obtain ⟨row', hrow', hchained⟩ := (Option.any_eq_true _ _).mp haudit
  exact ⟨refusedStore_originates, refusedStore_refused, c, row, id,
    Reach.start.execWhen (fun _ _ _ h => unchanged_of_leavesOriginals h) hc, hrow, ⟨hs.1.2, hs.2⟩, hs.1.1,
    row', hrow', of_decide_eq_true hchained⟩

end Example

end Doci
