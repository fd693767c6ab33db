import Doci.Agreement

/-! What a thread does to a row: an attempt of the execution marks and finishes it, every
other thread leaves all of it but the metadata, and only a thread with the row's number
creates it. -/

namespace Doci

open Coroutine

/-- The thread is an attempt of execution `x`. -/
def WorkTag.Attempts (x : ExecutionId) (tag : WorkTag) : Prop :=
  ∃ entry, tag.job = .attempt entry ∧ entry.message.call.execution = x

section Row

variable {x : ExecutionId} {w w' : World} {tag : WorkTag} {row : WorkflowRow} {c : WorkCmd}

theorem WorkTag.Attempts.execution {entry : StreamEntry} (hx : tag.Attempts x)
    (hjob : tag.job = .attempt entry) : entry.message.call.execution = x := by
  obtain ⟨entry', hjob', hid⟩ := hx
  obtain rfl := Job.attempt.inj (hjob.symm.trans hjob')
  exact hid

theorem World.meaning_row (c : WorkCmd) (h : w.runs x = some row) : (World.meaning c w).2.runs x = some row ∨
    ∃ statement, c = .run statement ∧ statement.target = x ∧
      (World.meaning c w).2.runs x = some (statement.update w.docs.now row) := by
  cases c with
  | run statement =>
    have hrow := w.execute_row statement h
    by_cases hx : x = statement.target
    · rw [if_pos hx] at hrow
      exact .inr ⟨statement, rfl, hx.symm, hrow⟩
    · rw [if_neg hx] at hrow
      exact .inl hrow
  | _ => exact .inl h

theorem WorkTag.Permits.kept_row (hc : tag.Permits c) (hx : ¬ tag.Attempts x)
    (h : w.runs x = some row) :
    ∃ metadata, (World.meaning c w).2.runs x = some { row with metadata := metadata } := by
  rcases World.meaning_row c h with hsame | ⟨statement, rfl, rfl, hrow⟩
  · exact ⟨row.metadata, hsame⟩
  · cases statement with
    | create id workflow entity input metadata chainedFrom => exact ⟨row.metadata, hrow⟩
    | setMetadata id metadata => exact ⟨metadata, hrow⟩
    | markRunning id =>
      obtain ⟨entry, hjob, hid⟩ := hc
      exact absurd ⟨entry, hjob, hid.symm⟩ hx
    | finish id status result metadata =>
      obtain ⟨_, entry, hjob, hid⟩ := hc
      exact absurd ⟨entry, hjob, hid.symm⟩ hx

theorem WorkTag.Permits.vacant (hc : tag.Permits c) (hx : x ≠ tag.number) (h : w.runs x = none) :
    (World.meaning c w).2.runs x = none := by
  cases c with
  | run statement =>
    rcases World.execute_none statement h with hnone | ⟨_, _, _, _, _, rfl, _⟩
    · exact hnone
    · exact absurd hc.number_eq hx
  | _ => exact h

theorem WorkTag.Permits.row_outcome (hc : tag.Permits c) (hx : ¬ tag.Attempts x)
    (h : w.runs x = some row) (fate : Fate Exc) : ∃ metadata,
      (outcome World.meaning c w fate).2.runs x = some { row with metadata := metadata } := by
  rcases outcome_snd World.meaning c w fate with ho | ho
  · rw [ho]
    exact hc.kept_row hx h
  · rw [ho]
    exact ⟨row.metadata, h⟩

theorem WorkTag.Permits.vacant_outcome (hc : tag.Permits c) (hx : x ≠ tag.number)
    (h : w.runs x = none) (fate : Fate Exc) : (outcome World.meaning c w fate).2.runs x = none := by
  rcases outcome_snd World.meaning c w fate with ho | ho
  · rw [ho]
    exact hc.vacant hx h
  · rw [ho]
    exact h

end Row

section RunTask

variable {K : Contract WorkReply Exc World} {A C D E F : World → Prop}
  {B : WorkflowMetadata → World → Prop} {w : World} {cfg : WorkerConfig} {call : TaskCall}

/-- The rule of `runTask`: `A` while it works, `C` once the success is recorded and `E` where
an exception is caught. -/
theorem keeps_runTask {timedOut : String} {work : WorkProg Output} {chain : WorkProg Unit}
    (hinv : K.inv w)
    (hmark : Keeps K (Ends (fun _ => A) F) (perform (.run (.markRunning call.execution))) w)
    (hwork : ∀ t, K.inv t → A t → Keeps K (Ends (fun _ => A) E) work t)
    (hmeta : ∀ t, K.inv t → A t →
      Keeps K (Ends B E) (finalMetadata cfg call.execution call.thread) t)
    (hfinish : ∀ output metadata t, K.inv t → B metadata t → Keeps K (Ends (fun _ => C) E)
      (perform (.run (.finish call.execution .succeeded { output := some output } metadata))) t)
    (hchain : ∀ t, K.inv t → C t → Keeps K (Ends (fun _ => D) E) chain t)
    (hfail : ∀ error raised t, K.inv t → E t →
      Keeps K (Ends (fun _ => D) F) (recordFailure cfg call error raised) t) :
    Keeps K (Ends (fun _ => D) F) (runTask cfg call timedOut work chain) w := by
  apply hmark.andThen hinv
  intro _ t hinv hA
  apply Keeps.orElse (E := E) ?_ hinv
  · intro e t hinv hE
    split <;> exact hfail _ _ t hinv hE
  · apply (hwork t hinv hA).andThen hinv
    intro output t hinv hA
    apply (hmeta t hinv hA).andThen hinv
    intro metadata t hinv hB
    apply (hfinish output metadata t hinv hB).andThen hinv
    exact fun _ t hinv hC => hchain t hinv hC

theorem keeps_recordFailure {error : String} {raised : Exc} (hinv : K.inv w)
    (hmeta : Keeps K (Ends B F) (finalMetadata cfg call.execution call.thread) w)
    (hfinish : ∀ metadata t, K.inv t → B metadata t → Keeps K (fun _ => F)
      (perform (.run (.finish call.execution .failed { error := some error } metadata))) t) :
    Keeps K (Ends (fun _ => D) F) (recordFailure cfg call error raised) w := by
  apply hmeta.andThen hinv
  intro metadata t hinv hB
  apply (hfinish metadata t hinv hB).settle hinv
  intro r t hinv hF
  cases r with
  | ok value => exact fun u hu hinv => hF u hu hinv
  | error e => exact fun u hu hinv => hF u hu hinv

/-- The statement by which a mining task creates the row of its audit. -/
def TaskCall.auditRow (call : TaskCall) (number : Nat) : RunStatement :=
  .create number .audit call.document
    { documentId := call.document, dossierKey := some (call.dossierKey.getD "") }
    { langgraph := some { threadId := number } } (some call.execution)

theorem WorkTag.permits_auditRow {tag : WorkTag} {entry : StreamEntry}
    (hjob : tag.job = .attempt entry) (hmining : entry.message.call.isMining)
    (htruthy : truthy entry.message.call.dossierKey = true) :
    tag.Permits (.run (entry.message.call.auditRow tag.number)) := by
  have hcreates : (Job.attempt entry).Creates tag.number _ :=
    .chain entry (entry.message.call.dossierKey.getD "") hmining htruthy
  rw [← hjob] at hcreates
  exact hcreates

theorem keeps_chainAudit {number : Nat} (hinv : K.inv w) (hA : A w)
    (hnone : truthy call.dossierKey = false → A w → Keeps K (Ends (fun _ => D) E) (.ret ()) w)
    (hcreate : truthy call.dossierKey = true →
      Keeps K (Ends (fun _ => C) E) (perform (.run (call.auditRow number))) w)
    (hkiq : ∀ t, K.inv t → C t → Keeps K (Ends (fun _ => D) E)
      (perform (.kiq (.audit call.document number call.execution number
        (call.dossierKey.getD "") "English"))) t)
    (hD : ∀ s t, D s → K.rely s t → D t) :
    Keeps K (Ends (fun _ => D) E) (chainAudit number call) w := by
  have hreturn : ∀ {α : Type} (value : α) t, D t → Keeps K (Ends (fun _ => D) E) (.ret value) t :=
    fun _ t h u hu _ => hD t u h hu
  unfold chainAudit
  split_ifs with htruthy
  · have henqueue : Keeps K (Ends (fun _ => D) E) (enqueueAudit number (some call.execution)
        call.document call.execution (call.dossierKey.getD "") "English") w := by
      apply (hcreate htruthy).andThen hinv
      intro _ t hinv hC
      exact (hkiq t hinv hC).andThen hinv fun _ t _ h => hreturn _ t h
    exact henqueue.andThen hinv fun _ t _ h => hreturn _ t h
  · exact hnone (by simpa using htruthy) hA

end RunTask

def watch (cfg : WorkerConfig) (ok : Factory → Move Exc WorkEvent → Prop)
    (K : Contract WorkReply Exc World) (hmeaning : K.meaning = World.meaning)
    (hothers : ∀ {s t}, K.guar s t → K.rely s t)
    (hfates : ∀ {c i fate t cmd rest}, ok c (.run i fate) → c.threads[i]? = some t →
      t.prog = .await cmd rest → K.fate cmd c.shared fate)
    (hafter : ∀ {w} (entry : StreamEntry) (result : Except Exc Unit), K.inv w →
      Keeps K (fun _ _ => True) (afterTask cfg entry result) w)
    (hdeath : ∀ w session, K.inv w → K.inv { w with docs := w.docs.rollback session } ∧
      K.rely w { w with docs := w.docs.rollback session })
    (hevent : ∀ {c e w new}, ok c (.env e) → workEvent cfg c.shared e = some (w, new) →
      K.inv c.shared → K.inv w ∧ K.rely c.shared w)
    (hjob : ∀ {c e w job}, ok c (.env e) → c.shared.Begins e job w → K.inv w →
      Keeps K (fun _ _ => True) (job.prog cfg c.shared.fresh) w) :
    Discipline (factory cfg) ok where
  inv := K.inv
  contract := fun _ => K
  post := fun _ _ _ => True
  apart := fun _ _ => True
  meaning_eq := fun _ => hmeaning
  inv_eq := fun _ => rfl
  apart_symm := fun _ => trivial
  others := fun _ _ _ hguar => hothers hguar
  fates := fun hok hi hprog _ _ => hfates hok hi hprog
  exit_keeps := by
    rintro ⟨number, job⟩ result w hinv _ t ht
    cases job with
    | attempt entry =>
      obtain rfl := List.mem_singleton.mp ht
      exact hafter entry result hinv
    | _ => simp [factory, workExit] at ht
  exit_apart := fun _ _ _ _ => trivial
  exit_pairwise := @factory_exit_pairwise cfg
  death_inv := fun _ _ hinv => (hdeath _ _ hinv).1
  death_rely := fun _ _ hinv _ => (hdeath _ _ hinv).2
  env_inv := fun hok henv hinv => (hevent hok henv hinv).1
  env_rely := fun hok henv hinv _ _ => (hevent hok henv hinv).2
  env_keeps := by
    intro c e w new hok henv hinv t ht
    have hinv' := (hevent hok henv hinv).1
    rcases workEvent_cases henv with ⟨job, hbegins, rfl⟩ | ⟨rfl, _⟩
    · obtain rfl := List.mem_singleton.mp ht
      exact hjob hok hbegins hinv'
    · simp at ht
  env_apart := fun _ _ _ => ⟨List.pairwise_of_forall fun _ _ => trivial, fun _ _ _ _ => trivial⟩

/-- The discipline in which threads have numbers of their own and execution `x` is attempted by
one thread at a time. -/
def solo (cfg : WorkerConfig) (x : ExecutionId) (ok : Factory → Move Exc WorkEvent → Prop)
    (inv : World → Prop) (K : WorkTag → Contract WorkReply Exc World) (post : WorkTag → World → Prop)
    (hmeaning : ∀ a, (K a).meaning = World.meaning) (hinv : ∀ a, (K a).inv = inv)
    (hothers : ∀ {a b s t}, a.number ≠ b.number → ¬ (a.Attempts x ∧ b.Attempts x) →
      (K a).guar s t → (K b).rely s t)
    (hfates : ∀ {c i fate t cmd rest}, ok c (.run i fate) → c.threads[i]? = some t →
      t.prog = .await cmd rest → (K t.tag).fate cmd c.shared fate)
    (hafter : ∀ {w} (number : Nat) (entry : StreamEntry) (result : Except Exc Unit), inv w →
      Keeps (K ⟨number, .after entry⟩) (fun _ t => post ⟨number, .after entry⟩ t)
        (afterTask cfg entry result) w)
    (hsame : ∀ a w w', w'.runs = w.runs → inv w → inv w' ∧ (K a).rely w w')
    (hjob : ∀ {c e w job}, ok c (.env e) → c.shared.Begins e job w → inv w →
      Keeps (K ⟨c.shared.fresh, job⟩) (fun _ t => post ⟨c.shared.fresh, job⟩ t)
        (job.prog cfg c.shared.fresh) w)
    (hnumbered : ∀ {c e}, ok c (.env e) → ∀ t ∈ c.threads, t.tag.number < c.shared.fresh)
    (hsolo : ∀ {c e entry}, ok c (.env e) → e.handles c.shared = some entry →
      entry.message.call.execution = x → ∀ t ∈ c.threads, ¬ t.tag.Attempts x) :
    Discipline (factory cfg) ok where
  inv := inv
  contract := K
  post := fun tag _ w => post tag w
  apart := fun a b => a.number ≠ b.number ∧ ¬ (a.Attempts x ∧ b.Attempts x)
  meaning_eq := hmeaning
  inv_eq := hinv
  apart_symm := fun h => ⟨h.1.symm, fun hb => h.2 hb.symm⟩
  others := fun hapart _ _ hguar => hothers hapart.1 hapart.2 hguar
  fates := fun hok hi hprog _ _ => hfates hok hi hprog
  exit_keeps := by
    rintro ⟨number, job⟩ result w hinv _ t ht
    cases job with
    | attempt entry =>
      obtain rfl := List.mem_singleton.mp ht
      exact hafter number entry result hinv
    | _ => simp [factory, workExit] at ht
  exit_apart := by
    rintro ⟨number, job⟩ result t ht b hapart
    cases job with
    | attempt entry =>
      obtain rfl := List.mem_singleton.mp ht
      exact ⟨hapart.1, fun ⟨_, _, hjob, _⟩ => nomatch hjob⟩
    | _ => simp [factory, workExit] at ht
  exit_pairwise := by
    rintro ⟨number, job⟩ result
    cases job with
    | attempt entry => exact List.pairwise_singleton _ _
    | _ => exact List.Pairwise.nil
  death_inv := fun {c _ t} _ _ hinv =>
    (hsame t.tag c.shared ((factory cfg).death t.tag c.shared) rfl hinv).1
  death_rely := fun {c _ t b} _ _ hinv _ =>
    (hsame b c.shared ((factory cfg).death t.tag c.shared) rfl hinv).2
  env_inv := fun _ henv hinv => (hsame ⟨0, .service .softDeleteInvalid⟩ _ _ (workEvent_runs henv) hinv).1
  env_rely := fun _ henv hinv t _ => (hsame t.tag _ _ (workEvent_runs henv) hinv).2
  env_keeps := by
    intro c e w new hok henv hinv t ht
    have hinv' := (hsame t.tag _ _ (workEvent_runs henv) hinv).1
    rcases workEvent_cases henv with ⟨job, hbegins, rfl⟩ | ⟨rfl, _⟩
    · obtain rfl := List.mem_singleton.mp ht
      exact hjob hok hbegins hinv'
    · simp at ht
  env_apart := by
    intro c e w new hok henv _
    rcases workEvent_cases henv with ⟨job, hbegins, rfl⟩ | ⟨rfl, _⟩
    · refine ⟨List.pairwise_singleton _ _, fun t ht u hu => ?_⟩
      obtain rfl := List.mem_singleton.mp hu
      refine ⟨(hnumbered hok t ht).ne, fun ⟨htx, entry, hjob, hid⟩ => ?_⟩
      obtain rfl : job = .attempt entry := hjob
      exact hsolo hok hbegins.handles hid t ht htx
    · exact ⟨List.Pairwise.nil, fun _ _ _ hu => nomatch hu⟩

end Doci
