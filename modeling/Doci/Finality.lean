import Doci.Bystanders

/-! `SUCCEEDED` stays: an attempt that starts before the row succeeded, alone, and that no
await interrupts afterwards does not write the row again. -/

namespace Doci

open Coroutine

def World.Succeeded (x : ExecutionId) (w : World) : Prop :=
  ∃ row, w.runs x = some row ∧ row.status = .succeeded

def World.KeepsSuccess (x : ExecutionId) (w w' : World) : Prop :=
  ∀ row, w.runs x = some row → row.status = .succeeded →
    ∃ row', w'.runs x = some row' ∧ row'.status = .succeeded ∧ row'.result = row.result

/-- An entry of `x` is handled while its row has not succeeded and no attempt runs; no await
of an attempt raises and leaves the row SUCCEEDED. -/
def Uninterrupted (x : ExecutionId) (c : Factory) : Move Exc WorkEvent → Prop
  | .run i fate => ∀ t cmd rest, c.threads[i]? = some t → t.prog = .await cmd rest →
    t.tag.Attempts x → fate = .done ∨ ¬ (outcome World.meaning cmd c.shared fate).2.Succeeded x
  | .env e => ∀ entry, e.handles c.shared = some entry → entry.message.call.execution = x →
    ¬ c.shared.Succeeded x ∧ ∀ t ∈ c.threads, ¬ t.tag.Attempts x
  | _ => True

section Finality

variable {x : ExecutionId} {w w' : World} {tag : WorkTag} {cfg : WorkerConfig}

theorem World.KeepsSuccess.refl (x : ExecutionId) (w : World) : w.KeepsSuccess x w :=
  fun row hrow hs => ⟨row, hrow, hs, rfl⟩

theorem World.KeepsSuccess.of_runs (h : w'.runs = w.runs) : w.KeepsSuccess x w' :=
  fun row hrow hs => ⟨row, h ▸ hrow, hs, rfl⟩

theorem World.KeepsSuccess.trans {w'' : World} (h : w.KeepsSuccess x w')
    (h' : w'.KeepsSuccess x w'') : w.KeepsSuccess x w'' := by
  intro row hrow hs
  obtain ⟨row', hrow', hs', hr'⟩ := h row hrow hs
  obtain ⟨row'', hrow'', hs'', hr''⟩ := h' row' hrow' hs'
  exact ⟨row'', hrow'', hs'', hr''.trans hr'⟩

theorem World.Succeeded.of_runs (h : w'.Succeeded x) (heq : w'.runs = w.runs) : w.Succeeded x := by
  unfold Succeeded at h ⊢
  rwa [heq] at h

/-- What the threads keep of row `x`. An attempt relies on the row not to succeed without
it, and a thread on its number not to be taken. -/
def finality (x : ExecutionId) (tag : WorkTag) : Contract WorkReply Exc World where
  meaning := World.meaning
  inv := fun _ => True
  rely := fun s t => (tag.Attempts x → t.Succeeded x → s.Succeeded x) ∧
    (s.runs tag.number = none → t.runs tag.number = none)
  guar := fun s t => s.KeepsSuccess x t ∧ (¬ tag.Attempts x → t.Succeeded x → s.Succeeded x) ∧
    ∀ n, n ≠ tag.number → s.runs n = none → t.runs n = none
  fate := fun c s fate => tag.Attempts x → fate = .done ∨
    ¬ (outcome World.meaning c s fate).2.Succeeded x
  rely_refl := fun _ => ⟨fun _ h => h, fun h => h⟩
  rely_trans := fun h h' => ⟨fun hx ht => h.1 hx (h'.1 hx ht), fun hs => h'.2 (h.2 hs)⟩

theorem succeeded_of_outcome {c : WorkCmd} (hc : tag.Permits c) (hx : ¬ tag.Attempts x)
    {fate : Fate Exc} (h : (outcome World.meaning c w fate).2.Succeeded x) : w.Succeeded x := by
  obtain ⟨row', hrow', hs⟩ := h
  cases hrow : w.runs x with
  | none =>
    rcases outcome_snd World.meaning c w fate with ho | ho
    · rw [ho] at hrow'
      cases c with
      | run statement =>
        rcases World.execute_none statement hrow with hnone | ⟨_, _, _, _, _, _, hnew⟩
        · simp [World.meaning, hnone] at hrow'
        · obtain rfl := Option.some.inj (hnew.symm.trans hrow')
          cases hs
      | _ => simp [World.meaning, World.send, World.take, hrow] at hrow'
    · simp [ho, hrow] at hrow'
  | some row =>
    obtain ⟨metadata, hkept⟩ := hc.row_outcome hx hrow fate
    obtain rfl := Option.some.inj (hkept.symm.trans hrow')
    exact ⟨row, hrow, hs⟩

theorem finality_bystander {α : Type} {p : WorkProg α} (huses : p.Uses tag.Permits)
    (hx : ¬ tag.Attempts x) : Keeps (finality x tag) (fun _ _ => True) p w := by
  refine Keeps.of_uses (A := fun _ => True) huses (fun _ _ _ _ _ => trivial) ?_ trivial
  intro c t fate hc _ _ _
  refine ⟨trivial, ⟨fun row hrow hs => ?_, fun _ hsucc => succeeded_of_outcome hc hx hsucc,
    fun n hn hnone => hc.vacant_outcome hn hnone fate⟩, trivial⟩
  obtain ⟨metadata, hkept⟩ := hc.row_outcome hx hrow fate
  exact ⟨_, hkept, hs, rfl⟩

def WorkCmd.Unsucceeding : WorkCmd → Prop
  | .run (.markRunning _) => True
  | .run (.finish _ .failed _ _) => True
  | c => c.Aside

theorem WorkCmd.Unsucceeding.runs {c : WorkCmd} (hc : c.Unsucceeding) (fate : Fate Exc) (id : ExecutionId) :
    (outcome World.meaning c w fate).2.runs id = w.runs id ∨
      ∃ row row', w.runs id = some row ∧ row'.status ≠ .succeeded ∧
        (outcome World.meaning c w fate).2.runs id = some row' := by
  rcases outcome_snd World.meaning c w fate with ho | ho
  · rw [ho]
    by_cases haside : c.Aside
    · exact .inl (congrFun (World.meaning_aside haside).runs id)
    · obtain ⟨statement, rfl, hset, hnone⟩ : ∃ statement, c = .run statement ∧
          (∀ row, (statement.update w.docs.now row).status ≠ .succeeded) ∧
          statement.effect w.docs.now none = some none := by
        cases c with
        | run statement =>
          refine ⟨statement, rfl, ?_⟩
          cases statement with
          | markRunning id => exact ⟨fun _ => nofun, rfl⟩
          | finish id status result metadata =>
            cases status with
            | failed => exact ⟨fun _ => nofun, rfl⟩
            | _ => exact (haside hc).elim
          | _ => exact (haside hc).elim
        | _ => exact (haside hc).elim
      cases hrow : w.runs id with
      | none =>
        rcases World.execute_none statement hrow with h | ⟨_, _, _, _, _, rfl, _⟩
        · exact .inl h
        · cases hnone
      | some row =>
        have h := w.execute_row statement hrow
        split_ifs at h
        · exact .inr ⟨row, _, rfl, hset row, h⟩
        · exact .inl h
  · rw [ho]
    exact .inl rfl

theorem WorkCmd.Unsucceeding.not_succeeded {c : WorkCmd} (hc : c.Unsucceeding) (fate : Fate Exc)
    (h : ¬ w.Succeeded x) : ¬ (outcome World.meaning c w fate).2.Succeeded x := by
  rintro ⟨row, hrow, hs⟩
  rcases hc.runs (w := w) fate x with hsame | ⟨_, row', _, hne, hrow'⟩
  · exact h ⟨row, hsame ▸ hrow, hs⟩
  · obtain rfl := Option.some.inj (hrow'.symm.trans hrow)
    exact hne hs

theorem WorkCmd.Unsucceeding.vacant {c : WorkCmd} (hc : c.Unsucceeding) (fate : Fate Exc)
    {n : ExecutionId} (h : w.runs n = none) : (outcome World.meaning c w fate).2.runs n = none := by
  rcases hc.runs (w := w) fate n with hsame | ⟨row, _, hrow, _⟩
  · rw [hsame, h]
  · simp [h] at hrow

section Attempt

variable {V : World → Prop}

theorem finality_unsucceeding {α : Type} {p : WorkProg α} (hx : tag.Attempts x)
    (huses : p.Uses WorkCmd.Unsucceeding)
    (hV : ∀ s t, V s → (s.runs tag.number = none → t.runs tag.number = none) → V t)
    (hstart : ¬ w.Succeeded x ∧ V w) :
    Keeps (finality x tag) (fun _ t => ¬ t.Succeeded x ∧ V t) p w := by
  refine Keeps.of_uses huses (fun s t hs hrely _ => ?_) ?_ hstart
  · exact ⟨fun ht => hs.1 (hrely.1 hx ht), hV s t hs.2 hrely.2⟩
  · intro c t fate hc _ ⟨hnot, hv⟩ _
    refine ⟨trivial, ⟨fun row hrow hs => absurd ⟨row, hrow, hs⟩ hnot, fun h => absurd hx h,
      fun n _ hnone => hc.vacant fate hnone⟩, hc.not_succeeded fate hnot, ?_⟩
    exact hV t _ hv fun hnone => hc.vacant fate hnone

/-- A command that changes no status; if it cannot fail by itself, it raises only while the
row has not succeeded. -/
theorem finality_chained {c : WorkCmd} (hx : tag.Attempts x) (hc : tag.Permits c)
    (hkept : ∀ t row, t.runs x = some row → ∃ metadata,
      (World.meaning c t).2.runs x = some { row with metadata := metadata })
    (hok : ∀ t, (w.runs tag.number = none → t.runs tag.number = none) →
      ∃ reply, (World.meaning c t).1 = .ok reply) :
    Keeps (finality x tag) (Ends (fun _ _ => True) fun t => ¬ t.Succeeded x) (perform c) w := by
  apply Keeps.perform
  intro t hrely _ fate hfate
  refine ⟨trivial, ⟨fun row hrow hs => ?_, fun h => absurd hx h,
    fun n hn hnone => hc.vacant_outcome hn hnone fate⟩, fun u hu _ => ?_⟩
  · rcases outcome_snd World.meaning c t fate with ho | ho
    · obtain ⟨metadata, hrow'⟩ := hkept t row hrow
      exact ⟨_, (congrArg (fun u => World.runs u x) ho).trans hrow', hs, rfl⟩
    · exact ⟨row, (congrArg (fun u => World.runs u x) ho).trans hrow, hs, rfl⟩
  · refine Ends.intro (fun _ _ => trivial) fun e he => ?_
    rcases hfate hx with rfl | hnot
    · obtain ⟨reply, hok⟩ := hok t hrely.2
      cases hok.symm.trans he
    · exact fun hsucc => hnot (hu.1 hx hsucc)

theorem finality_chainAudit {entry : StreamEntry} (hjob : tag.job = .attempt entry)
    (hx : tag.Attempts x) (hmining : entry.message.call.isMining) (hvacant : w.runs tag.number = none) :
    Keeps (finality x tag) (Ends (fun _ _ => True) fun t => ¬ t.Succeeded x)
      (chainAudit tag.number entry.message.call) w := by
  apply keeps_chainAudit (A := fun _ => True) (C := fun _ => True) (D := fun _ => True) trivial trivial
    (fun _ _ => fun _ _ _ => trivial) ?_ ?_ fun _ _ _ _ => trivial
  · intro htruthy
    refine finality_chained hx (WorkTag.permits_auditRow hjob hmining htruthy) (fun t row hrow => ?_) fun t hfree => ⟨(), ?_⟩
    · have hrow' := t.execute_row (entry.message.call.auditRow tag.number) hrow
      exact ⟨row.metadata, hrow'.trans (by split_ifs <;> rfl)⟩
    · have hnone : t.runs tag.number = none := hfree hvacant
      simp only [TaskCall.auditRow, World.meaning, World.execute, RunStatement.target, hnone,
        RunStatement.effect]
      rfl
  · intro t _ _
    have hpermits : tag.Permits (.kiq (.audit entry.message.call.document tag.number
        entry.message.call.execution tag.number (entry.message.call.dossierKey.getD "") "English")) :=
      rfl
    exact finality_chained hx hpermits (fun u row hrow => ⟨row.metadata, hrow⟩) fun u _ =>
      ⟨u.fresh, rfl⟩

theorem finality_finish (hx : tag.Attempts x) (result : WorkflowResult) (metadata : WorkflowMetadata)
    (hnot : ¬ w.Succeeded x) (hvacant : w.runs tag.number = none) :
    Keeps (finality x tag) (Ends (fun _ t => t.runs tag.number = none) fun t => ¬ t.Succeeded x)
      (perform (.run (.finish x .succeeded result metadata))) w := by
  apply Keeps.perform
  intro t hrely _ fate hfate
  have ht : ¬ t.Succeeded x := fun hsucc => hnot (hrely.1 hx hsucc)
  have hfree : ∀ n, t.runs n = none → (outcome World.meaning
      (.run (.finish x .succeeded result metadata)) t fate).2.runs n = none := by
    intro n hn
    rcases outcome_snd World.meaning (.run (.finish x .succeeded result metadata)) t fate with ho | ho
    · rw [ho]
      rcases World.execute_none _ hn with hnone | ⟨_, _, _, _, _, heq, _⟩
      · exact hnone
      · cases heq
    · rw [ho, hn]
  refine ⟨trivial, ⟨fun row hrow hs => absurd ⟨row, hrow, hs⟩ ht, fun h => absurd hx h,
    fun n _ hn => hfree n hn⟩, fun u hu _ => ?_⟩
  rcases hfate hx with rfl | hraised
  · exact hu.2 (hfree _ (hrely.2 hvacant))
  · exact Ends.intro (fun _ _ => hu.2 (hfree _ (hrely.2 hvacant))) fun _ _ hsucc =>
      hraised (hu.1 hx hsucc)

theorem WorkCmd.Aside.unsucceeding {c : WorkCmd} (h : c.Aside) : c.Unsucceeding := by
  cases c <;> first | exact h | exact h.elim

theorem finality_attempt {entry : StreamEntry} (hjob : tag.job = .attempt entry)
    (hx : tag.Attempts x) (hnot : ¬ w.Succeeded x) (hvacant : w.runs tag.number = none) :
    Keeps (finality x tag) (fun _ _ => True) (entry.message.call.body cfg tag.number) w := by
  obtain ⟨timedOut, work, chain, hinner, hchains, hbody⟩ :=
    entry.message.call.course cfg tag.number
  have hid := hx.execution hjob
  have hvacancy : ∀ s t : World, s.runs tag.number = none →
      (s.runs tag.number = none → t.runs tag.number = none) → t.runs tag.number = none :=
    fun _ _ h hst => hst h
  have hquiet : ∀ {α : Type} {p : WorkProg α} t, p.Uses WorkCmd.Unsucceeding →
      (¬ t.Succeeded x ∧ t.runs tag.number = none) → Keeps (finality x tag)
        (Ends (fun _ t => ¬ t.Succeeded x ∧ t.runs tag.number = none) fun t => ¬ t.Succeeded x) p t :=
    fun t huses ht => (finality_unsucceeding hx huses hvacancy ht).split (fun _ _ h => h)
      fun _ h => h.1
  have hmeta : (finalMetadata cfg entry.message.call.execution entry.message.call.thread).Uses
      WorkCmd.Unsucceeding := (uses_finalMetadata _ _).mono fun _ h => h.unsucceeding
  rw [hbody]
  suffices hrun : Keeps (finality x tag) (Ends (fun _ _ => True) fun _ => True)
      (runTask cfg entry.message.call timedOut work chain) w from hrun.weaken fun _ _ _ _ => trivial
  refine keeps_runTask (A := fun t => ¬ t.Succeeded x ∧ t.runs tag.number = none)
    (B := fun _ t => ¬ t.Succeeded x ∧ t.runs tag.number = none)
    (C := fun t => t.runs tag.number = none) (E := fun t => ¬ t.Succeeded x) trivial ?_ ?_ ?_ ?_ ?_ ?_
  · have hmark : (perform (.run (.markRunning entry.message.call.execution))).Uses
        WorkCmd.Unsucceeding := uses_command trivial
    exact (finality_unsucceeding hx hmark hvacancy ⟨hnot, hvacant⟩).split (fun _ _ h => h)
      fun _ _ => trivial
  · exact fun t _ => hquiet t (hinner.mono fun _ h => h.aside.unsucceeding)
  · exact fun t _ => hquiet t hmeta
  · exact fun output metadata t _ ht => hid ▸ finality_finish (hid ▸ hx) _ metadata (hid ▸ ht.1) ht.2
  · intro t _ ht
    rcases hchains with ⟨_, rfl⟩ | ⟨hmining, rfl⟩
    · exact fun _ _ _ => trivial
    · exact finality_chainAudit hjob hx hmining ht
  · intro error raised t _ ht
    have huses : (recordFailure cfg entry.message.call error raised).Uses WorkCmd.Unsucceeding :=
      hmeta.bind fun metadata => (uses_command trivial).bind fun _ => trivial
    exact (finality_unsucceeding hx huses (V := fun _ => True) (fun _ _ _ _ => trivial)
      ⟨ht, trivial⟩).split (fun _ _ _ => trivial) fun _ _ => trivial

end Attempt

theorem finality_job {c : Factory} {e : WorkEvent} {job : Job} (hok : Uninterrupted x c (.env e))
    (hsound : Sound c) (hbegins : c.shared.Begins e job w) :
    Keeps (finality x ⟨c.shared.fresh, job⟩) (fun _ _ => True) (job.prog cfg c.shared.fresh) w := by
  by_cases hx : WorkTag.Attempts x { number := c.shared.fresh, job }
  · obtain ⟨entry, hjob, hid⟩ := hx
    obtain rfl : job = .attempt entry := hjob
    have hnot := (hok entry hbegins.handles hid).1
    have hvacant : w.runs c.shared.fresh = none := by
      rw [hbegins.runs]
      by_contra hsome
      obtain ⟨row, hrow⟩ := Option.ne_none_iff_exists'.mp hsome
      exact lt_irrefl _ (hsound.rows _ row hrow)
    exact finality_attempt rfl ⟨entry, rfl, hid⟩ (fun h => hnot (h.of_runs hbegins.runs)) hvacant
  · exact finality_bystander (uses_job _ job) hx

def finalityDiscipline (cfg : WorkerConfig) (x : ExecutionId) :
    Discipline (factory cfg) fun c move => Uninterrupted x c move ∧ Sound c :=
  solo cfg x _ (fun _ => True) (finality x) (fun _ _ => True) (fun _ => rfl) (fun _ => rfl)
    (fun hne hnot hguar => ⟨fun hb => hguar.2.1 fun ha => hnot ⟨ha, hb⟩, hguar.2.2 _ hne.symm⟩)
    (fun hok hi hprog => hok.1 _ _ _ hi hprog)
    (fun _ _ result _ => finality_bystander (uses_afterTask rfl result)
      fun ⟨_, hjob, _⟩ => nomatch hjob)
    (fun _ _ _ hruns _ => ⟨trivial, fun _ h => h.of_runs hruns, fun h => hruns ▸ h⟩)
    (fun hok hbegins _ => finality_job hok.1 hok.2 hbegins)
    (fun hok => hok.2.numbered) fun hok hhandles hid => (hok.1 _ hhandles hid).2

end Finality

section Runs

variable {cfg : WorkerConfig} {x : ExecutionId} {docs : Store} {c d : Factory}

/-- In a run of any number of deliveries, redeliveries, retries, failures and deaths, all of
whose moves are `Uninterrupted`, a row that succeeded stays SUCCEEDED with its result. -/
theorem succeeded_is_final
    (reach : Reach (factory cfg) (Uninterrupted x) ⟨World.opening docs, []⟩ c)
    (later : Reach (factory cfg) (Uninterrupted x) c d) : c.shared.KeepsSuccess x d.shared := by
  induction later with
  | start => exact .refl x _
  | step hlater hok h ih =>
    have hreach := reach.trans hlater
    have hsafe := (reach_sound hreach).safe (finalityDiscipline cfg x)
      ⟨trivial, fun _ ht => (nomatch ht), List.Pairwise.nil⟩
    refine ih.trans (hsafe.step_rel (G := World.KeepsSuccess x) ⟨hok, sound_of_reach hreach⟩ h
      (.refl x) (fun _ _ hguar => hguar.1) (fun _ _ => .of_runs rfl) ?_)
    exact fun _ henv => .of_runs (workEvent_runs henv)

end Runs

theorem uninterrupted_plain {x : ExecutionId} {move : Move Exc WorkEvent} (h : plainMove move = true)
    (c : Factory) : Uninterrupted x c move := by
  cases move with
  | run i fate => exact fun _ _ _ _ _ _ => .inl (of_decide_eq_true h)
  | env e => exact fun entry he => by simp [plainMove_handles h] at he
  | _ => trivial

theorem uninterrupted_delivery {x : ExecutionId} {c : Factory} (hempty : c.threads = [])
    (hrow : (c.shared.runs x).all (fun row => row.status ≠ .succeeded) = true) :
    Uninterrupted x c (.env .deliver) := by
  intro _ _ _
  refine ⟨fun ⟨row, hrow', hs⟩ => ?_, fun _ ht => by simp [hempty] at ht⟩
  simp [hrow', hs] at hrow

/-- A plain move, or a delivery that finds no thread and no success. -/
def calmMove (c : Factory) (move : Move Exc WorkEvent) : Bool :=
  plainMove move || match move with
    | .env .deliver => c.threads.isEmpty && (c.shared.runs 3).all fun row => row.status ≠ .succeeded
    | _ => false

theorem uninterrupted_calm (c : Factory) (move : Move Exc WorkEvent) (h : calmMove c move = true) :
    Uninterrupted 3 c move := by
  rcases Bool.or_eq_true_iff.mp h with h | h
  · exact uninterrupted_plain h c
  · split at h
    · obtain ⟨hempty, hrow⟩ := Bool.and_eq_true_iff.mp h
      exact uninterrupted_delivery (List.isEmpty_iff.mp hempty) hrow
    · cases h

theorem succeeded_is_final_audit :
    ∃ c d row, Reach (factory quietWorker) (Uninterrupted 3) ⟨World.opening textStore, []⟩ c ∧
      Reach (factory quietWorker) (Uninterrupted 3) c d ∧ d.threads = [] ∧
      c.shared.runs 3 = some row ∧ row.status = .succeeded ∧
      ∃ row', d.shared.runs 3 = some row' ∧ row'.status = .succeeded ∧ row'.result = row.result := by
  have hrun : ((factory quietWorker).execWhen calmMove
      (auditSubmitted ++ [.env .deliver] ++ awaits 0 6) ⟨World.opening textStore, []⟩).any
      (fun c => (c.shared.runs 3).any (fun row => row.status = .succeeded) &&
        ((factory quietWorker).execWhen calmMove [.exit 0, .run 0 .done, .exit 0] c).any
          fun d => d.threads.isEmpty) = true := by
    decide +kernel
  obtain ⟨c, hc, hrest⟩ := (Option.any_eq_true _ _).mp hrun
  obtain ⟨hsucceeded, hrest⟩ := Bool.and_eq_true_iff.mp hrest
  obtain ⟨row, hrow, hs⟩ := (Option.any_eq_true _ _).mp hsucceeded
  obtain ⟨d, hd, hempty⟩ := (Option.any_eq_true _ _).mp hrest
  have hreach : Reach (factory quietWorker) (Uninterrupted 3) ⟨World.opening textStore, []⟩ c :=
    Reach.start.execWhen (fun e move _ => uninterrupted_calm e move) hc
  have hlater : Reach (factory quietWorker) (Uninterrupted 3) c d :=
    Reach.start.execWhen (fun e move _ => uninterrupted_calm e move) hd
  exact ⟨c, d, row, hreach, hlater, List.isEmpty_iff.mp hempty, hrow, of_decide_eq_true hs,
    succeeded_is_final hreach hlater row hrow (of_decide_eq_true hs)⟩

/-- The run has succeeded and the broker cannot be reached for its audit. -/
theorem failure_overwrites_success :
    ∃ c d, Reach (factory quietWorker) (fun _ _ => True) ⟨World.opening textStore, []⟩ c ∧
      Reach (factory quietWorker) (fun _ _ => True) c d ∧ ¬ c.shared.KeepsSuccess 3 d.shared := by
  have hrun : ((factory quietWorker).exec (minedWithDossier 12) ⟨World.opening textStore, []⟩).any
      (fun c => (c.shared.runs 3).any (fun row => row.status = .succeeded) &&
        ((factory quietWorker).exec (.run 0 (.lost (.external "unreachable")) :: awaits 0 4) c).any
          fun d => (d.shared.runs 3).any fun row => row.status = .failed) = true := by
    decide +kernel
  obtain ⟨c, hc, hrest⟩ := (Option.any_eq_true _ _).mp hrun
  obtain ⟨hsucceeded, hrest⟩ := Bool.and_eq_true_iff.mp hrest
  obtain ⟨row, hrow, hs⟩ := (Option.any_eq_true _ _).mp hsucceeded
  obtain ⟨d, hd, hfailed⟩ := (Option.any_eq_true _ _).mp hrest
  obtain ⟨row', hrow', hs'⟩ := (Option.any_eq_true _ _).mp hfailed
  refine ⟨c, d, Reach.start.exec (fun _ _ => trivial) hc,
    Reach.start.exec (fun _ _ => trivial) hd, fun hkeeps => ?_⟩
  obtain ⟨row'', hrow'', hs'', _⟩ := hkeeps row hrow (of_decide_eq_true hs)
  obtain rfl := Option.some.inj (hrow'.symm.trans hrow'')
  simp [hs''] at hs'

end Doci
