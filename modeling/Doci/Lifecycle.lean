import Doci.Bystanders

/-! The fields of a row agree with its status as long as no attempt marks a row that has
finished as running again. -/

namespace Doci

open Coroutine

structure WorkflowRow.Consistent (row : WorkflowRow) : Prop where
  unfinished : row.status.isTerminal = false → row.result = none ∧ row.finishedAt = none
  error : (row.result.bind (·.error)).isSome ↔ row.status = .failed
  finished : row.status.isTerminal = true →
    ∃ started finished, row.startedAt = some started ∧ row.finishedAt = some finished ∧
      started ≤ finished

/-- `mark_running` does not take effect on a row that has finished. -/
def Unresumed (x : ExecutionId) (c : Factory) : Move Exc WorkEvent → Prop
  | .run i fate => ∀ t rest, c.threads[i]? = some t → t.prog = .await (.run (.markRunning x)) rest →
    (∀ e, fate ≠ .lost e) → ∀ row, c.shared.runs x = some row → row.status.isTerminal = false
  | _ => True

/-- Row `x` agrees with its status and was not started later than now. -/
def World.Orderly (x : ExecutionId) (w : World) : Prop :=
  ∀ row, w.runs x = some row → row.Consistent ∧ ∀ started, row.startedAt = some started →
    started ≤ w.docs.now

def World.Started (x : ExecutionId) (w : World) : Prop :=
  ∃ row, w.runs x = some row ∧ row.startedAt.isSome

section Lifecycle

variable {x : ExecutionId} {w w' : World} {tag : WorkTag} {cfg : WorkerConfig} {row : WorkflowRow}

theorem WorkflowRow.Consistent.created {workflow : Workflow} {document : DocumentId}
    {input : WorkflowInput} {metadata : WorkflowMetadata} {chainedFrom : Option ExecutionId} :
    WorkflowRow.Consistent { workflow, entityId := document, input, metadata, chainedFrom } :=
  ⟨fun _ => ⟨rfl, rfl⟩, by simp, nofun⟩

theorem WorkflowRow.Consistent.with_metadata (h : row.Consistent) (metadata : WorkflowMetadata) :
    WorkflowRow.Consistent { row with metadata := metadata } :=
  ⟨h.unfinished, h.error, h.finished⟩

theorem WorkflowRow.Consistent.mark (h : row.Consistent) (now : Time)
    (hopen : row.status.isTerminal = false) :
    WorkflowRow.Consistent { row with status := .running, startedAt := some now } := by
  obtain ⟨hresult, hfinished⟩ := h.unfinished hopen
  exact ⟨fun _ => ⟨hresult, hfinished⟩, by simp [hresult], nofun⟩

theorem WorkflowRow.Consistent.finish {status : WorkflowStatus} {result : WorkflowResult}
    (metadata : WorkflowMetadata) {started now : Time} (hsuits : result.Suits status)
    (hstarted : row.startedAt = some started) (hle : started ≤ now) :
    WorkflowRow.Consistent { row with status := status, result := some result, metadata := metadata,
                                      finishedAt := some now } := by
  cases status with
  | succeeded =>
    have herror : result.error = none := hsuits
    exact ⟨nofun, by simp [herror], fun _ => ⟨started, now, hstarted, rfl, hle⟩⟩
  | failed =>
    have herror : result.error.isSome := hsuits
    exact ⟨nofun, by simp [herror], fun _ => ⟨started, now, hstarted, rfl, hle⟩⟩
  | queued => exact hsuits.elim
  | running => exact hsuits.elim

theorem WorkflowRow.Consistent.not_resumed (h : row.Consistent) (now : Time)
    (hdone : row.status.isTerminal = true) :
    ¬ WorkflowRow.Consistent { row with status := .running, startedAt := some now } := by
  intro hresumed
  obtain ⟨started, finished, _, hfinished, _⟩ := h.finished hdone
  have hnone := (hresumed.unfinished rfl).2
  simp [hfinished] at hnone

theorem World.meaning_now (c : WorkCmd) (w : World) : (World.meaning c w).2.docs.now = w.docs.now := by
  cases c with
  | doc c => exact Store.now_eq c w.docs
  | run statement =>
    rcases w.execute_cases statement with ⟨_, h⟩ | ⟨_, _, h⟩ <;> simp [World.meaning, h]
  | _ => rfl

/-- What a statement asks of row `x`: no finished row is marked, and a row that is finished
was started. -/
def WorkCmd.Suits (x : ExecutionId) (w : World) : WorkCmd → Prop
  | .run (.markRunning id) => id = x → ∀ row, w.runs x = some row → row.status.isTerminal = false
  | .run (.finish id status result _) => id = x → result.Suits status ∧ w.Started x
  | _ => True

theorem World.Orderly.meaning {c : WorkCmd} (h : w.Orderly x) (hc : c.Suits x w) :
    (World.meaning c w).2.Orderly x := by
  intro row' hrow'
  rw [w.meaning_now c]
  cases hrow : w.runs x with
  | none =>
    cases c with
    | run statement =>
      rcases World.execute_none statement hrow with hnone | ⟨_, _, _, _, _, _, hnew⟩
      · simp [World.meaning, hnone] at hrow'
      · obtain rfl := Option.some.inj (hnew.symm.trans hrow')
        refine ⟨.created, fun _ hstarted => ?_⟩
        cases hstarted
    | _ => simp [World.meaning, World.send, World.take, hrow] at hrow'
  | some row =>
    obtain ⟨hrowOk, hstarted⟩ := h row hrow
    rcases World.meaning_row c hrow with hsame | ⟨statement, rfl, hx, hupdated⟩
    · obtain rfl := Option.some.inj (hsame.symm.trans hrow')
      exact ⟨hrowOk, hstarted⟩
    · obtain rfl := Option.some.inj (hupdated.symm.trans hrow')
      cases statement with
      | create id workflow entity input metadata chainedFrom => exact ⟨hrowOk, hstarted⟩
      | setMetadata id metadata => exact ⟨hrowOk.with_metadata metadata, hstarted⟩
      | markRunning id =>
        refine ⟨hrowOk.mark _ (hc hx row hrow), fun started heq => ?_⟩
        exact (Option.some.inj heq).ge
      | finish id status result metadata =>
        obtain ⟨hsuits, row', hrow'', hsome⟩ := hc hx
        obtain rfl := Option.some.inj (hrow.symm.trans hrow'')
        obtain ⟨started, heq⟩ := Option.isSome_iff_exists.mp hsome
        exact ⟨WorkflowRow.Consistent.finish metadata hsuits heq (hstarted started heq), hstarted⟩

theorem World.Orderly.outcome {c : WorkCmd} {fate : Fate Exc} (h : w.Orderly x)
    (hc : (∀ e, fate ≠ .lost e) → c.Suits x w) :
    (Coroutine.outcome World.meaning c w fate).2.Orderly x := by
  cases fate with
  | done => exact h.meaning (hc nofun)
  | lost e => exact h
  | late e => exact h.meaning (hc nofun)

theorem World.Started.meaning (c : WorkCmd) (h : w.Started x) : (World.meaning c w).2.Started x := by
  obtain ⟨row, hrow, hsome⟩ := h
  rcases World.meaning_row c hrow with hsame | ⟨statement, rfl, _, hupdated⟩
  · exact ⟨row, hsame, hsome⟩
  · refine ⟨_, hupdated, ?_⟩
    cases statement <;> first | exact hsome | rfl

/-- The contract of every thread: row `x` stays orderly, and once it was started it stays so. -/
def lifecycle (x : ExecutionId) : Contract WorkReply Exc World where
  meaning := World.meaning
  inv := World.Orderly x
  rely := fun s t => s.Extends t ∧ (s.Started x → t.Started x)
  guar := fun s t => s.Extends t ∧ (s.Started x → t.Started x)
  fate := fun c s fate => c = .run (.markRunning x) → (∀ e, fate ≠ .lost e) →
    ∀ row, s.runs x = some row → row.status.isTerminal = false
  rely_refl := fun s => ⟨.refl s, fun h => h⟩
  rely_trans := fun h h' => ⟨h.1.trans h'.1, fun hs => h'.2 (h.2 hs)⟩

theorem lifecycle_guar (c : WorkCmd) (w : World) (fate : Fate Exc) :
    (lifecycle x).guar w (outcome World.meaning c w fate).2 := by
  refine ⟨outcome_extends c w fate, fun h => ?_⟩
  rcases outcome_snd World.meaning c w fate with ho | ho
  · rw [ho]
    exact h.meaning c
  · rw [ho]
    exact h

theorem WorkTag.Permits.suits {c : WorkCmd} (hc : tag.Permits c) (h : tag.Attempts x → w.Started x)
    (hmark : c = .run (.markRunning x) → ∀ row, w.runs x = some row → row.status.isTerminal = false) :
    c.Suits x w := by
  cases c with
  | run statement =>
    cases statement with
    | markRunning id =>
      rintro rfl
      exact hmark rfl
    | finish id status result metadata =>
      rintro rfl
      obtain ⟨hsuits, entry, hjob, hid⟩ := hc
      exact ⟨hsuits, h ⟨entry, hjob, hid.symm⟩⟩
    | _ => trivial
  | _ => trivial

theorem lifecycle_uses {α : Type} {p : WorkProg α} (huses : p.Uses tag.Permits)
    (h : tag.Attempts x → w.Started x) : Keeps (lifecycle x) (fun _ _ => True) p w := by
  have hkeeps : Keeps (lifecycle x) (fun _ t => tag.Attempts x → t.Started x) p w := by
    refine Keeps.of_uses huses (fun s t hs hrely _ hx => hrely.2 (hs hx)) ?_ h
    intro c t fate hc hinv hstarted hfate
    have hguar := lifecycle_guar (x := x) c t fate
    refine ⟨World.Orderly.outcome hinv fun hfate' => hc.suits hstarted fun heq => hfate heq hfate',
      hguar, fun hx => hguar.2 (hstarted hx)⟩
  exact hkeeps.weaken fun _ _ _ _ => trivial

theorem lifecycle_attempt {entry : StreamEntry} (hjob : tag.job = .attempt entry)
    (hx : tag.Attempts x) (hinv : w.Orderly x) (hrow : ∃ row, w.runs x = some row) :
    Keeps (lifecycle x) (fun _ _ => True) (entry.message.call.body cfg tag.number) w := by
  obtain ⟨timedOut, work, chain, hinner, hchains, hbody⟩ :=
    entry.message.call.course cfg tag.number
  have hid := hx.execution hjob
  have huses : (entry.message.call.body cfg tag.number).Uses tag.Permits := uses_attempt hjob
  rw [hbody] at huses ⊢
  have hmark : Keeps (lifecycle x) (Ends (fun _ t => t.Started x) fun _ => True)
      (perform (.run (.markRunning entry.message.call.execution))) w := by
    apply Keeps.perform
    intro t hrely hinv fate hfate
    rw [hid] at hfate ⊢
    refine ⟨World.Orderly.outcome hinv fun hfate' _ => hfate rfl hfate', lifecycle_guar _ t fate,
      fun u hu _ => Ends.intro (fun _ hok => ?_) fun _ _ => trivial⟩
    obtain ⟨row, hrow⟩ := hrow
    obtain ⟨row', hrow', _⟩ := hrely.1 x row hrow
    cases fate with
    | done =>
      have hmarked := t.execute_row (.markRunning x) hrow'
      rw [RunStatement.target, if_pos rfl] at hmarked
      exact hu.2 ⟨_, hmarked, rfl⟩
    | lost e => cases hok
    | late e => cases hok
  exact hmark.bind hinv (fun _ t _ hstarted => lifecycle_uses (huses.2 (.ok ())) fun _ => hstarted)
    fun _ _ _ _ => trivial

theorem World.Orderly.carry (h : w.Orderly x) (hruns : w'.runs = w.runs)
    (hnow : w.docs.now ≤ w'.docs.now) : w'.Orderly x := by
  intro row hrow
  rw [hruns] at hrow
  exact ⟨(h row hrow).1, fun started heq => ((h row hrow).2 started heq).trans hnow⟩

theorem World.Started.carry (h : w.Started x) (hruns : w'.runs = w.runs) : w'.Started x := by
  unfold Started at h ⊢
  rwa [hruns]

theorem lifecycle_event {e : WorkEvent} {new : List WorkThread}
    (henv : workEvent cfg w e = some (w', new)) (hinv : w.Orderly x) :
    w'.Orderly x ∧ (lifecycle x).rely w w' := by
  have hstep : w'.runs = w.runs ∧ w.docs.now ≤ w'.docs.now := by
    rcases workEvent_cases henv with ⟨job, hbegins, _⟩ | ⟨_, hstill⟩
    · exact ⟨hbegins.runs, by rw [hbegins.docs]⟩
    · exact ⟨hstill.runs, hstill.now⟩
  exact ⟨hinv.carry hstep.1 hstep.2, .of_runs hstep.1, fun h => h.carry hstep.1⟩

theorem lifecycle_job {c : Factory} {e : WorkEvent} {job : Job} (hsound : Sound c)
    (hbegins : c.shared.Begins e job w) (hinv : w.Orderly x) :
    Keeps (lifecycle x) (fun _ _ => True) (job.prog cfg c.shared.fresh) w := by
  by_cases hx : WorkTag.Attempts x { number := c.shared.fresh, job }
  · obtain ⟨entry, hjob, hid⟩ := hx
    obtain rfl : job = .attempt entry := hjob
    have hentry := (hbegins.entries entry).mp (.inr (hbegins.handled entry rfl).2)
    obtain ⟨row, hrow, _⟩ := hsound.agrees entry hentry
    have hx : WorkTag.Attempts x ⟨c.shared.fresh, .attempt entry⟩ := ⟨entry, rfl, hid⟩
    have hattempt : Keeps (lifecycle x) (fun _ _ => True)
        (entry.message.call.body cfg (WorkTag.mk c.shared.fresh (.attempt entry)).number) w :=
      lifecycle_attempt rfl hx hinv ⟨row, by rw [hbegins.runs, ← hid, hrow]⟩
    exact hattempt
  · exact lifecycle_uses (uses_job _ job) fun h => absurd h hx

theorem lifecycle_afterTask (entry : StreamEntry) (result : Except Exc Unit) :
    Keeps (lifecycle x) (fun _ _ => True) (afterTask cfg entry result) w := by
  have huses : (afterTask cfg entry result).Uses (WorkTag.Permits ⟨0, .after entry⟩) :=
    uses_afterTask rfl result
  exact lifecycle_uses huses fun ⟨_, hjob, _⟩ => nomatch hjob

theorem lifecycle_fates {c : Factory} {i : Nat} {fate : Fate Exc} {t : WorkThread} {cmd : WorkCmd}
    {rest : Except Exc (WorkReply cmd) → WorkProg Unit} (hok : Unresumed x c (.run i fate))
    (hi : c.threads[i]? = some t) (hprog : t.prog = .await cmd rest) :
    (lifecycle x).fate cmd c.shared fate := by
  rintro rfl
  exact hok t rest hi hprog

def lifecycleDiscipline (cfg : WorkerConfig) (x : ExecutionId) :
    Discipline (factory cfg) fun c move => Unresumed x c move ∧ Sound c :=
  watch cfg _ (lifecycle x) rfl (fun h => h) (fun hok => lifecycle_fates hok.1)
    (fun entry result _ => lifecycle_afterTask entry result)
    (fun _ _ hinv => ⟨hinv.carry rfl le_rfl, .of_runs rfl, fun h => h.carry rfl⟩)
    (fun _ => lifecycle_event) (fun hok => lifecycle_job hok.2)

end Lifecycle

section Runs

variable {cfg : WorkerConfig} {x : ExecutionId} {docs : Store} {c : Factory}

/-- In every state of a run in which no finished row is marked as running again, the row agrees
with its status, and a status that is reported as running has no error and no end. A mark
that does take effect on a finished row breaks the agreement. -/
theorem lifecycle_consistent (reach : Reach (factory cfg) (Unresumed x) ⟨World.opening docs, []⟩ c)
    {row : WorkflowRow} (hrow : c.shared.runs x = some row) :
    row.Consistent ∧ ((getStatus x row).running = true →
      (getStatus x row).error = none ∧ (getStatus x row).finishedAt = none) ∧
    ∀ i fate d, ¬ Unresumed x c (.run i fate) → (factory cfg).step c (.run i fate) = some d →
      ∃ row', d.shared.runs x = some row' ∧ ¬ row'.Consistent := by
  have hstart : (World.opening docs).Orderly x := fun _ hrow => by cases hrow
  have hsafe := (reach_sound reach).safe (lifecycleDiscipline cfg x)
    ⟨hstart, fun _ ht => (nomatch ht), List.Pairwise.nil⟩
  obtain ⟨hconsistent, _⟩ := hsafe.inv row hrow
  refine ⟨hconsistent, fun hrunning => ?_, fun i fate d hmarked hstep => ?_⟩
  · have hopen : row.status.isTerminal = false := by
      cases hstatus : row.status <;> simp_all [getStatus, WorkflowStatus.isTerminal]
    obtain ⟨hresult, hfinished⟩ := hconsistent.unfinished hopen
    exact ⟨by simp [getStatus, hresult], hfinished⟩
  · simp only [Unresumed, not_forall, Bool.not_eq_false] at hmarked
    obtain ⟨t, rest, hi, hprog, heffect, row', hrow', hdone⟩ := hmarked
    obtain rfl := Option.some.inj (hrow.symm.trans hrow')
    obtain ⟨_, _, t', cmd, rest', hmove, hi', hprog', _, rfl⟩ | ⟨_, _, _, hmove, _⟩ |
      ⟨_, _, hmove, _⟩ | ⟨_, _, _, hmove, _⟩ := System.step_cases hstep
    · obtain ⟨rfl, rfl⟩ := Move.run.inj hmove
      obtain rfl := Option.some.inj (hi.symm.trans hi')
      obtain ⟨rfl, _⟩ := Prog.await.inj (hprog.symm.trans hprog')
      refine ⟨_, ?_, hconsistent.not_resumed c.shared.docs.now hdone⟩
      have hupdated := c.shared.execute_row (.markRunning x) hrow
      rw [RunStatement.target, if_pos rfl] at hupdated
      cases fate with
      | done => exact hupdated
      | lost e => exact absurd rfl (heffect e)
      | late e => exact hupdated
    · cases hmove
    · cases hmove
    · cases hmove

end Runs

def unfinished (c : Factory) (_ : Move Exc WorkEvent) : Bool :=
  (c.shared.runs 3).all fun row => !row.status.isTerminal

theorem unresumed_of_unfinished (c : Factory) (move : Move Exc WorkEvent)
    (h : unfinished c move = true) : Unresumed 3 c move := by
  cases move with
  | run i fate =>
    intro t rest _ _ _ row hrow
    simpa [unfinished, hrow] using h
  | _ => trivial

theorem lifecycle_consistent_audit :
    ∃ c row, Reach (factory quietWorker) (Unresumed 3) ⟨World.opening textStore, []⟩ c ∧
      c.shared.runs 3 = some row ∧ row.status = .succeeded ∧ row.Consistent := by
  have hrun : ((factory quietWorker).execWhen unfinished
      (auditSubmitted ++ [.env .deliver] ++ awaits 0 6) ⟨World.opening textStore, []⟩).any
      (fun c => (c.shared.runs 3).any fun row => row.status = .succeeded) = true := by
    decide +kernel
  obtain ⟨c, hc, hrow⟩ := (Option.any_eq_true _ _).mp hrun
  obtain ⟨row, hrow, hs⟩ := (Option.any_eq_true _ _).mp hrow
  have reach : Reach (factory quietWorker) (Unresumed 3) ⟨World.opening textStore, []⟩ c :=
    Reach.start.execWhen (fun e move _ => unresumed_of_unfinished e move) hc
  exact ⟨c, row, reach, hrow, of_decide_eq_true hs, (lifecycle_consistent reach hrow).1⟩

/-- A mining run fails at its first read, is sent again and delivered again. -/
def retriedMining : List (Move Exc WorkEvent) :=
  minedWithDossier 1 ++ [.run 0 (.lost (.external "unreachable"))] ++ awaits 0 3 ++ [.exit 0] ++
    awaits 0 2 ++ [.exit 0, .env .deliver] ++ awaits 0 1

theorem running_with_error :
    ∃ c row, (factory quietWorker).exec retriedMining ⟨World.opening textStore, []⟩ = some c ∧
      c.shared.runs 3 = some row ∧ (getStatus 3 row).running = true ∧
      (getStatus 3 row).error = some "unreachable" ∧ (getStatus 3 row).finishedAt.isSome := by
  have hrun : ((factory quietWorker).exec retriedMining ⟨World.opening textStore, []⟩).any
      (fun c => (c.shared.runs 3).any fun row => (getStatus 3 row).running &&
        decide ((getStatus 3 row).error = some "unreachable") &&
        (getStatus 3 row).finishedAt.isSome) = true := by
    decide +kernel
  obtain ⟨c, hc, hrow⟩ := (Option.any_eq_true _ _).mp hrun
  obtain ⟨row, hrow, hstatus⟩ := (Option.any_eq_true _ _).mp hrow
  simp only [Bool.and_eq_true, decide_eq_true_eq] at hstatus
  exact ⟨c, row, hc, hrow, hstatus.1.1, hstatus.1.2, hstatus.2⟩

end Doci
