import Doci.Bystanders

/-! The submit handler's `set_metadata` and the worker's final write of the same blob: both
survive if the worker reads the row after the handler has filled in the task id. -/

namespace Doci

open Coroutine

/-- The metadata of the last `finish` of the execution. -/
def lastFinish (x : ExecutionId) (history : List RunStatement) : Option WorkflowMetadata :=
  history.findSome? fun
    | .finish id _ _ metadata => if id = x then some metadata else none
    | _ => none

/-- Every read of row `x` that an attempt completes finds the task id. -/
def ReadsFilled (x : ExecutionId) (c : Factory) : Move Exc WorkEvent → Prop
  | .run i fate => fate = .done → ∀ t rest, c.threads[i]? = some t →
    t.prog = .await (.getRun x) rest → t.tag.Attempts x →
    ∀ row, c.shared.runs x = some row → row.metadata.taskiq.taskId.isSome
  | _ => True

/-- Row `x` holds what `set_metadata` wrote of the task and the last `finish` of the checkpoint. -/
structure FilledRow (x : ExecutionId) (row : Option WorkflowRow) (history : List RunStatement) :
    Prop where
  absent : row = none → lastFinish x history = none ∧ ∀ m, .setMetadata x m ∉ history
  taskiq : ∀ r m, row = some r → .setMetadata x m ∈ history →
    r.metadata.taskiq = m.taskiq ∧ m.taskiq.taskId.isSome
  langgraph : ∀ r m, row = some r → lastFinish x history = some m →
    r.metadata.langgraph = m.langgraph ∧ r.metadata.taskiq.taskId.isSome

def World.Filled (x : ExecutionId) (w : World) : Prop := FilledRow x (w.runs x) w.history

def Tasked (taskiq : TaskiqMeta) (row : Option WorkflowRow) : Prop :=
  ∃ r, row = some r ∧ r.metadata.taskiq = taskiq

/-- What a statement may write into its row: a task id where there is none, and metadata that
keeps the task id. -/
def RunStatement.Fills (row : Option WorkflowRow) : RunStatement → Prop
  | .setMetadata _ m => m.taskiq.taskId.isSome ∧ Tasked {} row
  | .finish _ _ _ m => m.taskiq.taskId.isSome ∧ Tasked m.taskiq row
  | _ => True

section Backfill

variable {x : ExecutionId} {w w' : World} {tag : WorkTag} {cfg : WorkerConfig}
  {row row' : Option WorkflowRow} {history : List RunStatement} {statement : RunStatement}

theorem lastFinish_cons (statement : RunStatement) (history : List RunStatement)
    (h : ∀ status result m, statement ≠ .finish x status result m) :
    lastFinish x (statement :: history) = lastFinish x history := by
  cases statement with
  | finish id status result metadata =>
    have hid : id ≠ x := by
      rintro rfl
      exact h status result metadata rfl
    simp [lastFinish, hid]
  | _ => simp [lastFinish]

theorem FilledRow.unwritten (h : FilledRow x row history)
    (hfinish : ∀ status result m, statement ≠ .finish x status result m)
    (hset : ∀ m, statement ≠ .setMetadata x m)
    (hrow : ∀ r', row' = some r' → row = none ∨ ∃ r, row = some r ∧ r'.metadata = r.metadata)
    (hnone : row' = none → row = none) :
    FilledRow x row' (statement :: history) := by
  have hmem : ∀ m, RunStatement.setMetadata x m ∈ statement :: history →
      RunStatement.setMetadata x m ∈ history := fun m hm =>
    (List.mem_cons.mp hm).resolve_left fun heq => hset m heq.symm
  have hlast := lastFinish_cons statement history hfinish
  refine ⟨fun hr => ?_, fun r' m hr' hm => ?_, fun r' m hr' hm => ?_⟩
  · obtain ⟨hnever, hno⟩ := h.absent (hnone hr)
    exact ⟨hlast.trans hnever, fun m hm => hno m (hmem m hm)⟩
  · rcases hrow r' hr' with hr | ⟨r, hr, heq⟩
    · exact absurd (hmem m hm) ((h.absent hr).2 m)
    · exact heq ▸ h.taskiq r m hr (hmem m hm)
  · rcases hrow r' hr' with hr | ⟨r, hr, heq⟩
    · simp [hlast, (h.absent hr).1] at hm
    · exact heq ▸ h.langgraph r m hr (hlast.symm.trans hm)

theorem FilledRow.setMetadata (h : FilledRow x row history) {m : WorkflowMetadata}
    {now : Time} (hfills : (RunStatement.setMetadata x m).Fills row) :
    FilledRow x (row.map ((RunStatement.setMetadata x m).update now)) (.setMetadata x m :: history) := by
  obtain ⟨hsome, r, rfl, htaskiq⟩ := hfills
  -- The row had no task id, so nothing was written before.
  have hno : ∀ m', RunStatement.setMetadata x m' ∉ history := by
    intro m' hm'
    obtain ⟨heq, hsome'⟩ := h.taskiq r m' rfl hm'
    simp [← heq, htaskiq] at hsome'
  have hlast : lastFinish x history = none := by
    by_contra hne
    obtain ⟨m', hm'⟩ := Option.ne_none_iff_exists'.mp hne
    have hsome' := (h.langgraph r m' rfl hm').2
    simp [htaskiq] at hsome'
  refine ⟨nofun, fun r' m' hr' hm' => ?_, fun r' m' _ hm' => ?_⟩
  · obtain rfl := Option.some.inj hr'
    rcases List.mem_cons.mp hm' with heq | hm'
    · obtain ⟨_, rfl⟩ := RunStatement.setMetadata.inj heq
      exact ⟨rfl, hsome⟩
    · exact absurd hm' (hno m')
  · rw [lastFinish_cons (.setMetadata x m) history fun _ _ _ => nofun, hlast] at hm'
    cases hm'

theorem FilledRow.finish (h : FilledRow x row history) {status : WorkflowStatus}
    {result : WorkflowResult} {m : WorkflowMetadata} {now : Time}
    (hfills : (RunStatement.finish x status result m).Fills row) :
    FilledRow x (row.map ((RunStatement.finish x status result m).update now))
      (.finish x status result m :: history) := by
  obtain ⟨hsome, r, rfl, htaskiq⟩ := hfills
  refine ⟨nofun, fun r' m' hr' hm' => ?_, fun r' m' hr' hm' => ?_⟩
  · obtain rfl := Option.some.inj hr'
    have hm' : RunStatement.setMetadata x m' ∈ history :=
      (List.mem_cons.mp hm').resolve_left nofun
    exact htaskiq ▸ h.taskiq r m' rfl hm'
  · obtain rfl := Option.some.inj hr'
    have heq : m = m' := by simpa [lastFinish] using hm'
    exact ⟨heq ▸ rfl, hsome⟩

theorem FilledRow.effect (h : FilledRow x row history) {now : Time} (hx : statement.target = x)
    (heffect : statement.effect now row = some row') (hfills : statement.Fills row) :
    FilledRow x row' (statement :: history) := by
  subst hx
  cases statement with
  | create id workflow entity input metadata chainedFrom =>
    cases row with
    | some r => cases heffect
    | none =>
      obtain rfl := Option.some.inj heffect
      exact h.unwritten (fun _ _ _ => nofun) (fun _ => nofun) (fun _ _ => .inl rfl) nofun
  | markRunning id =>
    obtain rfl : row.map _ = row' := Option.some.inj heffect
    refine h.unwritten (fun _ _ _ => nofun) (fun _ => nofun) (fun r' hr' => ?_) fun hnone => ?_
    · obtain ⟨r, hr, rfl⟩ := Option.map_eq_some_iff.mp hr'
      exact .inr ⟨r, hr, rfl⟩
    · simpa using hnone
  | setMetadata id m =>
    obtain rfl : row.map _ = row' := Option.some.inj heffect
    exact h.setMetadata hfills
  | finish id status result m =>
    obtain rfl : row.map _ = row' := Option.some.inj heffect
    exact h.finish hfills

theorem FilledRow.other (h : FilledRow x row history) (hx : statement.target ≠ x) :
    FilledRow x row (statement :: history) := by
  refine h.unwritten (fun _ _ _ heq => hx (by rw [heq]; rfl)) (fun _ heq => hx (by rw [heq]; rfl))
    (fun r hr => .inr ⟨r, hr, rfl⟩) fun hnone => hnone

/-- A command leaves row `x` filled if it may write what it writes there. -/
def WorkCmd.Fills (x : ExecutionId) (w : World) : WorkCmd → Prop
  | .run statement => statement.target = x → statement.Fills (w.runs x)
  | _ => True

theorem World.Filled.meaning {c : WorkCmd} (h : w.Filled x) (hc : c.Fills x w) :
    (World.meaning c w).2.Filled x := by
  cases c with
  | run statement =>
    rcases w.execute_cases statement with ⟨_, heq⟩ | ⟨new, heffect, heq⟩
    · simp only [World.meaning, heq]
      exact h
    · simp only [World.meaning, heq, Filled]
      by_cases hx : x = statement.target
      · rw [if_pos hx]
        exact FilledRow.effect h hx.symm (hx ▸ heffect) (hc hx.symm)
      · rw [if_neg hx]
        exact FilledRow.other h (Ne.symm hx)
  | _ => exact h

/-- The taskiq part of row `x` is kept; only the thread of number `x` may fill it in. -/
def World.KeepsTask (x : ExecutionId) (w w' : World) : Prop :=
  ∀ taskiq, Tasked taskiq (w.runs x) → Tasked taskiq (w'.runs x)

def World.KeepsTaskId (x : ExecutionId) (w w' : World) : Prop :=
  ∀ taskiq, taskiq.taskId.isSome → Tasked taskiq (w.runs x) → Tasked taskiq (w'.runs x)

theorem World.KeepsTask.of_runs (h : w'.runs = w.runs) : w.KeepsTask x w' := by
  intro taskiq ht
  rwa [h]

/-- What the threads keep of the metadata of row `x`. The thread of number `x` relies on the
others not to write a task id. -/
def backfill (x : ExecutionId) (tag : WorkTag) : Contract WorkReply Exc World where
  meaning := World.meaning
  inv := World.Filled x
  rely := fun s t => s.Extends t ∧ s.KeepsTaskId x t ∧ (tag.number = x → s.KeepsTask x t)
  guar := fun s t => s.Extends t ∧ s.KeepsTaskId x t ∧ (tag.number ≠ x → s.KeepsTask x t)
  fate := fun c s fate => c = .getRun x → fate = .done → tag.Attempts x →
    ∀ row, s.runs x = some row → row.metadata.taskiq.taskId.isSome
  rely_refl := fun s => ⟨.refl s, fun _ _ h => h, fun _ _ h => h⟩
  rely_trans := fun h h' => ⟨h.1.trans h'.1, fun _ hs ht => h'.2.1 _ hs (h.2.1 _ hs ht),
    fun hx _ ht => h'.2.2 hx _ (h.2.2 hx _ ht)⟩

theorem World.KeepsTask.meaning {c : WorkCmd} (hc : c.Fills x w)
    (hset : ∀ m, c ≠ .run (.setMetadata x m)) : w.KeepsTask x (World.meaning c w).2 := by
  rintro taskiq ⟨row, hrow, rfl⟩
  rcases World.meaning_row c hrow with hsame | ⟨statement, rfl, hx, hupdated⟩
  · exact ⟨row, hsame, rfl⟩
  · refine ⟨_, hupdated, ?_⟩
    cases statement with
    | setMetadata id m =>
      obtain rfl : id = x := hx
      exact absurd rfl (hset m)
    | finish id status result m =>
      obtain ⟨_, row', hrow', htaskiq⟩ := hc hx
      obtain rfl := Option.some.inj (hrow.symm.trans hrow')
      exact htaskiq.symm
    | _ => rfl

theorem World.KeepsTaskId.meaning {c : WorkCmd} (hc : c.Fills x w) :
    w.KeepsTaskId x (World.meaning c w).2 := by
  intro taskiq hsome ht
  by_cases hset : ∃ m, c = .run (.setMetadata x m)
  · obtain ⟨m, rfl⟩ := hset
    obtain ⟨_, row, hrow, hnone⟩ := hc rfl
    obtain ⟨row', hrow', rfl⟩ := ht
    obtain rfl := Option.some.inj (hrow.symm.trans hrow')
    simp [hnone] at hsome
  · exact World.KeepsTask.meaning hc (fun m heq => hset ⟨m, heq⟩) taskiq ht

theorem backfill_outcome (tag : WorkTag) {c : WorkCmd} (hinv : w.Filled x) (hc : c.Fills x w)
    (hset : tag.number ≠ x → ∀ m, c ≠ .run (.setMetadata x m)) (fate : Fate Exc) :
    World.Filled x (outcome World.meaning c w fate).2 ∧
      (backfill x tag).guar w (outcome World.meaning c w fate).2 := by
  have hext := outcome_extends c w fate
  rcases outcome_snd World.meaning c w fate with ho | ho
  · rw [ho] at hext ⊢
    exact ⟨hinv.meaning hc, hext, .meaning hc, fun hx => .meaning hc (hset hx)⟩
  · rw [ho]
    exact ⟨hinv, .refl w, fun _ _ h => h, fun _ _ h => h⟩

/-- The commands that write no metadata of row `x`. -/
def WorkCmd.Bare (x : ExecutionId) : WorkCmd → Prop
  | .run (.setMetadata id _) => id ≠ x
  | .run (.finish id _ _ _) => id ≠ x
  | _ => True

theorem WorkCmd.Bare.fills {c : WorkCmd} (h : c.Bare x) (w : World) : c.Fills x w := by
  cases c with
  | run statement =>
    cases statement with
    | setMetadata id m => exact fun hx => absurd hx h
    | finish id status result m => exact fun hx => absurd hx h
    | _ => exact fun _ => trivial
  | _ => trivial

theorem WorkCmd.Bare.ne_set {c : WorkCmd} (h : c.Bare x) (m : WorkflowMetadata) :
    c ≠ .run (.setMetadata x m) := by
  rintro rfl
  exact h rfl

theorem WorkCmd.Inner.bare {c : WorkCmd} (h : c.Inner) : c.Bare x := by
  cases c <;> trivial

theorem backfill_bare {α : Type} {p : WorkProg α} {A : World → Prop}
    (huses : p.Uses (WorkCmd.Bare x))
    (hstable : ∀ s t, A s → (backfill x tag).rely s t → A t)
    (hown : ∀ s t, A s → (backfill x tag).guar s t → s.KeepsTask x t → A t) (hA : A w) :
    Keeps (backfill x tag) (fun _ t => A t) p w := by
  refine Keeps.of_uses huses (fun s t hs hrely _ => hstable s t hs hrely) ?_ hA
  intro c t fate hc hinv hs _
  have hstep := backfill_outcome tag hinv (hc.fills t) (fun _ => hc.ne_set) fate
  refine ⟨hstep.1, hstep.2, hown t _ hs hstep.2 ?_⟩
  show t.KeepsTask x (outcome World.meaning c t fate).2
  rcases outcome_snd World.meaning c t fate with ho | ho
  · rw [ho]
    exact .meaning (hc.fills t) hc.ne_set
  · rw [ho]
    exact fun _ h => h

theorem backfill_plain {α : Type} {p : WorkProg α} (huses : p.Uses (WorkCmd.Bare x)) :
    Keeps (backfill x tag) (fun _ _ => True) p w :=
  backfill_bare huses (fun _ _ _ _ => trivial) (fun _ _ _ _ _ => trivial) trivial

theorem WorkTag.Permits.bare {c : WorkCmd} (hc : tag.Permits c) (hx : ¬ tag.Attempts x)
    (hn : tag.number = x → ∀ kind document dossierKey reflect,
      tag.job ≠ .submit kind document dossierKey reflect) : c.Bare x := by
  cases c with
  | run statement =>
    cases statement with
    | setMetadata id m =>
      obtain ⟨hid, _, kind, document, dossierKey, reflect, hjob⟩ := hc
      exact fun heq => hn (hid.symm.trans heq) kind document dossierKey reflect hjob
    | finish id status result m =>
      obtain ⟨_, entry, hjob, hid⟩ := hc
      exact fun heq => hx ⟨entry, hjob, hid.symm.trans heq⟩
    | _ => trivial
  | _ => trivial

theorem backfill_submit (kind : WorkflowKind) (document : DocumentId) (dossierKey : Option String)
    (reflect : Bool) (hinv : w.Filled x) (hn : tag.number = x) :
    Keeps (backfill x tag) (fun _ _ => True) (submit x kind document dossierKey reflect) w := by
  have hread : Keeps (backfill x tag) (fun _ _ => True) (onDocuments (getDocument document)) w :=
    backfill_plain ((uses_onDocuments _).mono fun _ h => h.bare)
  refine hread.bind hinv (fun _ t hinv _ => ?_) fun _ _ _ _ => trivial
  have hcreate : Keeps (backfill x tag) (Ends (fun _ t => Tasked {} (t.runs x)) fun _ => True)
      (perform (.run (.create x (.submitted kind) document
        { documentId := document, dossierKey, annotateReflect := reflect }
        { langgraph := some { threadId := x } } none))) t := by
    apply Keeps.perform
    intro t hrely hinv fate _
    have hstep := backfill_outcome tag hinv (c := .run (.create x (.submitted kind) document
      { documentId := document, dossierKey, annotateReflect := reflect }
      { langgraph := some { threadId := x } } none)) (fun _ => trivial) (fun _ _ => nofun) fate
    refine ⟨hstep.1, hstep.2, fun u hu _ => Ends.intro (fun _ hok => ?_) fun _ _ => trivial⟩
    cases fate with
    | done => exact hu.2.2 hn _ ⟨_, World.execute_created hok, rfl⟩
    | lost e => cases hok
    | late e => cases hok
  refine hcreate.bind hinv (fun _ t hinv htasked => ?_) fun _ _ _ _ => trivial
  have hkiq : Keeps (backfill x tag) (fun _ t => Tasked {} (t.runs x))
      (perform (.kiq (.run kind document x x dossierKey reflect))) t :=
    backfill_bare (uses_command trivial) (fun s t hs hrely => hrely.2.2 hn _ hs)
      (fun s t hs _ hkeeps => hkeeps _ hs) htasked
  refine hkiq.bind hinv (fun taskId t hinv htasked => ?_) fun _ _ _ _ => trivial
  apply Keeps.perform
  intro u hrely hinv fate _
  have hfills : WorkCmd.Fills x u (.run (.setMetadata x
      { taskiq := { taskId := some taskId }, langgraph := some { threadId := x } })) :=
    fun _ => ⟨rfl, hrely.2.2 hn _ htasked⟩
  have hstep := backfill_outcome tag hinv hfills (fun hne => absurd hn hne) fate
  exact ⟨hstep.1, hstep.2, fun _ _ _ => trivial⟩

theorem backfill_finalMetadata {call : TaskCall} (hinv : w.Filled x) (hx : tag.Attempts x)
    (hid : call.execution = x) :
    Keeps (backfill x tag)
      (Ends (fun m t => m.taskiq.taskId.isSome ∧ Tasked m.taskiq (t.runs x)) fun _ => True)
      (finalMetadata cfg call.execution call.thread) w := by
  have hread : Keeps (backfill x tag) (Ends (fun found t => ∀ row, found = some row →
      row.metadata.taskiq.taskId.isSome ∧ Tasked row.metadata.taskiq (t.runs x)) fun _ => True)
      (perform (.getRun call.execution)) w := by
    apply Keeps.perform
    intro t hrely hinv fate hfate
    have hstep := backfill_outcome tag hinv (c := .getRun call.execution) trivial
      (fun _ _ => nofun) fate
    refine ⟨hstep.1, hstep.2, fun u hu _ => Ends.intro (fun found hok => ?_) fun _ _ => trivial⟩
    rintro row rfl
    cases fate with
    | done =>
      have hrow : t.runs x = some row := hid ▸ Except.ok.inj hok
      have hsome := hfate (hid ▸ rfl) rfl hx row hrow
      exact ⟨hsome, hu.2.1 _ hsome ⟨row, hrow, rfl⟩⟩
    | lost e => cases hok
    | late e => cases hok
  refine hread.bind hinv (fun found t hinv hfound => ?_) fun _ _ _ h => h
  cases found with
  | none => exact fun _ _ _ => trivial
  | some row =>
    have hlang : Keeps (backfill x tag) (fun _ t => row.metadata.taskiq.taskId.isSome ∧
        Tasked row.metadata.taskiq (t.runs x)) (langgraphMeta cfg call.thread) t := by
      refine backfill_bare ?_ (fun s t hs hrely => ⟨hs.1, hrely.2.1 _ hs.1 hs.2⟩)
        (fun s t hs _ hkeeps => ⟨hs.1, hkeeps _ hs.2⟩) (hfound row rfl)
      apply Prog.Uses.bind (uses_command trivial)
      intro checkpoint
      cases checkpoint with
      | none => trivial
      | some id => exact (uses_command trivial).bind fun _ => trivial
    refine hlang.bind hinv (fun langgraph t _ h u hu _ => ?_) fun _ _ _ _ => trivial
    exact ⟨h.1, hu.2.1 _ h.1 h.2⟩

theorem backfill_finish {call : TaskCall} {status : WorkflowStatus} {result : WorkflowResult}
    {m : WorkflowMetadata} (h : m.taskiq.taskId.isSome ∧ Tasked m.taskiq (w.runs call.execution))
    (hid : call.execution = x) : Keeps (backfill x tag) (fun _ _ => True)
      (perform (.run (.finish call.execution status result m))) w := by
  apply Keeps.perform
  intro t hrely hinv fate _
  rw [hid] at h ⊢
  have hfills : WorkCmd.Fills x t (.run (.finish x status result m)) :=
    fun _ => ⟨h.1, hrely.2.1 _ h.1 h.2⟩
  have hstep := backfill_outcome tag hinv hfills (fun _ _ => nofun) fate
  exact ⟨hstep.1, hstep.2, fun _ _ _ => trivial⟩

theorem backfill_attempt {entry : StreamEntry} (hjob : tag.job = .attempt entry)
    (hx : tag.Attempts x) (hinv : w.Filled x) :
    Keeps (backfill x tag) (fun _ _ => True) (entry.message.call.body cfg tag.number) w := by
  obtain ⟨timedOut, work, chain, hinner, hchains, hbody⟩ :=
    entry.message.call.course cfg tag.number
  have hid := hx.execution hjob
  have hplain : ∀ {α : Type} {p : WorkProg α} t, p.Uses (WorkCmd.Bare x) →
      Keeps (backfill x tag) (Ends (fun _ _ => True) fun _ => True) p t := fun t huses =>
    (backfill_plain huses).split (fun _ _ _ => trivial) fun _ _ => trivial
  have hfinish : ∀ status result m t, (m.taskiq.taskId.isSome ∧ Tasked m.taskiq (t.runs x)) →
      Keeps (backfill x tag) (Ends (fun _ _ => True) fun _ => True)
        (perform (.run (.finish entry.message.call.execution status result m))) t :=
    fun status result m t ht => (backfill_finish (hid.symm ▸ ht) hid).split
      (fun _ _ _ => trivial) fun _ _ => trivial
  rw [hbody]
  suffices hrun : Keeps (backfill x tag) (Ends (fun _ _ => True) fun _ => True)
      (runTask cfg entry.message.call timedOut work chain) w from hrun.weaken fun _ _ _ _ => trivial
  refine keeps_runTask (A := fun _ => True) (C := fun _ => True)
    (B := fun m t => m.taskiq.taskId.isSome ∧ Tasked m.taskiq (t.runs x)) (E := fun _ => True) hinv
    (hplain w (uses_command trivial)) (fun t _ _ => hplain t (hinner.mono fun _ h => h.bare))
    (fun t hinv _ => backfill_finalMetadata hinv hx hid) (fun output m t _ => hfinish _ _ m t) ?_ ?_
  · intro t hinv _
    rcases hchains with ⟨_, rfl⟩ | ⟨hmining, rfl⟩
    · exact fun _ _ _ => trivial
    · refine keeps_chainAudit (A := fun _ => True) (C := fun _ => True) hinv trivial
        (fun _ _ _ _ _ => trivial) (fun _ => hplain t (uses_command trivial))
        (fun t _ _ => hplain t (uses_command trivial)) fun _ _ _ _ => trivial
  · intro error raised t hinv _
    refine keeps_recordFailure hinv (backfill_finalMetadata hinv hx hid) fun m u _ h => ?_
    exact (hfinish _ _ m u h).weaken fun _ _ _ _ => trivial

theorem backfill_event (tag : WorkTag) {e : WorkEvent} {new : List WorkThread}
    (henv : workEvent cfg w e = some (w', new)) (hinv : w.Filled x) :
    w'.Filled x ∧ (backfill x tag).rely w w' := by
  have hstep : w'.runs = w.runs ∧ w'.history = w.history := by
    rcases workEvent_cases henv with ⟨job, hbegins, _⟩ | ⟨_, hstill⟩
    · exact ⟨hbegins.runs, hbegins.history⟩
    · exact ⟨hstill.runs, hstill.history⟩
  refine ⟨?_, .of_runs hstep.1, fun taskiq _ => World.KeepsTask.of_runs hstep.1 taskiq,
    fun _ => World.KeepsTask.of_runs hstep.1⟩
  unfold World.Filled
  rwa [hstep.1, hstep.2]

theorem backfill_job (number : Nat) (job : Job) (hinv : w.Filled x) :
    Keeps (backfill x ⟨number, job⟩) (fun _ _ => True) (job.prog cfg number) w := by
  by_cases hx : WorkTag.Attempts x ⟨number, job⟩
  · obtain ⟨entry, hjob, hid⟩ := hx
    obtain rfl : job = .attempt entry := hjob
    exact backfill_attempt rfl ⟨entry, rfl, hid⟩ hinv
  · by_cases hn : number = x
    · subst hn
      have hbare : (∀ kind document dossierKey reflect,
          job ≠ .submit kind document dossierKey reflect) →
          Keeps (backfill number ⟨number, job⟩) (fun _ _ => True) (job.prog cfg number) w :=
        fun hjob => backfill_plain ((uses_job number job).mono fun _ h => h.bare hx fun _ => hjob)
      cases job with
      | submit kind document dossierKey reflect =>
        exact backfill_submit kind document dossierKey reflect hinv rfl
      | _ => exact hbare nofun
    · exact backfill_plain ((uses_job number job).mono fun _ h => h.bare hx fun h => absurd h hn)

def backfillDiscipline (cfg : WorkerConfig) (x : ExecutionId) :
    Discipline (factory cfg) fun c move => ReadsFilled x c move ∧ Sound c where
  inv := World.Filled x
  contract := backfill x
  post := fun _ _ _ => True
  apart := fun a b => a.number ≠ b.number
  meaning_eq := fun _ => rfl
  inv_eq := fun _ => rfl
  apart_symm := Ne.symm
  others := fun hapart _ _ hguar =>
    ⟨hguar.1, hguar.2.1, fun hb => hguar.2.2 fun ha => hapart (ha.trans hb.symm)⟩
  fates := by
    rintro c i fate t cmd rest hok hi hprog _ _ rfl hdone hx
    exact hok.1 hdone t rest hi hprog hx
  exit_keeps := by
    rintro ⟨number, job⟩ result w hinv _ t ht
    cases job with
    | attempt entry =>
      obtain rfl := List.mem_singleton.mp ht
      have huses : (afterTask cfg entry result).Uses (WorkTag.Permits ⟨number, .after entry⟩) :=
        uses_afterTask rfl result
      have hx : ¬ WorkTag.Attempts x ⟨number, .after entry⟩ := fun ⟨_, hjob, _⟩ => nomatch hjob
      exact backfill_plain (huses.mono fun _ h => h.bare hx fun _ _ _ _ _ => nofun)
    | _ => simp [factory, workExit] at ht
  exit_apart := by
    rintro ⟨number, job⟩ result t ht b hapart
    cases job with
    | attempt entry =>
      obtain rfl := List.mem_singleton.mp ht
      exact hapart
    | _ => simp [factory, workExit] at ht
  exit_pairwise := by
    rintro ⟨number, job⟩ result
    cases job with
    | attempt entry => exact List.pairwise_singleton _ _
    | _ => exact List.Pairwise.nil
  death_inv := fun _ _ hinv => hinv
  death_rely := fun _ _ _ _ => ⟨.of_runs rfl, fun _ _ h => h, fun _ _ h => h⟩
  env_inv := fun _ henv hinv => (backfill_event ⟨0, .service .softDeleteInvalid⟩ henv hinv).1
  env_rely := fun _ henv hinv t _ => (backfill_event t.tag henv hinv).2
  env_keeps := by
    intro c e w new hok henv hinv t ht
    have hinv' := (backfill_event t.tag henv hinv).1
    rcases workEvent_cases henv with ⟨job, hbegins, rfl⟩ | ⟨rfl, _⟩
    · obtain rfl := List.mem_singleton.mp ht
      exact backfill_job c.shared.fresh job hinv'
    · simp at ht
  env_apart := by
    intro c e w new hok henv _
    rcases workEvent_cases henv with ⟨job, hbegins, rfl⟩ | ⟨rfl, _⟩
    · refine ⟨List.pairwise_singleton _ _, fun t ht u hu => ?_⟩
      obtain rfl := List.mem_singleton.mp hu
      exact (hok.2.numbered t ht).ne
    · exact ⟨List.Pairwise.nil, fun _ _ _ hu => nomatch hu⟩

end Backfill

section Runs

variable {cfg : WorkerConfig} {x : ExecutionId} {docs : Store} {c : Factory}

/-- In every state of a run whose attempts read the row with its task id filled in, the row has
the task part that `set_metadata` wrote and the checkpoint part of the last `finish`. -/
theorem metadata_not_lost (reach : Reach (factory cfg) (ReadsFilled x) ⟨World.opening docs, []⟩ c)
    {row : WorkflowRow} (hrow : c.shared.runs x = some row) :
    (∀ m, .setMetadata x m ∈ c.shared.history →
      row.metadata.taskiq = m.taskiq ∧ m.taskiq.taskId.isSome) ∧
    ∀ m, lastFinish x c.shared.history = some m → row.metadata.langgraph = m.langgraph := by
  have hstart : (World.opening docs).Filled x :=
    ⟨fun _ => ⟨rfl, fun _ => nofun⟩, fun _ _ hrow => (by cases hrow), fun _ _ hrow => (by cases hrow)⟩
  have hsafe := (reach_sound reach).safe (backfillDiscipline cfg x)
    ⟨hstart, fun _ ht => (nomatch ht), List.Pairwise.nil⟩
  have hfilled : FilledRow x (c.shared.runs x) c.shared.history := hsafe.inv
  exact ⟨fun m => hfilled.taskiq row m hrow, fun m hm => (hfilled.langgraph row m hrow hm).1⟩

end Runs

def filledFirst (c : Factory) (move : Move Exc WorkEvent) : Bool :=
  match move with
  | .run i _ =>
    match c.threads[i]? with
    | some { prog := .await (.getRun _) _, .. } =>
      (c.shared.runs 3).all fun row => row.metadata.taskiq.taskId.isSome
    | _ => true
  | _ => true

theorem readsFilled_of_filledFirst (c : Factory) (move : Move Exc WorkEvent)
    (h : filledFirst c move = true) : ReadsFilled 3 c move := by
  cases move with
  | run i fate =>
    intro _ t rest hi hprog _ row hrow
    obtain ⟨tag, prog⟩ := t
    obtain rfl : prog = .await (.getRun 3) rest := hprog
    simpa [filledFirst, hi, hrow] using h
  | _ => trivial

def minedInTurn : List (Move Exc WorkEvent) :=
  .env (.submit .documentMining 1 none false) :: awaits 0 4 ++ [.exit 0, .env .deliver] ++ awaits 0 10

theorem metadata_not_lost_mining :
    ∃ c row, Reach (factory quietWorker) (ReadsFilled 3) ⟨World.opening textStore, []⟩ c ∧
      c.shared.runs 3 = some row ∧ row.status = .succeeded ∧ row.metadata.taskiq.taskId = some 4 ∧
      ∀ m, lastFinish 3 c.shared.history = some m → row.metadata.langgraph = m.langgraph := by
  have hrun : ((factory quietWorker).execWhen filledFirst minedInTurn
      ⟨World.opening textStore, []⟩).any (fun c => (c.shared.runs 3).any fun row =>
        row.status = .succeeded && row.metadata.taskiq.taskId = some 4) = true := by
    decide +kernel
  obtain ⟨c, hc, hrow⟩ := (Option.any_eq_true _ _).mp hrun
  obtain ⟨row, hrow, hs⟩ := (Option.any_eq_true _ _).mp hrow
  simp only [Bool.and_eq_true, decide_eq_true_eq] at hs
  have reach : Reach (factory quietWorker) (ReadsFilled 3) ⟨World.opening textStore, []⟩ c :=
    Reach.start.execWhen (fun e move _ => readsFilled_of_filledFirst e move) hc
  exact ⟨c, row, reach, hrow, hs.1, hs.2, (metadata_not_lost reach hrow).2⟩

/-- The worker reads the row before `set_metadata` and writes it afterwards. -/
def readTooEarly : List (Move Exc WorkEvent) :=
  .env (.submit .documentMining 1 none false) :: awaits 0 3 ++ [.env .deliver] ++ awaits 1 7 ++
    awaits 0 1 ++ awaits 1 3

theorem task_id_lost :
    ∃ c row m, (factory quietWorker).exec readTooEarly ⟨World.opening textStore, []⟩ = some c ∧
      (∀ t ∈ c.threads, t.ended.isSome) ∧ c.shared.runs 3 = some row ∧ row.status = .succeeded ∧
      .setMetadata 3 m ∈ c.shared.history ∧ m.taskiq.taskId.isSome ∧
      row.metadata.taskiq.taskId = none := by
  have hrun : ((factory quietWorker).exec readTooEarly ⟨World.opening textStore, []⟩).any (fun c =>
      c.threads.all (fun t => t.ended.isSome) && (c.shared.runs 3).any fun row =>
        row.status = .succeeded && row.metadata.taskiq.taskId = none && c.shared.history.contains
          (.setMetadata 3 { taskiq := { taskId := some 4 }, langgraph := some { threadId := 3 } }))
      = true := by
    decide +kernel
  obtain ⟨c, hc, hrest⟩ := (Option.any_eq_true _ _).mp hrun
  obtain ⟨hended, hrow⟩ := Bool.and_eq_true_iff.mp hrest
  obtain ⟨row, hrow, hs⟩ := (Option.any_eq_true _ _).mp hrow
  simp only [Bool.and_eq_true, decide_eq_true_eq, List.contains_iff_mem] at hs
  exact ⟨c, row, _, hc, List.all_eq_true.mp hended, hrow, hs.1.1, hs.2, rfl, hs.1.2⟩

end Doci
