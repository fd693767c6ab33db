import Doci.Bystanders

/-! The audits that the mining task chains to a run: at most one, and one once the run has
succeeded with a dossier and its message is settled. -/

namespace Doci

open Coroutine

/-- Execution `id` is an audit that the task of `x` created. -/
def World.Audits (x : ExecutionId) (w : World) (id : ExecutionId) : Prop :=
  ∃ row, w.runs id = some row ∧ row.chainedFrom = some x

/-- The run has succeeded with a dossier, and its audit is missing. -/
def World.Owes (x : ExecutionId) (w : World) : Prop :=
  (∃ row, w.runs x = some row ∧ row.status = .succeeded ∧
    row.workflow = .submitted .documentMining ∧ truthy row.input.dossierKey = true) ∧
  ∀ id, ¬ w.Audits x id

def WorkCmd.IsCreate : WorkCmd → Prop
  | .run (.create _ _ _ _ _ _) => True
  | _ => False

/-- An entry of `x` is handled while no attempt of `x` runs, none of the entry is left to be
acknowledged, and no audit was chained yet. While an audit is missing, an attempt is
interrupted at most in creating it. -/
def OneAtATime (x : ExecutionId) (c : Factory) : Move Exc WorkEvent → Prop
  | .run i fate => ∀ t cmd rest, c.threads[i]? = some t → t.prog = .await cmd rest →
    t.tag.Attempts x → c.shared.Owes x → ¬ cmd.IsCreate → fate = .done
  | .env e => ∀ entry, e.handles c.shared = some entry → entry.message.call.execution = x →
    (∀ id, ¬ c.shared.Audits x id) ∧
      ∀ t ∈ c.threads, ¬ t.tag.Attempts x ∧ t.tag.job ≠ .after entry
  | _ => True

section AuditChain

variable {x : ExecutionId} {w w' : World} {tag : WorkTag} {cfg : WorkerConfig} {c : WorkCmd}
  {fate : Fate Exc} {id : ExecutionId}

theorem World.Audits.of_extends (h : w.Audits x id) (hext : w.Extends w') : w'.Audits x id := by
  obtain ⟨row, hrow, hchained⟩ := h
  obtain ⟨row', hrow', _, _, _, hkept⟩ := hext id row hrow
  exact ⟨row', hrow', hkept.trans hchained⟩

/-- The command creates no audit of `x`. -/
def WorkCmd.Chainless (x : ExecutionId) : WorkCmd → Prop
  | .run (.create _ _ _ _ _ chainedFrom) => chainedFrom ≠ some x
  | _ => True

theorem World.audits_back (hc : c.Chainless x) (h : (outcome World.meaning c w fate).2.Audits x id) :
    w.Audits x id := by
  obtain ⟨row', hrow', hchained⟩ := h
  cases hrow : w.runs id with
  | some row =>
    obtain ⟨row'', hrow'', _, _, _, hkept⟩ := outcome_extends c w fate id row hrow
    obtain rfl := Option.some.inj (hrow''.symm.trans hrow')
    exact ⟨row, hrow, hkept.symm.trans hchained⟩
  | none =>
    rcases outcome_snd World.meaning c w fate with ho | ho
    · rw [ho] at hrow'
      cases c with
      | run statement =>
        rcases World.execute_none statement hrow with hnone | ⟨_, _, _, _, chainedFrom, rfl, hnew⟩
        · simp [World.meaning, hnone] at hrow'
        · obtain rfl := Option.some.inj (hnew.symm.trans hrow')
          exact absurd hchained hc
      | _ => simp [World.meaning, World.send, World.take, hrow] at hrow'
    · simp [ho, hrow] at hrow'

theorem WorkTag.Permits.chainless (hc : tag.Permits c) (hx : ¬ tag.Attempts x) : c.Chainless x := by
  cases c with
  | run statement =>
    cases statement with
    | create id workflow entity input metadata chainedFrom =>
      rintro rfl
      obtain ⟨number, job⟩ := tag
      obtain ⟨entry, hjob, hid⟩ : ∃ entry, job = .attempt entry ∧ entry.message.call.execution = x := by
        cases hc
        exact ⟨_, rfl, rfl⟩
      exact hx ⟨entry, hjob, hid⟩
    | _ => trivial
  | _ => trivial

theorem World.Owes.back (hc : tag.Permits c) (hx : ¬ tag.Attempts x)
    (h : (outcome World.meaning c w fate).2.Owes x) : w.Owes x := by
  obtain ⟨⟨row', hrow', hs, hworkflow, hdossier⟩, hno⟩ := h
  refine ⟨?_, fun id haudit => hno id (haudit.of_extends (outcome_extends c w fate))⟩
  cases hrow : w.runs x with
  | some row =>
    obtain ⟨metadata, hkept⟩ := hc.row_outcome hx hrow fate
    obtain rfl := Option.some.inj (hkept.symm.trans hrow')
    exact ⟨row, rfl, hs, hworkflow, hdossier⟩
  | none =>
    rcases outcome_snd World.meaning c w fate with ho | ho
    · rw [ho] at hrow'
      cases c with
      | run statement =>
        rcases World.execute_none statement hrow with hnone | ⟨_, _, _, _, _, _, hnew⟩
        · simp [World.meaning, hnone] at hrow'
        · obtain rfl := Option.some.inj (hnew.symm.trans hrow')
          cases hs
      | _ => simp [World.meaning, World.send, World.take, hrow] at hrow'
    · simp [ho, hrow] at hrow'

theorem World.Owes.of_runs (h : w'.Owes x) (heq : w'.runs = w.runs) : w.Owes x := by
  unfold Owes Audits at h ⊢
  rwa [heq] at h

def World.AtMostOne (x : ExecutionId) (w : World) : Prop :=
  ∀ id id', w.Audits x id → w.Audits x id' → id = id'

/-- What the threads keep of the audits of `x`. An attempt relies on the others to create none
and not to make the run succeed; it is not interrupted as long as an audit is missing. -/
def auditChain (x : ExecutionId) (tag : WorkTag) : Contract WorkReply Exc World where
  meaning := World.meaning
  inv := World.AtMostOne x
  rely := fun s t => s.Extends t ∧ (tag.Attempts x →
    (∀ id, t.Audits x id → s.Audits x id) ∧ (t.Owes x → s.Owes x))
  guar := fun s t => s.Extends t ∧ (¬ tag.Attempts x →
    (∀ id, t.Audits x id → s.Audits x id) ∧ (t.Owes x → s.Owes x))
  fate := fun c s fate => tag.Attempts x → s.Owes x → ¬ c.IsCreate → fate = .done
  rely_refl := fun s => ⟨.refl s, fun _ => ⟨fun _ h => h, fun h => h⟩⟩
  rely_trans := fun h h' => ⟨h.1.trans h'.1, fun hx =>
    ⟨fun id ht => (h.2 hx).1 id ((h'.2 hx).1 id ht), fun ht => (h.2 hx).2 ((h'.2 hx).2 ht)⟩⟩

theorem auditChain_bystander {α : Type} {p : WorkProg α} (huses : p.Uses tag.Permits)
    (hx : ¬ tag.Attempts x) : Keeps (auditChain x tag) (fun _ _ => True) p w := by
  refine Keeps.of_uses (A := fun _ => True) huses (fun _ _ _ _ _ => trivial) ?_ trivial
  intro c t fate hc hinv _ _
  have hback : ∀ id, World.Audits x (outcome World.meaning c t fate).2 id → t.Audits x id :=
    fun _ => World.audits_back (hc.chainless hx)
  exact ⟨fun id id' hid hid' => hinv id id' (hback id hid) (hback id' hid'),
    ⟨outcome_extends c t fate, fun _ => ⟨hback, fun h => h.back hc hx⟩⟩, trivial⟩

section Attempt

variable {call : TaskCall}

theorem auditChain_chainless {α : Type} {p : WorkProg α} (hx : tag.Attempts x)
    (huses : p.Uses (WorkCmd.Chainless x)) (hno : ∀ id, ¬ w.Audits x id) :
    Keeps (auditChain x tag) (fun _ t => ∀ id, ¬ t.Audits x id) p w := by
  refine Keeps.of_uses huses (fun s t hs hrely _ id ht => hs id ((hrely.2 hx).1 id ht)) ?_ hno
  intro c t fate hc hinv hs _
  have hback : ∀ id, World.Audits x (outcome World.meaning c t fate).2 id → t.Audits x id :=
    fun _ => World.audits_back hc
  exact ⟨fun id id' hid hid' => hinv id id' (hback id hid) (hback id' hid'),
    ⟨outcome_extends c t fate, fun h => absurd hx h⟩, fun id ht => hs id (hback id ht)⟩

theorem auditChain_backed {α : Type} {p : WorkProg α} {post : Except Exc α → World → Prop}
    (h : Keeps (auditChain x tag) post p w) (hbacked : w.Backed call) :
    Keeps (auditChain x tag) (fun r t => post r t ∧ t.Backed call) p w :=
  h.along (A := fun t => t.Backed call) hbacked (fun _ _ hb hrely => hb.later hrely.1)
    fun _ _ hb hguar => hb.later hguar.1

theorem outcome_aside (h : c.Aside) (w : World) (fate : Fate Exc) :
    (outcome World.meaning c w fate).2.runs = w.runs := by
  rcases outcome_snd World.meaning c w fate with ho | ho
  · rw [ho]
    exact (World.meaning_aside h).runs
  · rw [ho]

theorem WorkCmd.Aside.chainless (h : c.Aside) : c.Chainless x := by
  cases c <;> trivial

theorem auditChain_aside {α : Type} {p : WorkProg α} (hx : tag.Attempts x)
    (huses : p.Uses WorkCmd.Aside) (hnot : ¬ w.Owes x) :
    Keeps (auditChain x tag) (fun _ t => ¬ t.Owes x) p w := by
  refine Keeps.of_uses huses (fun s t hs hrely _ ht => hs ((hrely.2 hx).2 ht)) ?_ hnot
  intro c t fate hc hinv hs _
  have hruns := outcome_aside hc t fate
  refine ⟨fun id id' hid hid' => hinv id id' ?_ ?_, ⟨outcome_extends c t fate, fun h => absurd hx h⟩,
    fun ht => hs (ht.of_runs hruns)⟩
  · exact World.audits_back hc.chainless hid
  · exact World.audits_back hc.chainless hid'

theorem auditChain_read {c : WorkCmd} {R : WorkReply c → World → Prop} (hx : tag.Attempts x)
    (hc : c.Aside) (hanswers : ∀ t, ∃ reply, (World.meaning c t).1 = .ok reply)
    (hR : ∀ reply t u, (World.meaning c t).1 = .ok reply →
      (auditChain x tag).rely (World.meaning c t).2 u → R reply u) :
    Keeps (auditChain x tag) (Ends R fun t => ¬ t.Owes x) (perform c) w := by
  apply Keeps.perform
  intro t hrely hinv fate hfate
  have hruns := outcome_aside hc t fate
  have hcreate : ¬ c.IsCreate := by
    cases c <;> first | exact hc.elim | exact fun h => h
  refine ⟨fun id id' hid hid' => hinv id id' ?_ ?_, ⟨outcome_extends c t fate, fun h => absurd hx h⟩,
    fun u hu _ => Ends.intro (fun reply hok => ?_) fun e he hu' => ?_⟩
  · exact World.audits_back hc.chainless hid
  · exact World.audits_back hc.chainless hid'
  · cases fate with
    | done => exact hR reply t u hok hu
    | lost e => cases hok
    | late e => cases hok
  · have ht : t.Owes x := ((hu.2 hx).2 hu').of_runs hruns
    obtain rfl : fate = .done := hfate hx ht hcreate
    obtain ⟨reply, hreply⟩ := hanswers t
    cases hreply.symm.trans he

theorem auditChain_finalMetadata (hx : tag.Attempts x) (hid : call.execution = x)
    (hinv : w.AtMostOne x) :
    Keeps (auditChain x tag) (Ends (fun _ _ => True) fun t => ¬ t.Owes x)
      (finalMetadata cfg call.execution call.thread) w := by
  have hread : Keeps (auditChain x tag) (Ends (fun found t => found = none → ¬ t.Owes x)
      fun t => ¬ t.Owes x) (perform (.getRun call.execution)) w := by
    refine auditChain_read hx trivial (fun t => ⟨_, rfl⟩) fun found t u hok hu hnone hu' => ?_
    obtain ⟨row, hrow, _⟩ := ((hu.2 hx).2 hu').1
    have hfound : t.runs x = found := hid ▸ Except.ok.inj hok
    have hrow : t.runs x = some row := hrow
    cases hnone.symm.trans (hfound.symm.trans hrow)
  apply hread.andThen hinv
  intro found t hinv hfound
  cases found with
  | none => exact fun u hu _ hu' => hfound rfl ((hu.2 hx).2 hu')
  | some row =>
    have htuple : Keeps (auditChain x tag) (Ends (fun _ _ => True) fun t => ¬ t.Owes x)
        (perform (.agetTuple call.thread)) t :=
      auditChain_read hx trivial (fun t => ⟨_, rfl⟩) fun _ _ _ _ _ => trivial
    have hlang : Keeps (auditChain x tag) (Ends (fun _ _ => True) fun t => ¬ t.Owes x)
        (langgraphMeta cfg call.thread) t := by
      apply htuple.andThen hinv
      intro checkpoint t hinv _
      cases checkpoint with
      | none => exact fun _ _ _ => trivial
      | some id =>
        have hnow : Keeps (auditChain x tag) (Ends (fun _ _ => True) fun t => ¬ t.Owes x)
            (perform .utcnow) t :=
          auditChain_read hx trivial (fun t => ⟨_, rfl⟩) fun _ _ _ _ _ => trivial
        exact hnow.andThen hinv fun _ _ _ _ _ _ _ => trivial
    exact hlang.andThen hinv fun _ _ _ _ _ _ _ => trivial

/-- A statement that leaves the row with another status: whether or not it takes effect, no
audit is missing afterwards. -/
theorem auditChain_update {statement : RunStatement} (hx : tag.Attempts x)
    (htarget : statement.target = x) (hcreate : ¬ WorkCmd.IsCreate (.run statement))
    (hstatus : ∀ now row, (statement.update now row).status ≠ .succeeded) :
    Keeps (auditChain x tag) (fun _ t => ¬ t.Owes x) (perform (.run statement)) w := by
  have hchainless : WorkCmd.Chainless x (.run statement) := by
    cases statement <;> first | trivial | exact absurd trivial hcreate
  apply Keeps.perform
  intro t hrely hinv fate hfate
  have hback : ∀ id, World.Audits x (outcome World.meaning (.run statement) t fate).2 id →
      t.Audits x id := fun _ => World.audits_back hchainless
  refine ⟨fun id id' hid hid' => hinv id id' (hback id hid) (hback id' hid'),
    ⟨outcome_extends _ t fate, fun h => absurd hx h⟩, fun u hu _ hu' => ?_⟩
  have howes : World.Owes x (outcome World.meaning (.run statement) t fate).2 := (hu.2 hx).2 hu'
  have heffect : ¬ World.Owes x (World.meaning (.run statement) t).2 := by
    rintro ⟨⟨row', hrow', hs, _⟩, _⟩
    cases hrow : t.runs x with
    | some row =>
      have hupdated := t.execute_row statement hrow
      rw [if_pos htarget.symm] at hupdated
      obtain rfl := Option.some.inj (hupdated.symm.trans hrow')
      exact hstatus _ _ hs
    | none =>
      rcases World.execute_none statement hrow with hnone | ⟨_, _, _, _, _, rfl, _⟩
      · cases hnone.symm.trans hrow'
      · exact hcreate trivial
  cases fate with
  | done => exact heffect howes
  | late e => exact heffect howes
  | lost e => cases hfate hx howes hcreate

theorem auditChain_recordFailure (hx : tag.Attempts x) (hid : call.execution = x)
    (hinv : w.AtMostOne x) (error : String) (raised : Exc) :
    Keeps (auditChain x tag) (Ends (fun _ t => ¬ t.Owes x) fun t => ¬ t.Owes x)
      (recordFailure cfg call error raised) w := by
  refine keeps_recordFailure hinv (auditChain_finalMetadata hx hid hinv) fun metadata t _ _ => ?_
  exact auditChain_update hx hid (fun h => h) fun _ _ => nofun

theorem auditChain_create (hx : tag.Attempts x) (hid : call.execution = x)
    (hno : ∀ id, ¬ w.Audits x id) :
    Keeps (auditChain x tag) (Ends (fun _ t => ∃ id, t.Audits x id) fun _ => True)
      (perform (.run (call.auditRow tag.number))) w := by
  apply Keeps.perform
  intro t hrely hinv fate _
  have hnone : ∀ id, ¬ t.Audits x id := fun id ht => hno id ((hrely.2 hx).1 id ht)
  have honly : ∀ id, World.Audits x (outcome World.meaning (.run (call.auditRow tag.number)) t fate).2 id →
      id = tag.number := by
    rintro id ⟨row', hrow', hchained⟩
    cases hrow : t.runs id with
    | some row =>
      obtain ⟨row'', hrow'', _, _, _, hkept⟩ :=
        outcome_extends (.run (call.auditRow tag.number)) t fate id row hrow
      obtain rfl := Option.some.inj (hrow''.symm.trans hrow')
      exact absurd ⟨row, hrow, hkept.symm.trans hchained⟩ (hnone id)
    | none =>
      rcases outcome_snd World.meaning (.run (call.auditRow tag.number)) t fate with ho | ho
      · rw [ho] at hrow'
        rcases World.execute_none (call.auditRow tag.number) hrow with hsame | ⟨_, _, _, _, _, heq, _⟩
        · cases hsame.symm.trans hrow'
        · exact (RunStatement.create.inj heq).1.symm
      · rw [ho, hrow] at hrow'
        cases hrow'
  refine ⟨fun id id' h h' => (honly id h).trans (honly id' h').symm,
    ⟨outcome_extends _ t fate, fun h => absurd hx h⟩, fun u hu _ => Ends.intro (fun _ hok => ?_)
      fun _ _ => trivial⟩
  cases fate with
  | done =>
    have haudit : World.Audits x (t.execute (call.auditRow tag.number)).2 tag.number :=
      ⟨_, World.execute_created hok, congrArg some hid⟩
    exact ⟨_, haudit.of_extends hu.1⟩
  | lost e => cases hok
  | late e => cases hok

theorem World.Owes.suits (h : w.Owes x) (hbacked : w.Backed call) (hid : call.execution = x) :
    call.isMining ∧ truthy call.dossierKey = true := by
  obtain ⟨⟨row, hrow, _, hworkflow, hdossier⟩, _⟩ := h
  obtain ⟨row', hrow', hfits⟩ := hbacked
  rw [hid] at hrow'
  obtain rfl := Option.some.inj (hrow.symm.trans hrow')
  exact ⟨hfits.workflow.symm.trans hworkflow, hfits.dossierKey ▸ hdossier⟩

theorem auditChain_chainAudit {entry : StreamEntry} (hx : tag.Attempts x)
    (hjob : tag.job = .attempt entry) (hinv : w.AtMostOne x) (hno : ∀ id, ¬ w.Audits x id)
    (hbacked : w.Backed entry.message.call) :
    Keeps (auditChain x tag) (Ends (fun _ t => ¬ t.Owes x) fun _ => True)
      (chainAudit tag.number entry.message.call) w := by
  have hid := hx.execution hjob
  refine keeps_chainAudit (A := fun _ => True) (C := fun t => ∃ id, t.Audits x id)
    (D := fun t => ¬ t.Owes x) hinv trivial (fun hfalse _ u hu _ hu' => ?_)
    (fun _ => auditChain_create hx hid hno) (fun t hinv haudit => ?_)
    fun s t hs hrely ht => hs ((hrely.2 hx).2 ht)
  · have htruthy := (hu'.suits (hbacked.later hu.1) hid).2
    simp [hfalse] at htruthy
  · apply Keeps.perform
    intro u hrely hinv fate _
    have hruns : World.runs (outcome World.meaning (.kiq (.audit entry.message.call.document tag.number
        entry.message.call.execution tag.number (entry.message.call.dossierKey.getD "") "English"))
        u fate).2 = u.runs := by
      cases fate <;> rfl
    have hback : ∀ id, World.Audits x (outcome World.meaning (.kiq (.audit entry.message.call.document
        tag.number entry.message.call.execution tag.number (entry.message.call.dossierKey.getD "")
        "English")) u fate).2 id → u.Audits x id := fun _ => World.audits_back trivial
    refine ⟨fun id id' h h' => hinv id id' (hback id h) (hback id' h'),
      ⟨outcome_extends _ u fate, fun h => absurd hx h⟩,
      fun v hv _ => Ends.intro (fun _ _ hv' => ?_) fun _ _ => trivial⟩
    obtain ⟨id, haudit⟩ := haudit
    have howes : u.Owes x := ((hv.2 hx).2 hv').of_runs hruns
    exact howes.2 id (haudit.of_extends hrely.1)

theorem auditChain_attempt {entry : StreamEntry} (hjob : tag.job = .attempt entry)
    (hx : tag.Attempts x) (hinv : w.AtMostOne x) (hno : ∀ id, ¬ w.Audits x id)
    (hbacked : w.Backed entry.message.call) :
    Keeps (auditChain x tag) (fun _ t => ¬ t.Owes x) (entry.message.call.body cfg tag.number) w := by
  obtain ⟨timedOut, work, chain, hinner, hchains, hbody⟩ :=
    entry.message.call.course cfg tag.number
  have hid := hx.execution hjob
  -- Up to the record of the success there is neither an audit nor one missing.
  have hbefore : ∀ {α : Type} {p : WorkProg α} t, p.Uses WorkCmd.Aside → ¬ t.Owes x →
      (∀ id, ¬ t.Audits x id) → t.Backed entry.message.call → Keeps (auditChain x tag)
        (fun _ t => ¬ t.Owes x ∧ (∀ id, ¬ t.Audits x id) ∧ t.Backed entry.message.call) p t := by
    intro α p t huses hnot hno hbacked
    have hsilent := auditChain_chainless hx (huses.mono fun _ h => h.chainless) hno
    exact (auditChain_aside hx huses hnot).and (auditChain_backed hsilent hbacked)
  rw [hbody]
  suffices hrun : Keeps (auditChain x tag) (Ends (fun _ t => ¬ t.Owes x) fun t => ¬ t.Owes x)
      (runTask cfg entry.message.call timedOut work chain) w from
    hrun.weaken fun r _ _ h => by cases r <;> exact h
  refine keeps_runTask
    (A := fun t => ¬ t.Owes x ∧ (∀ id, ¬ t.Audits x id) ∧ t.Backed entry.message.call)
    (B := fun _ t => ¬ t.Owes x ∧ (∀ id, ¬ t.Audits x id) ∧ t.Backed entry.message.call)
    (C := fun t => (∀ id, ¬ t.Audits x id) ∧ t.Backed entry.message.call) (E := fun _ => True)
    hinv ?_ (fun t _ ht => ?_) (fun t _ ht => ?_) (fun output metadata t _ ht => ?_)
    (fun t hinv ht => ?_) fun error raised t hinv _ => auditChain_recordFailure hx hid hinv error raised
  · have hmark : Keeps (auditChain x tag) (fun _ t => ¬ t.Owes x)
        (perform (.run (.markRunning entry.message.call.execution))) w :=
      auditChain_update hx hid (fun h => h) fun _ _ => nofun
    have huses : (perform (.run (.markRunning entry.message.call.execution))).Uses
        (WorkCmd.Chainless x) := uses_command trivial
    have hsilent := auditChain_chainless hx huses hno
    exact (hmark.and (auditChain_backed hsilent hbacked)).split (fun _ _ h => h) fun _ h => h.1
  · exact (hbefore t (hinner.mono fun _ h => h.aside) ht.1 ht.2.1 ht.2.2).split
      (fun _ _ h => h) fun _ _ => trivial
  · exact (hbefore t (uses_finalMetadata _ _) ht.1 ht.2.1 ht.2.2).split
      (fun _ _ h => h) fun _ _ => trivial
  · have huses : (perform (.run (.finish entry.message.call.execution .succeeded
        { output := some output } metadata))).Uses (WorkCmd.Chainless x) := uses_command trivial
    exact (auditChain_backed (auditChain_chainless hx huses ht.2.1) ht.2.2).split
      (fun _ _ h => h) fun _ _ => trivial
  · rcases hchains with ⟨hnot, rfl⟩ | ⟨hmining, rfl⟩
    · exact fun u hu _ hu' => hnot (hu'.suits (ht.2.later hu.1) hid).1
    · exact auditChain_chainAudit hx hjob hinv ht.1 ht.2

end Attempt

theorem auditChain_job {c : Factory} {e : WorkEvent} {job : Job} (hok : OneAtATime x c (.env e))
    (hsound : Sound c) (hbegins : c.shared.Begins e job w) (hinv : w.AtMostOne x) :
    Keeps (auditChain x ⟨c.shared.fresh, job⟩)
      (fun _ t => WorkTag.Attempts x ⟨c.shared.fresh, job⟩ → ¬ t.Owes x)
      (job.prog cfg c.shared.fresh) w := by
  by_cases hx : WorkTag.Attempts x ⟨c.shared.fresh, job⟩
  · obtain ⟨entry, hjob, hid⟩ := hx
    obtain rfl : job = .attempt entry := hjob
    have hno : ∀ id, ¬ w.Audits x id := by
      rintro id ⟨row, hrow, hchained⟩
      exact (hok entry hbegins.handles hid).1 id ⟨row, hbegins.runs ▸ hrow, hchained⟩
    have hentry := (hbegins.entries entry).mp (.inr (hbegins.handled entry rfl).2)
    have hbacked : w.Backed entry.message.call := (hsound.agrees entry hentry).later (.of_runs hbegins.runs)
    have hattempt : Keeps (auditChain x ⟨c.shared.fresh, .attempt entry⟩) (fun _ t => ¬ t.Owes x)
        (entry.message.call.body cfg (WorkTag.mk c.shared.fresh (.attempt entry)).number) w :=
      auditChain_attempt rfl ⟨entry, rfl, hid⟩ hinv hno hbacked
    exact hattempt.weaken fun _ _ _ h _ => h
  · exact (auditChain_bystander (uses_job _ job) hx).weaken fun _ _ _ _ h => absurd h hx

theorem auditChain_same {a : WorkTag} (w w' : World) (hruns : w'.runs = w.runs) (hinv : w.AtMostOne x) :
    w'.AtMostOne x ∧ (auditChain x a).rely w w' := by
  have hback : ∀ id, w'.Audits x id → w.Audits x id := fun id ⟨row, hrow, hchained⟩ =>
    ⟨row, hruns ▸ hrow, hchained⟩
  exact ⟨fun id id' h h' => hinv id id' (hback id h) (hback id' h'), .of_runs hruns,
    fun _ => ⟨hback, fun h => h.of_runs hruns⟩⟩

def auditChainDiscipline (cfg : WorkerConfig) (x : ExecutionId) :
    Discipline (factory cfg) fun c move => OneAtATime x c move ∧ Sound c :=
  solo cfg x _ (World.AtMostOne x) (auditChain x) (fun tag w => tag.Attempts x → ¬ w.Owes x)
    (fun _ => rfl) (fun _ => rfl)
    (fun _ hnot hguar => ⟨hguar.1, fun hb => hguar.2 fun ha => hnot ⟨ha, hb⟩⟩)
    (fun hok hi hprog => hok.1 _ _ _ hi hprog)
    (fun _ _ result _ => (auditChain_bystander (uses_afterTask rfl result)
      fun ⟨_, hjob, _⟩ => nomatch hjob).weaken fun _ _ _ _ ⟨_, hjob, _⟩ => nomatch hjob)
    (fun _ => auditChain_same) (fun hok => auditChain_job hok.1 hok.2)
    (fun hok => hok.2.numbered) fun hok hhandles hid t ht => ((hok.1 _ hhandles hid).2 t ht).1

end AuditChain

def Unacknowledged (c : Factory) (entry : StreamEntry) : Prop :=
  entry ∈ c.shared.pending ∧ ∀ t ∈ c.threads, t.tag.job ≠ .after entry

structure Accounted (x : ExecutionId) (c : Factory) : Prop where
  attempts : ∀ t ∈ c.threads, ∀ entry, t.tag.job = .attempt entry →
    entry.message.call.execution = x → Unacknowledged c entry
  owed : c.shared.Owes x → ∃ entry, entry.message.call.execution = x ∧ Unacknowledged c entry

section Runs

variable {cfg : WorkerConfig} {x : ExecutionId} {docs : Store} {c d : Factory}
  {move : Move Exc WorkEvent}

theorem World.meaning_pending {w : World} {tag : WorkTag} {cmd : WorkCmd} {fate : Fate Exc}
    {entry : StreamEntry} (hcmd : tag.Permits cmd) (hjob : tag.job ≠ .after entry)
    (h : entry ∈ w.pending) : entry ∈ (outcome World.meaning cmd w fate).2.pending := by
  rcases outcome_snd World.meaning cmd w fate with ho | ho
  · rw [ho]
    cases cmd with
    | run statement =>
      rcases w.execute_cases statement with ⟨_, heq⟩ | ⟨_, _, heq⟩ <;>
        simpa only [World.meaning, heq] using h
    | ack done =>
      have hne : entry ≠ done := by
        rintro rfl
        exact hjob hcmd
      exact List.mem_filter.mpr ⟨h, by simpa using hne⟩
    | _ => exact h
  · rwa [ho]

theorem Unacknowledged.await {entry : StreamEntry} {i : Nat} {fate : Fate Exc} {t : WorkThread}
    {cmd : WorkCmd} (h : Unacknowledged c entry) (hi : c.threads[i]? = some t)
    (hcmd : t.tag.Permits cmd) (prog : WorkProg Unit) :
    Unacknowledged ⟨(outcome World.meaning cmd c.shared fate).2,
      c.threads.set i { t with prog := prog }⟩ entry := by
  refine ⟨World.meaning_pending hcmd (h.2 t (List.mem_of_getElem? hi)) h.1, fun u hu => ?_⟩
  rcases List.mem_or_eq_of_mem_set hu with hu | rfl
  · exact h.2 u hu
  · exact h.2 t (List.mem_of_getElem? hi)

theorem Accounted.run {i : Nat} {fate : Fate Exc} {t : WorkThread} {cmd : WorkCmd}
    (h : Accounted x c) (hi : c.threads[i]? = some t) (hcmd : t.tag.Permits cmd)
    (prog : WorkProg Unit) : Accounted x ⟨(outcome World.meaning cmd c.shared fate).2,
      c.threads.set i { t with prog := prog }⟩ := by
  refine ⟨fun u hu entry hjob hid => ?_, fun howes => ?_⟩
  · rcases List.mem_or_eq_of_mem_set hu with hu | rfl
    · exact (h.attempts u hu entry hjob hid).await hi hcmd prog
    · exact (h.attempts t (List.mem_of_getElem? hi) entry hjob hid).await hi hcmd prog
  · by_cases hx : t.tag.Attempts x
    · obtain ⟨entry, hjob, hid⟩ := hx
      exact ⟨entry, hid, (h.attempts t (List.mem_of_getElem? hi) entry hjob hid).await hi hcmd prog⟩
    · obtain ⟨entry, hid, hleft⟩ := h.owed (howes.back hcmd hx)
      exact ⟨entry, hid, hleft.await hi hcmd prog⟩

theorem workExit_after {tag : WorkTag} {result : Except Exc Unit} {u : WorkThread}
    (hu : u ∈ workExit cfg tag result) :
    ∃ entry, tag.job = .attempt entry ∧ u.tag.job = .after entry := by
  obtain ⟨number, job⟩ := tag
  cases job with
  | attempt entry =>
    obtain rfl := List.mem_singleton.mp hu
    exact ⟨entry, rfl, rfl⟩
  | _ => simp [workExit] at hu

theorem Accounted.exit {i : Nat} {t : WorkThread} {result : Except Exc Unit} (h : Accounted x c)
    (hsafe : (auditChainDiscipline cfg x).Safe c) (hi : c.threads[i]? = some t)
    (hended : t.ended = some result) :
    Accounted x ⟨c.shared, c.threads.eraseIdx i ++ workExit cfg t.tag result⟩ := by
  have hleft : ∀ {entry}, Unacknowledged c entry → t.tag.job ≠ .attempt entry →
      Unacknowledged ⟨c.shared, c.threads.eraseIdx i ++ workExit cfg t.tag result⟩ entry := by
    intro entry hentry hne
    refine ⟨hentry.1, fun u hu => ?_⟩
    rcases List.mem_append.mp hu with hu | hu
    · exact hentry.2 u ((List.eraseIdx_sublist _ _).subset hu)
    · obtain ⟨other, hjob, hafter⟩ := workExit_after hu
      rw [hafter]
      rintro heq
      exact hne (hjob.trans (congrArg Job.attempt (Job.after.inj heq)))
  refine ⟨fun u hu entry hjob hid => ?_, fun howes => ?_⟩
  · rcases List.mem_append.mp hu with hu | hu
    · refine hleft (h.attempts u ((List.eraseIdx_sublist _ _).subset hu) entry hjob hid) fun ht => ?_
      obtain ⟨j, hne, hj⟩ := List.mem_eraseIdx_iff_getElem?.mp hu
      have hapart := (auditChainDiscipline cfg x).apart_of_ne hsafe.apart hj hi hne
      exact hapart.2 ⟨⟨entry, hjob, hid⟩, entry, ht, hid⟩
    · obtain ⟨other, _, hafter⟩ := workExit_after hu
      cases hjob.symm.trans hafter
  · have hnot : ¬ t.tag.Attempts x := fun hx => hsafe.ended hi hended hx howes
    obtain ⟨entry, hid, hentry⟩ := h.owed howes
    exact ⟨entry, hid, hleft hentry fun hjob => hnot ⟨entry, hjob, hid⟩⟩

theorem Accounted.die (h : Accounted x c) (i : Nat) (session : Session) :
    Accounted x ⟨{ c.shared with docs := c.shared.docs.rollback session }, c.threads.eraseIdx i⟩ := by
  have hsub := List.eraseIdx_sublist c.threads i
  have hleft : ∀ {entry}, Unacknowledged c entry → Unacknowledged
      ⟨{ c.shared with docs := c.shared.docs.rollback session }, c.threads.eraseIdx i⟩ entry :=
    fun hentry => ⟨hentry.1, fun u hu => hentry.2 u (hsub.subset hu)⟩
  refine ⟨fun u hu entry hjob hid => hleft (h.attempts u (hsub.subset hu) entry hjob hid),
    fun howes => ?_⟩
  obtain ⟨entry, hid, hentry⟩ := h.owed (howes.of_runs rfl)
  exact ⟨entry, hid, hleft hentry⟩

theorem Accounted.env {e : WorkEvent} {w : World} {new : List WorkThread} (h : Accounted x c)
    (hok : OneAtATime x c (.env e)) (henv : workEvent cfg c.shared e = some (w, new)) :
    Accounted x ⟨w, c.threads ++ new⟩ := by
  have hruns := workEvent_runs henv
  rcases workEvent_cases henv with ⟨job, hbegins, rfl⟩ | ⟨rfl, hstill⟩
  · have hafter : ∀ entry, job ≠ .after entry := by
      rintro entry rfl
      cases (hbegins.handled entry rfl).1
    have hleft : ∀ {entry}, Unacknowledged c entry → Unacknowledged ⟨w, c.threads ++
        [⟨⟨c.shared.fresh, job⟩, job.prog cfg c.shared.fresh⟩]⟩ entry := by
      intro entry hentry
      refine ⟨hbegins.pending entry hentry.1, fun u hu => ?_⟩
      rcases List.mem_append.mp hu with hu | hu
      · exact hentry.2 u hu
      · obtain rfl := List.mem_singleton.mp hu
        exact hafter entry
    refine ⟨fun u hu entry hjob hid => ?_, fun howes => ?_⟩
    · rcases List.mem_append.mp hu with hu | hu
      · exact hleft (h.attempts u hu entry hjob hid)
      · obtain rfl := List.mem_singleton.mp hu
        obtain rfl : job = .attempt entry := hjob
        refine ⟨(hbegins.handled entry rfl).2, fun u hu => ?_⟩
        rcases List.mem_append.mp hu with hu | hu
        · exact ((hok entry hbegins.handles hid).2 u hu).2
        · obtain rfl := List.mem_singleton.mp hu
          exact hafter entry
    · obtain ⟨entry, hid, hentry⟩ := h.owed (howes.of_runs hruns)
      exact ⟨entry, hid, hleft hentry⟩
  · have hleft : ∀ {entry}, Unacknowledged c entry → Unacknowledged ⟨w, c.threads ++ []⟩ entry :=
      fun hentry => ⟨hstill.pending ▸ hentry.1, fun u hu => hentry.2 u (by simpa using hu)⟩
    refine ⟨fun u hu entry hjob hid => hleft (h.attempts u (by simpa using hu) entry hjob hid),
      fun howes => ?_⟩
    obtain ⟨entry, hid, hentry⟩ := h.owed (howes.of_runs hruns)
    exact ⟨entry, hid, hleft hentry⟩

theorem Accounted.step (h : Accounted x c) (hsafe : (auditChainDiscipline cfg x).Safe c)
    (hok : OneAtATime x c move ∧ Sound c) (hstep : (factory cfg).step c move = some d) :
    Accounted x d := by
  obtain ⟨i, fate, t, cmd, rest, rfl, hi, hprog, _, rfl⟩ | ⟨i, t, result, rfl, hi, hended, rfl⟩ |
    ⟨i, t, rfl, hi, rfl⟩ | ⟨e, w, new, rfl, henv, rfl⟩ := System.step_cases hstep
  · have huses := hok.2.permitted t (List.mem_of_getElem? hi)
    rw [hprog] at huses
    exact h.run hi huses.1 _
  · exact h.exit hsafe hi hended
  · exact h.die i t.tag.number
  · exact h.env hok.1 henv

/-- In every state of a run in which the attempts of `x` come one at a time: at most one audit
was chained to `x`, and exactly one if `x` has succeeded with a dossier and none of its
entries waits for an acknowledgement. -/
theorem one_audit (reach : Reach (factory cfg) (OneAtATime x) ⟨World.opening docs, []⟩ c) :
    (∀ id id', c.shared.Audits x id → c.shared.Audits x id' → id = id') ∧
    ∀ row, c.shared.runs x = some row → row.status = .succeeded →
      row.workflow = .submitted .documentMining → truthy row.input.dossierKey = true →
      (∀ entry ∈ c.shared.pending, entry.message.call.execution ≠ x) →
      ∃ id, c.shared.Audits x id := by
  have hstart : (auditChainDiscipline cfg x).Safe ⟨World.opening docs, []⟩ := by
    refine ⟨?_, fun _ ht => (nomatch ht), List.Pairwise.nil⟩
    rintro id _ ⟨_, hrow, _⟩
    cases hrow
  have hsound := reach_sound reach
  have hsafe := hsound.safe (auditChainDiscipline cfg x) hstart
  have haccounted : Accounted x c := by
    have hboth := (hsound.strengthen fun _ h => h.safe (auditChainDiscipline cfg x) hstart).invariant
      (I := Accounted x) ⟨fun _ ht => (nomatch ht), fun howes => ?_⟩
      fun _ _ _ h hok hstep => h.step hok.2 hok.1 hstep
    · exact hboth
    · obtain ⟨⟨_, hrow, _⟩, _⟩ := howes
      cases hrow
  refine ⟨hsafe.inv, fun row hrow hs hworkflow hdossier hquiet => ?_⟩
  by_contra hnone
  obtain ⟨entry, hid, hleft⟩ :=
    haccounted.owed ⟨⟨row, hrow, hs, hworkflow, hdossier⟩, not_exists.mp hnone⟩
  exact hquiet entry hleft.1 hid

end Runs

/-- A plain move, or a delivery that finds no thread and no audit of run 3. -/
def firstAttempt (c : Factory) (move : Move Exc WorkEvent) : Bool :=
  plainMove move || match move with
    | .env .deliver => c.threads.isEmpty && (List.range c.shared.fresh).all fun id =>
        (c.shared.runs id).all fun row => row.chainedFrom ≠ some 3
    | _ => false

theorem oneAtATime_firstAttempt {c : Factory} {move : Move Exc WorkEvent} (hc : Sound c)
    (h : firstAttempt c move = true) : OneAtATime 3 c move := by
  rcases Bool.or_eq_true_iff.mp h with h | h
  · cases move with
    | run i fate => exact fun _ _ _ _ _ _ _ _ => of_decide_eq_true h
    | env e => exact fun entry he => by simp [plainMove_handles h] at he
    | _ => trivial
  · split at h
    · obtain ⟨hempty, hall⟩ := Bool.and_eq_true_iff.mp h
      refine fun _ _ _ => ⟨?_, fun _ ht => by simp [List.isEmpty_iff.mp hempty] at ht⟩
      rintro id ⟨row, hrow, hchained⟩
      have hmem := List.all_eq_true.mp hall id (List.mem_range.mpr (hc.rows id row hrow))
      simp [hrow, hchained] at hmem
    · cases h

theorem one_audit_mining :
    ∃ c id, Reach (factory quietWorker) (OneAtATime 3) ⟨World.opening textStore, []⟩ c ∧
      c.threads = [] ∧ c.shared.Audits 3 id ∧ ∀ id', c.shared.Audits 3 id' → id' = id := by
  have hrun : ((factory quietWorker).execWhen firstAttempt
      (minedWithDossier 13 ++ [.exit 0, .run 0 .done, .exit 0]) ⟨World.opening textStore, []⟩).any
      (fun c => c.threads.isEmpty && c.shared.pending.isEmpty && (c.shared.runs 3).any fun row =>
        row.status = .succeeded && row.workflow = .submitted .documentMining &&
        truthy row.input.dossierKey) = true := by
    decide +kernel
  obtain ⟨c, hc, hrest⟩ := (Option.any_eq_true _ _).mp hrun
  obtain ⟨hquiet, hrow⟩ := Bool.and_eq_true_iff.mp hrest
  obtain ⟨hthreads, hpending⟩ := Bool.and_eq_true_iff.mp hquiet
  obtain ⟨row, hrow, hs⟩ := (Option.any_eq_true _ _).mp hrow
  simp only [Bool.and_eq_true, decide_eq_true_eq] at hs
  have reach : Reach (factory quietWorker) (OneAtATime 3) ⟨World.opening textStore, []⟩ c :=
    Reach.start.execWhen (fun _ _ hreach h => oneAtATime_firstAttempt (sound_of_reach hreach) h) hc
  obtain ⟨honce, hexists⟩ := one_audit reach
  obtain ⟨id, haudit⟩ := hexists row hrow hs.1.1 hs.1.2 hs.2 fun entry hentry => by
    simp [List.isEmpty_iff.mp hpending] at hentry
  exact ⟨c, id, reach, List.isEmpty_iff.mp hthreads, haudit, fun id' h => honce id' id h haudit⟩

/-- The first attempt cannot send its audit and fails; the second one makes another. -/
def auditTwice : List (Move Exc WorkEvent) :=
  minedWithDossier 12 ++ [.run 0 (.lost (.external "unreachable"))] ++ awaits 0 4 ++ [.exit 0] ++
    awaits 0 2 ++ [.exit 0, .env .deliver] ++ awaits 0 13

theorem second_audit :
    ∃ c id id', (factory quietWorker).exec auditTwice ⟨World.opening textStore, []⟩ = some c ∧
      c.shared.Audits 3 id ∧ c.shared.Audits 3 id' ∧ id ≠ id' := by
  have hrun : ((factory quietWorker).exec auditTwice ⟨World.opening textStore, []⟩).any (fun c =>
      (c.shared.runs 5).any (fun row => row.chainedFrom = some 3) &&
        (c.shared.runs 10).any fun row => row.chainedFrom = some 3) = true := by
    decide +kernel
  obtain ⟨c, hc, hrest⟩ := (Option.any_eq_true _ _).mp hrun
  obtain ⟨hfirst, hsecond⟩ := Bool.and_eq_true_iff.mp hrest
  obtain ⟨row, hrow, hchained⟩ := (Option.any_eq_true _ _).mp hfirst
  obtain ⟨row', hrow', hchained'⟩ := (Option.any_eq_true _ _).mp hsecond
  exact ⟨c, 5, 10, hc, ⟨row, hrow, of_decide_eq_true hchained⟩,
    ⟨row', hrow', of_decide_eq_true hchained'⟩, by decide⟩

end Doci
