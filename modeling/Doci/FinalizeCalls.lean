import Doci.PurgeWindow

/-! Calls of `finalize` on one document, side by side, while the client may put its original again:
the programs with what they have seen and done, and the one row and blob that they work on. -/

namespace Doci

open Coroutine ReadCommitted

inductive FinalizeCmd where
  | store (session : Session) (c : DocCmd)
  | result (session : Session) (r : Except Exc DocumentRecord)

abbrev FinalizeReply : FinalizeCmd → Type
  | .store _ c => DocReply c
  | .result _ _ => Unit

structure FinalizePool where
  store : Store
  /-- When the URL runs out with which the client puts its original. -/
  expires : Time
  /-- The calls that have found the document new and are still running. -/
  looking : List Session := []
  /-- The calls that have written the status, the last one first. -/
  wrote : List Session := []
  /-- What a running call has read of the object. -/
  streamed : Session → Option Bytes := fun _ => none
  /-- What the call had read that made the document ready. -/
  checked : Option Bytes := none
  results : List (Session × Except Exc DocumentRecord) := []

inductive FinalizeEvent where
  | call
  | put (data : Bytes)
  | tick (duration : Time)

section Pool

variable (cfg : MediaConfig) (document : DocumentId)

def Store.findsNew (s : Store) : Bool :=
  (s.fetchDocument document false).any fun record => record.row.status = .new

/-- The session has written a version of the document's row. -/
def Store.holdsRow (s : Store) (session : Session) : Bool :=
  (s.document.slot document).dirty.any fun lock => lock.1 = session

def FinalizePool.looks (p : FinalizePool) (session : Session) : DocCmd → List Session
  | .fetchDocument id false =>
    if id = document ∧ p.store.findsNew document then session :: p.looking else p.looking
  | _ => p.looking

def FinalizePool.writes (p : FinalizePool) (session : Session) : DocCmd → List Session
  | .setStatus none id _ => if id = document then session :: p.wrote else p.wrote
  | .commit owner => if p.store.holdsRow document owner then session :: p.wrote else p.wrote
  | _ => p.wrote

def FinalizePool.reads (p : FinalizePool) (session : Session) : DocCmd → Session → Option Bytes
  | .streamObject key, t => if t = session then p.store.objects key else p.streamed t
  | _, t => p.streamed t

def FinalizePool.checks (p : FinalizePool) : DocCmd → Option Bytes
  | .commit owner => if p.store.holdsRow document owner then p.streamed owner else p.checked
  | _ => p.checked

/-- The call no longer runs. -/
def FinalizePool.leave (p : FinalizePool) (session : Session) : FinalizePool :=
  { p with
    looking := p.looking.filter (· ≠ session)
    streamed := fun t => if t = session then none else p.streamed t }

def FinalizePool.meaning :
    (c : FinalizeCmd) → FinalizePool → Except Exc (FinalizeReply c) × FinalizePool
  | .store session c, p => ((Store.meaning c p.store).1,
      { store := (Store.meaning c p.store).2
        looking := p.looks document session c
        wrote := p.writes document session c
        streamed := p.reads session c
        checked := p.checks document c
        expires := p.expires
        results := p.results })
  | .result session r, p =>
    (.ok (), { p.leave session with results := (session, r) :: p.results })

def FinalizePool.admits : FinalizeCmd → FinalizePool → Fate Exc → Bool
  | .store _ c, p, fate => Store.admits c p.store fate
  | .result _ _, _, fate => fate = .done

def onPool (session : Session) (c : DocCmd) : Prog FinalizeReply Exc (DocReply c) :=
  perform (FinalizeCmd.store session c)

theorem expand_statement (session : Session) (c : DocCmd) :
    (statement c).expand (onPool session) = onPool session c :=
  Prog.expand_perform _ _

theorem expand_transaction {α : Type} (session : Session) (body : Time → DocProg α) :
    (transaction session body).expand (onPool session) =
      (onPool session (.begin session)).bind fun now =>
        (((body now).expand (onPool session)).bind fun value =>
          (onPool session (.commit session)).bind fun _ => .ret value).tryCatch fun e =>
            ((onPool session (.rollback session)).tryCatch fun _ => .ret ()).bind fun _ =>
              .throw e := by
  show ((statement (.begin session)).bind fun now => ((body now).bind fun value =>
    (statement (.commit session)).bind fun _ => .ret value).tryCatch fun e =>
      ((statement (.rollback session)).tryCatch fun _ => .ret ()).bind fun _ =>
        .throw e).expand (onPool session) = _
  simp only [Prog.expand_bind, Prog.expand_tryCatch, expand_statement, Prog.expand]

def finalizeProg (session : Session) : Prog FinalizeReply Exc Unit :=
  ((finalize cfg session document).expand (onPool session)).settle
    fun r => perform (FinalizeCmd.result session r)

def finalizeEvent (p : FinalizePool) :
    FinalizeEvent → Option (FinalizePool × List (Thread FinalizeReply Exc Session))
  | .call => some ({ p with store := { p.store with fresh := p.store.fresh + 1 } },
      [⟨p.store.fresh, finalizeProg cfg document p.store.fresh⟩])
  | .put data =>
    if p.store.now < p.expires then
      some ({ p with store := { p.store with
          objects := fun k => if k = .original document then some data else p.store.objects k } }, [])
    else none
  | .tick duration =>
    some ({ p with store := { p.store with now := p.store.now + duration } }, [])

def finalizeCalls : System FinalizeReply Exc FinalizePool Session FinalizeEvent where
  meaning := FinalizePool.meaning document
  admits := FinalizePool.admits
  env := fun e p => finalizeEvent cfg document p e
  exit := fun _ _ => []
  death := fun session p => { p.leave session with store := p.store.rollback session }

/-- The row of the document refers to the row of its original. -/
structure OneOriginal (media : MediaId) (name : Option String) (s : Store) : Prop where
  keyed : s.mediaKey media = some (.original document)
  row : ∃ row, (s.document.slot document).committed = some row ∧ row.deletedAt = none ∧
    row.mediaId = media ∧ row.name = name
  row_dirty : ∀ t w, (s.document.slot document).dirty = some (t, w) → ∃ row, w = some row ∧
    row.deletedAt = none ∧ row.mediaId = media ∧ row.name = name
  blob : ∃ v, (s.media.slot (.original document)).committed = some v ∧ v.id = media
  blob_dirty : ∀ t w, (s.media.slot (.original document)).dirty = some (t, w) →
    ∃ v, w = some v ∧ v.id = media

/-- The committed status. -/
def Store.statusOf (s : Store) : Option DocumentStatus :=
  (s.document.slot document).committed.map (·.status)

end Pool

section Effects

variable {document : DocumentId} {media : MediaId} {name : Option String} {a : Session} {s t : Store}

theorem OneOriginal.fetched (h : OneOriginal document media name s) (includeDeleted : Bool) :
    ∃ record, s.fetchDocument document includeDeleted = some record ∧
      record.objectKey = .original document ∧ record.row.mediaId = media ∧
      record.row.name = name ∧ s.statusOf document = some record.row.status := by
  obtain ⟨row, hrow, hdel, hmedia, hname⟩ := h.row
  obtain ⟨v, hv, hid⟩ := h.blob
  have hview : s.document.view none document = some row := (Slot.view_none _).trans hrow
  have hblob : s.mediaRow none row.mediaId = some (.original document, v) := by
    have hviewed : s.media.view none (.original document) = some v := (Slot.view_none _).trans hv
    simp [Store.mediaRow, hmedia, h.keyed, hviewed, hid]
  refine ⟨⟨document, row, .original document, v.mimeType, v.sizeBytes⟩, ?_, rfl, hmedia, hname, ?_⟩
  · simp [Store.fetchDocument, hview, hblob, hdel]
  · rw [Store.statusOf, hrow]
    rfl

theorem OneOriginal.findsNew_iff (h : OneOriginal document media name s) :
    s.findsNew document = true ↔ s.statusOf document = some .new := by
  obtain ⟨record, hfetched, _, _, _, hstatus⟩ := h.fetched false
  simp [Store.findsNew, hfetched, hstatus]

theorem Store.holdsRow_iff : s.holdsRow document a = true ↔
    ∃ w, (s.document.slot document).dirty = some (a, w) := by
  unfold Store.holdsRow
  constructor
  · intro hany
    obtain ⟨⟨t, w⟩, hdirty, ht⟩ := (Option.any_eq_true _ _).mp hany
    exact ⟨w, of_decide_eq_true ht ▸ hdirty⟩
  · rintro ⟨w, hw⟩
    simp [hw]

/-- The slots of the document and of its original are the same. -/
theorem OneOriginal.same (h : OneOriginal document media name s) (hkey : t.mediaKey = s.mediaKey)
    (hdocument : t.document.slot document = s.document.slot document)
    (hmedia : t.media.slot (.original document) = s.media.slot (.original document)) :
    OneOriginal document media name t := by
  refine ⟨hkey ▸ h.keyed, ?_, ?_, ?_, ?_⟩
  · rw [hdocument]
    exact h.row
  · rw [hdocument]
    exact h.row_dirty
  · rw [hmedia]
    exact h.blob
  · rw [hmedia]
    exact h.blob_dirty

theorem document_commit : (s.commit a).document.slot document =
    (s.document.slot document).commit a := Table.slot_commit _ _ _

theorem document_rollback : (s.rollback a).document.slot document =
    (s.document.slot document).rollback a := Table.slot_rollback _ _ _

theorem media_commit {k : ObjectKey} : (s.commit a).media.slot k = (s.media.slot k).commit a :=
  Table.slot_commit _ _ _

theorem media_rollback {k : ObjectKey} :
    (s.rollback a).media.slot k = (s.media.slot k).rollback a := Table.slot_rollback _ _ _

theorem OneOriginal.commit (h : OneOriginal document media name s) :
    OneOriginal document media name (s.commit a) := by
  refine ⟨h.keyed, ?_, fun t w hw => ?_, ?_, fun t w hw => ?_⟩
  · rw [document_commit]
    obtain ⟨w, hdirty, hnew⟩ | ⟨_, hsame⟩ := Slot.commit_cases a (s.document.slot document)
    · obtain ⟨row, rfl, hrow⟩ := h.row_dirty a w hdirty
      exact ⟨row, by rw [hnew], hrow⟩
    · rw [hsame]
      exact h.row
  · rw [document_commit] at hw
    exact h.row_dirty t w (Slot.dirty_commit.mp hw).1
  · rw [media_commit]
    obtain ⟨w, hdirty, hnew⟩ | ⟨_, hsame⟩ :=
      Slot.commit_cases a (s.media.slot (.original document))
    · obtain ⟨v, rfl, hv⟩ := h.blob_dirty a w hdirty
      exact ⟨v, by rw [hnew], hv⟩
    · rw [hsame]
      exact h.blob
  · rw [media_commit] at hw
    exact h.blob_dirty t w (Slot.dirty_commit.mp hw).1

theorem OneOriginal.rollback (h : OneOriginal document media name s) :
    OneOriginal document media name (s.rollback a) := by
  refine ⟨h.keyed, ?_, fun t w hw => ?_, ?_, fun t w hw => ?_⟩
  · rw [document_rollback, Slot.committed_rollback]
    exact h.row
  · rw [document_rollback] at hw
    exact h.row_dirty t w (Slot.dirty_rollback.mp hw).1
  · rw [media_rollback, Slot.committed_rollback]
    exact h.blob
  · rw [media_rollback] at hw
    exact h.blob_dirty t w (Slot.dirty_rollback.mp hw).1

theorem OneOriginal.view_row (h : OneOriginal document media name s) (session : Option Session) :
    ∃ row, (s.document.slot document).view session = some row ∧ row.deletedAt = none ∧
      row.mediaId = media ∧ row.name = name := by
  cases session with
  | none =>
    rw [Slot.view_none]
    exact h.row
  | some a =>
    rcases Slot.view_cases a (s.document.slot document) with ⟨w, hw, hview⟩ | ⟨_, hview⟩
    · obtain ⟨row, rfl, hrow⟩ := h.row_dirty a w hw
      exact ⟨row, hview, hrow⟩
    · rw [hview]
      exact h.row

theorem OneOriginal.view_blob (h : OneOriginal document media name s) (session : Option Session) :
    ∃ v, (s.media.slot (.original document)).view session = some v ∧ v.id = media := by
  cases session with
  | none =>
    rw [Slot.view_none]
    exact h.blob
  | some a =>
    rcases Slot.view_cases a (s.media.slot (.original document)) with ⟨w, hw, hview⟩ | ⟨_, hview⟩
    · obtain ⟨v, rfl, hv⟩ := h.blob_dirty a w hw
      exact ⟨v, hview, hv⟩
    · rw [hview]
      exact h.blob

/-- `UPDATE document SET status`. -/
theorem OneOriginal.setStatus_slot (h : OneOriginal document media name s)
    {session : Option Session} {status : DocumentStatus}
    (hfree : s.waits (.setStatus session document status) = false) :
    (s.document.slot document).free session = true ∧ ∃ row, row.deletedAt = none ∧
      row.mediaId = media ∧ row.name = name ∧ row.status = status ∧
      (s.setStatus session document status).document.slot document =
        (s.document.slot document).write session (some row) := by
  obtain ⟨row, hview, hdel, hmedia, hname⟩ := h.view_row session
  have hwaits : s.document.freeWhere session (fun k _ => k = document) = true := by
    simpa only [Store.waits, Bool.not_eq_false'] using hfree
  refine ⟨Table.free_of_freeWhere hwaits hview (decide_eq_true rfl),
    { row with status := status }, hdel, hmedia, hname, rfl, ?_⟩
  rw [Store.setStatus, Table.slot_rewrite, hview, Option.bind_some, if_pos rfl]

/-- `UPDATE media SET mime_type, size_bytes`. -/
theorem OneOriginal.setContent_slot (h : OneOriginal document media name s)
    {session : Option Session} {mime : Mime} {size : Nat}
    (hfree : s.waits (.setContent session media mime size) = false) :
    (s.media.slot (.original document)).free session = true ∧ ∃ v, v.id = media ∧
      v.mimeType = some mime ∧ v.sizeBytes = some size ∧
      (s.setContent session media mime size).media.slot (.original document) =
        (s.media.slot (.original document)).write session (some v) := by
  obtain ⟨v, hview, hid⟩ := h.view_blob session
  have hwaits : s.media.freeWhere session (fun _ row => row.id = media) = true := by
    simpa only [Store.waits, Bool.not_eq_false'] using hfree
  refine ⟨Table.free_of_freeWhere hwaits hview (decide_eq_true hid),
    { v with mimeType := some mime, sizeBytes := some size }, hid, rfl, rfl, ?_⟩
  rw [Store.setContent, Table.slot_rewrite, hview, Option.bind_some, if_pos hid]

theorem OneOriginal.setStatus (h : OneOriginal document media name s) {session : Option Session}
    {status : DocumentStatus} (hfree : s.waits (.setStatus session document status) = false) :
    OneOriginal document media name (s.setStatus session document status) := by
  obtain ⟨_, row, hdel, hmedia, hname, _, hnew⟩ := h.setStatus_slot hfree
  refine ⟨h.keyed, ?_, fun t w hw => ?_, h.blob, h.blob_dirty⟩
  · rw [hnew]
    cases session with
    | none => exact ⟨row, rfl, hdel, hmedia, hname⟩
    | some a => exact h.row
  · rw [hnew] at hw
    cases session with
    | none => exact h.row_dirty t w hw
    | some a =>
      obtain ⟨_, rfl⟩ := Prod.mk.inj (Option.some.inj hw)
      exact ⟨row, rfl, hdel, hmedia, hname⟩

theorem OneOriginal.setContent (h : OneOriginal document media name s) {session : Option Session}
    {mime : Mime} {size : Nat} (hfree : s.waits (.setContent session media mime size) = false) :
    OneOriginal document media name (s.setContent session media mime size) := by
  obtain ⟨_, v, hid, _, _, hnew⟩ := h.setContent_slot hfree
  refine ⟨h.keyed, h.row, h.row_dirty, ?_, fun t w hw => ?_⟩
  · rw [hnew]
    cases session with
    | none => exact ⟨v, rfl, hid⟩
    | some a => exact h.blob
  · rw [hnew] at hw
    cases session with
    | none => exact h.blob_dirty t w hw
    | some a =>
      obtain ⟨_, rfl⟩ := Prod.mk.inj (Option.some.inj hw)
      exact ⟨v, rfl, hid⟩

theorem Store.stream_snd (key : ObjectKey) (s : Store) :
    (Store.meaning (.streamObject key) s).2 = s := by
  simp only [Store.meaning]
  split <;> rfl

theorem Store.stream_ok {key : ObjectKey} {data : Bytes}
    (h : (Store.meaning (.streamObject key) s).1 = .ok data) : s.objects key = some data := by
  simp only [Store.meaning] at h
  split at h
  · next stored heq => exact heq.trans (congrArg some (Except.ok.inj h))
  · cases h

theorem Store.stream_error {key : ObjectKey} {e : Exc}
    (h : (Store.meaning (.streamObject key) s).1 = .error e) : e.fromOutside = true := by
  simp only [Store.meaning] at h
  split at h
  · cases h
  · exact Except.error.inj h ▸ rfl

end Effects

section Statements

variable {document : DocumentId} {a : Session} {p : FinalizePool}
  {K : Contract FinalizeReply Exc FinalizePool}

/-- The pool after a statement of session `a`. -/
abbrev FinalizePool.after (document : DocumentId) (a : Session) (c : DocCmd) (p : FinalizePool) :
    FinalizePool :=
  (FinalizePool.meaning document (.store a c) p).2

/-- One statement of a call. Where its effect does not take place the call is given an exception
from outside. -/
theorem keeps_onPool {c : DocCmd} {A : DocReply c → FinalizePool → Prop}
    {E : Exc → FinalizePool → Prop} (hmeaning : K.meaning = FinalizePool.meaning document)
    (hadmits : ∀ q fate, K.fate (.store a c) q fate → Store.admits c q.store fate = true)
    (hself : ∀ q, K.guar q q)
    (hlost : ∀ q e, K.rely p q → K.inv q → (∀ session, c ≠ .rollback session) →
      e.fromOutside = true → E e q)
    (hdone : ∀ q fate, K.rely p q → K.inv q → K.fate (.store a c) q fate →
      q.store.waits c = false →
      K.inv (q.after document a c) ∧ K.guar q (q.after document a c) ∧
        ∀ r, K.rely (q.after document a c) r → K.inv r →
          Outcome A E (Store.meaning c q.store).1 r ∧ ∀ e, e.fromOutside = true → E e r) :
    Keeps K (Outcome A E) (onPool a c) p := by
  have hraised : ∀ q fate e, Store.admits c q fate = true → fate.raised = some e →
      e.fromOutside = true := by
    intro q fate e h he
    have hall := (Bool.and_eq_true_iff.mp h).1
    rw [he] at hall
    exact hall
  have hback : ∀ q e, Store.admits c q (.lost e) = true → ∀ session, c ≠ .rollback session := by
    rintro q e h session rfl
    simp [Store.admits] at h
  apply Keeps.effect
  · intro q e hrely _ hfate
    have h := hadmits q _ hfate
    exact ⟨hself q, fun r hr hinv =>
      hlost r e (K.rely_trans hrely hr) hinv (hback _ e h) (hraised _ _ e h rfl)⟩
  · intro q fate hrely hinv hfate hnot
    have h := hadmits q fate hfate
    have hfree : q.store.waits c = false := by
      rcases Store.admits_cases h with ⟨e, rfl, _⟩ | hfree
      · exact absurd rfl (hnot e)
      · exact hfree
    obtain ⟨hsound, hguar, hpost⟩ := hdone q fate hrely hinv hfate hfree
    rw [hmeaning]
    refine ⟨hsound, hguar, fun r hr hi => ⟨(hpost r hr hi).1, ?_⟩⟩
    rintro e rfl
    exact (hpost r hr hi).2 e (hraised _ _ e h rfl)

end Statements

section Events

variable {cfg : MediaConfig} {document : DocumentId} {p : FinalizePool}

theorem finalizeCalls_exit_apart {a : Session} {r : Except Exc Unit} :
    ∀ t ∈ (finalizeCalls cfg document).exit a r, ∀ b, b ≠ a → b ≠ t.tag :=
  fun _ ht => nomatch ht

theorem finalizeEvent_cases {e : FinalizeEvent} {q : FinalizePool}
    {new : List (Thread FinalizeReply Exc Session)}
    (h : finalizeEvent cfg document p e = some (q, new)) :
    (∃ s, q = { p with store := s } ∧ s.media = p.store.media ∧ s.document = p.store.document ∧
      s.mediaKey = p.store.mediaKey ∧ p.store.fresh ≤ s.fresh ∧
      ((∃ data, e = .put data ∧ s.objects (.original document) = some data) ∨
        s.objects = p.store.objects)) ∧
      (new = [] ∨ new = [⟨p.store.fresh, finalizeProg cfg document p.store.fresh⟩] ∧
        p.store.fresh < q.store.fresh) := by
  cases e with
  | call =>
    obtain ⟨rfl, rfl⟩ := Prod.mk.inj (Option.some.inj h)
    exact ⟨⟨_, rfl, rfl, rfl, rfl, Nat.le_succ _, .inr rfl⟩, .inr ⟨rfl, Nat.lt_succ_self _⟩⟩
  | put data =>
    obtain ⟨_, h⟩ := Option.ite_none_right_eq_some.mp h
    obtain ⟨rfl, rfl⟩ := Prod.mk.inj (Option.some.inj h)
    exact ⟨⟨_, rfl, rfl, rfl, rfl, le_rfl, .inl ⟨data, rfl, if_pos rfl⟩⟩, .inl rfl⟩
  | tick duration =>
    obtain ⟨rfl, rfl⟩ := Prod.mk.inj (Option.some.inj h)
    exact ⟨⟨_, rfl, rfl, rfl, rfl, le_rfl, .inr rfl⟩, .inl rfl⟩

theorem finalizeEvent_fresh {e : FinalizeEvent} {q : FinalizePool}
    {new : List (Thread FinalizeReply Exc Session)}
    (h : finalizeEvent cfg document p e = some (q, new)) : p.store.fresh ≤ q.store.fresh := by
  obtain ⟨⟨s, rfl, _, _, _, hfresh, _⟩, _⟩ := finalizeEvent_cases h
  exact hfresh

/-- The calls that run have numbers below the next one. -/
def CallsNumbered (c : Config FinalizeReply Exc FinalizePool Session) : Prop :=
  ∀ t ∈ c.threads, t.tag < c.shared.store.fresh

theorem callsNumbered_reach {start c : Config FinalizeReply Exc FinalizePool Session}
    {ok : Config FinalizeReply Exc FinalizePool Session → Move Exc FinalizeEvent → Prop}
    (reach : Reach (finalizeCalls cfg document) ok start c) (h : CallsNumbered start) :
    CallsNumbered c := by
  refine reach.tags (K := fun n (p : FinalizePool) => n < p.store.fresh) h (fun n cmd q hn => ?_)
    (fun _ _ _ _ => nofun) (fun _ _ _ hn => hn) fun e q q' new henv => ?_
  · cases cmd with
    | store session cmd => exact hn.trans_le (Store.fresh_le cmd q.store)
    | result session r => exact hn
  · have hfresh := finalizeEvent_fresh henv
    refine ⟨fun n hn => hn.trans_le hfresh, fun t ht => ?_⟩
    obtain ⟨_, rfl | ⟨rfl, hlt⟩⟩ := finalizeEvent_cases henv
    · exact nomatch ht
    · rw [List.mem_singleton.mp ht]
      exact hlt

theorem finalizeEvent_apart {e : FinalizeEvent} {q : FinalizePool}
    {new : List (Thread FinalizeReply Exc Session)}
    {c : Config FinalizeReply Exc FinalizePool Session} (hnumbered : CallsNumbered c)
    (h : finalizeEvent cfg document c.shared e = some (q, new)) :
    (new.map Thread.tag).Pairwise (· ≠ ·) ∧ ∀ t ∈ c.threads, ∀ u ∈ new, t.tag ≠ u.tag := by
  obtain ⟨_, rfl | ⟨rfl, _⟩⟩ := finalizeEvent_cases h
  · exact ⟨List.Pairwise.nil, fun _ _ u hu => nomatch hu⟩
  · refine ⟨List.pairwise_singleton _ _, fun t ht u hu => ?_⟩
    rw [List.mem_singleton.mp hu]
    exact (hnumbered t ht).ne

end Events

def Exc.refuses : Exc → Bool
  | tooLarge _ => true
  | unsupportedType _ => true
  | _ => false

/-- Beside a refusal, `validate_object` raises only what comes from outside. -/
theorem validate_refuses {cfg : MediaConfig} {key : ObjectKey} {data : Bytes}
    {claimed : Option String} {e : Exc} (h : validate cfg key data claimed = .error e) :
    e.refuses = true ∨ ∃ text, e = .external text := by
  unfold validate at h
  split at h
  · exact nomatch h
  · exact .inl (Except.error.inj h ▸ rfl)
  · exact .inl (Except.error.inj h ▸ rfl)
  · exact .inr ⟨_, (Except.error.inj h).symm⟩

section Stages

variable {cfg : MediaConfig} {document : DocumentId} {a : Session} {p : FinalizePool}
  {K : Contract FinalizeReply Exc FinalizePool} {E : Exc → FinalizePool → Prop}

theorem keeps_fetchOn {includeDeleted : Bool} {A : DocumentRecord → FinalizePool → Prop}
    (hinv : K.inv p)
    (hread : Keeps K (Outcome (fun found q => ∃ record, found = some record ∧ A record q) E)
      (onPool a (.fetchDocument document includeDeleted)) p) :
    Keeps K (Outcome A E) ((fetch document includeDeleted).expand (onPool a)) p := by
  rw [fetch, bind_eq, Prog.expand_bind, expand_statement]
  apply hread.settle hinv
  intro r q hinv hmid
  cases r with
  | error e => exact hmid
  | ok found =>
    obtain ⟨record, rfl, _⟩ := hmid q (K.rely_refl q) hinv
    intro t ht hi
    obtain ⟨record', heq, hA⟩ := hmid t ht hi
    exact Option.some.inj heq ▸ hA

theorem keeps_validateOn {key : ObjectKey} {claimed : Option String}
    {A : Mime × Nat → FinalizePool → Prop} (hinv : K.inv p)
    (hread : Keeps K (Outcome (fun data q =>
      (∀ found, validate cfg key data claimed = .ok found → A found q) ∧
        ∀ e, validate cfg key data claimed = .error e → E e q) E) (onPool a (.streamObject key)) p) :
    Keeps K (Outcome A E) ((validateStored cfg key claimed).expand (onPool a)) p := by
  rw [validateStored, bind_eq, Prog.expand_bind, expand_statement]
  apply hread.settle hinv
  intro r q hinv hmid
  cases r with
  | error e => exact hmid
  | ok data =>
    dsimp only
    cases hvalid : validate cfg key data claimed with
    | ok found => exact fun t ht hi => (hmid t ht hi).1 found hvalid
    | error e => exact fun t ht hi => (hmid t ht hi).2 e hvalid

/-- `Postgres.transaction`. -/
theorem keeps_transactionOn {α : Type} {body : Time → DocProg α} {B : Time → FinalizePool → Prop}
    {M A : α → FinalizePool → Prop} {F : Exc → FinalizePool → Prop} (hinv : K.inv p)
    (hbegin : Keeps K (Outcome B E) (onPool a (.begin a)) p)
    (hbody : ∀ now q, K.inv q → B now q → Keeps K (Outcome M F) ((body now).expand (onPool a)) q)
    (hcommit : ∀ value q, K.inv q → M value q →
      Keeps K (Outcome (fun _ q => A value q) F) (onPool a (.commit a)) q)
    (hrollback : ∀ e q, K.inv q → F e q →
      Keeps K (Outcome (fun _ q => E e q) fun _ q => E e q) (onPool a (.rollback a)) q) :
    Keeps K (Outcome A E) ((transaction a body).expand (onPool a)) p := by
  rw [expand_transaction]
  apply hbegin.next hinv ?_ fun _ _ h => h
  intro now q hinv hB
  have hdone : Keeps K (Outcome A F) (((body now).expand (onPool a)).bind fun value =>
      (onPool a (.commit a)).bind fun _ => .ret value) q := by
    apply (hbody now q hinv hB).next hinv ?_ fun _ _ h => h
    intro value r hinv hM
    apply (hcommit value r hinv hM).settle hinv
    intro reply t _ hmid
    cases reply with
    | ok _ => exact hmid
    | error e => exact hmid
  apply hdone.rescue hinv
  intro e r hinv hF
  have hundone : Keeps K (Outcome (fun _ q => E e q) fun _ _ => False)
      ((onPool a (.rollback a)).tryCatch fun _ => .ret ()) r := by
    apply (hrollback e r hinv hF).settle hinv
    intro reply t _ hmid
    cases reply with
    | ok _ => exact hmid
    | error _ => exact hmid
  apply hundone.settle hinv
  intro reply t hinv hmid
  cases reply with
  | ok _ => exact hmid
  | error _ => exact (hmid t (K.rely_refl t) hinv).elim

/-- The handler of `finalize` around the validation. -/
theorem keeps_refuseOn {A : Mime × Nat → FinalizePool → Prop} {Refused : FinalizePool → Prop}
    {e : Exc} (hinv : K.inv p) (hmid : ∀ t, K.rely p t → K.inv t → Refused t)
    (hraise : ∀ q, Refused q → e.refuses = false → E e q)
    (hrefuse : ∀ q, K.inv q → Refused q → e.refuses = true →
      Keeps K (Outcome (fun _ q => E e q) E) (onPool a (.setStatus none document .invalid)) q) :
    Keeps K (Outcome A E) (Prog.expand (onPool a) ((fun e => match e with
      | .tooLarge _ | .unsupportedType _ => do
        statement (.setStatus none document .invalid)
        throw e
      | _ => throw e : Exc → DocProg (Mime × Nat)) e)) p := by
  have hwrite : e.refuses = true → Keeps K (Outcome A E)
      (((statement (.setStatus none document .invalid)).bind fun _ =>
        (.throw e : DocProg (Mime × Nat))).expand (onPool a)) p := by
    intro he
    rw [Prog.expand_bind, expand_statement]
    apply (hrefuse p hinv (hmid p (K.rely_refl p) hinv) he).settle hinv
    intro reply t _ hmid
    cases reply with
    | ok _ => exact hmid
    | error _ => exact hmid
  cases e with
  | tooLarge key => exact hwrite rfl
  | unsupportedType key => exact hwrite rfl
  | _ => exact fun t ht hi => hraise t (hmid t ht hi) rfl

/-- `finalize` by its stages: the document is found, its original is accepted or refused, and the
rows are written. -/
theorem keeps_finalizeOn {A : DocumentRecord → FinalizePool → Prop}
    {V : DocumentRecord → Mime × Nat → FinalizePool → Prop} {D : FinalizePool → Prop}
    {R : Exc → FinalizePool → Prop} (hinv : K.inv p)
    (hfetch : Keeps K (Outcome A E) ((fetch document false).expand (onPool a)) p)
    (hfinal : ∀ doc q, A doc q → doc.row.status ≠ .new → E (.alreadyFinalized document) q)
    (hvalidate : ∀ doc q, K.inv q → A doc q → doc.row.status = .new →
      Keeps K (Outcome (V doc) R)
        ((validateStored cfg doc.objectKey doc.row.name).expand (onPool a)) q)
    (hraise : ∀ e q, R e q → e.refuses = false → E e q)
    (hrefuse : ∀ e q, K.inv q → R e q → e.refuses = true →
      Keeps K (Outcome (fun _ q => E e q) E) (onPool a (.setStatus none document .invalid)) q)
    (hfill : ∀ doc found q, K.inv q → V doc found q →
      Keeps K (Outcome (fun _ => D) E)
        ((transaction a fun _ => do
          statement (.setContent (some a) doc.row.mediaId found.1 found.2)
          statement (.setStatus (some a) document .ready)).expand (onPool a)) q)
    (hreview : ∀ q, K.inv q → D q →
      Keeps K (Outcome (fun _ => D) E) ((fetch document true).expand (onPool a)) q) :
    Keeps K (Outcome (fun _ => D) E) ((finalize cfg a document).expand (onPool a)) p := by
  rw [finalize, bind_eq, Prog.expand_bind]
  apply hfetch.settle hinv
  intro r q hinv hmid
  cases r with
  | error e => exact hmid
  | ok doc =>
    have hfound := hmid q (K.rely_refl q) hinv
    show Keeps K _ (Prog.expand (onPool a) (if doc.row.status ≠ .new then _ else _)) q
    by_cases hstatus : doc.row.status = .new
    · rw [if_neg (not_not.mpr hstatus), bind_eq, Prog.expand_bind, tryCatch_eq,
        Prog.expand_tryCatch]
      have hchecked : Keeps K (Outcome (V doc) E)
          (((validateStored cfg doc.objectKey doc.row.name).expand (onPool a)).tryCatch fun e =>
            Prog.expand (onPool a) (match e with
              | .tooLarge _ | .unsupportedType _ => do
                statement (.setStatus none document .invalid)
                throw e
              | _ => throw e)) q := by
        apply (hvalidate doc q hinv hfound hstatus).settle hinv
        intro r t hinv hmid
        cases r with
        | ok found => exact hmid
        | error e => exact keeps_refuseOn hinv hmid (hraise e) (hrefuse e)
      apply hchecked.next hinv ?_ fun _ _ h => h
      rintro ⟨mime, size⟩ r hinv hvalid
      have hwritten : Keeps K (Outcome (fun _ => D) E)
          (((transaction a fun _ => do
            statement (.setContent (some a) doc.row.mediaId mime size)
            statement (.setStatus (some a) document .ready)).expand (onPool a)).bind fun _ =>
              (fetch document true).expand (onPool a)) r :=
        (hfill doc (mime, size) r hinv hvalid).next hinv (fun _ t hinv hdone => hreview t hinv hdone)
          fun _ _ h => h
      rw [← Prog.expand_bind] at hwritten
      exact hwritten
    · rw [if_pos hstatus]
      exact fun t ht hi => hfinal doc t (hmid t ht hi) hstatus

end Stages

section Example

/-- The header of a PNG file. -/
def pngBytes : Bytes := [0x89] ++ ascii "PNG" ++ [0x0d, 0x0a, 0x1a, 0x0a]

/-- A document whose original has been put and not looked at. -/
def uploadedStore : Store where
  media := Table.empty.insert none (.original 1) { id := 2, mimeType := none, sizeBytes := none }
  document := Table.empty.insert none 1 { mediaId := 2, name := none }
  part := Table.empty
  objects := fun k => if k = .original 1 then some pngBytes else none
  mediaKey := fun m => if m = 2 then some (.original 1) else none
  partKey := fun _ => none
  snapshots := fun _ => []
  now := 0
  fresh := 3

theorem uploadedStore_original : OneOriginal 1 2 none uploadedStore := by
  refine ⟨rfl, ⟨{ mediaId := 2, name := none }, rfl, rfl, rfl, rfl⟩, fun t w hw => (nomatch hw),
    ⟨{ id := 2, mimeType := none, sizeBytes := none }, rfl, rfl⟩, fun t w hw => (nomatch hw)⟩

/-- The pool of that document, of which the URL runs out after an hour. -/
def uploadedPool : Config FinalizeReply Exc FinalizePool Session :=
  ⟨{ store := uploadedStore, expires := 3600000000 }, []⟩

end Example

end Doci
