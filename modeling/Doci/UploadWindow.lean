import Doci.FinalizeCalls

/-! Calls of `finalize` while the client keeps the URL of its upload: when what is stored is still
what `validate_object` accepted. -/

namespace Doci

open Coroutine ReadCommitted

section Contract

variable (cfg : MediaConfig) (document : DocumentId) (media : MediaId) (name : Option String)

/-- What `validate_object` finds in the original when it is `data`. -/
def Accepts (data : Bytes) (mime : Mime) (size : Nat) : Prop :=
  validate cfg (.original document) data name = .ok (mime, size)

/-- The row of the original says what the validation of `data` found. -/
def Describes (row : MediaRow) (data : Bytes) : Prop :=
  ∃ mime size, Accepts cfg document name data mime size ∧ row.mimeType = some mime ∧
    row.sizeBytes = some size

/-- The row and the object of the original are those that made the document ready. -/
def Checked (p : FinalizePool) : Prop :=
  ∃ data row, p.checked = some data ∧ p.store.objects (.original document) = some data ∧
    (p.store.media.slot (.original document)).committed = some row ∧
    Describes cfg document name row data

structure Unreplaced (p : FinalizePool) : Prop where
  original : OneOriginal document media name p.store
  /-- Bytes that a running call has accepted are still stored. -/
  seen : ∀ t data mime size, p.streamed t = some data → Accepts cfg document name data mime size →
    p.store.objects (.original document) = some data
  reader : ∀ t data, p.streamed t = some data → t < p.store.fresh
  row_lock : ∀ t w, (p.store.document.slot document).dirty = some (t, w) →
    ∃ v, (p.store.media.slot (.original document)).dirty = some (t, some v)
  blob_lock : ∀ t w, (p.store.media.slot (.original document)).dirty = some (t, w) →
    ∃ v data, w = some v ∧ p.streamed t = some data ∧ Describes cfg document name v data
  ready : p.store.statusOf document = some .ready → Checked cfg document name p

/-- What session `a` relies on: its locks and what it has read are its own. -/
structure UploadRely (a : Session) (p q : FinalizePool) : Prop where
  streamed : q.streamed a = p.streamed a
  row_lock : ∀ w, (q.store.document.slot document).dirty = some (a, w) ↔
    (p.store.document.slot document).dirty = some (a, w)
  blob_lock : ∀ w, (q.store.media.slot (.original document)).dirty = some (a, w) ↔
    (p.store.media.slot (.original document)).dirty = some (a, w)

def UploadGuar (a : Session) (p q : FinalizePool) : Prop := ∀ b, b ≠ a → UploadRely document b p q

theorem UploadRely.refl (a : Session) (p : FinalizePool) : UploadRely document a p p :=
  ⟨rfl, fun _ => Iff.rfl, fun _ => Iff.rfl⟩

theorem UploadRely.trans {a : Session} {p q r : FinalizePool} (h : UploadRely document a p q)
    (h' : UploadRely document a q r) : UploadRely document a p r :=
  ⟨h'.streamed.trans h.streamed, fun w => (h'.row_lock w).trans (h.row_lock w),
    fun w => (h'.blob_lock w).trans (h.blob_lock w)⟩

def uploadContract (a : Session) : Contract FinalizeReply Exc FinalizePool where
  meaning := FinalizePool.meaning document
  inv := Unreplaced cfg document media name
  rely := UploadRely document a
  guar := UploadGuar document a
  fate := fun c p fate => FinalizePool.admits c p fate = true ∧ a < p.store.fresh
  rely_refl := UploadRely.refl document a
  rely_trans := UploadRely.trans document

/-- The session has no version of the rows. -/
structure NoVersion (a : Session) (p : FinalizePool) : Prop where
  row : ∀ w, (p.store.document.slot document).dirty ≠ some (a, w)
  blob : ∀ w, (p.store.media.slot (.original document)).dirty ≠ some (a, w)

end Contract

section Effects

variable {cfg : MediaConfig} {document : DocumentId} {media : MediaId} {name : Option String}
  {a : Session} {p q : FinalizePool}

theorem NoVersion.later (h : NoVersion document a p) (hrely : UploadRely document a p q) :
    NoVersion document a q :=
  ⟨fun w hw => h.row w ((hrely.row_lock w).mp hw), fun w hw => h.blob w ((hrely.blob_lock w).mp hw)⟩

/-- Neither the rows nor what the calls have read change, nor the original. -/
structure SameUpload (document : DocumentId) (p q : FinalizePool) : Prop where
  row : q.store.document.slot document = p.store.document.slot document
  blob : q.store.media.slot (.original document) = p.store.media.slot (.original document)
  object : q.store.objects (.original document) = p.store.objects (.original document)
  key : q.store.mediaKey = p.store.mediaKey
  fresh : p.store.fresh ≤ q.store.fresh
  streamed : q.streamed = p.streamed
  checked : q.checked = p.checked

theorem SameUpload.rely (h : SameUpload document p q) (a : Session) : UploadRely document a p q :=
  ⟨by rw [h.streamed], fun w => by rw [h.row], fun w => by rw [h.blob]⟩

theorem SameUpload.sound (h : SameUpload document p q) (hinv : Unreplaced cfg document media name p) :
    Unreplaced cfg document media name q := by
  refine ⟨hinv.original.same h.key h.row h.blob, fun t data mime size ht hacc => ?_,
    fun t data ht => ?_, fun t w hw => ?_, fun t w hw => ?_, fun hready => ?_⟩
  · rw [h.object]
    exact hinv.seen t data mime size (h.streamed ▸ ht) hacc
  · exact (hinv.reader t data (h.streamed ▸ ht)).trans_le h.fresh
  · rw [h.blob]
    exact hinv.row_lock t w (h.row ▸ hw)
  · rw [h.streamed]
    exact hinv.blob_lock t w (h.blob ▸ hw)
  · have hstatus : p.store.statusOf document = some .ready := by
      rw [← hready, Store.statusOf, Store.statusOf, h.row]
    obtain ⟨data, row, hchecked, hobject, hrow, hdescribes⟩ := hinv.ready hstatus
    exact ⟨data, row, h.checked ▸ hchecked, h.object ▸ hobject, h.blob ▸ hrow, hdescribes⟩

theorem Unreplaced.aside {c : DocCmd} (h : Unreplaced cfg document media name p)
    (hsame : SameUpload document p (p.after document a c)) :
    Unreplaced cfg document media name (p.after document a c) ∧
      UploadGuar document a p (p.after document a c) :=
  ⟨hsame.sound h, fun b _ => hsame.rely b⟩

/-- The read of the original. -/
theorem Unreplaced.stream (h : Unreplaced cfg document media name p) (hlt : a < p.store.fresh)
    (hno : NoVersion document a p) :
    Unreplaced cfg document media name (p.after document a (.streamObject (.original document))) ∧
      UploadGuar document a p (p.after document a (.streamObject (.original document))) := by
  have hstore : (p.after document a (.streamObject (.original document))).store = p.store :=
    Store.stream_snd _ _
  have hstreamed : ∀ t, (p.after document a (.streamObject (.original document))).streamed t =
      if t = a then p.store.objects (.original document) else p.streamed t := fun t => rfl
  have hother : ∀ t, t ≠ a →
      (p.after document a (.streamObject (.original document))).streamed t = p.streamed t := by
    intro t ht
    rw [hstreamed, if_neg ht]
  refine ⟨⟨hstore ▸ h.original, fun t data mime size ht hacc => ?_, fun t data ht => ?_,
    fun t w hw => ?_, fun t w hw => ?_, fun hready => ?_⟩, fun b hb => ⟨hother b hb, ?_, ?_⟩⟩
  · rw [hstore]
    by_cases heq : t = a
    · rwa [hstreamed, if_pos heq] at ht
    · rw [hother t heq] at ht
      exact h.seen t data mime size ht hacc
  · rw [hstore]
    by_cases heq : t = a
    · exact heq ▸ hlt
    · rw [hother t heq] at ht
      exact h.reader t data ht
  · rw [hstore] at hw ⊢
    exact h.row_lock t w hw
  · rw [hstore] at hw
    have hne : t ≠ a := fun heq => hno.blob w (heq ▸ hw)
    rw [hother t hne]
    exact h.blob_lock t w hw
  · rw [hstore] at hready
    obtain ⟨data, row, hchecked, hobject, hrow, hdescribes⟩ := h.ready hready
    exact ⟨data, row, hchecked, hstore ▸ hobject, hstore ▸ hrow, hdescribes⟩
  · rw [hstore]
    exact fun w => Iff.rfl
  · rw [hstore]
    exact fun w => Iff.rfl

/-- `UPDATE document SET status` outside a transaction. -/
theorem Unreplaced.invalidate (h : Unreplaced cfg document media name p)
    (hfree : p.store.waits (.setStatus none document .invalid) = false) :
    Unreplaced cfg document media name (p.after document a (.setStatus none document .invalid)) ∧
      ∀ b, UploadRely document b p (p.after document a (.setStatus none document .invalid)) := by
  obtain ⟨hlock, row, _, _, _, hrow, hnew⟩ := h.original.setStatus_slot hfree
  have hslot : (p.after document a (.setStatus none document .invalid)).store.document.slot document =
      (p.store.document.slot document).write none (some row) := hnew
  have hdirty : ((p.after document a (.setStatus none document .invalid)).store.document.slot
      document).dirty = (p.store.document.slot document).dirty := by
    rw [hslot]
    rfl
  refine ⟨⟨h.original.setStatus hfree, h.seen, h.reader, fun t w hw => ?_, h.blob_lock,
    fun hready => ?_⟩, fun b => ⟨rfl, fun w => ?_, fun w => Iff.rfl⟩⟩
  · exact h.row_lock t w (hdirty ▸ hw)
  · rw [Store.statusOf, hslot] at hready
    simp [Slot.write, hrow] at hready
  · rw [hdirty]

/-- What the call has read, and what the validation found in it. -/
def Holding (cfg : MediaConfig) (document : DocumentId) (name : Option String) (a : Session)
    (mime : Mime) (size : Nat) (p : FinalizePool) : Prop :=
  ∃ data, p.streamed a = some data ∧ Accepts cfg document name data mime size

theorem Holding.later {mime : Mime} {size : Nat} (h : Holding cfg document name a mime size p)
    (hrely : UploadRely document a p q) : Holding cfg document name a mime size q := by
  obtain ⟨data, hdata, hacc⟩ := h
  exact ⟨data, hrely.streamed.trans hdata, hacc⟩

/-- The session writes its version of the blob's row. -/
theorem Unreplaced.fill {mime : Mime} {size : Nat} (h : Unreplaced cfg document media name p)
    (hholding : Holding cfg document name a mime size p) (hno : NoVersion document a p)
    (hfree : p.store.waits (.setContent (some a) media mime size) = false) :
    Unreplaced cfg document media name (p.after document a (.setContent (some a) media mime size)) ∧
      UploadGuar document a p (p.after document a (.setContent (some a) media mime size)) ∧
      ∃ v, ((p.after document a (.setContent (some a) media mime size)).store.media.slot
        (.original document)).dirty = some (a, some v) := by
  obtain ⟨data, hdata, hacc⟩ := hholding
  obtain ⟨hlock, v, _, hmime, hsize, hnew⟩ := h.original.setContent_slot hfree
  have hslot : (p.after document a (.setContent (some a) media mime size)).store.media.slot
      (.original document) = (p.store.media.slot (.original document)).write (some a) (some v) :=
    hnew
  have hdirty : ((p.after document a (.setContent (some a) media mime size)).store.media.slot
      (.original document)).dirty = some (a, some v) := by
    rw [hslot]
    rfl
  have hnone : ∀ t w, (p.store.media.slot (.original document)).dirty ≠ some (t, w) := by
    intro t w hw
    have heq : a = t := Option.some.inj (Slot.free_iff.mp hlock t w hw)
    exact hno.blob w (heq ▸ hw)
  refine ⟨⟨h.original.setContent hfree, h.seen, h.reader, fun t w hw => ?_, fun t w hw => ?_,
    fun hready => ?_⟩, fun b hb => ⟨rfl, fun w => Iff.rfl, fun w => ?_⟩, v, hdirty⟩
  · obtain ⟨v, hv⟩ := h.row_lock t w hw
    exact absurd hv (hnone t _)
  · rw [hdirty] at hw
    obtain ⟨rfl, rfl⟩ := Prod.mk.inj (Option.some.inj hw)
    exact ⟨v, data, rfl, hdata, mime, size, hacc, hmime, hsize⟩
  · obtain ⟨data, row, hchecked, hobject, hrow, hdescribes⟩ := h.ready hready
    refine ⟨data, row, hchecked, hobject, ?_, hdescribes⟩
    rw [hslot]
    exact hrow
  · rw [hdirty]
    constructor
    · intro hw
      exact absurd (Prod.mk.inj (Option.some.inj hw)).1.symm hb
    · exact fun hw => absurd hw (hnone b w)

/-- The session writes its version of the document's row. -/
theorem Unreplaced.mark (h : Unreplaced cfg document media name p)
    (hblob : ∃ v, (p.store.media.slot (.original document)).dirty = some (a, some v))
    (hfree : p.store.waits (.setStatus (some a) document .ready) = false) :
    Unreplaced cfg document media name (p.after document a (.setStatus (some a) document .ready)) ∧
      UploadGuar document a p (p.after document a (.setStatus (some a) document .ready)) ∧
      ∃ w, ((p.after document a (.setStatus (some a) document .ready)).store.document.slot
        document).dirty = some (a, w) := by
  obtain ⟨hlock, row, _, _, _, _, hnew⟩ := h.original.setStatus_slot hfree
  have hslot : (p.after document a (.setStatus (some a) document .ready)).store.document.slot
      document = (p.store.document.slot document).write (some a) (some row) := hnew
  have hdirty : ((p.after document a (.setStatus (some a) document .ready)).store.document.slot
      document).dirty = some (a, some row) := by
    rw [hslot]
    rfl
  refine ⟨⟨h.original.setStatus hfree, h.seen, h.reader, fun t w hw => ?_, h.blob_lock,
    fun hready => ?_⟩, fun b hb => ⟨rfl, fun w => ?_, fun w => Iff.rfl⟩, some row, hdirty⟩
  · rw [hdirty] at hw
    obtain ⟨rfl, rfl⟩ := Prod.mk.inj (Option.some.inj hw)
    exact hblob
  · apply h.ready
    rw [← hready, Store.statusOf, Store.statusOf, hslot]
    rfl
  · rw [hdirty]
    constructor
    · intro hw
      exact absurd (Prod.mk.inj (Option.some.inj hw)).1.symm hb
    · intro hw
      exact absurd (Option.some.inj (Slot.free_iff.mp hlock b w hw)).symm hb

/-- Both versions are committed at once. -/
theorem Unreplaced.commit (h : Unreplaced cfg document media name p)
    (hrow : ∃ w, (p.store.document.slot document).dirty = some (a, w)) :
    Unreplaced cfg document media name (p.after document a (.commit a)) ∧
      UploadGuar document a p (p.after document a (.commit a)) ∧
      NoVersion document a (p.after document a (.commit a)) := by
  obtain ⟨w, hw⟩ := hrow
  obtain ⟨v, hv⟩ := h.row_lock a w hw
  obtain ⟨v', data, heq, hdata, mime, size, hacc, hmime, hsize⟩ := h.blob_lock a _ hv
  obtain rfl := Option.some.inj heq
  have hchecked : (p.after document a (.commit a)).checked = some data := by
    refine (if_pos (Store.holdsRow_iff.mpr ⟨w, hw⟩)).trans hdata
  have hblob : (p.after document a (.commit a)).store.media.slot (.original document) =
      { committed := some v } := by
    show (p.store.commit a).media.slot (.original document) = _
    rw [media_commit]
    simp [Slot.commit, hv]
  have hnorow : ((p.after document a (.commit a)).store.document.slot document).dirty = none := by
    show ((p.store.commit a).document.slot document).dirty = none
    rw [document_commit]
    simp [Slot.commit, hw]
  refine ⟨⟨h.original.commit, h.seen, h.reader, fun t w hw => ?_, fun t w hw => ?_,
    fun _ => ⟨data, v, hchecked, h.seen a data mime size hdata hacc, ?_, mime, size, hacc, hmime,
      hsize⟩⟩, fun b hb => ⟨rfl, fun w' => ?_, fun w' => ?_⟩, fun w' hw' => ?_, fun w' hw' => ?_⟩
  · rw [hnorow] at hw
    cases hw
  · rw [hblob] at hw
    cases hw
  · rw [hblob]
  · rw [hnorow, hw]
    simp [hb.symm]
  · rw [hblob, hv]
    simp [hb.symm]
  · rw [hnorow] at hw'
    cases hw'
  · rw [hblob] at hw'
    cases hw'

theorem Unreplaced.undo (h : Unreplaced cfg document media name p)
    (hstore : q.store = p.store.rollback a) (hstreamed : q.streamed = p.streamed)
    (hchecked : q.checked = p.checked) :
    Unreplaced cfg document media name q ∧ UploadGuar document a p q ∧ NoVersion document a q := by
  have hrow : q.store.document.slot document = (p.store.document.slot document).rollback a := by
    rw [hstore, document_rollback]
  have hblob : q.store.media.slot (.original document) =
      (p.store.media.slot (.original document)).rollback a := by
    rw [hstore, media_rollback]
  refine ⟨⟨hstore ▸ h.original.rollback, fun t data mime size ht hacc => ?_, fun t data ht => ?_,
    fun t w hw => ?_, fun t w hw => ?_, fun hready => ?_⟩,
    fun b hb => ⟨by rw [hstreamed], fun w => ?_, fun w => ?_⟩, fun w hw => ?_, fun w hw => ?_⟩
  · rw [hstore]
    exact h.seen t data mime size (hstreamed ▸ ht) hacc
  · rw [hstore]
    exact h.reader t data (hstreamed ▸ ht)
  · rw [hrow, Slot.dirty_rollback] at hw
    obtain ⟨v, hv⟩ := h.row_lock t w hw.1
    exact ⟨v, by rw [hblob]; exact Slot.dirty_rollback.mpr ⟨hv, hw.2⟩⟩
  · rw [hblob, Slot.dirty_rollback] at hw
    rw [hstreamed]
    exact h.blob_lock t w hw.1
  · have hstatus : p.store.statusOf document = some .ready := by
      rw [← hready, Store.statusOf, Store.statusOf, hrow, Slot.committed_rollback]
    obtain ⟨data, row, hdata, hobject, hcommitted, hdescribes⟩ := h.ready hstatus
    refine ⟨data, row, hchecked.trans hdata, hstore ▸ hobject, ?_, hdescribes⟩
    rw [hblob, Slot.committed_rollback]
    exact hcommitted
  · rw [hrow, Slot.dirty_rollback]
    exact and_iff_left hb
  · rw [hblob, Slot.dirty_rollback]
    exact and_iff_left hb
  · rw [hrow] at hw
    exact (Slot.dirty_rollback.mp hw).2 rfl
  · rw [hblob] at hw
    exact (Slot.dirty_rollback.mp hw).2 rfl

/-- The call is over. -/
theorem Unreplaced.leave (h : Unreplaced cfg document media name p) (hno : NoVersion document a p)
    (results : List (Session × Except Exc DocumentRecord)) :
    Unreplaced cfg document media name { p.leave a with results := results } ∧
      UploadGuar document a p { p.leave a with results := results } := by
  have hleft : ∀ t data, (p.leave a).streamed t = some data → p.streamed t = some data := by
    intro t data ht
    by_cases heq : t = a
    · exact nomatch (if_pos heq).symm.trans ht
    · exact (if_neg heq).symm.trans ht
  refine ⟨⟨h.original, fun t data mime size ht => h.seen t data mime size (hleft t data ht),
    fun t data ht => h.reader t data (hleft t data ht), h.row_lock, fun t w hw => ?_, h.ready⟩,
    fun b hb => ⟨if_neg hb, fun w => Iff.rfl, fun w => Iff.rfl⟩⟩
  obtain ⟨v, data, hv, hdata, hdescribes⟩ := h.blob_lock t w hw
  have hne : t ≠ a := fun heq => hno.blob w (heq ▸ hw)
  exact ⟨v, data, hv, (if_neg hne).trans hdata, hdescribes⟩

/-- The call dies, and its transaction is rolled back. -/
theorem Unreplaced.die (h : Unreplaced cfg document media name p) :
    Unreplaced cfg document media name { p.leave a with store := p.store.rollback a } ∧
      UploadGuar document a p { p.leave a with store := p.store.rollback a } := by
  obtain ⟨hundone, hguar, hno⟩ := h.undo (q := { p with store := p.store.rollback a }) rfl rfl rfl
  obtain ⟨hleft, hguar'⟩ := hundone.leave hno p.results
  exact ⟨hleft, fun b hb => (hguar b hb).trans document (hguar' b hb)⟩

end Effects

section Program

variable {cfg : MediaConfig} {document : DocumentId} {media : MediaId} {name : Option String}
  {a : Session} {p : FinalizePool}

theorem keeps_locked {c : DocCmd} {A : DocReply c → FinalizePool → Prop}
    {E : FinalizePool → Prop}
    (hlost : ∀ q, UploadRely document a p q → (∀ session, c ≠ .rollback session) → E q)
    (hdone : ∀ q : FinalizePool, UploadRely document a p q → Unreplaced cfg document media name q →
      a < q.store.fresh → q.store.waits c = false →
      Unreplaced cfg document media name (q.after document a c) ∧
        UploadGuar document a q (q.after document a c) ∧
        ∀ r, UploadRely document a (q.after document a c) r →
          (∀ reply, (Store.meaning c q.store).1 = .ok reply → A reply r) ∧ E r) :
    Keeps (uploadContract cfg document media name a) (Outcome A fun _ => E) (onPool a c) p := by
  apply keeps_onPool rfl
  · exact fun q fate hfate => hfate.1
  · exact fun q b _ => UploadRely.refl document b q
  · exact fun q e hrely _ hnot _ => hlost q hrely hnot
  · intro q fate hrely hinv hfate hfree
    obtain ⟨hsound, hguar, hpost⟩ := hdone q hrely hinv hfate.2 hfree
    refine ⟨hsound, hguar, fun r hr _ => ⟨?_, fun _ _ => (hpost r hr).2⟩⟩
    exact Outcome.intro (hpost r hr).1 fun _ _ => (hpost r hr).2

/-- A statement that changes nothing of the upload. -/
theorem keeps_idle {c : DocCmd} {P : FinalizePool → Prop}
    (hP : ∀ q r, P q → UploadRely document a q r → P r)
    (hsame : ∀ q : FinalizePool, SameUpload document q (q.after document a c)) (h : P p) :
    Keeps (uploadContract cfg document media name a) (Outcome (fun _ q => P q) fun _ q => P q)
      (onPool a c) p := by
  apply keeps_locked
  · exact fun q hrely _ => hP p q h hrely
  · intro q hrely hinv _ _
    obtain ⟨hsound, hguar⟩ := hinv.aside (hsame q)
    refine ⟨hsound, hguar, fun r hr => ?_⟩
    have hr : P r := hP _ r (hP q _ (hP p q h hrely) ((hsame q).rely a)) hr
    exact ⟨fun _ _ => hr, hr⟩

theorem keeps_finding (hinv : Unreplaced cfg document media name p)
    (hno : NoVersion document a p) (includeDeleted : Bool) :
    Keeps (uploadContract cfg document media name a)
      (Outcome (fun record q => NoVersion document a q ∧ record.objectKey = .original document ∧
        record.row.mediaId = media ∧ record.row.name = name) fun _ q => NoVersion document a q)
      ((fetch document includeDeleted).expand (onPool a)) p := by
  apply keeps_fetchOn hinv
  apply keeps_locked
  · exact fun q hrely _ => hno.later hrely
  · intro q hrely hinv _ _
    have hsame : SameUpload document q (q.after document a (.fetchDocument document includeDeleted)) :=
      ⟨rfl, rfl, rfl, rfl, le_rfl, rfl, rfl⟩
    obtain ⟨hsound, hguar⟩ := hinv.aside hsame
    obtain ⟨record, hfetched, hkey, hmedia, hname, _⟩ := hinv.original.fetched includeDeleted
    refine ⟨hsound, hguar, fun r hr => ?_⟩
    have hno : NoVersion document a r := ((hno.later hrely).later (hsame.rely a)).later hr
    refine ⟨fun found hfound => ⟨record, ?_, hno, hkey, hmedia, hname⟩, hno⟩
    exact (Except.ok.inj hfound).symm.trans hfetched

/-- The call has read bytes in which the validation finds `found`. -/
def Validated (cfg : MediaConfig) (document : DocumentId) (name : Option String) (a : Session)
    (found : Mime × Nat) (p : FinalizePool) : Prop :=
  NoVersion document a p ∧ Holding cfg document name a found.1 found.2 p

theorem Validated.later {found : Mime × Nat} {q : FinalizePool}
    (h : Validated cfg document name a found p) (hrely : UploadRely document a p q) :
    Validated cfg document name a found q :=
  ⟨h.1.later hrely, h.2.later hrely⟩

theorem keeps_validation (hinv : Unreplaced cfg document media name p)
    (hno : NoVersion document a p) :
    Keeps (uploadContract cfg document media name a)
      (Outcome (fun found q => Validated cfg document name a found q)
        fun _ q => NoVersion document a q)
      ((validateStored cfg (.original document) name).expand (onPool a)) p := by
  apply keeps_validateOn hinv
  have hread : Keeps (uploadContract cfg document media name a)
      (Outcome (fun data q => NoVersion document a q ∧ q.streamed a = some data)
        fun _ q => NoVersion document a q) (onPool a (.streamObject (.original document))) p := by
    apply keeps_locked
    · exact fun q hrely _ => hno.later hrely
    · intro q hrely hinv hlt _
      obtain ⟨hsound, hguar⟩ := hinv.stream hlt (hno.later hrely)
      have hstore : (q.after document a (.streamObject (.original document))).store = q.store :=
        Store.stream_snd _ _
      have hnext : NoVersion document a (q.after document a (.streamObject (.original document))) := by
        refine ⟨?_, ?_⟩
        · rw [hstore]
          exact (hno.later hrely).row
        · rw [hstore]
          exact (hno.later hrely).blob
      refine ⟨hsound, hguar, fun r hr => ⟨fun data hdata => ⟨hnext.later hr, ?_⟩, hnext.later hr⟩⟩
      rw [hr.streamed]
      exact (if_pos rfl).trans (Store.stream_ok hdata)
  apply hread.weaken
  intro r q _ hr
  cases r with
  | ok data => exact ⟨fun found hvalid => ⟨hr.1, data, hr.2, hvalid⟩, fun _ _ => hr.1⟩
  | error e => exact hr

theorem keeps_refusing (hno : NoVersion document a p) :
    Keeps (uploadContract cfg document media name a)
      (Outcome (fun _ q => NoVersion document a q) fun _ q => NoVersion document a q)
      (onPool a (.setStatus none document .invalid)) p := by
  apply keeps_locked
  · exact fun r hr _ => hno.later hr
  · intro r hr hinv _ hfree
    obtain ⟨hsound, hsame⟩ := hinv.invalidate (a := a) hfree
    have hno : NoVersion document a (r.after document a (.setStatus none document .invalid)) :=
      (hno.later hr).later (hsame a)
    exact ⟨hsound, fun b _ => hsame b, fun t ht => ⟨fun _ _ => hno.later ht, hno.later ht⟩⟩

theorem keeps_undone :
    Keeps (uploadContract cfg document media name a)
      (Outcome (fun _ q => NoVersion document a q) fun _ q => NoVersion document a q)
      (onPool a (.rollback a)) p := by
  apply keeps_locked
  · exact fun q _ hnot => absurd rfl (hnot a)
  · intro q _ hinv _ _
    obtain ⟨hsound, hguar, hno⟩ := hinv.undo (q := q.after document a (.rollback a)) rfl rfl rfl
    exact ⟨hsound, hguar, fun r hr => ⟨fun _ _ => hno.later hr, hno.later hr⟩⟩

/-- The session has a version of the blob's row. -/
def FillsBlob (document : DocumentId) (a : Session) (p : FinalizePool) : Prop :=
  ∃ v, (p.store.media.slot (.original document)).dirty = some (a, some v)

/-- The session has a version of the document's row. -/
def MarksRow (document : DocumentId) (a : Session) (p : FinalizePool) : Prop :=
  ∃ w, (p.store.document.slot document).dirty = some (a, w)

theorem keeps_fill {mime : Mime} {size : Nat} (h : Validated cfg document name a (mime, size) p) :
    Keeps (uploadContract cfg document media name a)
      (Outcome (fun _ q => FillsBlob document a q) fun _ _ => True)
      (onPool a (.setContent (some a) media mime size)) p := by
  apply keeps_locked
  · exact fun _ _ _ => trivial
  · intro r hr hinv _ hfree
    obtain ⟨hno, hholding⟩ := h.later hr
    obtain ⟨hsound, hguar, v, hv⟩ := hinv.fill hholding hno hfree
    exact ⟨hsound, hguar, fun t ht => ⟨fun _ _ => ⟨v, (ht.blob_lock _).mpr hv⟩, trivial⟩⟩

theorem keeps_mark (h : FillsBlob document a p) :
    Keeps (uploadContract cfg document media name a)
      (Outcome (fun _ q => MarksRow document a q) fun _ _ => True)
      (onPool a (.setStatus (some a) document .ready)) p := by
  obtain ⟨v, hv⟩ := h
  apply keeps_locked
  · exact fun _ _ _ => trivial
  · intro r hr hinv _ hfree
    obtain ⟨hsound, hguar, w, hw⟩ := hinv.mark ⟨v, (hr.blob_lock _).mpr hv⟩ hfree
    exact ⟨hsound, hguar, fun t ht => ⟨fun _ _ => ⟨w, (ht.row_lock _).mpr hw⟩, trivial⟩⟩

theorem keeps_accept (h : MarksRow document a p) :
    Keeps (uploadContract cfg document media name a)
      (Outcome (fun _ q => NoVersion document a q) fun _ _ => True) (onPool a (.commit a)) p := by
  obtain ⟨w, hw⟩ := h
  apply keeps_locked
  · exact fun _ _ _ => trivial
  · intro r hr hinv _ _
    obtain ⟨hsound, hguar, hno⟩ := hinv.commit ⟨w, (hr.row_lock _).mpr hw⟩
    exact ⟨hsound, hguar, fun t ht => ⟨fun _ _ => hno.later ht, trivial⟩⟩

theorem keeps_accepting {mime : Mime} {size : Nat} (hinv : Unreplaced cfg document media name p)
    (h : Validated cfg document name a (mime, size) p) :
    Keeps (uploadContract cfg document media name a)
      (Outcome (fun _ q => NoVersion document a q) fun _ q => NoVersion document a q)
      ((transaction a fun _ => do
        statement (.setContent (some a) media mime size)
        statement (.setStatus (some a) document .ready)).expand (onPool a)) p := by
  apply keeps_transactionOn (B := fun _ q => Validated cfg document name a (mime, size) q)
    (M := fun _ q => MarksRow document a q) (F := fun _ _ => True) hinv
  · have hbegin : Keeps (uploadContract cfg document media name a)
        (Outcome (fun _ q => Validated cfg document name a (mime, size) q)
          fun _ q => Validated cfg document name a (mime, size) q) (onPool a (.begin a)) p :=
      keeps_idle (fun _ _ hq hrely => hq.later hrely)
        (fun q => ⟨rfl, rfl, rfl, rfl, le_rfl, rfl, rfl⟩) h
    exact hbegin.excuse fun _ _ hvalidated => hvalidated.1
  · intro _ q hinv hvalidated
    show Keeps _ _ (((statement (.setContent (some a) media mime size)).bind fun _ =>
      statement (.setStatus (some a) document .ready)).expand (onPool a)) q
    rw [Prog.expand_bind, expand_statement]
    apply (keeps_fill hvalidated).next hinv
    · intro _ r _ hfilled
      rw [expand_statement]
      exact keeps_mark hfilled
    · exact fun _ _ h => h
  · exact fun _ q _ hmarked => keeps_accept hmarked
  · exact fun _ q _ _ => keeps_undone

theorem keeps_uploaded (hinv : Unreplaced cfg document media name p)
    (hno : NoVersion document a p) :
    Keeps (uploadContract cfg document media name a)
      (Outcome (fun _ q => NoVersion document a q) fun _ q => NoVersion document a q)
      ((finalize cfg a document).expand (onPool a)) p := by
  apply keeps_finalizeOn hinv (keeps_finding hinv hno false)
    (V := fun doc found q => Validated cfg document name a found q ∧ doc.row.mediaId = media)
    (R := fun _ q => NoVersion document a q)
  · exact fun doc q hfound _ => hfound.1
  · rintro doc q hinv ⟨hno, hkey, hmedia, hname⟩ _
    rw [hkey, hname]
    apply (keeps_validation hinv hno).weaken
    intro r t _ hr
    cases r with
    | ok found => exact ⟨hr, hmedia⟩
    | error e => exact hr
  · exact fun _ _ hno _ => hno
  · exact fun _ q _ hno _ => keeps_refusing hno
  · rintro doc ⟨mime, size⟩ q hinv ⟨hvalidated, rfl⟩
    exact keeps_accepting hinv hvalidated
  · intro q hinv hno
    apply (keeps_finding hinv hno true).weaken
    intro r t _ hr
    cases r with
    | ok record => exact hr.1
    | error e => exact hr

theorem keeps_uploadedProg (hinv : Unreplaced cfg document media name p)
    (hno : NoVersion document a p) :
    Keeps (uploadContract cfg document media name a) (fun _ _ => True)
      (finalizeProg cfg document a) p := by
  apply (keeps_uploaded hinv hno).settle hinv
  intro r q hinv hmid
  apply Keeps.perform
  rintro t hrely hinv fate ⟨hadmits, _⟩
  obtain rfl : fate = .done := of_decide_eq_true hadmits
  have hpost := hmid t hrely hinv
  have hends : NoVersion document a t := by
    cases r with
    | ok record => exact hpost
    | error e => exact hpost
  obtain ⟨hsound, hguar⟩ := hinv.leave hends ((a, r) :: t.results)
  exact ⟨hsound, hguar, fun _ _ _ => trivial⟩

end Program

section Runs

variable {cfg : MediaConfig} {document : DocumentId} {media : MediaId} {name : Option String}
  {p q : FinalizePool}

/-- The document is not ready, and no running call has accepted what it read of the original. -/
def Open (cfg : MediaConfig) (document : DocumentId) (name : Option String) (p : FinalizePool) :
    Prop :=
  p.store.statusOf document ≠ some .ready ∧ ∀ t data found, p.streamed t = some data →
    validate cfg (.original document) data name ≠ .ok found

/-- The client puts other bytes only where the upload is still open. -/
def PutInTime (cfg : MediaConfig) (document : DocumentId) (name : Option String)
    (c : Config FinalizeReply Exc FinalizePool Session) : Move Exc FinalizeEvent → Prop
  | .env (.put data) => c.shared.store.objects (.original document) ≠ some data →
    Open cfg document name c.shared
  | _ => True

theorem putInTime_put {c : Config FinalizeReply Exc FinalizePool Session} {e : FinalizeEvent}
    (h : PutInTime cfg document name c (.env e)) (data : Bytes) (he : e = .put data)
    (hdata : c.shared.store.objects (.original document) ≠ some data) :
    Open cfg document name c.shared := by
  subst he
  exact h hdata

theorem Unreplaced.event {e : FinalizeEvent} {new : List (Thread FinalizeReply Exc Session)}
    (hinv : Unreplaced cfg document media name p)
    (hput : ∀ data, e = .put data → p.store.objects (.original document) ≠ some data →
      Open cfg document name p)
    (h : finalizeEvent cfg document p e = some (q, new)) :
    Unreplaced cfg document media name q ∧ ∀ b, UploadRely document b p q := by
  obtain ⟨⟨s, rfl, hmedia, hdocument, hkey, hfresh, hobjects⟩, _⟩ := finalizeEvent_cases h
  have hrow : s.document.slot document = p.store.document.slot document := by rw [hdocument]
  have hblob : s.media.slot (.original document) = p.store.media.slot (.original document) := by
    rw [hmedia]
  by_cases hsame : s.objects (.original document) = p.store.objects (.original document)
  · have hupload : SameUpload document p { p with store := s } :=
      ⟨hrow, hblob, hsame, hkey, hfresh, rfl, rfl⟩
    exact ⟨hupload.sound hinv, hupload.rely⟩
  · obtain ⟨hstatus, hopen⟩ : Open cfg document name p := by
      rcases hobjects with ⟨data, rfl, hnew⟩ | hobjects
      · exact hput data rfl fun heq => hsame (hnew.trans heq.symm)
      · exact absurd (by rw [hobjects]) hsame
    refine ⟨⟨hinv.original.same hkey hrow hblob, fun t data mime size ht hacc => ?_,
      fun t data ht => (hinv.reader t data ht).trans_le hfresh, fun t w hw => ?_, fun t w hw => ?_,
      fun hready => ?_⟩, fun b => ⟨rfl, fun w => ?_, fun w => ?_⟩⟩
    · exact absurd hacc (hopen t data _ ht)
    · show ∃ v, (s.media.slot (.original document)).dirty = some (t, some v)
      rw [hblob]
      exact hinv.row_lock t w (hrow ▸ hw)
    · exact hinv.blob_lock t w (hblob ▸ hw)
    · refine absurd ?_ hstatus
      rw [← hready, Store.statusOf, Store.statusOf]
      exact congrArg _ (by rw [hrow])
    · show (s.document.slot document).dirty = _ ↔ _
      rw [hrow]
    · show (s.media.slot (.original document)).dirty = _ ↔ _
      rw [hblob]

def uploadDiscipline (cfg : MediaConfig) (document : DocumentId) (media : MediaId)
    (name : Option String) : Discipline (finalizeCalls cfg document)
      (fun c move => PutInTime cfg document name c move ∧ CallsNumbered c) where
  inv := Unreplaced cfg document media name
  contract := uploadContract cfg document media name
  post := fun _ _ _ => True
  apart := fun a b => a ≠ b
  meaning_eq := fun _ => rfl
  inv_eq := fun _ => rfl
  apart_symm := Ne.symm
  others := fun hapart _ _ hguar => hguar _ hapart.symm
  fates := fun hok hi _ hadmits _ => ⟨hadmits, hok.2 _ (List.mem_of_getElem? hi)⟩
  exit_keeps := fun _ _ _ ht => nomatch ht
  exit_apart := @finalizeCalls_exit_apart cfg document
  exit_pairwise := @no_threads_apart
  death_inv := fun _ _ hinv => hinv.die.1
  death_rely := fun _ _ hinv hapart => hinv.die.2 _ hapart.symm
  env_inv := fun hok henv hinv => (hinv.event (putInTime_put hok.1) henv).1
  env_rely := fun hok henv hinv t _ => (hinv.event (putInTime_put hok.1) henv).2 t.tag
  env_keeps := by
    intro c e q new hok henv hinv t ht
    obtain ⟨hinv', hrely⟩ := hinv.event (putInTime_put hok.1) henv
    obtain ⟨_, rfl | ⟨rfl, _⟩⟩ := finalizeEvent_cases henv
    · exact nomatch ht
    · obtain rfl := List.mem_singleton.mp ht
      have hno : NoVersion document c.shared.store.fresh c.shared := by
        refine ⟨fun w hw => ?_, fun w hw => ?_⟩
        · obtain ⟨v, hv⟩ := hinv.row_lock _ w hw
          obtain ⟨_, data, _, hdata, _⟩ := hinv.blob_lock _ _ hv
          exact lt_irrefl _ (hinv.reader _ data hdata)
        · obtain ⟨_, data, _, hdata, _⟩ := hinv.blob_lock _ w hw
          exact lt_irrefl _ (hinv.reader _ data hdata)
      exact keeps_uploadedProg hinv' (hno.later (hrely _))
  env_apart := fun hok henv _ => finalizeEvent_apart hok.2 henv

variable {c : Config FinalizeReply Exc FinalizePool Session} {start : Store} {expires : Time}

/-- In a run in which the client puts other bytes only while the document is not ready and no
running call has accepted what it read: the object of a ready document is what its validation
accepted, and its row says what the validation found. -/
theorem mined_as_checked (horiginal : OneOriginal document media name start)
    (hrow : (start.document.slot document).dirty = none)
    (hblob : (start.media.slot (.original document)).dirty = none)
    (hstart : start.statusOf document ≠ some .ready)
    (reach : Reach (finalizeCalls cfg document) (PutInTime cfg document name)
      ⟨{ store := start, expires := expires }, []⟩ c)
    (hready : c.shared.store.statusOf document = some .ready) :
    Checked cfg document name c.shared := by
  have hnumbered : ∀ d, Reach (finalizeCalls cfg document) (PutInTime cfg document name)
      ⟨{ store := start, expires := expires }, []⟩ d → CallsNumbered d :=
    fun d hd => callsNumbered_reach hd fun t ht => nomatch ht
  have hinv : Unreplaced cfg document media name { store := start, expires := expires } := by
    refine ⟨horiginal, fun t data mime size ht => (nomatch ht), fun t data ht => (nomatch ht),
      fun t w hw => ?_, fun t w hw => ?_, fun hready => absurd hready hstart⟩
    · exact nomatch hrow.symm.trans hw
    · exact nomatch hblob.symm.trans hw
  have hsafe : (uploadDiscipline cfg document media name).Safe
      ⟨{ store := start, expires := expires }, []⟩ :=
    ⟨hinv, fun _ ht => (nomatch ht), List.Pairwise.nil⟩
  exact ((reach.strengthen hnumbered).safe _ hsafe).inv.ready hready

end Runs

section Example

/-- One call, and the client puts its original again when the document is ready. -/
def putWhenReady : List (Move Exc FinalizeEvent) :=
  [.env .call] ++ List.replicate 8 (.run 0 .done) ++ [.env (.put [0])]

theorem ready_replaced : ∃ c,
    Reach (finalizeCalls plainConfig 1) (fun _ _ => True) uploadedPool c ∧
      c.shared.store.statusOf 1 = some .ready ∧ c.shared.checked = some pngBytes ∧
      c.shared.store.objects (.original 1) = some [0] ∧ ¬ Checked plainConfig 1 none c.shared := by
  have hrun : ((finalizeCalls plainConfig 1).exec putWhenReady uploadedPool).map (fun c =>
      (c.shared.store.statusOf 1, c.shared.checked, c.shared.store.objects (.original 1))) =
        some (some .ready, some pngBytes, some [0]) := by
    decide +kernel
  obtain ⟨c, hc, hresult⟩ := Option.map_eq_some_iff.mp hrun
  simp only [Prod.mk.injEq] at hresult
  obtain ⟨hready, hchecked, hobject⟩ := hresult
  refine ⟨c, Reach.start.exec (fun _ _ => trivial) hc, hready, hchecked, hobject, ?_⟩
  rintro ⟨data, row, hdata, hstored, _⟩
  have heq : pngBytes = [0] := by
    rw [← Option.some.inj (hdata.symm.trans hchecked), ← Option.some.inj (hstored.symm.trans hobject)]
  exact absurd heq (by decide)

def putsNothing (_ : Config FinalizeReply Exc FinalizePool Session) : Move Exc FinalizeEvent → Bool
  | .env (.put _) => false
  | _ => true

theorem putInTime_of_putsNothing {c : Config FinalizeReply Exc FinalizePool Session}
    {move : Move Exc FinalizeEvent} (h : putsNothing c move = true) :
    PutInTime plainConfig 1 none c move := by
  cases move with
  | env e =>
    cases e with
    | put data => exact nomatch h
    | _ => trivial
  | _ => trivial

/-- The client puts its original again between the first two statements of the call. -/
theorem mined_as_checked_put : ∃ c,
    Reach (finalizeCalls plainConfig 1) (PutInTime plainConfig 1 none) uploadedPool c ∧
      c.shared.store.statusOf 1 = some .ready ∧ Checked plainConfig 1 none c.shared := by
  have hfound : ((finalizeCalls plainConfig 1).execWhen putsNothing [.env .call, .run 0 .done]
      uploadedPool).map (fun c => (c.shared.store.statusOf 1, c.shared.streamed)) =
        some (some .new, fun _ => none) := rfl
  have hrun : (((finalizeCalls plainConfig 1).execWhen putsNothing [.env .call, .run 0 .done]
      uploadedPool).bind fun c =>
        ((finalizeCalls plainConfig 1).step c (.env (.put (pngBytes ++ [0])))).bind fun d =>
          ((finalizeCalls plainConfig 1).execWhen putsNothing (List.replicate 7 (.run 0 .done)) d).map
            fun e => e.shared.store.statusOf 1) = some (some .ready) := by
    decide +kernel
  obtain ⟨c, hc, hrest⟩ := Option.bind_eq_some_iff.mp hrun
  obtain ⟨d, hd, hrest⟩ := Option.bind_eq_some_iff.mp hrest
  obtain ⟨e, he, hready⟩ := Option.map_eq_some_iff.mp hrest
  rw [hc] at hfound
  obtain ⟨hstatus, hstreamed⟩ := Prod.mk.inj (Option.some.inj hfound)
  have hopen : Open plainConfig 1 none c.shared := by
    refine ⟨by simp [hstatus], fun t data found ht => ?_⟩
    exact nomatch (congrFun hstreamed t).symm.trans ht
  have hput : PutInTime plainConfig 1 none c (.env (.put (pngBytes ++ [0]))) := fun _ => hopen
  have hreach : Reach (finalizeCalls plainConfig 1) (PutInTime plainConfig 1 none) uploadedPool d :=
    (Reach.start.execWhen (fun _ _ _ => putInTime_of_putsNothing) hc).step hput hd
  have hreach := hreach.execWhen (fun _ _ _ => putInTime_of_putsNothing) he
  exact ⟨e, hreach, hready, mined_as_checked uploadedStore_original rfl rfl (by decide) hreach hready⟩

end Example

end Doci
