import Doci.FinalizeCalls

/-! Calls of `finalize` of which none finds the document new while another that has found it so is
still running: one of them at most writes the status. -/

namespace Doci

open Coroutine ReadCommitted

section Contract

variable (document : DocumentId) (media : MediaId) (name : Option String) (first : DocumentStatus)

/-- What a call may raise: that the document was finalized, or what it is given from outside; one
that has written the status may raise anything. -/
def Excused (a : Session) (p : FinalizePool) (e : Exc) : Prop :=
  a ∈ p.wrote ∨ e = .alreadyFinalized document ∨ e.fromOutside = true

/-- What holds of a pool that began with the status `first`. -/
structure OneWriter (p : FinalizePool) : Prop where
  original : OneOriginal document media name p.store
  numbered : ∀ t ∈ p.looking, t < p.store.fresh
  one : ∀ t u, t ∈ p.looking → u ∈ p.looking → t = u
  holder : ∀ t w, (p.store.document.slot document).dirty = some (t, w) →
    t ∈ p.looking ∧ p.wrote = [] ∧ ∃ row, w = some row ∧ row.status ≠ .new
  looker : ∀ t ∈ p.looking, first = .new ∧ (p.wrote = [] ∨ p.wrote = [t])
  left : p.wrote = [] ∧ p.store.statusOf document = some first ∨
    first = .new ∧ (∃ t, p.wrote = [t]) ∧ p.store.statusOf document ≠ some .new
  results : ∀ t r, (t, r) ∈ p.results → t ∈ p.wrote ∨ ∃ e, r = .error e ∧ Excused document t p e

/-- What session `a` relies on: while it has the document in view, nobody else writes. -/
structure WriterRely (a : Session) (p q : FinalizePool) : Prop where
  looking : a ∈ q.looking ↔ a ∈ p.looking
  wrote : ∀ t ∈ p.wrote, t ∈ q.wrote
  still : a ∈ p.looking → p.wrote = [] → q.wrote = []
  row_lock : ∀ w, (q.store.document.slot document).dirty = some (a, w) ↔
    (p.store.document.slot document).dirty = some (a, w)
  status : p.wrote ≠ [] → q.store.statusOf document = p.store.statusOf document

def WriterGuar (a : Session) (p q : FinalizePool) : Prop := ∀ b, b ≠ a → WriterRely document b p q

/-- No other call has the document in view when the command finds it new. -/
def Undisputed (c : FinalizeCmd) (p : FinalizePool) : Prop :=
  ∀ session, c = .store session (.fetchDocument document false) →
    p.store.findsNew document = true → p.looking = []

end Contract

section Relies

variable {document : DocumentId} {media : MediaId} {name : Option String} {first : DocumentStatus}
  {a : Session} {p q r : FinalizePool}

theorem WriterRely.refl (a : Session) (p : FinalizePool) : WriterRely document a p p :=
  ⟨Iff.rfl, fun _ h => h, fun _ h => h, fun _ => Iff.rfl, fun _ => rfl⟩

theorem WriterRely.trans (h : WriterRely document a p q) (h' : WriterRely document a q r) :
    WriterRely document a p r := by
  refine ⟨h'.looking.trans h.looking, fun t ht => h'.wrote t (h.wrote t ht), fun hl hw => ?_,
    fun w => (h'.row_lock w).trans (h.row_lock w), fun hw => ?_⟩
  · exact h'.still (h.looking.mpr hl) (h.still hl hw)
  · have hq : q.wrote ≠ [] := by
      obtain ⟨t, ht⟩ := List.exists_mem_of_ne_nil _ hw
      exact List.ne_nil_of_mem (h.wrote t ht)
    exact (h'.status hq).trans (h.status hw)

theorem Excused.later {e : Exc} (h : Excused document a p e) (hrely : WriterRely document a p q) :
    Excused document a q e := by
  rcases h with h | h
  · exact .inl (hrely.wrote a h)
  · exact .inr h

variable (document media name first) in
def writerContract (a : Session) : Contract FinalizeReply Exc FinalizePool where
  meaning := FinalizePool.meaning document
  inv := OneWriter document media name first
  rely := WriterRely document a
  guar := WriterGuar document a
  fate := fun c p fate => FinalizePool.admits c p fate = true ∧ Undisputed document c p ∧
    a < p.store.fresh
  rely_refl := WriterRely.refl a
  rely_trans := WriterRely.trans

/-- The session has no version of the row. -/
def NoRow (document : DocumentId) (a : Session) (p : FinalizePool) : Prop :=
  ∀ w, (p.store.document.slot document).dirty ≠ some (a, w)

/-- The session has the document in view, and nobody has written the status. -/
structure InView (document : DocumentId) (a : Session) (p : FinalizePool) : Prop where
  looking : a ∈ p.looking
  wrote : p.wrote = []

theorem NoRow.later (h : NoRow document a p) (hrely : WriterRely document a p q) :
    NoRow document a q :=
  fun w hw => h w ((hrely.row_lock w).mp hw)

theorem InView.later (h : InView document a p) (hrely : WriterRely document a p q) :
    InView document a q :=
  ⟨hrely.looking.mpr h.looking, hrely.still h.looking h.wrote⟩

/-- Nothing changes that the calls have seen or done, nor the row of the document. -/
structure SameView (document : DocumentId) (p q : FinalizePool) : Prop where
  row : q.store.document.slot document = p.store.document.slot document
  looking : q.looking = p.looking
  wrote : q.wrote = p.wrote
  results : q.results = p.results
  fresh : p.store.fresh ≤ q.store.fresh

theorem SameView.rely (h : SameView document p q) (a : Session) : WriterRely document a p q := by
  refine ⟨by rw [h.looking], fun t ht => h.wrote ▸ ht, fun _ hw => h.wrote ▸ hw,
    fun w => by rw [h.row], fun _ => ?_⟩
  rw [Store.statusOf, h.row]
  rfl

theorem SameView.of_store (hstore : q.store = p.store) (hlooking : q.looking = p.looking)
    (hwrote : q.wrote = p.wrote) (hresults : q.results = p.results) : SameView document p q :=
  ⟨by rw [hstore], hlooking, hwrote, hresults, by rw [hstore]⟩

theorem SameView.sound (h : SameView document p q) (hinv : OneWriter document media name first p)
    (horiginal : OneOriginal document media name q.store) :
    OneWriter document media name first q := by
  have hstatus : q.store.statusOf document = p.store.statusOf document := by
    rw [Store.statusOf, h.row]
    rfl
  refine ⟨horiginal, fun t ht => ?_, ?_, fun t w hw => ?_, fun t ht => ?_, ?_, fun t r hr => ?_⟩
  · exact (hinv.numbered t (h.looking ▸ ht)).trans_le h.fresh
  · rw [h.looking]
    exact hinv.one
  · rw [h.looking, h.wrote]
    exact hinv.holder t w (h.row ▸ hw)
  · rw [h.wrote]
    exact hinv.looker t (h.looking ▸ ht)
  · rw [hstatus, h.wrote]
    exact hinv.left
  · unfold Excused
    rw [h.wrote]
    exact hinv.results t r (h.results ▸ hr)

end Relies

section Effects

variable {document : DocumentId} {media : MediaId} {name : Option String} {first : DocumentStatus}
  {a : Session} {p : FinalizePool}

theorem OneWriter.aside {c : DocCmd} (h : OneWriter document media name first p)
    (hview : SameView document p (p.after document a c))
    (horiginal : OneOriginal document media name (p.after document a c).store) :
    OneWriter document media name first (p.after document a c) ∧
      WriterGuar document a p (p.after document a c) :=
  ⟨hview.sound h horiginal, fun b _ => hview.rely b⟩

/-- The first read of a call. -/
theorem OneWriter.look (h : OneWriter document media name first p) (hlt : a < p.store.fresh)
    (hundisputed : Undisputed document (.store a (.fetchDocument document false)) p) :
    OneWriter document media name first (p.after document a (.fetchDocument document false)) ∧
      WriterGuar document a p (p.after document a (.fetchDocument document false)) ∧
      (p.store.statusOf document = some .new →
        InView document a (p.after document a (.fetchDocument document false))) := by
  by_cases hnew : p.store.findsNew document = true
  · have hlooking : (p.after document a (.fetchDocument document false)).looking = [a] := by
      show (if document = document ∧ p.store.findsNew document = true then a :: p.looking
        else p.looking) = [a]
      rw [if_pos ⟨rfl, hnew⟩, hundisputed a rfl hnew]
    have hstatus := h.original.findsNew_iff.mp hnew
    obtain ⟨hwrote, hfirst⟩ : p.wrote = [] ∧ first = .new := by
      rcases h.left with ⟨hwrote, hfirst⟩ | ⟨_, _, hne⟩
      · exact ⟨hwrote, Option.some.inj (hfirst.symm.trans hstatus)⟩
      · exact absurd hstatus hne
    have hnone : ∀ t w, (p.store.document.slot document).dirty ≠ some (t, w) := by
      intro t w hw
      have hmem := (h.holder t w hw).1
      rw [hundisputed a rfl hnew] at hmem
      exact nomatch hmem
    refine ⟨⟨h.original, fun t ht => ?_, fun t u ht hu => ?_,
      fun t w hw => absurd hw (hnone t w), fun t ht => ?_, h.left, h.results⟩, fun b hb => ⟨?_, fun _ ht => ht, fun _ hw => hw, fun _ => Iff.rfl,
        fun _ => rfl⟩, fun _ => ⟨?_, hwrote⟩⟩
    · rw [hlooking, List.mem_singleton] at ht
      exact ht ▸ hlt
    · rw [hlooking, List.mem_singleton] at ht hu
      exact ht.trans hu.symm
    · exact ⟨hfirst, .inl hwrote⟩
    · rw [hlooking, hundisputed a rfl hnew]
      simp [hb]
    · rw [hlooking]
      exact List.mem_singleton_self a
  · have hview : SameView document p (p.after document a (.fetchDocument document false)) := by
      refine ⟨rfl, ?_, rfl, rfl, le_rfl⟩
      show (if document = document ∧ p.store.findsNew document = true then a :: p.looking
        else p.looking) = p.looking
      rw [if_neg fun hboth => hnew hboth.2]
    obtain ⟨hsound, hguar⟩ := h.aside hview h.original
    exact ⟨hsound, hguar, fun hstatus => absurd (h.original.findsNew_iff.mpr hstatus) hnew⟩

/-- A call that has the document in view writes the status. -/
theorem OneWriter.write {q : FinalizePool} (h : OneWriter document media name first p)
    (hview : InView document a p) (horiginal : OneOriginal document media name q.store)
    (hlooking : q.looking = p.looking) (hwrote : q.wrote = a :: p.wrote)
    (hfresh : q.store.fresh = p.store.fresh) (hresults : q.results = p.results)
    (hunlocked : ∀ t w, (q.store.document.slot document).dirty ≠ some (t, w))
    (hmine : ∀ t w, (p.store.document.slot document).dirty = some (t, w) → t = a)
    (hstatus : q.store.statusOf document ≠ some .new) :
    OneWriter document media name first q ∧ WriterGuar document a p q := by
  have honly : q.wrote = [a] := by rw [hwrote, hview.wrote]
  have hfirst := (h.looker a hview.looking).1
  refine ⟨⟨horiginal, fun t ht => ?_, ?_, fun t w hw => absurd hw (hunlocked t w), fun t ht => ?_,
    .inr ⟨hfirst, ⟨a, honly⟩, hstatus⟩, fun t r hr => ?_⟩, fun b hb => ⟨by rw [hlooking],
      fun t ht => ?_, fun hl _ => ?_, fun w => ?_, fun hne => absurd hview.wrote hne⟩⟩
  · rw [hfresh]
    exact h.numbered t (hlooking ▸ ht)
  · rw [hlooking]
    exact h.one
  · obtain rfl := h.one t a (hlooking ▸ ht) hview.looking
    exact ⟨hfirst, .inr honly⟩
  · rcases h.results t r (hresults ▸ hr) with ht | ⟨e, rfl, he⟩
    · exact nomatch hview.wrote ▸ ht
    · refine .inr ⟨e, rfl, he.imp_left fun ht => ?_⟩
      rw [hwrote]
      exact List.mem_cons_of_mem a ht
  · rw [hwrote]
    exact List.mem_cons_of_mem a ht
  · exact absurd (h.one b a hl hview.looking) hb
  · constructor
    · exact fun hw => absurd hw (hunlocked b w)
    · exact fun hw => absurd (hmine b w hw) hb

theorem OneWriter.invalidate (h : OneWriter document media name first p)
    (hview : InView document a p)
    (hfree : p.store.waits (.setStatus none document .invalid) = false) :
    OneWriter document media name first (p.after document a (.setStatus none document .invalid)) ∧
      WriterGuar document a p (p.after document a (.setStatus none document .invalid)) ∧
      a ∈ (p.after document a (.setStatus none document .invalid)).wrote ∧
      NoRow document a (p.after document a (.setStatus none document .invalid)) := by
  obtain ⟨hlock, row, _, _, _, hrow, hnew⟩ := h.original.setStatus_slot hfree
  have hwrote : (p.after document a (.setStatus none document .invalid)).wrote = a :: p.wrote :=
    if_pos rfl
  have hdirty : ∀ t w, (p.store.document.slot document).dirty ≠ some (t, w) :=
    fun t w hw => nomatch Slot.free_iff.mp hlock t w hw
  have hslot : (p.after document a (.setStatus none document .invalid)).store.document.slot document =
      (p.store.document.slot document).write none (some row) := hnew
  have hunlocked : ∀ t w, ((p.after document a
      (.setStatus none document .invalid)).store.document.slot document).dirty ≠ some (t, w) := by
    intro t w hw
    rw [hslot] at hw
    exact hdirty t w hw
  have hstatus : (p.after document a (.setStatus none document .invalid)).store.statusOf document ≠
      some .new := by
    rw [Store.statusOf, hslot]
    simp [Slot.write, hrow]
  obtain ⟨hsound, hguar⟩ := h.write (q := p.after document a (.setStatus none document .invalid))
    hview (h.original.setStatus hfree) rfl hwrote rfl rfl hunlocked
    (fun t w hw => absurd hw (hdirty t w)) hstatus
  refine ⟨hsound, hguar, ?_, hunlocked a⟩
  rw [hwrote]
  exact List.mem_cons_self

/-- The session writes its version of the row. -/
theorem OneWriter.ready (h : OneWriter document media name first p) (hview : InView document a p)
    (hfree : p.store.waits (.setStatus (some a) document .ready) = false) :
    OneWriter document media name first (p.after document a (.setStatus (some a) document .ready)) ∧
      WriterGuar document a p (p.after document a (.setStatus (some a) document .ready)) ∧
      ∃ row, ((p.after document a
        (.setStatus (some a) document .ready)).store.document.slot document).dirty =
          some (a, some row) := by
  obtain ⟨hlock, row, _, _, _, hrow, hnew⟩ := h.original.setStatus_slot hfree
  have hslot : (p.after document a (.setStatus (some a) document .ready)).store.document.slot document =
      (p.store.document.slot document).write (some a) (some row) := hnew
  have hstatus : (p.after document a (.setStatus (some a) document .ready)).store.statusOf document =
      p.store.statusOf document := by
    rw [Store.statusOf, hslot]
    rfl
  refine ⟨⟨h.original.setStatus hfree, h.numbered, h.one, fun t w hw => ?_, h.looker, ?_, h.results⟩,
    fun b hb => ⟨Iff.rfl, fun _ ht => ht, fun _ hw => hw, fun w => ?_, fun _ => hstatus⟩, row, ?_⟩
  · rw [hslot] at hw
    obtain ⟨rfl, rfl⟩ := Prod.mk.inj (Option.some.inj hw)
    exact ⟨hview.looking, hview.wrote, row, rfl, by simp [hrow]⟩
  · rw [hstatus]
    exact h.left
  · rw [hslot]
    constructor
    · intro hw
      exact absurd (Prod.mk.inj (Option.some.inj hw)).1.symm hb
    · intro hw
      exact absurd (Option.some.inj (Slot.free_iff.mp hlock b w hw)).symm hb
  · rw [hslot]
    rfl

theorem OneWriter.commit (h : OneWriter document media name first p)
    (hdirty : ∃ row, (p.store.document.slot document).dirty = some (a, some row)) :
    OneWriter document media name first (p.after document a (.commit a)) ∧
      WriterGuar document a p (p.after document a (.commit a)) ∧
      a ∈ (p.after document a (.commit a)).wrote ∧ NoRow document a (p.after document a (.commit a)) := by
  obtain ⟨row, hrow⟩ := hdirty
  obtain ⟨hlooking, hnone, row', heq, hne⟩ := h.holder a _ hrow
  obtain rfl := Option.some.inj heq
  have hwrote : (p.after document a (.commit a)).wrote = a :: p.wrote :=
    if_pos (Store.holdsRow_iff.mpr ⟨_, hrow⟩)
  have hslot : (p.after document a (.commit a)).store.document.slot document =
      { committed := some row } := by
    show (p.store.commit a).document.slot document = _
    rw [document_commit]
    simp [Slot.commit, hrow]
  have hunlocked : ∀ t w,
      ((p.after document a (.commit a)).store.document.slot document).dirty ≠ some (t, w) := by
    rw [hslot]
    intro t w hw
    cases hw
  have hmine : ∀ t w, (p.store.document.slot document).dirty = some (t, w) → t = a := by
    intro t w hw
    exact (Prod.mk.inj (Option.some.inj (hw.symm.trans hrow))).1
  have hstatus : (p.after document a (.commit a)).store.statusOf document ≠ some .new := by
    rw [Store.statusOf, hslot]
    simpa using hne
  obtain ⟨hsound, hguar⟩ := h.write (q := p.after document a (.commit a)) ⟨hlooking, hnone⟩
    h.original.commit rfl hwrote rfl rfl hunlocked hmine hstatus
  refine ⟨hsound, hguar, ?_, hunlocked a⟩
  rw [hwrote]
  exact List.mem_cons_self

theorem OneWriter.undo (h : OneWriter document media name first p) {q : FinalizePool}
    (hstore : q.store = p.store.rollback a) (hlooking : q.looking = p.looking)
    (hwrote : q.wrote = p.wrote) (hresults : q.results = p.results) :
    OneWriter document media name first q ∧ WriterGuar document a p q ∧ NoRow document a q := by
  have hslot : q.store.document.slot document = (p.store.document.slot document).rollback a := by
    rw [hstore, document_rollback]
  have hstatus : q.store.statusOf document = p.store.statusOf document := by
    rw [Store.statusOf, hslot, Slot.committed_rollback]
    rfl
  refine ⟨⟨hstore ▸ h.original.rollback, fun t ht => ?_, ?_, fun t w hw => ?_, fun t ht => ?_, ?_, fun t r hr => ?_⟩,
    fun b hb => ⟨by rw [hlooking], fun t ht => hwrote ▸ ht, fun _ hw => hwrote ▸ hw, fun w => ?_,
      fun _ => hstatus⟩, fun w hw => ?_⟩
  · rw [hstore]
    exact h.numbered t (hlooking ▸ ht)
  · rw [hlooking]
    exact h.one
  · rw [hlooking, hwrote]
    exact h.holder t w (Slot.dirty_rollback.mp (hslot ▸ hw)).1
  · rw [hwrote]
    exact h.looker t (hlooking ▸ ht)
  · rw [hstatus, hwrote]
    exact h.left
  · unfold Excused
    rw [hwrote]
    exact h.results t r (hresults ▸ hr)
  · rw [hslot, Slot.dirty_rollback]
    exact and_iff_left hb
  · rw [hslot] at hw
    exact (Slot.dirty_rollback.mp hw).2 rfl

/-- The call is over. -/
theorem OneWriter.leave (h : OneWriter document media name first p) (hno : NoRow document a p) :
    OneWriter document media name first (p.leave a) ∧ WriterGuar document a p (p.leave a) := by
  have hmem : ∀ t, t ∈ (p.leave a).looking ↔ t ∈ p.looking ∧ t ≠ a := by
    intro t
    simp [FinalizePool.leave]
  refine ⟨⟨h.original, fun t ht => h.numbered t ((hmem t).mp ht).1, fun t u ht hu => h.one t u ((hmem t).mp ht).1 ((hmem u).mp hu).1,
    fun t w hw => ?_, fun t ht => h.looker t ((hmem t).mp ht).1, h.left, h.results⟩,
    fun b hb => ⟨?_, fun _ ht => ht, fun _ hw => hw, fun _ => Iff.rfl, fun _ => rfl⟩⟩
  · have hne : t ≠ a := fun heq => hno w (heq ▸ hw)
    obtain ⟨hlooking, hrest⟩ := h.holder t w hw
    exact ⟨(hmem t).mpr ⟨hlooking, hne⟩, hrest⟩
  · rw [hmem]
    exact and_iff_left hb

theorem OneWriter.answer (h : OneWriter document media name first p) (hno : NoRow document a p)
    {r : Except Exc DocumentRecord}
    (hr : a ∈ p.wrote ∨ ∃ e, r = .error e ∧ Excused document a p e) :
    OneWriter document media name first { p.leave a with results := (a, r) :: p.results } ∧
      WriterGuar document a p { p.leave a with results := (a, r) :: p.results } := by
  obtain ⟨hleft, hguar⟩ := h.leave hno
  refine ⟨⟨hleft.original, hleft.numbered, hleft.one, hleft.holder, hleft.looker, hleft.left,
    fun t r' hr' => ?_⟩, fun b hb => ?_⟩
  · rcases List.mem_cons.mp hr' with heq | hold
    · obtain ⟨rfl, rfl⟩ := Prod.mk.inj heq
      exact hr
    · exact h.results t r' hold
  · obtain ⟨hlooking, hwrote, hstill, hlock, hstatus⟩ := hguar b hb
    exact ⟨hlooking, hwrote, hstill, hlock, hstatus⟩

/-- The call dies, and its transaction is rolled back. -/
theorem OneWriter.die (h : OneWriter document media name first p) :
    OneWriter document media name first { p.leave a with store := p.store.rollback a } ∧
      WriterGuar document a p { p.leave a with store := p.store.rollback a } := by
  obtain ⟨hundone, hguar, hno⟩ := h.undo (q := { p with store := p.store.rollback a }) rfl rfl rfl rfl
  obtain ⟨hleft, hguar'⟩ := hundone.leave hno
  exact ⟨hleft, fun b hb => (hguar b hb).trans (hguar' b hb)⟩

end Effects

section Program

variable {cfg : MediaConfig} {document : DocumentId} {media : MediaId} {name : Option String}
  {first : DocumentStatus} {a : Session} {p : FinalizePool}

/-- Before and after its transaction a call has no version of the row. -/
def Outside (document : DocumentId) (a : Session) (e : Exc) (p : FinalizePool) : Prop :=
  NoRow document a p ∧ Excused document a p e

theorem keeps_writer {c : DocCmd} {A : DocReply c → FinalizePool → Prop}
    {E : Exc → FinalizePool → Prop}
    (hlost : ∀ q e, WriterRely document a p q → (∀ session, c ≠ .rollback session) →
      e.fromOutside = true → E e q)
    (hdone : ∀ q, WriterRely document a p q → OneWriter document media name first q →
      Undisputed document (.store a c) q → a < q.store.fresh → q.store.waits c = false →
      OneWriter document media name first (q.after document a c) ∧
        WriterGuar document a q (q.after document a c) ∧
        ∀ r, WriterRely document a (q.after document a c) r →
          Outcome A E (Store.meaning c q.store).1 r ∧ ∀ e, e.fromOutside = true → E e r) :
    Keeps (writerContract document media name first a) (Outcome A E) (onPool a c) p := by
  apply keeps_onPool rfl
  · exact fun q fate hfate => hfate.1
  · exact fun q b _ => WriterRely.refl b q
  · exact fun q e hrely _ hnot he => hlost q e hrely hnot he
  · intro q fate hrely hinv hfate hfree
    obtain ⟨hsound, hguar, hpost⟩ := hdone q hrely hinv hfate.2.1 hfate.2.2 hfree
    exact ⟨hsound, hguar, fun r hr _ => hpost r hr⟩

/-- A statement that neither reads nor writes the status. -/
theorem keeps_neutral {c : DocCmd} {P : FinalizePool → Prop}
    (hP : ∀ q r, P q → WriterRely document a q r → P r)
    (hview : ∀ q : FinalizePool, SameView document q (q.after document a c))
    (horiginal : ∀ q : FinalizePool, OneOriginal document media name q.store →
      q.store.waits c = false →
      OneOriginal document media name (q.after document a c).store)
    (hexc : ∀ s e, (Store.meaning c s).1 = .error e → e.fromOutside = true) (h : P p) :
    Keeps (writerContract document media name first a)
      (Outcome (fun _ q => P q) fun e q => P q ∧ e.fromOutside = true) (onPool a c) p := by
  apply keeps_writer
  · exact fun q e hrely _ he => ⟨hP p q h hrely, he⟩
  · intro q hrely hinv _ _ hfree
    obtain ⟨hsound, hguar⟩ := hinv.aside (hview q) (horiginal q hinv.original hfree)
    refine ⟨hsound, hguar, fun r hr => ?_⟩
    have hr : P r := hP _ r (hP q _ (hP p q h hrely) ((hview q).rely a)) hr
    exact ⟨Outcome.intro (fun _ _ => hr) fun e he => ⟨hr, hexc _ e he⟩, fun e he => ⟨hr, he⟩⟩

/-- The first statement of the call. -/
theorem keeps_lookup (hinv : OneWriter document media name first p) (hno : NoRow document a p) :
    Keeps (writerContract document media name first a)
      (Outcome (fun record q => NoRow document a q ∧ record.row.mediaId = media ∧
        (record.row.status = .new → InView document a q)) (Outside document a))
      ((fetch document false).expand (onPool a)) p := by
  apply keeps_fetchOn hinv
  apply keeps_writer
  · exact fun q e hrely _ he => ⟨hno.later hrely, .inr (.inr he)⟩
  · intro q hrely hinv hundisputed hlt _
    obtain ⟨hsound, hguar, hlook⟩ := hinv.look hlt hundisputed
    obtain ⟨record, hfetched, _, hmedia, _, hstatus⟩ := hinv.original.fetched false
    refine ⟨hsound, hguar, fun r hr => ?_⟩
    have hrow : NoRow document a (q.after document a (.fetchDocument document false)) :=
      fun w hw => (hno.later hrely) w hw
    have hno : NoRow document a r := hrow.later hr
    refine ⟨⟨record, hfetched, hno, hmedia, fun hnew => ?_⟩, fun e he => ⟨hno, .inr (.inr he)⟩⟩
    exact (hlook (hnew ▸ hstatus)).later hr

/-- What the call has while it has the document in view and no transaction of its own. -/
def Looking (document : DocumentId) (a : Session) (p : FinalizePool) : Prop :=
  NoRow document a p ∧ InView document a p

theorem Looking.later {q : FinalizePool} (h : Looking document a p)
    (hrely : WriterRely document a p q) : Looking document a q :=
  ⟨h.1.later hrely, h.2.later hrely⟩

/-- The call has written the status. -/
def Written (document : DocumentId) (a : Session) (p : FinalizePool) : Prop :=
  NoRow document a p ∧ a ∈ p.wrote

theorem Written.later {q : FinalizePool} (h : Written document a p)
    (hrely : WriterRely document a p q) : Written document a q :=
  ⟨h.1.later hrely, hrely.wrote a h.2⟩

theorem Written.outside (h : Written document a p) (e : Exc) : Outside document a e p :=
  ⟨h.1, .inl h.2⟩

theorem keeps_validateStored {key : ObjectKey} {claimed : Option String}
    (hinv : OneWriter document media name first p) (h : Looking document a p) :
    Keeps (writerContract document media name first a)
      (Outcome (fun _ q => Looking document a q) fun e q => Looking document a q ∧
        (e.fromOutside = true ∨ e.refuses = true))
      ((validateStored cfg key claimed).expand (onPool a)) p := by
  apply keeps_validateOn hinv
  have hread : Keeps (writerContract document media name first a)
      (Outcome (fun _ q => Looking document a q) fun e q => Looking document a q ∧
        e.fromOutside = true) (onPool a (.streamObject key)) p := by
    apply keeps_neutral (fun _ _ hq hrely => hq.later hrely) ?_ ?_ ?_ h
    · exact fun q => SameView.of_store (Store.stream_snd key q.store) rfl rfl rfl
    · intro q horiginal _
      show OneOriginal document media name (Store.meaning (.streamObject key) q.store).2
      rwa [Store.stream_snd]
    · exact fun s e => Store.stream_error
  apply hread.weaken
  intro r q _ hr
  cases r with
  | ok data =>
    refine ⟨fun _ _ => hr, fun e he => ⟨hr, ?_⟩⟩
    rcases validate_refuses he with hrefuses | ⟨text, rfl⟩
    · exact .inr hrefuses
    · exact .inl rfl
  | error e => exact ⟨hr.1, .inl hr.2⟩

/-- A call that has refused the original makes the document invalid. -/
theorem keeps_refusal {e : Exc} (h : Looking document a p) :
    Keeps (writerContract document media name first a)
      (Outcome (fun _ q => Outside document a e q) (Outside document a))
      (onPool a (.setStatus none document .invalid)) p := by
  apply keeps_writer
  · exact fun r e hr _ he => ⟨(h.later hr).1, .inr (.inr he)⟩
  · intro r hr hinv _ _ hfree
    obtain ⟨hsound, hguar, hwrote, hno⟩ := hinv.invalidate (h.later hr).2 hfree
    have hwritten : Written document a (r.after document a (.setStatus none document .invalid)) :=
      ⟨hno, hwrote⟩
    exact ⟨hsound, hguar, fun t ht => ⟨(hwritten.later ht).outside _,
      fun e _ => (hwritten.later ht).outside e⟩⟩

theorem keeps_undo {e : Exc} (he : e.fromOutside = true) :
    Keeps (writerContract document media name first a)
      (Outcome (fun _ q => Outside document a e q) fun _ q => Outside document a e q)
      (onPool a (.rollback a)) p := by
  apply keeps_writer
  · exact fun q e hr hnot _ => absurd rfl (hnot a)
  · intro q _ hinv _ _ _
    obtain ⟨hsound, hguar, hno⟩ := hinv.undo (q := q.after document a (.rollback a)) rfl rfl rfl rfl
    have hends : ∀ r, WriterRely document a (q.after document a (.rollback a)) r →
        Outside document a e r := fun r hr => ⟨hno.later hr, .inr (.inr he)⟩
    exact ⟨hsound, hguar, fun r hr => ⟨hends r hr, fun _ _ => hends r hr⟩⟩

/-- The session has a version of the row. -/
def HoldsRow (document : DocumentId) (a : Session) (p : FinalizePool) : Prop :=
  ∃ row, (p.store.document.slot document).dirty = some (a, some row)

theorem keeps_ready (h : Looking document a p) :
    Keeps (writerContract document media name first a)
      (Outcome (fun _ q => HoldsRow document a q) fun e _ => e.fromOutside = true)
      (onPool a (.setStatus (some a) document .ready)) p := by
  apply keeps_writer
  · exact fun r e _ _ he => he
  · intro r hr hinv _ _ hfree
    obtain ⟨hsound, hguar, row, hrow⟩ := hinv.ready (h.later hr).2 hfree
    exact ⟨hsound, hguar, fun t ht => ⟨⟨row, (ht.row_lock _).mpr hrow⟩, fun e he => he⟩⟩

theorem keeps_committing (h : HoldsRow document a p) :
    Keeps (writerContract document media name first a)
      (Outcome (fun _ q => Written document a q) fun e _ => e.fromOutside = true)
      (onPool a (.commit a)) p := by
  obtain ⟨row, hrow⟩ := h
  apply keeps_writer
  · exact fun r e _ _ he => he
  · intro r hr hinv _ _ _
    obtain ⟨hsound, hguar, hwrote, hno⟩ := hinv.commit ⟨row, (hr.row_lock _).mpr hrow⟩
    exact ⟨hsound, hguar, fun t ht => ⟨⟨hno.later ht, ht.wrote a hwrote⟩, fun e he => he⟩⟩

/-- The transaction that makes the document ready. -/
theorem keeps_making {mime : Mime} {size : Nat} (hinv : OneWriter document media name first p)
    (h : Looking document a p) :
    Keeps (writerContract document media name first a)
      (Outcome (fun _ q => Written document a q) (Outside document a))
      ((transaction a fun _ => do
        statement (.setContent (some a) media mime size)
        statement (.setStatus (some a) document .ready)).expand (onPool a)) p := by
  apply keeps_transactionOn (B := fun _ q => Looking document a q)
    (M := fun _ q => HoldsRow document a q) (F := fun e _ => e.fromOutside = true) hinv
  · have hbegin : Keeps (writerContract document media name first a)
        (Outcome (fun _ q => Looking document a q) fun e q => Looking document a q ∧
          e.fromOutside = true) (onPool a (.begin a)) p := by
      apply keeps_neutral (fun _ _ hq hrely => hq.later hrely) ?_ ?_ ?_ h
      · exact fun q => SameView.of_store rfl rfl rfl rfl
      · exact fun q horiginal _ => horiginal
      · exact fun s e he => nomatch he
    exact hbegin.excuse fun e q he => ⟨he.1.1, .inr (.inr he.2)⟩
  · intro _ q hinv hlooking
    have hfill : Keeps (writerContract document media name first a)
        (Outcome (fun _ q => Looking document a q) fun e q => Looking document a q ∧
          e.fromOutside = true) (onPool a (.setContent (some a) media mime size)) q := by
      apply keeps_neutral (fun _ _ hq hrely => hq.later hrely) ?_ ?_ ?_ hlooking
      · exact fun q => ⟨rfl, rfl, rfl, rfl, le_rfl⟩
      · exact fun q horiginal hfree => horiginal.setContent hfree
      · exact fun s e he => nomatch he
    show Keeps _ _ (((statement (.setContent (some a) media mime size)).bind fun _ =>
      statement (.setStatus (some a) document .ready)).expand (onPool a)) q
    rw [Prog.expand_bind, expand_statement]
    apply hfill.next hinv
    · intro _ r _ hlooking
      rw [expand_statement]
      exact keeps_ready hlooking
    · exact fun _ _ h => h.2
  · exact fun _ q _ hrow => keeps_committing hrow
  · exact fun e q _ he => keeps_undo he

theorem keeps_review (hinv : OneWriter document media name first p) (h : Written document a p) :
    Keeps (writerContract document media name first a)
      (Outcome (fun _ q => Written document a q) (Outside document a))
      ((fetch document true).expand (onPool a)) p := by
  apply keeps_fetchOn hinv
  apply keeps_writer
  · exact fun q e hrely _ _ => (h.later hrely).outside e
  · intro q hrely hinv _ _ _
    obtain ⟨record, hfetched, _⟩ := hinv.original.fetched true
    have hview : SameView document q (q.after document a (.fetchDocument document true)) :=
      SameView.of_store rfl rfl rfl rfl
    obtain ⟨hsound, hguar⟩ := hinv.aside hview hinv.original
    refine ⟨hsound, hguar, fun r hr => ?_⟩
    have hwritten : Written document a r := ((h.later hrely).later (hview.rely a)).later hr
    exact ⟨⟨record, hfetched, hwritten⟩, fun e _ => hwritten.outside e⟩

/-- A call that returns has written the status. -/
theorem keeps_finalize (hinv : OneWriter document media name first p) (hno : NoRow document a p) :
    Keeps (writerContract document media name first a)
      (Outcome (fun _ q => Written document a q) (Outside document a))
      ((finalize cfg a document).expand (onPool a)) p := by
  apply keeps_finalizeOn hinv (keeps_lookup hinv hno)
    (V := fun doc _ q => Looking document a q ∧ doc.row.mediaId = media)
    (R := fun e q => Looking document a q ∧ (e.fromOutside = true ∨ e.refuses = true))
  · exact fun doc q hfound _ => ⟨hfound.1, .inr (.inl rfl)⟩
  · rintro doc q hinv ⟨hno, hmedia, hlook⟩ hstatus
    have hlooking : Looking document a q := ⟨hno, hlook hstatus⟩
    apply (keeps_validateStored hinv hlooking).weaken
    intro r t _ hr
    cases r with
    | ok found => exact ⟨hr, hmedia⟩
    | error e => exact hr
  · rintro e q ⟨hlooking, he | he⟩ hno
    · exact ⟨hlooking.1, .inr (.inr he)⟩
    · exact nomatch he.symm.trans hno
  · exact fun e q _ hrefused _ => keeps_refusal hrefused.1
  · rintro doc ⟨mime, size⟩ q hinv ⟨hlooking, rfl⟩
    exact keeps_making hinv hlooking
  · exact fun q hinv hwritten => keeps_review hinv hwritten

theorem keeps_finalizeProg (hinv : OneWriter document media name first p)
    (hno : NoRow document a p) :
    Keeps (writerContract document media name first a) (fun _ _ => True)
      (finalizeProg cfg document a) p := by
  apply (keeps_finalize hinv hno).settle hinv
  intro r q hinv hmid
  apply Keeps.perform
  rintro t hrely hinv fate ⟨hadmits, _⟩
  obtain rfl : fate = .done := of_decide_eq_true hadmits
  have hpost := hmid t hrely hinv
  have hends : NoRow document a t ∧
      (a ∈ t.wrote ∨ ∃ e, r = .error e ∧ Excused document a t e) := by
    cases r with
    | ok record => exact ⟨hpost.1, .inl hpost.2⟩
    | error e => exact ⟨hpost.1, .inr ⟨e, rfl, hpost.2⟩⟩
  obtain ⟨hsound, hguar⟩ := hinv.answer hends.1 hends.2
  exact ⟨hsound, hguar, fun _ _ _ => trivial⟩

end Program

section Runs

variable {cfg : MediaConfig} {document : DocumentId} {media : MediaId} {name : Option String}
  {first : DocumentStatus} {p : FinalizePool}

theorem SameView.event {e : FinalizeEvent} {q : FinalizePool}
    {new : List (Thread FinalizeReply Exc Session)}
    (h : finalizeEvent cfg document p e = some (q, new)) : SameView document p q := by
  obtain ⟨⟨s, rfl, _, hdocument, _, hfresh, _⟩, _⟩ := finalizeEvent_cases h
  exact ⟨by rw [hdocument], rfl, rfl, rfl, hfresh⟩

theorem OneWriter.event {e : FinalizeEvent} {q : FinalizePool}
    {new : List (Thread FinalizeReply Exc Session)} (hinv : OneWriter document media name first p)
    (h : finalizeEvent cfg document p e = some (q, new)) :
    OneWriter document media name first q := by
  have hview := SameView.event h
  obtain ⟨⟨s, rfl, hmedia, _, hkey, _⟩, _⟩ := finalizeEvent_cases h
  exact hview.sound hinv (hinv.original.same hkey hview.row (by rw [hmedia]))

/-- No call finds the document new that another one has found new which is still running. -/
def Alone (document : DocumentId) (c : Config FinalizeReply Exc FinalizePool Session) :
    Move Exc FinalizeEvent → Prop
  | .run i _ => ∀ t cmd rest, c.threads[i]? = some t → t.prog = .await cmd rest →
    Undisputed document cmd c.shared
  | _ => True

def writerDiscipline (cfg : MediaConfig) (document : DocumentId) (media : MediaId)
    (name : Option String) (first : DocumentStatus) : Discipline (finalizeCalls cfg document)
      (fun c move => Alone document c move ∧ CallsNumbered c) where
  inv := OneWriter document media name first
  contract := writerContract document media name first
  post := fun _ _ _ => True
  apart := fun a b => a ≠ b
  meaning_eq := fun _ => rfl
  inv_eq := fun _ => rfl
  apart_symm := Ne.symm
  others := fun hapart _ _ hguar => hguar _ hapart.symm
  fates := fun hok hi hprog hadmits _ =>
    ⟨hadmits, hok.1 _ _ _ hi hprog, hok.2 _ (List.mem_of_getElem? hi)⟩
  exit_keeps := fun _ _ _ ht => nomatch ht
  exit_apart := @finalizeCalls_exit_apart cfg document
  exit_pairwise := @no_threads_apart
  death_inv := fun _ _ hinv => hinv.die.1
  death_rely := fun _ _ hinv hapart => hinv.die.2 _ hapart.symm
  env_inv := fun _ henv hinv => hinv.event henv
  env_rely := fun _ henv _ t _ => (SameView.event henv).rely t.tag
  env_keeps := by
    intro c e q new _ henv hinv t ht
    have hview := SameView.event henv
    obtain ⟨_, rfl | ⟨rfl, _⟩⟩ := finalizeEvent_cases henv
    · exact nomatch ht
    · obtain rfl := List.mem_singleton.mp ht
      refine keeps_finalizeProg (hinv.event henv) fun w hw => ?_
      rw [hview.row] at hw
      exact lt_irrefl _ (hinv.numbered _ (hinv.holder _ w hw).1)
  env_apart := fun hok henv _ => finalizeEvent_apart hok.2 henv

/-- The status, once written, stays. -/
def StatusStays (document : DocumentId) (p q : FinalizePool) : Prop :=
  p.wrote ≠ [] → q.wrote ≠ [] ∧ q.store.statusOf document = p.store.statusOf document

theorem WriterRely.stays {a : Session} {q : FinalizePool} (h : WriterRely document a p q) :
    StatusStays document p q := by
  intro hw
  obtain ⟨t, ht⟩ := List.exists_mem_of_ne_nil _ hw
  exact ⟨List.ne_nil_of_mem (h.wrote t ht), h.status hw⟩

variable {c d : Config FinalizeReply Exc FinalizePool Session} {start : Store} {expires : Time}

theorem StatusStays.trans {q r : FinalizePool} (h : StatusStays document p q)
    (h' : StatusStays document q r) : StatusStays document p r := by
  intro hw
  obtain ⟨hq, heq⟩ := h hw
  obtain ⟨hr, heq'⟩ := h' hq
  exact ⟨hr, heq'.trans heq⟩

theorem oneWriter_start (horiginal : OneOriginal document media name start)
    (hrest : (start.document.slot document).dirty = none)
    (hstatus : start.statusOf document = some first) :
    OneWriter document media name first { store := start, expires := expires } := by
  refine ⟨horiginal, fun t ht => (nomatch ht), fun t u ht => (nomatch ht), fun t w hw => ?_,
    fun t ht => (nomatch ht), .inl ⟨rfl, hstatus⟩, fun t r hr => (nomatch hr)⟩
  rw [hrest] at hw
  exact nomatch hw

theorem alone_safe (horiginal : OneOriginal document media name start)
    (hrest : (start.document.slot document).dirty = none)
    (reach : Reach (finalizeCalls cfg document) (Alone document)
      ⟨{ store := start, expires := expires }, []⟩ c) :
    ∃ first, (writerDiscipline cfg document media name first).Safe c ∧ CallsNumbered c := by
  obtain ⟨record, _, _, _, _, hstatus⟩ := horiginal.fetched false
  have hnumbered : ∀ d, Reach (finalizeCalls cfg document) (Alone document)
      ⟨{ store := start, expires := expires }, []⟩ d → CallsNumbered d :=
    fun d hd => callsNumbered_reach hd fun t ht => nomatch ht
  have hsafe : (writerDiscipline cfg document media name record.row.status).Safe
      ⟨{ store := start, expires := expires }, []⟩ :=
    ⟨oneWriter_start horiginal hrest hstatus, fun _ ht => (nomatch ht), List.Pairwise.nil⟩
  exact ⟨record.row.status, (reach.strengthen hnumbered).safe _ hsafe, hnumbered c reach⟩

theorem status_stays (hsafe : (writerDiscipline cfg document media name first).Safe c)
    (hnumbered : CallsNumbered c)
    (reach : Reach (finalizeCalls cfg document) (Alone document) c d) :
    (writerDiscipline cfg document media name first).Safe d ∧
      StatusStays document c.shared d.shared := by
  refine (reach.strengthen (I := CallsNumbered) fun e he =>
    callsNumbered_reach he hnumbered).invariant
      (I := fun e => (writerDiscipline cfg document media name first).Safe e ∧
        StatusStays document c.shared e.shared) ⟨hsafe, fun hw => ⟨hw, rfl⟩⟩ ?_
  rintro e e' move ⟨hsafe, hstays⟩ hok hstep
  refine ⟨hsafe.step hok hstep, hstays.trans ?_⟩
  apply hsafe.step_rel hok hstep
  · exact fun p hw => ⟨hw, rfl⟩
  · intro a p q _ _ hguar
    exact (hguar (a + 1) (Nat.succ_ne_self a)).stays
  · intro a p hw
    refine ⟨hw, ?_⟩
    show (p.store.rollback a).statusOf document = _
    rw [Store.statusOf, document_rollback, Slot.committed_rollback]
    rfl
  · exact fun _ henv => ((SameView.event henv).rely 0).stays

/-- In a run in which no call finds the document new while another that has found it new is still
running: one call at most writes the status, every other call raises that the document is
finalized or what it was given from outside, and a status that is not new stays. -/
theorem leaves_new_once (horiginal : OneOriginal document media name start)
    (hrest : (start.document.slot document).dirty = none)
    (reach : Reach (finalizeCalls cfg document) (Alone document)
      ⟨{ store := start, expires := expires }, []⟩ c) :
    c.shared.wrote.length ≤ 1 ∧
      (∀ a r, (a, r) ∈ c.shared.results → a ∈ c.shared.wrote ∨
        r = .error (.alreadyFinalized document) ∨ ∃ e, r = .error e ∧ e.fromOutside = true) ∧
      ∀ d, Reach (finalizeCalls cfg document) (Alone document) c d →
        c.shared.store.statusOf document ≠ some .new →
        d.shared.store.statusOf document = c.shared.store.statusOf document := by
  obtain ⟨first, hsafe, hnumbered⟩ := alone_safe horiginal hrest reach
  have hinv : OneWriter document media name first c.shared := hsafe.inv
  refine ⟨?_, fun a r hr => ?_, fun d hd hne => ?_⟩
  · rcases hinv.left with ⟨hnone, _⟩ | ⟨_, ⟨t, hone⟩, _⟩
    · simp [hnone]
    · simp [hone]
  · rcases hinv.results a r hr with hw | ⟨e, rfl, hw | rfl | he⟩
    · exact .inl hw
    · exact .inl hw
    · exact .inr (.inl rfl)
    · exact .inr (.inr ⟨e, rfl, he⟩)
  · obtain ⟨hsafe', hstays⟩ := status_stays hsafe hnumbered hd
    rcases hinv.left with ⟨_, hfirst⟩ | ⟨_, ⟨t, hone⟩, _⟩
    · have hinv' : OneWriter document media name first d.shared := hsafe'.inv
      rcases hinv'.left with ⟨_, hfirst'⟩ | ⟨rfl, _, _⟩
      · exact hfirst'.trans hfirst.symm
      · exact absurd hfirst hne
    · exact (hstays (by simp [hone])).2

end Runs

section Example

/-- Both calls find the document new, and the first one makes it ready. -/
def bothFindNew : List (Move Exc FinalizeEvent) :=
  [.env .call, .env .call, .run 0 .done, .run 1 .done] ++ List.replicate 7 (.run 0 .done)

/-- The client puts its original again, and the second call makes the document invalid. -/
def putAgain : List (Move Exc FinalizeEvent) :=
  [.env (.put [0])] ++ List.replicate 3 (.run 1 .done)

/-- The second call has raised that the type of the original is unsupported. -/
def refusedSecond (p : FinalizePool) : Bool :=
  match p.results with
  | (4, .error e) :: _ => e = .unsupportedType (.original 1)
  | _ => false

theorem ready_made_invalid : ∃ c d,
    Reach (finalizeCalls plainConfig 1) (fun _ _ => True) uploadedPool c ∧
      Reach (finalizeCalls plainConfig 1) (fun _ _ => True) c d ∧
      c.shared.store.statusOf 1 = some .ready ∧ d.shared.store.statusOf 1 = some .invalid ∧
      d.shared.wrote = [4, 3] ∧
      (4, .error (.unsupportedType (.original 1))) ∈ d.shared.results := by
  have hrun : (((finalizeCalls plainConfig 1).exec bothFindNew uploadedPool).bind fun c =>
      ((finalizeCalls plainConfig 1).exec putAgain c).map fun d =>
        (c.shared.store.statusOf 1, d.shared.store.statusOf 1, d.shared.wrote,
          refusedSecond d.shared)) = some (some .ready, some .invalid, [4, 3], true) := by
    decide +kernel
  obtain ⟨c, hc, hrest⟩ := Option.bind_eq_some_iff.mp hrun
  obtain ⟨d, hd, hresult⟩ := Option.map_eq_some_iff.mp hrest
  simp only [Prod.mk.injEq] at hresult
  obtain ⟨hready, hinvalid, hwrote, hrefused⟩ := hresult
  refine ⟨c, d, Reach.start.exec (fun _ _ => trivial) hc, Reach.start.exec (fun _ _ => trivial) hd,
    hready, hinvalid, hwrote, ?_⟩
  unfold refusedSecond at hrefused
  split at hrefused
  · next e rest heq =>
    rw [heq, of_decide_eq_true hrefused]
    exact List.mem_cons_self
  · exact nomatch hrefused

/-- One call after the other: the second raises that the document is finalized. -/
def oneThenOther : List (Move Exc FinalizeEvent) :=
  [.env .call] ++ List.replicate 8 (.run 0 .done) ++ [.env .call] ++ List.replicate 2 (.run 1 .done)

def aloneCheck (c : Config FinalizeReply Exc FinalizePool Session) : Move Exc FinalizeEvent → Bool
  | .run i _ =>
    match c.threads[i]?.map Thread.prog with
    | some (.await (.store _ (.fetchDocument _ false)) _) =>
      !c.shared.store.findsNew 1 || c.shared.looking.isEmpty
    | _ => true
  | _ => true

theorem alone_of_check {c : Config FinalizeReply Exc FinalizePool Session}
    {move : Move Exc FinalizeEvent} (h : aloneCheck c move = true) : Alone 1 c move := by
  cases move with
  | run i fate =>
    rintro t cmd rest ht hprog session rfl hnew
    simpa [aloneCheck, ht, hprog, hnew] using h
  | _ => trivial

theorem leaves_new_in_turn : ∃ c,
    Reach (finalizeCalls plainConfig 1) (Alone 1) uploadedPool c ∧
      c.shared.wrote = [3] ∧ c.shared.results.length = 2 ∧ c.shared.wrote.length ≤ 1 := by
  have hrun : ((finalizeCalls plainConfig 1).execWhen aloneCheck oneThenOther uploadedPool).any
      (fun c => c.shared.wrote = [3] ∧ c.shared.results.length = 2) = true := by
    decide +kernel
  obtain ⟨c, hc, hends⟩ := (Option.any_eq_true _ _).mp hrun
  obtain ⟨hwrote, hlength⟩ := of_decide_eq_true hends
  have hreach : Reach (finalizeCalls plainConfig 1) (Alone 1) uploadedPool c :=
    Reach.start.execWhen (fun _ _ _ => alone_of_check) hc
  exact ⟨c, hreach, hwrote, hlength, (leaves_new_once uploadedStore_original rfl hreach).1⟩

end Example

end Doci
