import Doci.Marking
import Doci.PurgeWindow

/-! Calls of `delete` side by side, each with its own list of documents: what every state of such a
run has in common with the state it started from. -/

namespace Doci

open Coroutine ReadCommitted

inductive DeleteCmd where
  | store (c : DocCmd)
  | answer (session : Session) (count : Nat)

abbrev DeleteReply : DeleteCmd → Type
  | .store c => DocReply c
  | .answer _ _ => Unit

/-- The store, the counts that calls have returned, and whose commit has deleted a document. -/
structure DeletePool where
  store : Store
  answers : List (Session × Nat) := []
  deletedBy : DocumentId → Option Session := fun _ => none

/-- A commit deletes the documents that its session has marked. -/
def DeletePool.record (p : DeletePool) : DocCmd → DocumentId → Option Session
  | .commit session, d =>
    if (p.store.document.slot d).dirty.any fun lock => lock.1 = session then some session
    else p.deletedBy d
  | _, d => p.deletedBy d

def DeletePool.meaning :
    (c : DeleteCmd) → DeletePool → Except Exc (DeleteReply c) × DeletePool
  | .store c, p => ((Store.meaning c p.store).1,
      { p with store := (Store.meaning c p.store).2, deletedBy := p.record c })
  | .answer session count, p => (.ok (), { p with answers := (session, count) :: p.answers })

def DeletePool.admits : DeleteCmd → DeletePool → Fate Exc → Bool
  | .store c, p, fate => Store.admits c p.store fate
  | .answer _ _, _, fate => fate = .done

section Calls

variable (cfg : MediaConfig)

def deleteProg (session : Session) (ids : List DocumentId) : Prog DeleteReply Exc Unit :=
  ((delete cfg session ids).expand
      fun c => (perform (DeleteCmd.store c) : Prog DeleteReply Exc (DocReply c))).bind
    fun count => perform (DeleteCmd.answer session count)

/-- Calls of `delete`, while time passes; one that dies is rolled back. -/
def deleteCalls : System DeleteReply Exc DeletePool Session Time where
  meaning := DeletePool.meaning
  admits := DeletePool.admits
  env := fun duration p =>
    some ({ p with store := { p.store with now := p.store.now + duration } }, [])
  exit := fun _ _ => []
  death := fun session p => { p with store := p.store.rollback session }

/-- Session `i` runs the call with the `i`th list. -/
def startDeletes (s : Store) (calls : List (List DocumentId)) :
    Config DeleteReply Exc DeletePool Session :=
  ⟨{ store := s }, calls.mapIdx fun i ids => ⟨i, deleteProg cfg i ids⟩⟩

end Calls

def MediaRow.marked (purge : Nat) (now : Time) (row : MediaRow) : MediaRow :=
  { row with deletedAt := some now, purgeAfter := some (Store.deadline now purge) }

def DocumentRow.marked (purge : Nat) (now : Time) (row : DocumentRow) : DocumentRow :=
  { row with deletedAt := some now, purgeAfter := some (Store.deadline now purge) }

/-- The document refers to the blob, as its original or from one of its parts. -/
def Store.Refers (s : Store) (d : DocumentId) (m : MediaId) : Prop :=
  (∃ row, (s.document.slot d).committed = some row ∧ row.mediaId = m) ∨
    ∃ locator row, (s.part.slot (d, locator)).committed = some row ∧
      (row.mediaId = some m ∨ row.thumbMediaId = some m)

/-- A blob of the live document `d`. -/
def Store.Owns (s : Store) (d : DocumentId) (k : ObjectKey) : Prop :=
  Live s d ∧ ∃ v, (s.media.slot k).committed = some v ∧ s.Refers d v.id

/-- No transaction is open, and neither a live document nor a blob of it is marked. -/
structure DocumentsAtRest (s : Store) : Prop where
  media_unlocked : ∀ k, (s.media.slot k).dirty = none
  document_unlocked : ∀ d, (s.document.slot d).dirty = none
  part_unlocked : ∀ k, (s.part.slot k).dirty = none
  keyed : ∀ k v, (s.media.slot k).committed = some v → s.mediaKey v.id = some k
  owned : ∀ d m, s.Refers d m → BlobOf s d m
  unmarked : ∀ d k, s.Owns d k → ∃ v, (s.media.slot k).committed = some v ∧
    v.deletedAt = none ∧ v.purgeAfter = none

theorem DocumentsAtRest.one_owner {s : Store} (h : DocumentsAtRest s) {d e : DocumentId}
    {k : ObjectKey} (hd : s.Owns d k) (he : s.Owns e k) : d = e := by
  have hkey : ∀ d, s.Owns d k → k.document = d := by
    rintro d ⟨_, v, hv, hrefers⟩
    obtain ⟨k', hk', hdoc⟩ := h.owned d v.id hrefers
    obtain rfl := Option.some.inj ((h.keyed k v hv).symm.trans hk')
    exact hdoc
  exact (hkey d hd).symm.trans (hkey e he)

section Invariant

variable (purge : Nat) (start : Store) (asked : Session → List DocumentId)

/-- What holds of a state of the run from `start` in which session `t` deletes `asked t`. -/
structure Deleting (p : DeletePool) : Prop where
  mediaKey : p.store.mediaKey = start.mediaKey
  part : ∀ k, p.store.part.slot k = start.part.slot k
  media : ∀ k, Marking (fun row => row.deletedAt = none) (MediaRow.marked purge)
    (start.media.slot k).committed (p.store.media.slot k)
  document : ∀ d, Marking (fun row => row.deletedAt = none) (DocumentRow.marked purge)
    (start.document.slot d).committed (p.store.document.slot d)
  media_asked : ∀ k t w, (p.store.media.slot k).dirty = some (t, w) →
    ∃ d ∈ asked t, start.Owns d k
  document_asked : ∀ d t w, (p.store.document.slot d).dirty = some (t, w) → d ∈ asked t
  /-- A document is deleted together with its blobs, at one instant. -/
  whole : ∀ d k, start.Owns d k →
    (p.store.document.slot d).committed = (start.document.slot d).committed ∧
        (p.store.media.slot k).committed = (start.media.slot k).committed ∨
      ∃ n row v, (start.document.slot d).committed = some row ∧
        (p.store.document.slot d).committed = some (row.marked purge n) ∧
        (start.media.slot k).committed = some v ∧
        (p.store.media.slot k).committed = some (v.marked purge n)
  locked : ∀ d k t row, start.Owns d k → (p.store.document.slot d).dirty = some (t, some row) →
    ∃ n old v, (start.document.slot d).committed = some old ∧ row = old.marked purge n ∧
      (start.media.slot k).committed = some v ∧
      (p.store.media.slot k).dirty = some (t, some (v.marked purge n))
  changed : ∀ k, (p.store.media.slot k).committed ≠ (start.media.slot k).committed →
    ∃ d t, d ∈ asked t ∧ start.Owns d k
  kept : ∀ d, p.deletedBy d = none ↔
    (p.store.document.slot d).committed = (start.document.slot d).committed
  deleted : ∀ d t, p.deletedBy d = some t → d ∈ asked t
  answered : ∀ t n, (t, n) ∈ p.answers → Counts n (fun d => p.deletedBy d = some t) ∧
    ∀ d ∈ asked t, Live start d → p.deletedBy d ≠ none
  once : (p.answers.map Prod.fst).Nodup

/-- What session `a` relies on: what is deleted stays as it is, and its locks are its own. -/
structure DeleteRely (a : Session) (p q : DeletePool) : Prop where
  deletedBy : ∀ d t, p.deletedBy d = some t → q.deletedBy d = some t
  mine : ∀ d, q.deletedBy d = some a → p.deletedBy d = some a
  document : ∀ d, p.deletedBy d ≠ none →
    (q.store.document.slot d).committed = (p.store.document.slot d).committed
  media : ∀ d k, p.deletedBy d ≠ none → start.Owns d k →
    (q.store.media.slot k).committed = (p.store.media.slot k).committed
  media_lock : ∀ k w, (q.store.media.slot k).dirty = some (a, w) ↔
    (p.store.media.slot k).dirty = some (a, w)
  document_lock : ∀ d w, (q.store.document.slot d).dirty = some (a, w) ↔
    (p.store.document.slot d).dirty = some (a, w)
  answers : ∀ n, (a, n) ∈ q.answers ↔ (a, n) ∈ p.answers

def DeleteGuar (a : Session) (p q : DeletePool) : Prop := ∀ b, b ≠ a → DeleteRely start b p q

end Invariant

section Steps

variable {purge : Nat} {start : Store} {asked : Session → List DocumentId} {a : Session}
  {p q r : DeletePool}

theorem DeleteRely.refl (a : Session) (p : DeletePool) : DeleteRely start a p p :=
  ⟨fun _ _ h => h, fun _ h => h, fun _ _ => rfl, fun _ _ _ _ => rfl, fun _ _ => Iff.rfl,
    fun _ _ => Iff.rfl, fun _ => Iff.rfl⟩

theorem DeleteRely.trans (h : DeleteRely start a p q) (h' : DeleteRely start a q r) :
    DeleteRely start a p r := by
  have hstill : ∀ d, p.deletedBy d ≠ none → q.deletedBy d ≠ none := by
    intro d hd
    obtain ⟨t, ht⟩ := Option.ne_none_iff_exists'.mp hd
    simp [h.deletedBy d t ht]
  exact ⟨fun d t hd => h'.deletedBy d t (h.deletedBy d t hd), fun d hd => h.mine d (h'.mine d hd),
    fun d hd => (h'.document d (hstill d hd)).trans (h.document d hd),
    fun d k hd ho => (h'.media d k (hstill d hd) ho).trans (h.media d k hd ho),
    fun k w => (h'.media_lock k w).trans (h.media_lock k w),
    fun d w => (h'.document_lock d w).trans (h.document_lock d w),
    fun n => (h'.answers n).trans (h.answers n)⟩

theorem Deleting.blob_kept (h : Deleting purge start asked p) {d : DocumentId} {k : ObjectKey}
    (howns : start.Owns d k) (hnone : p.deletedBy d = none) :
    (p.store.media.slot k).committed = (start.media.slot k).committed := by
  rcases h.whole d k howns with ⟨_, hsame⟩ | ⟨n, row, _, hrow, hmarked, _⟩
  · exact hsame
  · obtain ⟨⟨row', hrow', hlive⟩, _⟩ := howns
    obtain rfl := Option.some.inj (hrow.symm.trans hrow')
    have hrows : row.marked purge n = row :=
      Option.some.inj ((hmarked.symm.trans ((h.kept d).mp hnone)).trans hrow)
    rw [← hrows] at hlive
    exact nomatch hlive

theorem Deleting.none_of_dirty_blob (h : Deleting purge start asked p) {d : DocumentId}
    {k : ObjectKey} {t : Session} {w : Option MediaRow} (howns : start.Owns d k)
    (hdirty : (p.store.media.slot k).dirty = some (t, w)) : p.deletedBy d = none := by
  obtain ⟨v, _, hv, hlive, hcommitted, _⟩ := (h.media k).dirty hdirty
  rcases h.whole d k howns with ⟨hsame, _⟩ | ⟨n, _, v', _, _, hv', hmarked⟩
  · exact (h.kept d).mpr hsame
  · obtain rfl := Option.some.inj (hv.symm.trans hv')
    have hrows : v.marked purge n = v := Option.some.inj (hmarked.symm.trans hcommitted)
    rw [← hrows] at hlive
    exact nomatch hlive

theorem Deleting.none_of_dirty (h : Deleting purge start asked p) {d : DocumentId} {t : Session}
    {w : Option DocumentRow} (hdirty : (p.store.document.slot d).dirty = some (t, w)) :
    p.deletedBy d = none :=
  (h.kept d).mpr ((h.document d).committed_of_dirty hdirty)

theorem Deleting.bystander (h : Deleting purge start asked p) (now : Time)
    (snapshots : Session → List DocumentId) :
    Deleting purge start asked
        { p with store := { p.store with now := now, snapshots := snapshots } } ∧
      DeleteGuar start a p { p with store := { p.store with now := now, snapshots := snapshots } } :=
  ⟨⟨h.mediaKey, h.part, h.media, h.document, h.media_asked, h.document_asked, h.whole, h.locked,
    h.changed, h.kept, h.deleted, h.answered, h.once⟩, fun _ _ => ⟨fun _ _ h => h, fun _ h => h,
      fun _ _ => rfl, fun _ _ _ _ => rfl, fun _ _ => Iff.rfl, fun _ _ => Iff.rfl, fun _ => Iff.rfl⟩⟩

/-- The blobs that the update finds are as they were at the beginning. -/
theorem Deleting.markMedia_cases (h : Deleting purge start asked p) {blobs : List MediaId}
    {now : Time} (hfree : p.store.waits (.markMedia a blobs now purge) = false) (k : ObjectKey) :
    (p.store.markMedia a blobs now purge).media.slot k = p.store.media.slot k ∧
        (∀ v, (p.store.media.slot k).view (some a) = some v →
          (blobs.contains v.id && v.deletedAt.isNone) = false) ∨
      ∃ v, p.store.media.slot k = { committed := some v } ∧
        (start.media.slot k).committed = some v ∧ v.id ∈ blobs ∧ v.deletedAt = none ∧
        (p.store.markMedia a blobs now purge).media.slot k =
          { committed := some v, dirty := some (a, some (v.marked purge now)) } := by
  have hwaits : p.store.media.freeWhere (some a)
      (fun _ row => blobs.contains row.id && row.deletedAt.isNone) = true := by
    simpa only [Store.waits, Bool.not_eq_false'] using hfree
  have hmark : ∀ n (v : MediaRow), ¬ (v.marked purge n).deletedAt = none :=
    fun _ _ => Option.some_ne_none _
  have hsel : ∀ (_ : ObjectKey) (v : MediaRow), (blobs.contains v.id && v.deletedAt.isNone) = true →
      v.deletedAt = none := by
    intro _ v hv
    exact Option.isNone_iff_eq_none.mp (Bool.and_eq_true_iff.mp hv).2
  have hcases := Table.mark_cases (n := now) h.media hmark hsel hwaits k
  rcases hcases with hpassed | ⟨v, hslot, hold, hv, hnew⟩
  · exact .inl hpassed
  · have hmem : v.id ∈ blobs := List.contains_iff_mem.mp (Bool.and_eq_true_iff.mp hv).1
    exact .inr ⟨v, hslot, hold, hmem, hsel k v hv, hnew⟩

theorem Deleting.markDocuments_cases (h : Deleting purge start asked p) {ids : List DocumentId}
    {now : Time} (hfree : p.store.waits (.markDocuments a ids now purge) = false) (d : DocumentId) :
    (p.store.markDocuments a ids now purge).2.document.slot d = p.store.document.slot d ∧
        (∀ row, (p.store.document.slot d).view (some a) = some row →
          (ids.contains d && row.deletedAt.isNone) = false) ∨
      ∃ row, p.store.document.slot d = { committed := some row } ∧
        (start.document.slot d).committed = some row ∧ d ∈ ids ∧ row.deletedAt = none ∧
        (p.store.markDocuments a ids now purge).2.document.slot d =
          { committed := some row, dirty := some (a, some (row.marked purge now)) } := by
  have hwaits : p.store.document.freeWhere (some a)
      (fun k row => ids.contains k && row.deletedAt.isNone) = true := by
    simpa only [Store.waits, Bool.not_eq_false'] using hfree
  have hmark : ∀ n (row : DocumentRow), ¬ (row.marked purge n).deletedAt = none :=
    fun _ _ => Option.some_ne_none _
  have hsel : ∀ k (row : DocumentRow), (ids.contains k && row.deletedAt.isNone) = true →
      row.deletedAt = none := by
    intro _ row hrow
    exact Option.isNone_iff_eq_none.mp (Bool.and_eq_true_iff.mp hrow).2
  have hcases := Table.mark_cases (n := now) h.document hmark hsel hwaits d
  rcases hcases with hpassed | ⟨row, hslot, hold, hrow, hnew⟩
  · exact .inl hpassed
  · have hmem : d ∈ ids := List.contains_iff_mem.mp (Bool.and_eq_true_iff.mp hrow).1
    exact .inr ⟨row, hslot, hold, hmem, hsel d row hrow, hnew⟩

theorem Deleting.markMedia (h : Deleting purge start asked p) {blobs : List MediaId} {now : Time}
    (hfree : p.store.waits (.markMedia a blobs now purge) = false)
    (hblobs : ∀ m ∈ blobs, ∃ d ∈ asked a, Live start d ∧ start.Refers d m) :
    Deleting purge start asked { p with store := p.store.markMedia a blobs now purge } ∧
      DeleteGuar start a p { p with store := p.store.markMedia a blobs now purge } := by
  have hcases := fun k => h.markMedia_cases hfree k
  have hcommitted : ∀ k, ((p.store.markMedia a blobs now purge).media.slot k).committed =
      (p.store.media.slot k).committed := by
    intro k
    rcases hcases k with ⟨hsame, _⟩ | ⟨v, hslot, _, _, _, hnew⟩
    · rw [hsame]
    · rw [hnew, hslot]
  have hlock : ∀ k t w, (p.store.media.slot k).dirty = some (t, w) →
      ((p.store.markMedia a blobs now purge).media.slot k).dirty = some (t, w) := by
    intro k t w hw
    rcases hcases k with ⟨hsame, _⟩ | ⟨v, hslot, _⟩
    · rw [hsame, hw]
    · simp [hslot] at hw
  refine ⟨⟨h.mediaKey, h.part, fun k => ?_, h.document, fun k t w hw => ?_, h.document_asked,
    fun d k howns => ?_, fun d k t row howns hrow => ?_, fun k hk => ?_, h.kept, h.deleted,
    h.answered, h.once⟩, fun b hb => ⟨fun _ _ h => h, fun _ h => h, fun _ _ => rfl,
      fun _ k _ _ => hcommitted k, fun k w => ?_, fun _ _ => Iff.rfl, fun _ => Iff.rfl⟩⟩
  · rcases hcases k with ⟨hsame, _⟩ | ⟨v, _, hold, _, hlive, hnew⟩
    · exact hsame ▸ h.media k
    · exact .inr (.inl ⟨v, a, now, hold, hlive, hnew⟩)
  · rcases hcases k with ⟨hsame, _⟩ | ⟨v, _, hold, hmem, _, hnew⟩
    · exact h.media_asked k t w (hsame ▸ hw)
    · rw [hnew] at hw
      obtain ⟨rfl, _⟩ := Prod.mk.inj (Option.some.inj hw)
      obtain ⟨d, hd, hlive, hrefers⟩ := hblobs v.id hmem
      exact ⟨d, hd, hlive, v, hold, hrefers⟩
  · simp only [hcommitted]
    exact h.whole d k howns
  · obtain ⟨n, old, v, hold, hmarked, hv, hdirty⟩ := h.locked d k t row howns hrow
    exact ⟨n, old, v, hold, hmarked, hv, hlock k t _ hdirty⟩
  · exact h.changed k (hcommitted k ▸ hk)
  · refine ⟨fun hw => ?_, hlock k b w⟩
    rcases hcases k with ⟨hsame, _⟩ | ⟨v, _, _, _, _, hnew⟩
    · exact hsame ▸ hw
    · rw [hnew] at hw
      exact absurd (Prod.mk.inj (Option.some.inj hw)).1.symm hb

/-- Session `a` has marked the blobs of every document that it asked for and that is not deleted. -/
def BlobsMarked (purge : Nat) (start : Store) (asked : Session → List DocumentId) (a : Session)
    (now : Time) (p : DeletePool) : Prop :=
  ∀ d ∈ asked a, p.deletedBy d = none → ∀ k, start.Owns d k →
    ∃ v, (start.media.slot k).committed = some v ∧
      (p.store.media.slot k).dirty = some (a, some (v.marked purge now))

theorem Deleting.markDocuments (h : Deleting purge start asked p) {now : Time}
    (hfree : p.store.waits (.markDocuments a (asked a) now purge) = false)
    (hmarked : BlobsMarked purge start asked a now p) :
    Deleting purge start asked
        { p with store := (p.store.markDocuments a (asked a) now purge).2 } ∧
      DeleteGuar start a p
        { p with store := (p.store.markDocuments a (asked a) now purge).2 } := by
  have hcases := fun d => h.markDocuments_cases hfree d
  have hcommitted : ∀ d,
      ((p.store.markDocuments a (asked a) now purge).2.document.slot d).committed =
        (p.store.document.slot d).committed := by
    intro d
    rcases hcases d with ⟨hsame, _⟩ | ⟨row, hslot, _, _, _, hnew⟩
    · rw [hsame]
    · rw [hnew, hslot]
  refine ⟨⟨h.mediaKey, h.part, h.media, fun d => ?_, h.media_asked, fun d t w hw => ?_,
    fun d k howns => ?_, fun d k t row howns hrow => ?_, h.changed, fun d => ?_, h.deleted,
    h.answered, h.once⟩, fun b hb => ⟨fun _ _ h => h, fun _ h => h, fun d _ => hcommitted d,
      fun _ _ _ _ => rfl, fun _ _ => Iff.rfl, fun d w => ?_, fun _ => Iff.rfl⟩⟩
  · rcases hcases d with ⟨hsame, _⟩ | ⟨row, _, hold, _, hlive, hnew⟩
    · exact hsame ▸ h.document d
    · exact .inr (.inl ⟨row, a, now, hold, hlive, hnew⟩)
  · rcases hcases d with ⟨hsame, _⟩ | ⟨row, _, _, hmem, _, hnew⟩
    · exact h.document_asked d t w (hsame ▸ hw)
    · rw [hnew] at hw
      obtain ⟨rfl, _⟩ := Prod.mk.inj (Option.some.inj hw)
      exact hmem
  · rw [hcommitted]
    exact h.whole d k howns
  · rcases hcases d with ⟨hsame, _⟩ | ⟨old, hslot, hold, hmem, _, hnew⟩
    · exact h.locked d k t row howns (hsame ▸ hrow)
    · rw [hnew] at hrow
      obtain ⟨rfl, hversion⟩ := Prod.mk.inj (Option.some.inj hrow)
      have hnone : p.deletedBy d = none := (h.kept d).mpr (by rw [hslot, hold])
      obtain ⟨v, hv, hdirty⟩ := hmarked d hmem hnone k howns
      exact ⟨now, old, v, hold, (Option.some.inj hversion).symm, hv, hdirty⟩
  · rw [hcommitted]
    exact h.kept d
  · rcases hcases d with ⟨hsame, _⟩ | ⟨row, hslot, _, _, _, hnew⟩
    · rw [hsame]
    · rw [hnew, hslot]
      constructor
      · intro hw
        exact absurd (Prod.mk.inj (Option.some.inj hw)).1.symm hb
      · exact nofun

/-- Nothing is deleted or counted in the name of session `a` so far. -/
structure Unsettled (a : Session) (p : DeletePool) : Prop where
  deleted : ∀ d, p.deletedBy d ≠ some a
  answered : ∀ n, (a, n) ∉ p.answers

theorem record_commit {d : DocumentId} : p.record (.commit a) d =
    if (p.store.document.slot d).dirty.any fun lock => lock.1 = a then some a else p.deletedBy d :=
  rfl

theorem record_commit_of_dirty {d : DocumentId} {w : Option DocumentRow}
    (hw : (p.store.document.slot d).dirty = some (a, w)) : p.record (.commit a) d = some a := by
  simp [record_commit, hw]

theorem record_commit_of_not_dirty {d : DocumentId}
    (hnot : ∀ w, (p.store.document.slot d).dirty ≠ some (a, w)) :
    p.record (.commit a) d = p.deletedBy d := by
  rw [record_commit, if_neg]
  intro hany
  obtain ⟨⟨t, w⟩, hdirty, ht⟩ := (Option.any_eq_true _ _).mp hany
  exact hnot w (of_decide_eq_true ht ▸ hdirty)

theorem record_commit_cases (d : DocumentId) :
    (∃ w, (p.store.document.slot d).dirty = some (a, w)) ∧ p.record (.commit a) d = some a ∨
      (∀ w, (p.store.document.slot d).dirty ≠ some (a, w)) ∧
        p.record (.commit a) d = p.deletedBy d := by
  by_cases hdirty : ∃ w, (p.store.document.slot d).dirty = some (a, w)
  · obtain ⟨w, hw⟩ := hdirty
    exact .inl ⟨⟨w, hw⟩, record_commit_of_dirty hw⟩
  · have hnot : ∀ w, (p.store.document.slot d).dirty ≠ some (a, w) := fun w hw => hdirty ⟨w, hw⟩
    exact .inr ⟨hnot, record_commit_of_not_dirty hnot⟩

/-- Before session `a` commits it has marked every document that it asked for and that is not
deleted. -/
def Taken (asked : Session → List DocumentId) (start : Store) (a : Session) (p : DeletePool) :
    Prop :=
  ∀ d ∈ asked a, Live start d → p.deletedBy d = none →
    ∃ w, (p.store.document.slot d).dirty = some (a, w)

theorem slot_committed_commit (a : Session) {V : Type} {slot : Slot Session V} {w : Option V}
    (hw : slot.dirty = some (a, w)) : (slot.commit a).committed = w := by
  simp [Slot.commit, hw]

/-- Where the commit of session `a` deletes a document it deletes the blobs of it too, and nothing
else becomes of a blob. -/
theorem Deleting.commit_whole (h : Deleting purge start asked p) (hrest : DocumentsAtRest start)
    (htaken : Taken asked start a p) {d : DocumentId} {k : ObjectKey} (howns : start.Owns d k) :
    (∃ n row v, (start.document.slot d).committed = some row ∧
        (start.media.slot k).committed = some v ∧
        ((p.store.document.slot d).commit a).committed = some (row.marked purge n) ∧
        ((p.store.media.slot k).commit a).committed = some (v.marked purge n)) ∧
      (∃ w, (p.store.document.slot d).dirty = some (a, w)) ∨
    (p.store.document.slot d).commit a = p.store.document.slot d ∧
      (p.store.media.slot k).commit a = p.store.media.slot k := by
  by_cases hdirty : ∃ w, (p.store.document.slot d).dirty = some (a, w)
  · obtain ⟨w, hw⟩ := hdirty
    obtain ⟨_, _, _, _, _, rfl⟩ := (h.document d).dirty hw
    obtain ⟨n, row, v, hrow, hmarked, hv, hblob⟩ := h.locked d k a _ howns hw
    refine .inl ⟨⟨n, row, v, hrow, hv, ?_, slot_committed_commit a hblob⟩, _, hw⟩
    rw [slot_committed_commit a hw, hmarked]
  · have hdocument : ∀ w, (p.store.document.slot d).dirty ≠ some (a, w) :=
      fun w hw => hdirty ⟨w, hw⟩
    have hmedia : ∀ w, (p.store.media.slot k).dirty ≠ some (a, w) := by
      intro w hw
      obtain ⟨e, he, howns'⟩ := h.media_asked k a w hw
      obtain rfl := hrest.one_owner howns howns'
      exact hdirty (htaken d he howns.1 (h.none_of_dirty_blob howns hw))
    exact .inr ⟨Slot.committed_commit_of_not_dirty hdocument,
      Slot.committed_commit_of_not_dirty hmedia⟩

theorem Deleting.commit (h : Deleting purge start asked p) (hrest : DocumentsAtRest start)
    (htaken : Taken asked start a p) (hunsettled : Unsettled a p) :
    Deleting purge start asked
        { p with store := p.store.commit a, deletedBy := p.record (.commit a) } ∧
      DeleteGuar start a p
        { p with store := p.store.commit a, deletedBy := p.record (.commit a) } := by
  have hmedia : ∀ k, (p.store.commit a).media.slot k = (p.store.media.slot k).commit a :=
    fun k => Table.slot_commit _ _ _
  have hdocument : ∀ d, (p.store.commit a).document.slot d = (p.store.document.slot d).commit a :=
    fun d => Table.slot_commit _ _ _
  have hpart : ∀ k, (p.store.commit a).part.slot k = p.store.part.slot k := by
    intro k
    have hunlocked : (p.store.part.slot k).dirty = none := by
      rw [h.part]
      exact hrest.part_unlocked k
    rw [show (p.store.commit a).part.slot k = (p.store.part.slot k).commit a from
      Table.slot_commit _ _ _]
    exact Slot.committed_commit_of_not_dirty fun w hw => nomatch hunlocked.symm.trans hw
  have hrecord : ∀ d t, p.deletedBy d = some t → p.record (.commit a) d = some t := by
    intro d t ht
    rcases record_commit_cases (a := a) (p := p) d with ⟨⟨w, hw⟩, _⟩ | ⟨_, hsame⟩
    · exact nomatch (h.none_of_dirty hw).symm.trans ht
    · rw [hsame, ht]
  have hback : ∀ d t, t ≠ a → p.record (.commit a) d = some t → p.deletedBy d = some t := by
    intro d t hne ht
    rcases record_commit_cases (a := a) (p := p) d with ⟨_, hmine⟩ | ⟨_, hsame⟩
    · exact absurd (Option.some.inj (hmine.symm.trans ht)).symm hne
    · rw [← hsame, ht]
  have hstays : ∀ d, p.deletedBy d ≠ none →
      (p.store.document.slot d).commit a = p.store.document.slot d ∧
        ∀ k, start.Owns d k → (p.store.media.slot k).commit a = p.store.media.slot k := by
    intro d hd
    refine ⟨Slot.committed_commit_of_not_dirty fun w hw => hd (h.none_of_dirty hw), ?_⟩
    intro k howns
    exact Slot.committed_commit_of_not_dirty fun w hw => hd (h.none_of_dirty_blob howns hw)
  refine ⟨⟨h.mediaKey, fun k => (hpart k).trans (h.part k), fun k => hmedia k ▸ (h.media k).commit a,
    fun d => hdocument d ▸ (h.document d).commit a, fun k t w hw => ?_, fun d t w hw => ?_,
    fun d k howns => ?_, fun d k t row howns hrow => ?_, fun k hk => ?_, fun d => ?_,
    fun d t ht => ?_, fun t n hn => ?_, h.once⟩, fun b hb => ⟨hrecord, fun d hd => hback d b hb hd,
      fun d hd => ?_, fun d k hd howns => ?_, fun k w => ?_, fun d w => ?_, fun _ => Iff.rfl⟩⟩
  · rw [hmedia] at hw
    exact h.media_asked k t w (Slot.dirty_commit.mp hw).1
  · rw [hdocument] at hw
    exact h.document_asked d t w (Slot.dirty_commit.mp hw).1
  · rw [hmedia, hdocument]
    obtain ⟨⟨n, row, v, hrow, hv, hnew, hnewblob⟩, _⟩ | ⟨hsame, hsameblob⟩ :=
      h.commit_whole hrest htaken howns
    · exact .inr ⟨n, row, v, hrow, hnew, hv, hnewblob⟩
    · rw [hsame, hsameblob]
      exact h.whole d k howns
  · rw [hdocument] at hrow
    obtain ⟨hrow, hne⟩ := Slot.dirty_commit.mp hrow
    obtain ⟨n, old, v, hold, hmarked, hv, hdirty⟩ := h.locked d k t row howns hrow
    exact ⟨n, old, v, hold, hmarked, hv, by rw [hmedia]; exact Slot.dirty_commit.mpr ⟨hdirty, hne⟩⟩
  · rw [hmedia] at hk
    by_cases hdirty : ∃ w, (p.store.media.slot k).dirty = some (a, w)
    · obtain ⟨w, hw⟩ := hdirty
      obtain ⟨d, hd, howns⟩ := h.media_asked k a w hw
      exact ⟨d, a, hd, howns⟩
    · rw [Slot.committed_commit_of_not_dirty fun w hw => hdirty ⟨w, hw⟩] at hk
      exact h.changed k hk
  · rw [hdocument]
    rcases record_commit_cases (a := a) (p := p) d with ⟨⟨w, hw⟩, hmine⟩ | ⟨hnot, hsame⟩
    · obtain ⟨row, n, hrow, hlive, _, rfl⟩ := (h.document d).dirty hw
      show p.record (.commit a) d = none ↔ _
      rw [hmine, slot_committed_commit a hw, hrow]
      constructor
      · exact nofun
      · intro heq
        have hlive' : (row.marked purge n).deletedAt = none := (Option.some.inj heq).symm ▸ hlive
        exact nomatch hlive'
    · show p.record (.commit a) d = none ↔ _
      rw [hsame, Slot.committed_commit_of_not_dirty hnot]
      exact h.kept d
  · rcases record_commit_cases (a := a) (p := p) d with ⟨⟨w, hw⟩, hmine⟩ | ⟨_, hsame⟩
    · obtain rfl := Option.some.inj (hmine.symm.trans ht)
      exact h.document_asked d a w hw
    · exact h.deleted d t (hsame ▸ ht)
  · have hne : t ≠ a := by
      rintro rfl
      exact hunsettled.answered n hn
    obtain ⟨hcount, hgone⟩ := h.answered t n hn
    refine ⟨hcount.congr fun d => ⟨hrecord d t, hback d t hne⟩, fun d hd hlive => ?_⟩
    obtain ⟨u, hu⟩ := Option.ne_none_iff_exists'.mp (hgone d hd hlive)
    exact Option.ne_none_iff_exists'.mpr ⟨u, hrecord d u hu⟩
  · rw [hdocument, (hstays d hd).1]
  · rw [hmedia, (hstays d hd).2 k howns]
  · rw [hmedia, Slot.dirty_commit]
    exact and_iff_left hb
  · rw [hdocument, Slot.dirty_commit]
    exact and_iff_left hb

theorem Deleting.rollback (h : Deleting purge start asked p) (hrest : DocumentsAtRest start) :
    Deleting purge start asked { p with store := p.store.rollback a } ∧
      DeleteGuar start a p { p with store := p.store.rollback a } := by
  have hmedia : ∀ k, (p.store.rollback a).media.slot k = (p.store.media.slot k).rollback a :=
    fun k => Table.slot_rollback _ _ _
  have hdocument : ∀ d,
      (p.store.rollback a).document.slot d = (p.store.document.slot d).rollback a :=
    fun d => Table.slot_rollback _ _ _
  have hpart : ∀ k, (p.store.rollback a).part.slot k = p.store.part.slot k := by
    intro k
    have hunlocked : (p.store.part.slot k).dirty = none := by
      rw [h.part]
      exact hrest.part_unlocked k
    rw [show (p.store.rollback a).part.slot k = (p.store.part.slot k).rollback a from
      Table.slot_rollback _ _ _]
    obtain ⟨w, hw, _⟩ | ⟨_, hsame⟩ := Slot.rollback_cases a (p.store.part.slot k)
    · exact nomatch hunlocked.symm.trans hw
    · exact hsame
  refine ⟨⟨h.mediaKey, fun k => (hpart k).trans (h.part k),
    fun k => hmedia k ▸ (h.media k).rollback a, fun d => hdocument d ▸ (h.document d).rollback a,
    fun k t w hw => ?_, fun d t w hw => ?_, fun d k howns => ?_, fun d k t row howns hrow => ?_,
    fun k hk => ?_, fun d => ?_, h.deleted, h.answered, h.once⟩, fun b hb => ⟨fun _ _ h => h,
      fun _ h => h, fun d _ => ?_, fun d k _ _ => ?_, fun k w => ?_, fun d w => ?_,
      fun _ => Iff.rfl⟩⟩
  · rw [hmedia] at hw
    exact h.media_asked k t w (Slot.dirty_rollback.mp hw).1
  · rw [hdocument] at hw
    exact h.document_asked d t w (Slot.dirty_rollback.mp hw).1
  · rw [hmedia, hdocument, Slot.committed_rollback, Slot.committed_rollback]
    exact h.whole d k howns
  · rw [hdocument] at hrow
    obtain ⟨hrow, hne⟩ := Slot.dirty_rollback.mp hrow
    obtain ⟨n, old, v, hold, hmarked, hv, hdirty⟩ := h.locked d k t row howns hrow
    refine ⟨n, old, v, hold, hmarked, hv, ?_⟩
    rw [hmedia]
    exact Slot.dirty_rollback.mpr ⟨hdirty, hne⟩
  · rw [hmedia, Slot.committed_rollback] at hk
    exact h.changed k hk
  · rw [hdocument, Slot.committed_rollback]
    exact h.kept d
  · rw [hdocument, Slot.committed_rollback]
  · rw [hmedia, Slot.committed_rollback]
  · rw [hmedia, Slot.dirty_rollback]
    exact and_iff_left hb
  · rw [hdocument, Slot.dirty_rollback]
    exact and_iff_left hb

theorem Deleting.answer (h : Deleting purge start asked p) {n : Nat}
    (hcount : Counts n fun d => p.deletedBy d = some a) (hfirst : ∀ m, (a, m) ∉ p.answers)
    (hgone : ∀ d ∈ asked a, Live start d → p.deletedBy d ≠ none) :
    Deleting purge start asked { p with answers := (a, n) :: p.answers } ∧
      DeleteGuar start a p { p with answers := (a, n) :: p.answers } := by
  refine ⟨⟨h.mediaKey, h.part, h.media, h.document, h.media_asked, h.document_asked, h.whole,
    h.locked, h.changed, h.kept, h.deleted, fun t m hm => ?_, ?_⟩, fun b hb => ⟨fun _ _ h => h,
      fun _ h => h, fun _ _ => rfl, fun _ _ _ _ => rfl, fun _ _ => Iff.rfl, fun _ _ => Iff.rfl,
      fun m => ?_⟩⟩
  · rcases List.mem_cons.mp hm with heq | hm
    · obtain ⟨rfl, rfl⟩ := Prod.mk.inj heq
      exact ⟨hcount, hgone⟩
    · exact h.answered t m hm
  · rw [List.map_cons, List.nodup_cons]
    refine ⟨fun hmem => ?_, h.once⟩
    obtain ⟨⟨t, m⟩, hm, rfl⟩ := List.mem_map.mp hmem
    exact hfirst m hm
  · simp [hb]

end Steps

end Doci
