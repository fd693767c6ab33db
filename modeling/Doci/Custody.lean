import Doci.ServiceCalls

/-! What the statements keep true of one document's blobs while it is live, while a delete
collects them, and after the delete has committed. -/

namespace Doci

open Coroutine ReadCommitted

/-- The document's row is committed and not deleted. -/
def Live (s : Store) (d : DocumentId) : Prop :=
  ∃ row, (s.document.slot d).committed = some row ∧ row.deletedAt = none

/-- Media row `m` was inserted under a key of document `e`. -/
def BlobOf (s : Store) (e : DocumentId) (m : MediaId) : Prop :=
  ∃ k, s.mediaKey m = some k ∧ k.document = e

structure Custody (d : DocumentId) (s : Store) : Prop where
  document_lt : d < s.fresh
  key_lt : ∀ m k, s.mediaKey m = some k → m < s.fresh
  snapshot_lt : ∀ t, d ∈ s.snapshots t → t < s.fresh
  keyed : ∀ k v, (s.media.slot k).Has v → s.mediaKey v.id = some k
  document_ref : ∀ e row, (s.document.slot e).Has row → BlobOf s e row.mediaId
  part_ref : ∀ e locator row m, (s.part.slot (e, locator)).Has row →
    row.mediaId = some m ∨ row.thumbMediaId = some m → BlobOf s e m
  paired : ∀ k v, k.document = d → (s.media.slot k).Has v →
    v.deletedAt.isSome = v.purgeAfter.isSome
  same_id : ∀ k v v' t, k.document = d → (s.media.slot k).committed = some v →
    (s.media.slot k).dirty = some (t, some v') → v'.id = v.id
  written : ∀ k t, k.document = d → (s.media.slot k).dirty ≠ some (t, none)
  live_committed : Live s d → ∀ k v, k.document = d → (s.media.slot k).committed = some v →
    v.deletedAt = none
  live_dirty : Live s d → ∀ k t v, k.document = d → (s.media.slot k).dirty = some (t, some v) →
    v.deletedAt.isSome → d ∈ s.snapshots t
  gone_marked : ¬ Live s d → ∀ k v, k.document = d → (s.media.slot k).Has v → v.deletedAt.isSome
  gone_rows : ¬ Live s d → ∀ k, k.document = d → (s.media.slot k).committed = none →
    (s.media.slot k).dirty = none ∧ s.objects k = none
  document_dirty : ∀ t version, (s.document.slot d).dirty = some (t, version) →
    ∃ row, version = some row ∧ (¬ Live s d → row.deletedAt.isSome) ∧
      (Live s d → row.deletedAt.isSome → d ∈ s.snapshots t)

/-- What session `t` may rely on: nobody touches its locks or its snapshot, a deleted
document stays so, and a document that it has collected gets no further blob. -/
structure Undisturbed (d : DocumentId) (t : Session) (s s' : Store) : Prop where
  keys : ∀ m k, s.mediaKey m = some k → s'.mediaKey m = some k
  live : Live s' d → Live s d
  snapshots : s'.snapshots t = s.snapshots t
  media_lock : ∀ k v, k.document = d → (s.media.slot k).dirty = some (t, v) →
    (s'.media.slot k).dirty = some (t, v)
  document_lock : ∀ v, (s.document.slot d).dirty = some (t, v) →
    (s'.document.slot d).dirty = some (t, v)
  gone : ¬ Live s d → ∀ k, k.document = d →
    (∀ v', (s'.media.slot k).committed = some v' →
      ∃ v, (s.media.slot k).committed = some v ∧ v'.id = v.id) ∧
    (s.objects k = none → s'.objects k = none)
  collected : d ∈ s.snapshots t → Live s' d → ∀ k, k.document = d →
    (s.objects k = none → s'.objects k = none) ∧
      (s.media.slot k = {} → s'.media.slot k = {}) ∧
      ∀ v, (s.media.slot k).committed = some v →
        ∃ v', (s'.media.slot k).committed = some v' ∧ v'.id = v.id

theorem Undisturbed.refl (d : DocumentId) (t : Session) (s : Store) : Undisturbed d t s s :=
  ⟨fun _ _ h => h, fun h => h, rfl, fun _ _ _ h => h, fun _ h => h,
    fun _ _ _ => ⟨fun v h => ⟨v, h, rfl⟩, fun h => h⟩, fun _ _ _ _ => ⟨fun h => h, fun h => h, fun v h => ⟨v, h, rfl⟩⟩⟩

theorem Undisturbed.trans {d : DocumentId} {t : Session} {s s' s'' : Store}
    (h : Undisturbed d t s s') (h' : Undisturbed d t s' s'') : Undisturbed d t s s'' := by
  refine ⟨fun m k hk => h'.keys m k (h.keys m k hk), fun hl => h.live (h'.live hl),
    h'.snapshots.trans h.snapshots, fun k v hk hv => h'.media_lock k v hk (h.media_lock k v hk hv),
    fun v hv => h'.document_lock v (h.document_lock v hv), ?_, ?_⟩
  · intro hgone k hk
    obtain ⟨hrow, hobj⟩ := h.gone hgone k hk
    obtain ⟨hrow', hobj'⟩ := h'.gone (fun hl => hgone (h.live hl)) k hk
    refine ⟨fun v'' hv'' => ?_, fun hc => hobj' (hobj hc)⟩
    obtain ⟨v', hv', hid'⟩ := hrow' v'' hv''
    obtain ⟨v, hv, hid⟩ := hrow v' hv'
    exact ⟨v, hv, hid'.trans hid⟩
  · intro hd hlive k hk
    obtain ⟨hobj, hempty, hrows⟩ := h.collected hd (h'.live hlive) k hk
    obtain ⟨hobj', hempty', hrows'⟩ := h'.collected (h.snapshots ▸ hd) hlive k hk
    refine ⟨fun hc => hobj' (hobj hc), fun hc => hempty' (hempty hc), fun v hv => ?_⟩
    obtain ⟨v', hv', hid⟩ := hrows v hv
    obtain ⟨v'', hv'', hid'⟩ := hrows' v' hv'
    exact ⟨v'', hv'', hid'.trans hid⟩

/-- A step of session `a` that keeps the custody and does not disturb the others. -/
structure Kept (d : DocumentId) (a : Session) (s s' : Store) : Prop where
  custody : Custody d s'
  others : ∀ t, t ≠ a → Undisturbed d t s s'

section Effects

variable {d : DocumentId} {a : Session} {s : Store}

theorem Kept.refl (h : Custody d s) : Kept d a s s := ⟨h, fun t _ => Undisturbed.refl d t s⟩

/-- The statement runs outside any transaction or in that of session `a`. -/
def RunsIn (a : Session) (session : Option Session) : Prop := session = none ∨ session = some a

structure MediaRow.SameMarks (v v' : MediaRow) : Prop where
  id : v'.id = v.id
  deletedAt : v'.deletedAt = v.deletedAt
  purgeAfter : v'.purgeAfter = v.purgeAfter

theorem MediaRow.SameMarks.refl (v : MediaRow) : v.SameMarks v := ⟨rfl, rfl, rfl⟩

theorem Custody.media_updated (h : Custody d s) {media : Table ObjectKey Session MediaRow}
    (hup : ∀ k, Slot.Updated MediaRow.SameMarks a (s.media.slot k) (media.slot k)) :
    Kept d a s { s with media := media } := by
  have hrefl := MediaRow.SameMarks.refl
  refine ⟨⟨h.document_lt, h.key_lt, h.snapshot_lt, fun k v hv => ?_, h.document_ref, h.part_ref,
    fun k v hk hv => ?_, fun k v v' t hk hv hv' => ?_, fun k t hk hd => ?_, fun hl k v hk hv => ?_,
    fun hl k t v hk hv hdel => ?_,
    fun hg k v hk hv => ?_, fun hg k hk hc => ?_, h.document_dirty⟩, fun t ht => ?_⟩
  · obtain ⟨u, hu, hsame⟩ := (hup k).has hrefl hv
    exact hsame.id ▸ h.keyed k u hu
  · obtain ⟨u, hu, hsame⟩ := (hup k).has hrefl hv
    rw [hsame.deletedAt, hsame.purgeAfter]
    exact h.paired k u hk hu
  · obtain ⟨u, hu, hsame⟩ := (hup k).back hrefl hv
    rcases (hup k).dirty_back hrefl hv' with ⟨u', hu', hsame'⟩ | ⟨_, u', hu', hsame'⟩
    · rw [hsame'.id, hsame.id]
      exact h.same_id k u u' t hk hu hu'
    · obtain rfl := Option.some.inj (hu.symm.trans hu')
      rw [hsame'.id, hsame.id]
  · exact h.written k t hk ((hup k).dirty_none hd)
  · obtain ⟨u, hu, hsame⟩ := (hup k).back hrefl hv
    rw [hsame.deletedAt]
    exact h.live_committed hl k u hk hu
  · rcases (hup k).dirty_back hrefl hv with ⟨u, hu, hsame⟩ | ⟨_, u, hu, hsame⟩
    · exact h.live_dirty hl k t u hk hu (hsame.deletedAt ▸ hdel)
    · rw [hsame.deletedAt, h.live_committed hl k u hk hu] at hdel
      simp at hdel
  · obtain ⟨u, hu, hsame⟩ := (hup k).has hrefl hv
    rw [hsame.deletedAt]
    exact h.gone_marked hg k u hk hu
  · obtain ⟨hd, hobj⟩ := h.gone_rows hg k hk ((hup k).committed_none.mp hc)
    have hempty := (hup k).empty (by
      have hc := (hup k).committed_none.mp hc
      cases hslot : s.media.slot k
      simp_all)
    exact ⟨by simp [hempty], hobj⟩
  · refine ⟨fun _ _ hm => hm, fun hl => hl, rfl, fun k v _ hv => (hup k).lock ht hv,
      fun _ hv => hv, fun _ k _ => ⟨fun v' hv' => ?_, fun ho => ho⟩,
      fun _ _ k _ => ⟨fun ho => ho, (hup k).empty, fun v hv => ?_⟩⟩
    · obtain ⟨v, hv, hsame⟩ := (hup k).back hrefl hv'
      exact ⟨v, hv, hsame.id⟩
    · obtain ⟨v', hv', hsame⟩ := (hup k).forth hrefl hv
      exact ⟨v', hv', hsame.id⟩

structure DocumentRow.SameMarks (v v' : DocumentRow) : Prop where
  mediaId : v'.mediaId = v.mediaId
  deletedAt : v'.deletedAt = v.deletedAt

theorem DocumentRow.SameMarks.refl (v : DocumentRow) : v.SameMarks v := ⟨rfl, rfl⟩

theorem live_iff_of_updated {document : Table DocumentId Session DocumentRow}
    (hup : Slot.Updated DocumentRow.SameMarks a (s.document.slot d) (document.slot d)) :
    Live { s with document := document } d ↔ Live s d := by
  constructor
  · rintro ⟨row, hrow, hdel⟩
    obtain ⟨u, hu, hsame⟩ := hup.back DocumentRow.SameMarks.refl hrow
    exact ⟨u, hu, hsame.deletedAt ▸ hdel⟩
  · rintro ⟨row, hrow, hdel⟩
    obtain ⟨u, hu, hsame⟩ := hup.forth DocumentRow.SameMarks.refl hrow
    exact ⟨u, hu, hsame.deletedAt.trans hdel⟩

theorem Custody.document_updated (h : Custody d s)
    {document : Table DocumentId Session DocumentRow}
    (hup : ∀ e, Slot.Updated DocumentRow.SameMarks a (s.document.slot e) (document.slot e)) :
    Kept d a s { s with document := document } := by
  have hrefl := DocumentRow.SameMarks.refl
  have hlive := live_iff_of_updated (hup d)
  refine ⟨⟨h.document_lt, h.key_lt, h.snapshot_lt, h.keyed, fun e row hv => ?_, h.part_ref, h.paired, h.same_id,
    h.written, fun hl => h.live_committed (hlive.mp hl), fun hl => h.live_dirty (hlive.mp hl),
    fun hg => h.gone_marked (mt hlive.mpr hg), fun hg => h.gone_rows (mt hlive.mpr hg),
    fun t version hd => ?_⟩, fun t ht => ?_⟩
  · obtain ⟨u, hu, hsame⟩ := (hup e).has hrefl hv
    have := h.document_ref e u hu
    rwa [← hsame.mediaId] at this
  · cases version with
    | none =>
      obtain ⟨row, hrow, _⟩ := h.document_dirty t none ((hup d).dirty_none hd)
      simp at hrow
    | some row =>
      refine ⟨row, rfl, ?_⟩
      rw [hlive]
      rcases (hup d).dirty_back hrefl hd with ⟨u, hu, hsame⟩ | ⟨_, u, hu, hsame⟩
      · obtain ⟨_, heq, hrest⟩ := h.document_dirty t _ hu
        obtain rfl := Option.some.inj heq
        rwa [hsame.deletedAt]
      · rw [hsame.deletedAt]
        constructor
        · intro hg
          by_contra hdel
          exact hg ⟨u, hu, by simpa using hdel⟩
        · rintro ⟨w, hw, hdel⟩ hsome
          obtain rfl := Option.some.inj (hu.symm.trans hw)
          simp [hdel] at hsome
  · exact ⟨fun _ _ hm => hm, hlive.mp, rfl, fun _ _ _ hv => hv, fun v hv => (hup d).lock ht hv,
      fun _ _ _ => ⟨fun v hv => ⟨v, hv, rfl⟩, fun ho => ho⟩,
      fun _ _ _ _ => ⟨fun ho => ho, fun he => he, fun v hv => ⟨v, hv, rfl⟩⟩⟩

theorem Custody.part_changed (h : Custody d s)
    {part : Table (DocumentId × String) Session DocumentPartRow}
    {partKey : PartId → Option (DocumentId × String)} {fresh : Nat} (hfresh : s.fresh ≤ fresh)
    (href : ∀ e locator row m, (part.slot (e, locator)).Has row →
      row.mediaId = some m ∨ row.thumbMediaId = some m → BlobOf s e m) :
    Kept d a s { s with part := part, partKey := partKey, fresh := fresh } :=
  ⟨⟨h.document_lt.trans_le hfresh, fun m k hm => (h.key_lt m k hm).trans_le hfresh,
    fun t ht => (h.snapshot_lt t ht).trans_le hfresh, h.keyed,
    h.document_ref, href, h.paired, h.same_id, h.written, h.live_committed, h.live_dirty, h.gone_marked,
    h.gone_rows, h.document_dirty⟩,
    fun _ _ => ⟨fun _ _ hm => hm, fun hl => hl, rfl, fun _ _ _ hv => hv, fun _ hv => hv,
      fun _ _ _ => ⟨fun v hv => ⟨v, hv, rfl⟩, fun ho => ho⟩,
      fun _ _ _ _ => ⟨fun ho => ho, fun he => he, fun v hv => ⟨v, hv, rfl⟩⟩⟩⟩

/-- The document is deleted, or a delete has collected its blobs. -/
def Closing (s : Store) (d : DocumentId) : Prop := ¬ Live s d ∨ ∃ t, d ∈ s.snapshots t

theorem BlobOf.mono {s s' : Store} {e : DocumentId} {m : MediaId} (h : BlobOf s e m)
    (hkeys : ∀ m k, s.mediaKey m = some k → s'.mediaKey m = some k) : BlobOf s' e m := by
  obtain ⟨k, hk, he⟩ := h
  exact ⟨k, hkeys m k hk, he⟩

theorem Custody.slot_empty (h : Custody d s) {session : Option Session} {key : ObjectKey}
    (hkey : key.document = d) (hview : (s.media.slot key).view session = none)
    (hfree : (s.media.slot key).free session = true) : s.media.slot key = {} := by
  obtain ⟨_, he, _⟩ | ⟨owner, _, he | hd, _⟩ :=
    Slot.insert_cases { id := 0, mimeType := none, sizeBytes := none } hview hfree
  · exact he
  · exact he
  · exact absurd hd (h.written key owner hkey)

theorem Custody.insert_media (h : Custody d s) {session : Option Session} {key : ObjectKey}
    (hs : session = none ∨ session = some a) {row : MediaRow} (hid : row.id = s.fresh)
    (hdel : row.deletedAt = none) (hpurge : row.purgeAfter = none)
    (hview : (s.media.slot key).view session = none)
    (hfree : (s.media.slot key).free session = true) (hopen : key.document = d → ¬ Closing s d) :
    Kept d a s
      { s with
        media := s.media.insert session key row
        mediaKey := fun m => if m = s.fresh then some key else s.mediaKey m
        fresh := s.fresh + 1 } := by
  have hkeys : ∀ m k, s.mediaKey m = some k →
      (if m = s.fresh then some key else s.mediaKey m) = some k := by
    intro m k hm
    have hne : m ≠ s.fresh := Nat.ne_of_lt (h.key_lt m k hm)
    rw [if_neg hne, hm]
  have hother : ∀ k, k ≠ key → (s.media.insert session key row).slot k = s.media.slot k := by
    intro k hk
    rw [Table.slot_insert, if_neg hk]
  have hmine : (s.media.insert session key row).slot key =
      (s.media.slot key).write session (some row) := by
    rw [Table.slot_insert, if_pos rfl]
  have hhas : ∀ k v, ((s.media.insert session key row).slot k).Has v →
      (s.media.slot k).Has v ∨ k = key ∧ v = row := fun _ _ hv => Table.has_insert hv
  have hslot : ∀ k, k.document = d → (s.media.insert session key row).slot k = s.media.slot k ∨
      Live s d ∧ (∀ t, d ∉ s.snapshots t) ∧ s.media.slot k = {} ∧
      ((s.media.insert session key row).slot k = { committed := some row } ∨
        (s.media.insert session key row).slot k = { dirty := some (a, some row) }) := by
    intro k hk
    by_cases hkey : k = key
    · subst hkey
      have hempty := h.slot_empty hk hview hfree
      have hlive : Live s d := by
        by_contra hg
        exact hopen hk (.inl hg)
      refine .inr ⟨hlive, fun t ht => hopen hk (.inr ⟨t, ht⟩), hempty, ?_⟩
      rw [hmine, hempty]
      rcases hs with rfl | rfl
      · exact .inl rfl
      · exact .inr rfl
    · exact .inl (hother k hkey)
  clear hother hmine
  generalize s.media.insert session key row = media at hhas hslot ⊢
  refine ⟨⟨h.document_lt.trans (Nat.lt_succ_self _), fun m k hm => ?_,
    fun t ht => (h.snapshot_lt t ht).trans (Nat.lt_succ_self _), fun k v hv => ?_,
    fun e r hr => (h.document_ref e r hr).mono hkeys,
    fun e l r m hr hm => (h.part_ref e l r m hr hm).mono hkeys, fun k v hk hv => ?_,
    fun k v v' t hk hv hv' => ?_, fun k t hk hd => ?_, fun hl k v hk hv => ?_,
    fun hl k t v hk hv hmark => ?_, fun hg k v hk hv => ?_, fun hg k hk hc => ?_,
    h.document_dirty⟩, fun t ht => ?_⟩
  · by_cases hm' : m = s.fresh
    · exact hm' ▸ Nat.lt_succ_self _
    · simp only [hm', if_false] at hm
      exact (h.key_lt m k hm).trans (Nat.lt_succ_self _)
  · rcases hhas k v hv with hv | ⟨rfl, rfl⟩
    · exact hkeys _ _ (h.keyed k v hv)
    · simp [hid]
  · rcases hhas k v hv with hv | ⟨_, rfl⟩
    · exact h.paired k v hk hv
    · simp [hdel, hpurge]
  · rcases hslot k hk with hsame | ⟨_, _, _, hnew | hnew⟩
    · exact h.same_id k v v' t hk (hsame ▸ hv) (hsame ▸ hv')
    · simp [hnew] at hv'
    · simp [hnew] at hv
  · rcases hslot k hk with hsame | ⟨_, _, _, hnew | hnew⟩
    · exact h.written k t hk (hsame ▸ hd)
    · simp [hnew] at hd
    · simp [hnew] at hd
  · rcases hslot k hk with hsame | ⟨_, _, _, hnew | hnew⟩
    · exact h.live_committed hl k v hk (hsame ▸ hv)
    · obtain rfl : row = v := by simpa [hnew] using hv
      exact hdel
    · simp [hnew] at hv
  · rcases hslot k hk with hsame | ⟨_, _, _, hnew | hnew⟩
    · exact h.live_dirty hl k t v hk (hsame ▸ hv) hmark
    · simp [hnew] at hv
    · obtain ⟨_, rfl⟩ : a = t ∧ row = v := by simpa [hnew] using hv
      simp [hdel] at hmark
  · rcases hslot k hk with hsame | ⟨hl, _⟩
    · exact h.gone_marked hg k v hk (hsame ▸ hv)
    · exact absurd hl hg
  · rcases hslot k hk with hsame | ⟨hl, _⟩
    · rw [hsame] at hc
      rw [hsame]
      exact h.gone_rows hg k hk hc
    · exact absurd hl hg
  · refine ⟨hkeys, fun hl => hl, rfl, fun k v hk hv => ?_, fun _ hv => hv, fun hg k hk => ?_,
      fun hsnap hl k hk => ?_⟩
    · rcases hslot k hk with hsame | ⟨_, _, hempty, _⟩
      · rw [hsame]
        exact hv
      · simp [hempty] at hv
    · rcases hslot k hk with hsame | ⟨hl, _⟩
      · exact ⟨fun v hv => ⟨v, hsame ▸ hv, rfl⟩, fun ho => ho⟩
      · exact absurd hl hg
    · rcases hslot k hk with hsame | ⟨_, hnone, _⟩
      · rw [hsame]
        exact ⟨fun ho => ho, fun he => he, fun v hv => ⟨v, hv, rfl⟩⟩
      · exact absurd hsnap (hnone t)

theorem Custody.insert_document (h : Custody d s) {session : Option Session} {e : DocumentId}
    (hne : e ≠ d) {row : DocumentRow} (href : BlobOf s e row.mediaId) :
    Kept d a s { s with document := s.document.insert session e row } := by
  have hmine : (s.document.insert session e row).slot d = s.document.slot d := by
    rw [Table.slot_insert, if_neg hne.symm]
  have hlive : Live { s with document := s.document.insert session e row } d ↔ Live s d := by
    simp only [Live, hmine]
  have hrefs : ∀ e' r, ((s.document.insert session e row).slot e').Has r →
      BlobOf s e' r.mediaId := by
    intro e' r hr
    rcases Table.has_insert hr with hr | ⟨rfl, rfl⟩
    · exact h.document_ref e' r hr
    · exact href
  refine ⟨⟨h.document_lt, h.key_lt, h.snapshot_lt, h.keyed, hrefs, h.part_ref, h.paired, h.same_id, h.written,
    fun hl => h.live_committed (hlive.mp hl), fun hl => h.live_dirty (hlive.mp hl),
    fun hg => h.gone_marked (mt hlive.mpr hg), fun hg => h.gone_rows (mt hlive.mpr hg), ?_⟩,
    fun t _ => ⟨fun _ _ hm => hm, hlive.mp, rfl, fun _ _ _ hv => hv, fun v hv => ?_,
      fun _ _ _ => ⟨fun v hv => ⟨v, hv, rfl⟩, fun ho => ho⟩,
      fun _ _ _ _ => ⟨fun ho => ho, fun he => he, fun v hv => ⟨v, hv, rfl⟩⟩⟩⟩
  · rw [hlive, hmine]
    exact h.document_dirty
  · rw [hmine]
    exact hv

theorem Custody.objects_changed (h : Custody d s) {objects : ObjectKey → Option Bytes}
    (hopen : ∀ k, k.document = d → s.objects k = none → objects k = none ∨ ¬ Closing s d) :
    Kept d a s { s with objects := objects } := by
  have hgone : ¬ Live s d → ∀ k, k.document = d → s.objects k = none → objects k = none := by
    intro hg k hk ho
    rcases hopen k hk ho with ho | hno
    · exact ho
    · exact absurd (.inl hg) hno
  refine ⟨⟨h.document_lt, h.key_lt, h.snapshot_lt, h.keyed, h.document_ref, h.part_ref, h.paired, h.same_id,
    h.written, h.live_committed, h.live_dirty, h.gone_marked, fun hg k hk hc => ?_,
    h.document_dirty⟩, fun t _ => ⟨fun _ _ hm => hm, fun hl => hl, rfl, fun _ _ _ hv => hv,
      fun _ hv => hv, fun hg k hk => ⟨fun v hv => ⟨v, hv, rfl⟩, hgone hg k hk⟩,
      fun hd hl k hk => ⟨fun ho => ?_, fun he => he, fun v hv => ⟨v, hv, rfl⟩⟩⟩⟩
  · obtain ⟨hd, ho⟩ := h.gone_rows hg k hk hc
    exact ⟨hd, hgone hg k hk ho⟩
  · rcases hopen k hk ho with ho | hno
    · exact ho
    · exact absurd (.inr ⟨t, hd⟩) hno

end Effects

end Doci
