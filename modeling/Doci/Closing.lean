import Doci.Custody

/-! The statements of a delete and of a sweep, and the end of a transaction: how they keep
the custody of a document's blobs. -/

namespace Doci

open Coroutine ReadCommitted

section Closing

variable {d : DocumentId} {a : Session} {s : Store}

/-- Session `a` has marked every blob of the document, and the document. -/
structure Collected (d : DocumentId) (a : Session) (s : Store) : Prop where
  document : ∃ row, (s.document.slot d).dirty = some (a, some row) ∧ row.deletedAt.isSome
  media : ∀ k, k.document = d → s.media.slot k = {} ∧ s.objects k = none ∨
    ∃ v v', (s.media.slot k).committed = some v ∧
      (s.media.slot k).dirty = some (a, some v') ∧ v'.deletedAt.isSome

theorem Custody.live_commit (h : Custody d s) (hopen : d ∈ s.snapshots a → ¬ Live s d) :
    Live (s.commit a) d ↔ Live s d := by
  simp only [Live, Store.commit, Table.slot_commit]
  obtain ⟨w, hd, hw⟩ | ⟨_, hw⟩ := Slot.commit_cases a (s.document.slot d)
  · rw [hw]
    obtain ⟨row, rfl, hgone, hlive⟩ := h.document_dirty a w hd
    constructor
    · rintro ⟨r, hr, hdel⟩
      obtain rfl := Option.some.inj hr
      by_contra hg
      simpa [hdel] using hgone hg
    · intro hl
      refine ⟨row, rfl, ?_⟩
      by_contra hdel
      exact hopen (hlive hl (Option.isSome_iff_ne_none.mpr hdel)) hl
  · rw [hw]

theorem Custody.commit (h : Custody d s)
    (hready : d ∈ s.snapshots a → Live s d → Collected d a s) : Kept d a s (s.commit a) := by
  have hsnap : ∀ t, t ≠ a → (s.commit a).snapshots t = s.snapshots t := fun t ht => if_neg ht
  have hsnap_lt : ∀ t, d ∈ (s.commit a).snapshots t → t < s.fresh := by
    intro t hd
    by_cases ht : t = a
    · simp [Store.commit, ht] at hd
    · exact h.snapshot_lt t (hsnap t ht ▸ hd)
  have hmedia : ∀ k, (s.commit a).media.slot k = (s.media.slot k).commit a := Table.slot_commit _ _
  have hdoc : ∀ e, (s.commit a).document.slot e = (s.document.slot e).commit a :=
    Table.slot_commit _ _
  have hkeyed : ∀ k v, ((s.commit a).media.slot k).Has v → s.mediaKey v.id = some k := by
    intro k v hv
    rw [hmedia] at hv
    exact h.keyed k v hv.commit
  have hdocument_ref : ∀ e r, ((s.commit a).document.slot e).Has r → BlobOf s e r.mediaId := by
    intro e r hr
    rw [hdoc] at hr
    exact h.document_ref e r hr.commit
  have hpart_ref : ∀ e l r m, ((s.commit a).part.slot (e, l)).Has r →
      r.mediaId = some m ∨ r.thumbMediaId = some m → BlobOf s e m := by
    intro e l r m hr
    have hpart : (s.commit a).part.slot (e, l) = (s.part.slot (e, l)).commit a :=
      Table.slot_commit _ _ _
    rw [hpart] at hr
    exact h.part_ref e l r m hr.commit
  have hpaired : ∀ k v, k.document = d → ((s.commit a).media.slot k).Has v →
      v.deletedAt.isSome = v.purgeAfter.isSome := by
    intro k v hk hv
    rw [hmedia] at hv
    exact h.paired k v hk hv.commit
  have hwritten : ∀ k t, k.document = d → ((s.commit a).media.slot k).dirty ≠ some (t, none) := by
    intro k t hk hd
    rw [hmedia, Slot.dirty_commit] at hd
    exact h.written k t hk hd.1
  have hslot : ∀ k, k.document = d → (s.commit a).media.slot k = s.media.slot k ∧
        (∀ w, (s.media.slot k).dirty ≠ some (a, w)) ∨
      ∃ v, (s.media.slot k).dirty = some (a, some v) ∧
        (s.commit a).media.slot k = { committed := some v } := by
    intro k hk
    rw [hmedia]
    obtain ⟨w, hd, hw⟩ | ⟨hnot, hw⟩ := Slot.commit_cases a (s.media.slot k)
    · cases w with
      | none => exact absurd hd (h.written k a hk)
      | some v => exact .inr ⟨v, hd, hw⟩
    · exact .inl ⟨hw, hnot⟩
  have hsame_id : ∀ k v v' t, k.document = d → ((s.commit a).media.slot k).committed = some v →
      ((s.commit a).media.slot k).dirty = some (t, some v') → v'.id = v.id := by
    intro k v v' t hk hv hv'
    rcases hslot k hk with ⟨hsame, _⟩ | ⟨u, _, hnew⟩
    · exact h.same_id k v v' t hk (hsame ▸ hv) (hsame ▸ hv')
    · simp [hnew] at hv'
  have hothers : ∀ t, t ≠ a → (Live (s.commit a) d → Live s d) → (∀ k, k.document = d →
      ¬ Live s d → (s.media.slot k).committed = none → (s.media.slot k).dirty = none) →
      Undisturbed d t s (s.commit a) := by
    intro t ht hlive hgone
    refine ⟨fun _ _ hm => hm, hlive, hsnap t ht, fun k v _ hv => ?_, fun v hv => ?_,
      fun hg k hk => ⟨fun v' hv' => ?_, fun ho => ho⟩,
      fun _ _ k hk => ⟨fun ho => ho, fun he => ?_, ?_⟩⟩
    · rw [hmedia, Slot.dirty_commit]
      exact ⟨hv, ht⟩
    · rw [hdoc, Slot.dirty_commit]
      exact ⟨hv, ht⟩
    · rcases hslot k hk with ⟨hsame, _⟩ | ⟨u, hu, hnew⟩
      · exact ⟨v', hsame ▸ hv', rfl⟩
      · obtain rfl : u = v' := by simpa [hnew] using hv'
        cases hv : (s.media.slot k).committed with
        | none => simp [hgone k hk hg hv] at hu
        | some v => exact ⟨v, rfl, h.same_id k v u a hk hv hu⟩
    · rw [hmedia, he]
      rfl
    · intro v hv
      rcases hslot k hk with ⟨hsame, _⟩ | ⟨u, hu, hnew⟩
      · exact ⟨v, hsame ▸ hv, rfl⟩
      · exact ⟨u, by rw [hnew], h.same_id k v u a hk hv hu⟩
  by_cases hclose : d ∈ s.snapshots a ∧ Live s d
  · obtain ⟨⟨row, hrow, hmark⟩, hc⟩ := hready hclose.1 hclose.2
    have hgone : ¬ Live (s.commit a) d := by
      rintro ⟨r, hr, hdel⟩
      simp only [hdoc, Slot.commit, hrow, if_true, Option.some.injEq] at hr
      subst hr
      simp [hdel] at hmark
    refine ⟨⟨h.document_lt, h.key_lt, hsnap_lt, hkeyed, hdocument_ref, hpart_ref, hpaired, hsame_id, hwritten,
      fun hl => absurd hl hgone, fun hl => absurd hl hgone, fun _ k v hk hv => ?_,
      fun _ k hk hnone => ?_, fun t version hd => ?_⟩,
      fun t ht => hothers t ht (fun hl => absurd hl hgone) fun _ _ hg => absurd hclose.2 hg⟩
    · rcases hc k hk with ⟨he, _⟩ | ⟨u, v', _, hv', hmark'⟩
      · rw [hmedia, he] at hv
        rcases hv with hv | ⟨_, hv⟩ <;> simp [Slot.commit] at hv
      · simp only [hmedia, Slot.commit, hv', if_true] at hv
        rcases hv with hv | ⟨_, hv⟩
        · exact Option.some.inj hv ▸ hmark'
        · simp at hv
    · rcases hc k hk with ⟨he, ho⟩ | ⟨u, v', _, hv', _⟩
      · refine ⟨?_, ho⟩
        rw [hmedia, he]
        rfl
      · simp [hmedia, Slot.commit, hv'] at hnone
    · rw [hdoc, Slot.dirty_commit] at hd
      have ht : a = t := (Prod.mk.inj (Option.some.inj (hrow.symm.trans hd.1))).1
      exact absurd ht.symm hd.2
  · have hlive : Live (s.commit a) d ↔ Live s d :=
      h.live_commit fun hd hl => hclose ⟨hd, hl⟩
    refine ⟨⟨h.document_lt, h.key_lt, hsnap_lt, hkeyed, hdocument_ref, hpart_ref, hpaired, hsame_id, hwritten,
      fun hl k v hk hv => ?_, fun hl k t v hk hv hmark => ?_, fun hg k v hk hv => ?_,
      fun hg k hk hnone => ?_, fun t version hd => ?_⟩,
      fun t ht => hothers t ht hlive.mp fun k hk hg hnone => (h.gone_rows hg k hk hnone).1⟩
    · rcases hslot k hk with ⟨hsame, _⟩ | ⟨u, hu, hnew⟩
      · exact h.live_committed (hlive.mp hl) k v hk (hsame ▸ hv)
      · obtain rfl : u = v := by simpa [hnew] using hv
        by_contra hmark
        have hd := h.live_dirty (hlive.mp hl) k a u hk hu (Option.isSome_iff_ne_none.mpr hmark)
        exact hclose ⟨hd, hlive.mp hl⟩
    · rw [hmedia, Slot.dirty_commit] at hv
      rw [hsnap t hv.2]
      exact h.live_dirty (hlive.mp hl) k t v hk hv.1 hmark
    · rw [hmedia] at hv
      exact h.gone_marked (mt hlive.mpr hg) k v hk hv.commit
    · rcases hslot k hk with ⟨hsame, _⟩ | ⟨v, _, hnew⟩
      · rw [hsame] at hnone
        rw [hsame]
        exact h.gone_rows (mt hlive.mpr hg) k hk hnone
      · simp [hnew] at hnone
    · rw [hdoc, Slot.dirty_commit] at hd
      rw [hlive, hsnap t hd.2]
      exact h.document_dirty t version hd.1

theorem Custody.rollback (h : Custody d s) : Kept d a s (s.rollback a) := by
  have hsnap : ∀ t, t ≠ a → (s.rollback a).snapshots t = s.snapshots t := fun t ht => if_neg ht
  have hsnap_lt : ∀ t, d ∈ (s.rollback a).snapshots t → t < s.fresh := by
    intro t hd
    by_cases ht : t = a
    · simp [Store.rollback, ht] at hd
    · exact h.snapshot_lt t (hsnap t ht ▸ hd)
  have hmedia : ∀ k, (s.rollback a).media.slot k = (s.media.slot k).rollback a :=
    Table.slot_rollback _ _
  have hdoc : ∀ e, (s.rollback a).document.slot e = (s.document.slot e).rollback a :=
    Table.slot_rollback _ _
  have hpart : ∀ k, (s.rollback a).part.slot k = (s.part.slot k).rollback a :=
    Table.slot_rollback _ _
  have hlive : Live (s.rollback a) d ↔ Live s d := by
    simp only [Live, hdoc, Slot.committed_rollback]
  refine ⟨⟨h.document_lt, h.key_lt, hsnap_lt, fun k v hv => ?_, fun e r hr => ?_, fun e l r m hr => ?_,
    fun k v hk hv => ?_, fun k v v' t hk hv hv' => ?_, fun k t hk hd => ?_, fun hl k v hk hv => ?_,
    fun hl k t v hk hv hmark => ?_, fun hg k v hk hv => ?_, fun hg k hk hc => ?_,
    fun t version hd => ?_⟩, fun t ht => ⟨fun _ _ hm => hm, hlive.mp, hsnap t ht,
      fun k v _ hv => ?_, fun v hv => ?_, fun _ k _ => ⟨fun v hv => ⟨v, ?_, rfl⟩, fun ho => ho⟩,
      fun _ _ k _ => ⟨fun ho => ho, fun he => ?_, fun v hv => ⟨v, ?_, rfl⟩⟩⟩⟩
  · rw [hmedia] at hv
    exact h.keyed k v hv.rollback
  · rw [hdoc] at hr
    exact h.document_ref e r hr.rollback
  · rw [hpart] at hr
    exact h.part_ref e l r m hr.rollback
  · rw [hmedia] at hv
    exact h.paired k v hk hv.rollback
  · rw [hmedia, Slot.committed_rollback] at hv
    rw [hmedia, Slot.dirty_rollback] at hv'
    exact h.same_id k v v' t hk hv hv'.1
  · rw [hmedia, Slot.dirty_rollback] at hd
    exact h.written k t hk hd.1
  · rw [hmedia, Slot.committed_rollback] at hv
    exact h.live_committed (hlive.mp hl) k v hk hv
  · rw [hmedia, Slot.dirty_rollback] at hv
    rw [hsnap t hv.2]
    exact h.live_dirty (hlive.mp hl) k t v hk hv.1 hmark
  · rw [hmedia] at hv
    exact h.gone_marked (mt hlive.mpr hg) k v hk hv.rollback
  · rw [hmedia, Slot.committed_rollback] at hc
    obtain ⟨hd, ho⟩ := h.gone_rows (mt hlive.mpr hg) k hk hc
    refine ⟨?_, ho⟩
    rw [hmedia]
    obtain ⟨w, hw, _⟩ | ⟨_, hw⟩ := Slot.rollback_cases a (s.media.slot k)
    · simp [hd] at hw
    · rw [hw, hd]
  · rw [hdoc, Slot.dirty_rollback] at hd
    rw [hlive, hsnap t hd.2]
    exact h.document_dirty t version hd.1
  · rw [hmedia, Slot.dirty_rollback]
    exact ⟨hv, ht⟩
  · rw [hdoc, Slot.dirty_rollback]
    exact ⟨hv, ht⟩
  · rwa [hmedia, Slot.committed_rollback] at hv
  · rw [hmedia, he]
    rfl
  · rw [hmedia, Slot.committed_rollback, hv]

theorem Custody.collect (h : Custody d s) (ha : a < s.fresh) (hnot : d ∉ s.snapshots a) (docs : List DocumentId) :
    Kept d a s { s with snapshots := fun t => if t = a then docs else s.snapshots t } := by
  have hsnap : ∀ t, d ∈ s.snapshots t → d ∈ if t = a then docs else s.snapshots t := by
    intro t hd
    by_cases ht : t = a
    · exact absurd (ht ▸ hd) hnot
    · simpa only [if_neg ht] using hd
  have hsnap_lt : ∀ t, (d ∈ if t = a then docs else s.snapshots t) → t < s.fresh := by
    intro t hd
    by_cases ht : t = a
    · exact ht ▸ ha
    · exact h.snapshot_lt t (by simpa only [if_neg ht] using hd)
  refine ⟨⟨h.document_lt, h.key_lt, hsnap_lt, h.keyed, h.document_ref, h.part_ref, h.paired, h.same_id,
    h.written, h.live_committed, fun hl k t v hk hv hmark => hsnap t (h.live_dirty hl k t v hk hv hmark),
    h.gone_marked, h.gone_rows, fun t version hd => ?_⟩,
    fun t ht => ⟨fun _ _ hm => hm, fun hl => hl, if_neg ht, fun _ _ _ hv => hv, fun _ hv => hv,
      fun _ _ _ => ⟨fun v hv => ⟨v, hv, rfl⟩, fun ho => ho⟩,
      fun _ _ _ _ => ⟨fun ho => ho, fun he => he, fun v hv => ⟨v, hv, rfl⟩⟩⟩⟩
  obtain ⟨row, hrow, hgone, hlive⟩ := h.document_dirty t version hd
  exact ⟨row, hrow, hgone, fun hl hmark => hsnap t (hlive hl hmark)⟩

theorem Store.markMedia_cases {blobs : List MediaId} {now : Time} {purge : Nat}
    (hfree : s.waits (.markMedia a blobs now purge) = false) (k : ObjectKey) :
    (s.markMedia a blobs now purge).media.slot k = s.media.slot k ∨
    ∃ v v', (s.markMedia a blobs now purge).media.slot k =
        { committed := (s.media.slot k).committed, dirty := some (a, some v') } ∧
      v.id ∈ blobs ∧ v'.id = v.id ∧ v'.deletedAt.isSome ∧ v'.purgeAfter.isSome ∧
      ((s.media.slot k).dirty = none ∧ (s.media.slot k).committed = some v ∨
        (s.media.slot k).dirty = some (a, some v)) := by
  simp only [waits, Bool.not_eq_false'] at hfree
  rcases Table.rewrite_cases hfree (f := fun _ row =>
      if blobs.contains row.id && row.deletedAt.isNone then
        some (some { row with deletedAt := some now, purgeAfter := some (deadline now purge) })
      else none) (fun _ v hv => by simpa [Option.isSome_ite] using hv) k with
    hsame | ⟨v, w, hview, hw, hlock, hwrite⟩
  · exact .inl hsame
  · simp only [Option.ite_none_right_eq_some, Bool.and_eq_true, List.contains_eq_mem,
      decide_eq_true_eq, Option.some.injEq] at hw
    obtain ⟨⟨hmem, _⟩, rfl⟩ := hw
    obtain ⟨hnone, _⟩ | ⟨owner, howner, hnew, hold⟩ := Slot.write_cases
      (some { v with deletedAt := some now, purgeAfter := some (deadline now purge) }) hview hlock
    · simp at hnone
    · obtain rfl := Option.some.inj howner
      exact .inr ⟨v, _, hwrite.trans hnew, hmem, rfl, rfl, rfl, hold⟩

theorem Custody.mark_media (h : Custody d s) {blobs : List MediaId} {now : Time} {purge : Nat}
    (hmine : ∀ m ∈ blobs, ∀ k, s.mediaKey m = some k → k.document = d → d ∈ s.snapshots a)
    (hfree : s.waits (.markMedia a blobs now purge) = false) :
    Kept d a s (s.markMedia a blobs now purge) := by
  have hslot := Store.markMedia_cases hfree
  have hcommitted : ∀ k, ((s.markMedia a blobs now purge).media.slot k).committed =
      (s.media.slot k).committed := by
    intro k
    rcases hslot k with hsame | ⟨v, v', hnew, _⟩
    · rw [hsame]
    · rw [hnew]
  have hold : ∀ k v, (s.media.slot k).dirty = none ∧ (s.media.slot k).committed = some v ∨
      (s.media.slot k).dirty = some (a, some v) → (s.media.slot k).Has v := by
    intro k v hv
    rcases hv with ⟨_, hv⟩ | hv
    · exact .inl hv
    · exact .inr ⟨a, hv⟩
  have hdirty : ∀ k t w, ((s.markMedia a blobs now purge).media.slot k).dirty = some (t, w) →
      (s.media.slot k).dirty = some (t, w) ∨ t = a ∧ ∃ v v', w = some v' ∧ v'.id = v.id ∧
        v'.deletedAt.isSome ∧ v'.purgeAfter.isSome ∧ v.id ∈ blobs ∧ (s.media.slot k).Has v ∧
        ∀ u, k.document = d → (s.media.slot k).committed = some u → v'.id = u.id := by
    intro k t w hw
    rcases hslot k with hsame | ⟨v, v', hnew, hmem, hid, hdel, hpurge, hv⟩
    · exact .inl (hsame ▸ hw)
    · obtain ⟨rfl, rfl⟩ : a = t ∧ some v' = w := by simpa [hnew] using hw
      refine .inr ⟨rfl, v, v', rfl, hid, hdel, hpurge, hmem, hold k v hv, fun u hk hu => ?_⟩
      rcases hv with ⟨_, hv⟩ | hv
      · rw [hid, Option.some.inj (hv.symm.trans hu)]
      · rw [hid, h.same_id k u v a hk hu hv]
  refine ⟨⟨h.document_lt, h.key_lt, h.snapshot_lt, fun k v hv => ?_, h.document_ref, h.part_ref,
    fun k v hk hv => ?_, fun k u v t hk hu hv => ?_, fun k t hk hd => ?_, fun hl k v hk hv => ?_,
    fun hl k t v hk hv hmark => ?_, fun hg k v hk hv => ?_, fun hg k hk hnone => ?_,
    h.document_dirty⟩,
    fun t ht => ⟨fun _ _ hm => hm, fun hl => hl, rfl, fun k v _ hv => ?_, fun _ hv => hv,
      fun _ k _ => ⟨fun v hv => ⟨v, (hcommitted k).symm.trans hv, rfl⟩, fun ho => ho⟩,
      fun _ _ k hk => ⟨fun ho => ho, fun he => ?_, fun v hv => ⟨v, (hcommitted k).trans hv, rfl⟩⟩⟩⟩
  · rcases hv with hv | ⟨t, hv⟩
    · exact h.keyed k v (.inl ((hcommitted k).symm.trans hv))
    · rcases hdirty k t _ hv with hv | ⟨_, u, v', heq, hid, _, _, _, hu, _⟩
      · exact h.keyed k v (.inr ⟨t, hv⟩)
      · obtain rfl := Option.some.inj heq
        rw [hid]
        exact h.keyed k u hu
  · rcases hv with hv | ⟨t, hv⟩
    · exact h.paired k v hk (.inl ((hcommitted k).symm.trans hv))
    · rcases hdirty k t _ hv with hv | ⟨_, u, v', heq, _, hdel, hpurge, _⟩
      · exact h.paired k v hk (.inr ⟨t, hv⟩)
      · obtain rfl := Option.some.inj heq
        rw [hdel, hpurge]
  · have hu' := (hcommitted k).symm.trans hu
    rcases hdirty k t _ hv with hv | ⟨_, _, v', heq, _, _, _, _, _, hsame⟩
    · exact h.same_id k u v t hk hu' hv
    · obtain rfl := Option.some.inj heq
      exact hsame u hk hu'
  · rcases hdirty k t _ hd with hd | ⟨_, _, _, heq, _⟩
    · exact h.written k t hk hd
    · simp at heq
  · exact h.live_committed hl k v hk ((hcommitted k).symm.trans hv)
  · rcases hdirty k t _ hv with hv | ⟨rfl, u, v', heq, _, _, _, hmem, hu, _⟩
    · exact h.live_dirty hl k t v hk hv hmark
    · exact hmine u.id hmem k (h.keyed k u hu) hk
  · rcases hv with hv | ⟨t, hv⟩
    · exact h.gone_marked hg k v hk (.inl ((hcommitted k).symm.trans hv))
    · rcases hdirty k t _ hv with hv | ⟨_, u, v', heq, _, hdel, _⟩
      · exact h.gone_marked hg k v hk (.inr ⟨t, hv⟩)
      · obtain rfl := Option.some.inj heq
        exact hdel
  · have hnone' := (hcommitted k).symm.trans hnone
    obtain ⟨hd, ho⟩ := h.gone_rows hg k hk hnone'
    refine ⟨?_, ho⟩
    rcases hslot k with hsame | ⟨v, v', _, _, _, _, _, hv | hv⟩
    · rw [hsame, hd]
    · simp [hv.2] at hnone'
    · simp [hd] at hv
  · rcases hslot k with hsame | ⟨u, v', _, _, _, _, _, hu | hu⟩
    · rw [hsame, hv]
    · simp [hu.1] at hv
    · have hta : t = a := (Prod.mk.inj (Option.some.inj (hv.symm.trans hu))).1
      exact absurd hta ht
  · rcases hslot k with hsame | ⟨u, v', _, _, _, _, _, hu | hu⟩
    · rw [hsame, he]
    · simp [he] at hu
    · simp [he] at hu

theorem Custody.marked (h : Custody d s) {blobs : List MediaId} {now : Time} {purge : Nat}
    (hfree : s.waits (.markMedia a blobs now purge) = false) {k : ObjectKey} (hk : k.document = d)
    {v : MediaRow} (hv : (s.media.slot k).committed = some v) (hid : v.id ∈ blobs)
    (hdel : v.deletedAt = none) :
    ∃ v', ((s.markMedia a blobs now purge).media.slot k).dirty = some (a, some v') ∧
      v'.deletedAt.isSome := by
  have hrewrite : (s.markMedia a blobs now purge).media.slot k = _ :=
    Table.slot_rewrite s.media (some a) _ k
  rw [hrewrite]
  simp only [Store.waits, Bool.not_eq_false'] at hfree
  have hmem : k ∈ s.media.keys := by
    by_contra hk
    simp [s.media.slot_of_not_mem hk] at hv
  have hlock := List.all_eq_true.mp hfree k hmem
  cases hdirty : (s.media.slot k).dirty with
  | none =>
    have hview : (s.media.slot k).view (some a) = some v := by simp [Slot.view, hdirty, hv]
    simp [hview, hid, hdel, Slot.write]
  | some lock =>
    obtain ⟨t, w⟩ := lock
    by_cases ht : a = t
    · subst ht
      cases w with
      | none => exact absurd hdirty (h.written k a hk)
      | some u =>
        have huid := h.same_id k v u a hk hv hdirty
        have hview : (s.media.slot k).view (some a) = some u := by simp [Slot.view, hdirty]
        cases hu : u.deletedAt with
        | none => simp [hview, huid, hid, hu, Slot.write]
        | some marked => simp [hview, hu, hdirty]
    · have hview : (s.media.slot k).view (some a) = some v := by simp [Slot.view, hdirty, hv, ht]
      simp [Table.view, hview, hid, hdel, Slot.free, hdirty, ht] at hlock

theorem Store.markDocuments_cases {ids : List DocumentId} {now : Time} {purge : Nat}
    (hfree : s.waits (.markDocuments a ids now purge) = false) (e : DocumentId) :
    (s.markDocuments a ids now purge).2.document.slot e = s.document.slot e ∨
    ∃ r r', (s.markDocuments a ids now purge).2.document.slot e =
        { committed := (s.document.slot e).committed, dirty := some (a, some r') } ∧
      e ∈ ids ∧ r'.mediaId = r.mediaId ∧ r'.deletedAt.isSome ∧
      ((s.document.slot e).dirty = none ∧ (s.document.slot e).committed = some r ∨
        (s.document.slot e).dirty = some (a, some r)) := by
  simp only [waits, Bool.not_eq_false'] at hfree
  rcases Table.rewrite_cases hfree (f := fun k row =>
      if ids.contains k && row.deletedAt.isNone then
        some (some { row with deletedAt := some now, purgeAfter := some (deadline now purge) })
      else none) (fun _ r hr => by simpa [Option.isSome_ite] using hr) e with
    hsame | ⟨r, w, hview, hw, hlock, hwrite⟩
  · exact .inl hsame
  · simp only [Option.ite_none_right_eq_some, Bool.and_eq_true, List.contains_eq_mem,
      decide_eq_true_eq, Option.some.injEq] at hw
    obtain ⟨⟨hmem, _⟩, rfl⟩ := hw
    obtain ⟨hnone, _⟩ | ⟨owner, howner, hnew, hold⟩ := Slot.write_cases
      (some { r with deletedAt := some now, purgeAfter := some (deadline now purge) }) hview hlock
    · simp at hnone
    · obtain rfl := Option.some.inj howner
      exact .inr ⟨r, _, hwrite.trans hnew, hmem, rfl, rfl, hold⟩

theorem Custody.mark_documents (h : Custody d s) {ids : List DocumentId} {now : Time} {purge : Nat}
    (hmine : d ∈ ids → Live s d → d ∈ s.snapshots a)
    (hfree : s.waits (.markDocuments a ids now purge) = false) :
    Kept d a s (s.markDocuments a ids now purge).2 := by
  have hslot := Store.markDocuments_cases hfree
  have hcommitted : ∀ e, ((s.markDocuments a ids now purge).2.document.slot e).committed =
      (s.document.slot e).committed := by
    intro e
    rcases hslot e with hsame | ⟨r, r', hnew, _⟩
    · rw [hsame]
    · rw [hnew]
  have hlive : Live (s.markDocuments a ids now purge).2 d ↔ Live s d := by
    simp only [Live, hcommitted]
  have hdirty : ∀ e t w, ((s.markDocuments a ids now purge).2.document.slot e).dirty = some (t, w) →
      (s.document.slot e).dirty = some (t, w) ∨ t = a ∧ e ∈ ids ∧ ∃ r r', w = some r' ∧
        r'.mediaId = r.mediaId ∧ r'.deletedAt.isSome ∧ (s.document.slot e).Has r := by
    intro e t w hw
    rcases hslot e with hsame | ⟨r, r', hnew, hmem, hid, hdel, hr⟩
    · exact .inl (hsame ▸ hw)
    · obtain ⟨rfl, rfl⟩ : a = t ∧ some r' = w := by simpa [hnew] using hw
      refine .inr ⟨rfl, hmem, r, r', rfl, hid, hdel, ?_⟩
      rcases hr with ⟨_, hr⟩ | hr
      · exact .inl hr
      · exact .inr ⟨a, hr⟩
  refine ⟨⟨h.document_lt, h.key_lt, h.snapshot_lt, h.keyed, fun e r hr => ?_, h.part_ref, h.paired, h.same_id,
    h.written, fun hl => h.live_committed (hlive.mp hl), fun hl => h.live_dirty (hlive.mp hl),
    fun hg => h.gone_marked (mt hlive.mpr hg), fun hg => h.gone_rows (mt hlive.mpr hg),
    fun t w hw => ?_⟩,
    fun t ht => ⟨fun _ _ hm => hm, hlive.mp, rfl, fun _ _ _ hv => hv, fun w hw => ?_,
      fun _ _ _ => ⟨fun v hv => ⟨v, hv, rfl⟩, fun ho => ho⟩,
      fun _ _ _ _ => ⟨fun ho => ho, fun he => he, fun v hv => ⟨v, hv, rfl⟩⟩⟩⟩
  · rcases hr with hr | ⟨t, hr⟩
    · exact h.document_ref e r (.inl ((hcommitted e).symm.trans hr))
    · rcases hdirty e t _ hr with hr | ⟨_, _, u, r', heq, hid, _, hu⟩
      · exact h.document_ref e r (.inr ⟨t, hr⟩)
      · obtain rfl := Option.some.inj heq
        rw [hid]
        exact h.document_ref e u hu
  · rw [hlive]
    rcases hdirty d t w hw with hw | ⟨rfl, hmem, _, r', rfl, _, hdel, _⟩
    · exact h.document_dirty t w hw
    · exact ⟨r', rfl, fun _ => hdel, fun hl _ => hmine hmem hl⟩
  · rcases hslot d with hsame | ⟨r, r', _, _, _, _, hr | hr⟩
    · rw [hsame, hw]
    · simp [hr.1] at hw
    · exact absurd (Prod.mk.inj (Option.some.inj (hw.symm.trans hr))).1 ht

theorem Custody.document_marked (h : Custody d s) {ids : List DocumentId} {now : Time}
    {purge : Nat} (hfree : s.waits (.markDocuments a ids now purge) = false) (hmem : d ∈ ids)
    (hlive : Live s d) :
    ∃ r, ((s.markDocuments a ids now purge).2.document.slot d).dirty = some (a, some r) ∧
      r.deletedAt.isSome := by
  obtain ⟨row, hrow, hdel⟩ := hlive
  have hrewrite : (s.markDocuments a ids now purge).2.document.slot d = _ :=
    Table.slot_rewrite s.document (some a) _ d
  rw [hrewrite]
  simp only [Store.waits, Bool.not_eq_false'] at hfree
  have hkey : d ∈ s.document.keys := by
    by_contra hk
    simp [s.document.slot_of_not_mem hk] at hrow
  have hlock := List.all_eq_true.mp hfree d hkey
  cases hdirty : (s.document.slot d).dirty with
  | none =>
    have hview : (s.document.slot d).view (some a) = some row := by simp [Slot.view, hdirty, hrow]
    simp [hview, hmem, hdel, Slot.write]
  | some lock =>
    obtain ⟨t, w⟩ := lock
    by_cases ht : a = t
    · subst ht
      obtain ⟨r, rfl, _⟩ := h.document_dirty a w hdirty
      have hview : (s.document.slot d).view (some a) = some r := by simp [Slot.view, hdirty]
      cases hr : r.deletedAt with
      | none => simp [hview, hmem, hr, Slot.write]
      | some marked => simp [hview, hr, hdirty]
    · have hview : (s.document.slot d).view (some a) = some row := by
        simp [Slot.view, hdirty, hrow, ht]
      simp [Table.view, hview, hmem, hdel, Slot.free, hdirty, ht] at hlock

theorem Custody.delete_media (h : Custody d s) {ids : List MediaId}
    (hdoomed : ∀ m ∈ ids, ∀ k, s.mediaKey m = some k → k.document = d →
      ¬ Live s d ∧ s.objects k = none)
    (hfree : s.waits (.deleteMedia ids) = false) : Kept d a s (s.deleteMedia ids).2 := by
  simp only [Store.waits, Bool.or_eq_false_iff, Bool.not_eq_false'] at hfree
  obtain ⟨⟨⟨⟨hfreeM, hfreeD⟩, hfreeP⟩, _⟩, _⟩ := hfree
  have hmedia : ∀ k, (s.deleteMedia ids).2.media.slot k = s.media.slot k ∨
      ∃ v, (s.media.slot k).committed = some v ∧ v.id ∈ ids ∧ (s.media.slot k).dirty = none ∧
        (s.deleteMedia ids).2.media.slot k = {} := by
    intro k
    rcases Table.rewrite_none_cases hfreeM (f := fun _ row =>
        if ids.contains row.id then some none else none)
        (fun _ v hv => by simpa [Option.isSome_ite] using hv) k with
      hsame | ⟨v, w, hv, hw, hd, hnew⟩
    · exact .inl hsame
    · simp only [Option.ite_none_right_eq_some, List.contains_eq_mem, decide_eq_true_eq,
        Option.some.injEq] at hw
      obtain ⟨hmem, rfl⟩ := hw
      exact .inr ⟨v, hv, hmem, hd, hnew⟩
  have hdoc : ∀ e, (s.deleteMedia ids).2.document.slot e = s.document.slot e ∨
      ∃ r, (s.document.slot e).committed = some r ∧ r.mediaId ∈ ids ∧
        (s.document.slot e).dirty = none ∧ (s.deleteMedia ids).2.document.slot e = {} := by
    intro e
    rcases Table.rewrite_none_cases hfreeD (f := fun _ row =>
        if ids.contains row.mediaId then some none else none)
        (fun _ v hv => by simpa [Option.isSome_ite] using hv) e with
      hsame | ⟨r, w, hr, hw, hd, hnew⟩
    · exact .inl hsame
    · simp only [Option.ite_none_right_eq_some, List.contains_eq_mem, decide_eq_true_eq,
        Option.some.injEq] at hw
      obtain ⟨hmem, rfl⟩ := hw
      exact .inr ⟨r, hr, hmem, hd, hnew⟩
  have hpart : ∀ key row, ((s.deleteMedia ids).2.part.slot key).Has row →
      ∃ row', (s.part.slot key).Has row' ∧ row.mediaId = row'.mediaId ∧
        (row.thumbMediaId = row'.thumbMediaId ∨ row.thumbMediaId = none) := by
    intro key row hrow
    rcases Table.rewrite_none_cases hfreeP (f := s.cascadePart ids) (fun _ _ hv => hv) key with
      hsame | ⟨r, w, hr, hw, hd, hnew⟩
    · exact ⟨row, hsame ▸ hrow, rfl, .inl rfl⟩
    · have hslot : (s.deleteMedia ids).2.part.slot key = { committed := w } := hnew
      rw [hslot] at hrow
      rcases hrow with hrow | ⟨_, hrow⟩
      · obtain rfl : w = some row := hrow
        refine ⟨r, .inl hr, ?_⟩
        unfold Store.cascadePart at hw
        split_ifs at hw
        · simp at hw
        · obtain rfl := Option.some.inj (Option.some.inj hw)
          exact ⟨rfl, .inr rfl⟩
      · simp at hrow
  have hlive : Live (s.deleteMedia ids).2 d ↔ Live s d := by
    rcases hdoc d with hsame | ⟨r, hr, hmem, _, hnew⟩
    · simp only [Live, hsame]
    · obtain ⟨k, hk, hkd⟩ := h.document_ref d r (.inl hr)
      have hg := (hdoomed _ hmem k hk hkd).1
      refine ⟨fun hl => ?_, fun hl => absurd hl hg⟩
      obtain ⟨u, hu, _⟩ := hl
      simp [hnew] at hu
  have hkept : Live s d → ∀ k, k.document = d →
      (s.deleteMedia ids).2.media.slot k = s.media.slot k := by
    intro hl k hk
    rcases hmedia k with hsame | ⟨v, hv, hmem, _⟩
    · exact hsame
    · exact absurd hl (hdoomed _ hmem k (h.keyed k v (.inl hv)) hk).1
  have hhas : ∀ k v, ((s.deleteMedia ids).2.media.slot k).Has v → (s.media.slot k).Has v := by
    intro k v hv
    rcases hmedia k with hsame | ⟨_, _, _, _, hnew⟩
    · exact hsame ▸ hv
    · rw [hnew] at hv
      rcases hv with hv | ⟨_, hv⟩ <;> simp at hv
  refine ⟨⟨h.document_lt, h.key_lt, h.snapshot_lt, fun k v hv => h.keyed k v (hhas k v hv), fun e r hr => ?_,
    fun e l r m hr hm => ?_, fun k v hk hv => h.paired k v hk (hhas k v hv),
    fun k v v' t hk hv hv' => ?_, fun k t hk hd => ?_, fun hl k v hk hv => ?_,
    fun hl k t v hk hv hmark => ?_, fun hg k v hk hv => h.gone_marked (mt hlive.mpr hg) k v hk (hhas k v hv),
    fun hg k hk hnone => ?_, fun t w hw => ?_⟩,
    fun t ht => ⟨fun _ _ hm => hm, hlive.mp, rfl, fun k v hk hv => ?_, fun w hw => ?_,
      fun _ k hk => ⟨fun v hv => ?_, fun ho => ho⟩,
      fun _ hl k hk => ⟨fun ho => ho, fun he => ?_, fun v hv => ?_⟩⟩⟩
  · rcases hdoc e with hsame | ⟨_, _, _, _, hnew⟩
    · exact h.document_ref e r (hsame ▸ hr)
    · rw [hnew] at hr
      rcases hr with hr | ⟨_, hr⟩ <;> simp at hr
  · obtain ⟨r', hr', hmid, hthumb⟩ := hpart (e, l) r hr
    refine h.part_ref e l r' m hr' ?_
    rcases hm with hm | hm
    · exact .inl (hmid ▸ hm)
    · rcases hthumb with hthumb | hthumb
      · exact .inr (hthumb ▸ hm)
      · simp [hthumb] at hm
  · rcases hmedia k with hsame | ⟨_, _, _, _, hnew⟩
    · exact h.same_id k v v' t hk (hsame ▸ hv) (hsame ▸ hv')
    · simp [hnew] at hv
  · rcases hmedia k with hsame | ⟨_, _, _, _, hnew⟩
    · exact h.written k t hk (hsame ▸ hd)
    · simp [hnew] at hd
  · rw [hkept (hlive.mp hl) k hk] at hv
    exact h.live_committed (hlive.mp hl) k v hk hv
  · rw [hkept (hlive.mp hl) k hk] at hv
    exact h.live_dirty (hlive.mp hl) k t v hk hv hmark
  · rcases hmedia k with hsame | ⟨v, hv, hmem, _, hnew⟩
    · rw [hsame] at hnone
      rw [hsame]
      exact h.gone_rows (mt hlive.mpr hg) k hk hnone
    · rw [hnew]
      exact ⟨rfl, (hdoomed _ hmem k (h.keyed k v (.inl hv)) hk).2⟩
  · rw [hlive]
    rcases hdoc d with hsame | ⟨_, _, _, _, hnew⟩
    · exact h.document_dirty t w (hsame ▸ hw)
    · simp [hnew] at hw
  · rcases hmedia k with hsame | ⟨_, _, _, hd, _⟩
    · rw [hsame, hv]
    · simp [hd] at hv
  · rcases hdoc d with hsame | ⟨_, _, _, hd, _⟩
    · rw [hsame, hw]
    · simp [hd] at hw
  · rcases hmedia k with hsame | ⟨_, _, _, _, hnew⟩
    · exact ⟨v, hsame ▸ hv, rfl⟩
    · simp [hnew] at hv
  · rw [hkept (hlive.mp hl) k hk, he]
  · exact ⟨v, by rw [hkept (hlive.mp hl) k hk, hv], rfl⟩

end Closing

end Doci
