import Doci.CallContracts

/-! `delete` beside any other calls: it collects the blobs of the document, marks them and
marks the document, and nobody undoes that before it commits. -/

namespace Doci

open Coroutine ReadCommitted

section Delete

variable {d : DocumentId} {sweeper : Option Session} {a : Session} {s t : Store}
  {ids : List DocumentId} {blobs : List MediaId}

/-- Session `a` has chosen `blobs` for the documents `ids`. -/
structure Chosen (d : DocumentId) (a : Session) (ids : List DocumentId) (blobs : List MediaId)
    (s : Store) : Prop where
  taken : d ∈ ids → Live s d → d ∈ s.snapshots a
  owned : ∀ m ∈ blobs, ∃ k, s.mediaKey m = some k ∧ (k.document = d → d ∈ s.snapshots a)
  asked : d ∈ s.snapshots a → d ∈ ids
  rows : d ∈ s.snapshots a → Live s d → ∀ k, k.document = d →
    s.media.slot k = {} ∧ s.objects k = none ∨
      ∃ v, (s.media.slot k).committed = some v ∧ v.id ∈ blobs

/-- Session `a` has marked the blobs of the document, if it has taken it. -/
structure MarkedBlobs (d : DocumentId) (a : Session) (ids : List DocumentId) (s : Store) :
    Prop where
  taken : d ∈ ids → Live s d → d ∈ s.snapshots a
  asked : d ∈ s.snapshots a → d ∈ ids
  rows : d ∈ s.snapshots a → Live s d → ∀ k, k.document = d →
    s.media.slot k = {} ∧ s.objects k = none ∨
      ∃ v v', (s.media.slot k).committed = some v ∧
        (s.media.slot k).dirty = some (a, some v') ∧ v'.deletedAt.isSome

theorem Undisturbed.committed (h : Undisturbed d a s t) (hd : d ∈ s.snapshots a) (hl : Live t d)
    {k : ObjectKey} (hk : k.document = d) {v : MediaRow}
    (hv : (s.media.slot k).committed = some v) :
    ∃ v', (t.media.slot k).committed = some v' ∧ v'.id = v.id :=
  (h.collected hd hl k hk).2.2 v hv

theorem Chosen.later (h : Chosen d a ids blobs s) (hu : Undisturbed d a s t) :
    Chosen d a ids blobs t := by
  refine ⟨fun hd hl => ?_, fun m hm => ?_, fun hd => ?_, fun hd hl k hk => ?_⟩
  · rw [hu.snapshots]
    exact h.taken hd (hu.live hl)
  · obtain ⟨k, hk, hd⟩ := h.owned m hm
    exact ⟨k, hu.keys m k hk, fun hkd => hu.snapshots ▸ hd hkd⟩
  · exact h.asked (hu.snapshots ▸ hd)
  · rw [hu.snapshots] at hd
    obtain ⟨hobj, hempty, _⟩ := hu.collected hd hl k hk
    rcases h.rows hd (hu.live hl) k hk with ⟨he, ho⟩ | ⟨v, hv, hmem⟩
    · exact .inl ⟨hempty he, hobj ho⟩
    · obtain ⟨v', hv', hid⟩ := hu.committed hd hl hk hv
      exact .inr ⟨v', hv', hid ▸ hmem⟩

theorem MarkedBlobs.later (h : MarkedBlobs d a ids s) (hu : Undisturbed d a s t) :
    MarkedBlobs d a ids t := by
  refine ⟨fun hd hl => ?_, fun hd => ?_, fun hd hl k hk => ?_⟩
  · rw [hu.snapshots]
    exact h.taken hd (hu.live hl)
  · exact h.asked (hu.snapshots ▸ hd)
  · rw [hu.snapshots] at hd
    obtain ⟨hobj, hempty, _⟩ := hu.collected hd hl k hk
    rcases h.rows hd (hu.live hl) k hk with ⟨he, ho⟩ | ⟨v, v', hv, hdirty, hmark⟩
    · exact .inl ⟨hempty he, hobj ho⟩
    · obtain ⟨u, hu', _⟩ := hu.committed hd hl hk hv
      exact .inr ⟨u, v', hu', hu.media_lock k _ hk hdirty, hmark⟩

theorem Collected.later (h : d ∈ s.snapshots a → Live s d → Collected d a s)
    (hu : Undisturbed d a s t) : d ∈ t.snapshots a → Live t d → Collected d a t := by
  intro hd hl
  rw [hu.snapshots] at hd
  obtain ⟨⟨row, hrow, hmark⟩, hmedia⟩ := h hd (hu.live hl)
  refine ⟨⟨row, hu.document_lock _ hrow, hmark⟩, fun k hk => ?_⟩
  obtain ⟨hobj, hempty, _⟩ := hu.collected hd hl k hk
  rcases hmedia k hk with ⟨he, ho⟩ | ⟨v, v', hv, hdirty, hmark⟩
  · exact .inl ⟨hempty he, hobj ho⟩
  · obtain ⟨u, hu', _⟩ := hu.committed hd hl hk hv
    exact .inr ⟨u, v', hu', hu.media_lock k _ hk hdirty, hmark⟩

theorem Custody.view_live (h : Custody d s) (hnot : d ∉ s.snapshots a) (hl : Live s d) :
    ∃ row, s.document.view (some a) d = some row ∧ row.deletedAt = none := by
  obtain ⟨row, hrow, hdel⟩ := hl
  cases hdirty : (s.document.slot d).dirty with
  | none => exact ⟨row, by simp [Table.view, Slot.view, hdirty, hrow], hdel⟩
  | some lock =>
    obtain ⟨t, w⟩ := lock
    by_cases ht : a = t
    · subst ht
      obtain ⟨r, rfl, _, hlive⟩ := h.document_dirty a w hdirty
      refine ⟨r, by simp [Table.view, Slot.view, hdirty], ?_⟩
      by_contra hmark
      exact hnot (hlive ⟨row, hrow, hdel⟩ (Option.isSome_iff_ne_none.mpr hmark))
    · exact ⟨row, by simp [Table.view, Slot.view, hdirty, hrow, ht], hdel⟩

theorem Store.mem_snapshots_blobIds (e : DocumentId) :
    e ∈ (s.blobIds a ids).2.snapshots a ↔ e ∈ ids ∧
      ∃ row, s.document.view (some a) e = some row ∧ row.deletedAt = none := by
  simp only [Store.blobIds, if_true, List.mem_map, List.mem_filter, Prod.exists,
    exists_and_right, exists_eq_right, Table.mem_rows, List.contains_eq_mem, Bool.and_eq_true,
    decide_eq_true_eq, Option.isNone_iff_eq_none]
  constructor
  · rintro ⟨row, hrow, hmem, hdel⟩
    exact ⟨hmem, row, hrow, hdel⟩
  · rintro ⟨hmem, row, hrow, hdel⟩
    exact ⟨row, hrow, hmem, hdel⟩

/-- The blobs that the documents in the snapshot refer to. -/
theorem Store.mem_blobIds (m : MediaId) : m ∈ (s.blobIds a ids).1 ↔
    ∃ e, e ∈ (s.blobIds a ids).2.snapshots a ∧ Referenced s a e m := by
  simp only [Store.mem_snapshots_blobIds]
  simp only [Referenced, Store.blobIds, List.mem_append, List.mem_map, List.mem_filterMap,
    List.mem_filter, Prod.exists, Table.mem_rows, List.contains_eq_mem, Bool.and_eq_true,
    decide_eq_true_eq, Option.isNone_iff_eq_none, exists_and_right, exists_eq_right]
  constructor
  · rintro ((⟨e, row, ⟨hrow, hmem, hdel⟩, hm⟩ |
      ⟨e, locator, part, ⟨hpart, row, hrow, hmem, hdel⟩, hm⟩) |
      ⟨e, locator, part, ⟨hpart, row, hrow, hmem, hdel⟩, hm⟩)
    · exact ⟨e, ⟨hmem, row, hrow, hdel⟩, .inl ⟨row, hrow, hm⟩⟩
    · exact ⟨e, ⟨hmem, row, hrow, hdel⟩, .inr ⟨locator, part, hpart, .inl hm⟩⟩
    · exact ⟨e, ⟨hmem, row, hrow, hdel⟩, .inr ⟨locator, part, hpart, .inr hm⟩⟩
  · rintro ⟨e, ⟨hmem, row, hrow, hdel⟩, ⟨row', hrow', hm⟩ | ⟨locator, part, hpart, hm | hm⟩⟩
    · obtain rfl := Option.some.inj (hrow.symm.trans hrow')
      exact .inl (.inl ⟨e, row, ⟨hrow, hmem, hdel⟩, hm⟩)
    · exact .inl (.inr ⟨e, locator, part, ⟨hpart, row, hrow, hmem, hdel⟩, hm⟩)
    · exact .inr ⟨e, locator, part, ⟨hpart, row, hrow, hmem, hdel⟩, hm⟩

theorem Custody.chosen (h : Custody d s) (hnot : d ∉ s.snapshots a)
    (horderly : Orderly d s (.blobIds a ids)) :
    Chosen d a ids (s.blobIds a ids).1 (s.blobIds a ids).2 := by
  have hdocs : ∀ e, e ∈ (s.blobIds a ids).2.snapshots a ↔ e ∈ ids ∧
      ∃ row, s.document.view (some a) e = some row ∧ row.deletedAt = none :=
    Store.mem_snapshots_blobIds
  have hblobs : ∀ m, m ∈ (s.blobIds a ids).1 ↔
      ∃ e, e ∈ (s.blobIds a ids).2.snapshots a ∧ Referenced s a e m := Store.mem_blobIds
  have hrefers : ∀ e m, Referenced s a e m → BlobOf s e m := by
    rintro e m (⟨row, hrow, rfl⟩ | ⟨locator, row, hrow, hm⟩)
    · exact h.document_ref e row (Slot.has_of_view hrow)
    · exact h.part_ref e locator row m (Slot.has_of_view hrow) hm
  refine ⟨fun hd hl => ?_, fun m hm => ?_, fun hd => ((hdocs d).mp hd).1, fun hd hl k hk => ?_⟩
  · exact (hdocs d).mpr ⟨hd, h.view_live hnot hl⟩
  · obtain ⟨e, he, href⟩ := (hblobs m).mp hm
    obtain ⟨k, hkey, hke⟩ := hrefers e m href
    refine ⟨k, hkey, fun hkd => ?_⟩
    rwa [← hkd, hke]
  · obtain ⟨hmem, hview⟩ := (hdocs d).mp hd
    have hsettled := horderly hmem hview
    cases hrow : (s.media.slot k).committed with
    | none =>
      obtain ⟨hunlocked, hobj⟩ := hsettled.stored k hk hrow
      refine .inl ⟨?_, hobj⟩
      show s.media.slot k = {}
      cases hslot : s.media.slot k
      simp_all
    | some v =>
      exact .inr ⟨v, hrow, (hblobs v.id).mpr ⟨d, hd, hsettled.referenced k v hk hrow⟩⟩

theorem keeps_blobIds (hnot : d ∉ s.snapshots a) :
    Keeps (deletionContract d sweeper a)
      (fun r t => ∀ blobs : List MediaId, r = .ok blobs → Chosen d a ids blobs t)
      (statement (.blobIds a ids)) s := by
  apply Keeps.perform
  rintro t hrely hinv fate ⟨hadmits, horderly, hlt, _⟩
  have hnot' : d ∉ t.snapshots a := by rwa [hrely.snapshots]
  have hkept : Kept d a t (t.blobIds a ids).2 := hinv.collect hlt hnot' _
  cases fate with
  | lost e => exact ⟨hinv, fun u _ => Undisturbed.refl d u t, fun u _ _ blobs hr => by cases hr⟩
  | late e => exact ⟨hkept.custody, hkept.others, fun u _ _ blobs hr => by cases hr⟩
  | done =>
    refine ⟨hkept.custody, hkept.others, fun u hu _ blobs hr => ?_⟩
    obtain rfl : (t.blobIds a ids).1 = blobs := Except.ok.inj hr
    exact (hinv.chosen hnot' horderly).later hu

theorem Chosen.mine (h : Chosen d a ids blobs s) (m : MediaId) (hm : m ∈ blobs) (k : ObjectKey)
    (hk : s.mediaKey m = some k) (hkd : k.document = d) : d ∈ s.snapshots a := by
  obtain ⟨k', hk', hd⟩ := h.owned m hm
  obtain rfl := Option.some.inj (hk.symm.trans hk')
  exact hd hkd

theorem Chosen.marked (h : Chosen d a ids blobs s) (hinv : Custody d s) {now : Time} {purge : Nat}
    (hfree : s.waits (.markMedia a blobs now purge) = false) :
    MarkedBlobs d a ids (s.markMedia a blobs now purge) := by
  refine ⟨h.taken, h.asked, fun hd hl k hk => ?_⟩
  rcases h.rows hd hl k hk with ⟨he, ho⟩ | ⟨v, hv, hmem⟩
  · refine .inl ⟨?_, ho⟩
    rcases Store.markMedia_cases hfree k with hsame | ⟨v, v', _, _, _, _, _, hold⟩
    · rw [hsame, he]
    · simp [he] at hold
  · obtain ⟨v', hdirty, hmark⟩ := hinv.marked hfree hk hv hmem (hinv.live_committed hl k v hk hv)
    refine .inr ⟨v, v', ?_, hdirty, hmark⟩
    rcases Store.markMedia_cases hfree k with hsame | ⟨u, u', hnew, _⟩
    · rw [hsame, hv]
    · rw [hnew, hv]

theorem MarkedBlobs.collected (h : MarkedBlobs d a ids s) (hinv : Custody d s) {now : Time}
    {purge : Nat} (hfree : s.waits (.markDocuments a ids now purge) = false)
    (hd : d ∈ s.snapshots a) (hl : Live s d) :
    Collected d a (s.markDocuments a ids now purge).2 :=
  ⟨hinv.document_marked hfree (h.asked hd) hl, h.rows hd hl⟩

theorem keeps_markMedia {now : Time} {purge : Nat} (h : Chosen d a ids blobs s) :
    Keeps (deletionContract d sweeper a)
      (fun r t => ∀ u : Unit, r = .ok u → MarkedBlobs d a ids t)
      (statement (.markMedia a blobs now purge)) s := by
  apply Keeps.perform
  rintro t hrely hinv fate ⟨hadmits, _⟩
  have hchosen := h.later hrely
  rcases Store.admits_cases hadmits with ⟨e, rfl, _⟩ | hfree
  · exact ⟨hinv, fun u _ => Undisturbed.refl d u t, fun u _ _ _ hr => by cases hr⟩
  · have hkept := hinv.mark_media hchosen.mine hfree
    cases fate with
    | lost e => exact ⟨hinv, fun u _ => Undisturbed.refl d u t, fun u _ _ _ hr => by cases hr⟩
    | late e => exact ⟨hkept.custody, hkept.others, fun u _ _ _ hr => by cases hr⟩
    | done => exact ⟨hkept.custody, hkept.others, fun u hu _ _ _ => (hchosen.marked hinv hfree).later hu⟩

theorem keeps_markDocuments {now : Time} {purge : Nat} (h : MarkedBlobs d a ids s) :
    Keeps (deletionContract d sweeper a)
      (fun r t => ∀ n : Nat, r = .ok n → d ∈ t.snapshots a → Live t d → Collected d a t)
      (statement (.markDocuments a ids now purge)) s := by
  apply Keeps.perform
  rintro t hrely hinv fate ⟨hadmits, _⟩
  have hmarked := h.later hrely
  rcases Store.admits_cases hadmits with ⟨e, rfl, _⟩ | hfree
  · exact ⟨hinv, fun u _ => Undisturbed.refl d u t, fun u _ _ _ hr => by cases hr⟩
  · have hkept := hinv.mark_documents hmarked.taken hfree
    cases fate with
    | lost e => exact ⟨hinv, fun u _ => Undisturbed.refl d u t, fun u _ _ _ hr => by cases hr⟩
    | late e => exact ⟨hkept.custody, hkept.others, fun u _ _ _ hr => by cases hr⟩
    | done =>
      refine ⟨hkept.custody, hkept.others, fun u hu _ _ _ => ?_⟩
      apply Collected.later (s := (t.markDocuments a ids now purge).2) ?_ hu
      intro hd hl
      refine hmarked.collected hinv hfree hd ?_
      obtain ⟨row, hrow, hdel⟩ := hl
      rcases Store.markDocuments_cases hfree d with hsame | ⟨r, r', hnew, _⟩
      · exact ⟨row, hsame ▸ hrow, hdel⟩
      · exact ⟨row, by simpa [hnew] using hrow, hdel⟩

theorem keeps_commit (h : d ∈ s.snapshots a → Live s d → Collected d a s) :
    Keeps (deletionContract d sweeper a) (fun _ _ => True) (statement (.commit a)) s := by
  apply Keeps.perform
  rintro t hrely hinv fate ⟨hadmits, _⟩
  have hkept : Kept d a t (t.commit a) := hinv.commit (Collected.later h hrely)
  cases fate with
  | lost e => exact ⟨hinv, fun u _ => Undisturbed.refl d u t, fun _ _ _ => trivial⟩
  | late e => exact ⟨hkept.custody, hkept.others, fun _ _ _ => trivial⟩
  | done => exact ⟨hkept.custody, hkept.others, fun _ _ _ => trivial⟩

theorem keeps_rollback :
    Keeps (deletionContract d sweeper a) (fun _ _ => True) (statement (.rollback a)) s := by
  apply Keeps.perform
  rintro t _ hinv fate _
  have hkept : Kept d a t (t.rollback a) := hinv.rollback
  cases fate with
  | lost e => exact ⟨hinv, fun u _ => Undisturbed.refl d u t, fun _ _ _ => trivial⟩
  | late e => exact ⟨hkept.custody, hkept.others, fun _ _ _ => trivial⟩
  | done => exact ⟨hkept.custody, hkept.others, fun _ _ _ => trivial⟩

theorem keeps_delete (cfg : MediaConfig) (hinv : Custody d s) (hnot : d ∉ s.snapshots a) :
    Keeps (deletionContract d sweeper a) (fun _ _ => True) (delete cfg a ids) s := by
  unfold delete
  split_ifs
  · exact fun _ _ _ => trivial
  · have hbegin : Idles d sweeper a (statement (.begin a)) s := idles_statement trivial hnot
    apply Keeps.bind hbegin hinv ?_ fun _ _ _ _ => trivial
    intro now t hinv hnot
    apply Keeps.tryCatch (Q := fun _ _ => True) ?_ hinv (fun _ _ _ _ => trivial)
    · intro e u hinv _
      apply Keeps.bind (Q := fun _ _ => True) ?_ hinv ?_ fun _ _ _ _ => trivial
      · exact Keeps.tryCatch keeps_rollback hinv (fun _ _ _ _ => trivial)
          fun _ _ _ _ _ _ _ => trivial
      · exact fun _ _ _ _ _ _ _ => trivial
    · apply Keeps.bind (Q := fun r t => ∀ n : Nat, r = .ok n →
        d ∈ t.snapshots a → Live t d → Collected d a t) ?_ hinv ?_ fun _ _ _ _ => trivial
      · apply (keeps_blobIds hnot).bind hinv ?_ fun _ _ _ _ _ hr => by cases hr
        intro blobs u hinv hchosen
        apply (keeps_markMedia (hchosen blobs rfl)).bind hinv ?_ fun _ _ _ _ _ hr => by cases hr
        intro _ v hinv hmarked
        exact keeps_markDocuments (hmarked () rfl)
      · intro n u hinv hcollected
        apply (keeps_commit (hcollected n rfl)).bind hinv ?_ fun _ _ _ _ => trivial
        exact fun _ _ _ _ _ _ _ => trivial

theorem keeps_softDeleteInvalid (cfg : MediaConfig) (hinv : Custody d s) (hnot : d ∉ s.snapshots a) :
    Keeps (deletionContract d sweeper a) (fun _ _ => True) (softDeleteInvalid cfg a) s := by
  have hread : Idles d sweeper a (statement .invalidDocuments) s := idles_statement trivial hnot
  apply Keeps.bind hread hinv ?_ fun _ _ _ _ => trivial
  intro ids t hinv hnot
  split_ifs
  · exact fun _ _ _ => trivial
  · exact keeps_delete cfg hinv hnot

end Delete

end Doci
