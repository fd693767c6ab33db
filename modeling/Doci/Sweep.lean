import Doci.CallContracts

/-! `purge_expired` beside any other calls: it purges blobs of deleted documents only, and
when all its awaits succeed nothing of an overdue document is left. -/

namespace Doci

open Coroutine ReadCommitted

section Sweep

variable {d : DocumentId} {sweeper : Option Session} {a : Session} {s t : Store}

/-- A row that a sweep may purge: if it is the document's, the document is deleted. -/
def Doomed (d : DocumentId) (row : MediaId × ObjectKey) (s : Store) : Prop :=
  s.mediaKey row.1 = some row.2 ∧ (row.2.document = d → ¬ Live s d)

def Emptied (d : DocumentId) (m : MediaId) (s : Store) : Prop :=
  ∃ k, s.mediaKey m = some k ∧ (k.document = d → ¬ Live s d ∧ s.objects k = none)

/-- The document is deleted and all its media rows are among `rows`. -/
def Listed (d : DocumentId) (rows : List (MediaId × ObjectKey)) (s : Store) : Prop :=
  ¬ Live s d ∧ ∀ k v, k.document = d → (s.media.slot k).committed = some v → (v.id, k) ∈ rows

/-- The document is deleted and neither a media row nor an object of it is left. -/
def Purged (d : DocumentId) (s : Store) : Prop :=
  ¬ Live s d ∧ ∀ k, k.document = d → (s.media.slot k).committed = none ∧ s.objects k = none

theorem Doomed.later {row : MediaId × ObjectKey} (h : Doomed d row s) (hu : Undisturbed d a s t) :
    Doomed d row t :=
  ⟨hu.keys _ _ h.1, fun hk hl => h.2 hk (hu.live hl)⟩

theorem Emptied.later {m : MediaId} (h : Emptied d m s) (hu : Undisturbed d a s t) :
    Emptied d m t := by
  obtain ⟨k, hk, hempty⟩ := h
  refine ⟨k, hu.keys _ _ hk, fun hkd => ?_⟩
  obtain ⟨hg, ho⟩ := hempty hkd
  exact ⟨fun hl => hg (hu.live hl), (hu.gone hg k hkd).2 ho⟩

theorem Listed.later {rows : List (MediaId × ObjectKey)} (h : Listed d rows s)
    (hu : Undisturbed d a s t) : Listed d rows t := by
  refine ⟨fun hl => h.1 (hu.live hl), fun k v hk hv => ?_⟩
  obtain ⟨u, hu', hid⟩ := (hu.gone h.1 k hk).1 v hv
  exact hid ▸ h.2 k u hk hu'

theorem Purged.later (h : Purged d s) (hu : Undisturbed d a s t) : Purged d t := by
  refine ⟨fun hl => h.1 (hu.live hl), fun k hk => ?_⟩
  obtain ⟨hrow, hobj⟩ := hu.gone h.1 k hk
  refine ⟨?_, hobj (h.2 k hk).2⟩
  by_contra hne
  obtain ⟨v, hv⟩ := Option.ne_none_iff_exists'.mp hne
  obtain ⟨u, hu', _⟩ := hrow v hv
  simp [(h.2 k hk).1] at hu'

/-- Where a sweep stands: `rows` are still to do, the objects of `ids` are gone. -/
structure Sweeping (d : DocumentId) (sweeper : Option Session) (a : Session)
    (all rows : List (MediaId × ObjectKey)) (ids : List MediaId) (s : Store) : Prop where
  doomed : ∀ row ∈ rows, Doomed d row s
  emptied : ∀ m ∈ ids, Emptied d m s
  listed : sweeper = some a → Listed d all s

variable {all rows : List (MediaId × ObjectKey)} {ids : List MediaId}

theorem Sweeping.later (h : Sweeping d sweeper a all rows ids s) (hu : Undisturbed d a s t) :
    Sweeping d sweeper a all rows ids t :=
  ⟨fun row hrow => (h.doomed row hrow).later hu, fun m hm => (h.emptied m hm).later hu,
    fun hs => (h.listed hs).later hu⟩

theorem keeps_deleteObject {row : MediaId × ObjectKey}
    (h : Sweeping d sweeper a all (row :: rows) ids s) (hinv : Custody d s) :
    Keeps (deletionContract d sweeper a)
      (fun r t => ∃ purged : List MediaId, r = .ok purged ∧
        Sweeping d sweeper a all rows (ids ++ purged) t ∧ (sweeper = some a → purged = [row.1]))
      (Prog.tryCatch ((statement (.deleteObject row.2)).bind fun _ => .ret [row.1])
        fun _ => .ret []) s := by
  have hdelete : Keeps (deletionContract d sweeper a)
      (fun r t => Sweeping d sweeper a all rows ids t ∧
        (∀ u : Unit, r = .ok u → Emptied d row.1 t) ∧ (sweeper = some a → ∃ u : Unit, r = .ok u))
      (statement (.deleteObject row.2)) s := by
    apply Keeps.perform
    rintro t hrely hinv fate ⟨_, _, _, hsuccess⟩
    obtain ⟨hdoomed, hemptied, hlisted⟩ := h.later hrely
    have hrest : Sweeping d sweeper a all rows ids t :=
      ⟨fun r hr => hdoomed r (List.mem_cons_of_mem _ hr), hemptied, hlisted⟩
    have hkept : Kept d a t (Store.meaning (.deleteObject row.2) t).2 := by
      refine hinv.objects_changed fun k hk ho => .inl ?_
      by_cases hkey : k = row.2 <;> simp [hkey, ho]
    have hdone : Sweeping d sweeper a all rows ids (Store.meaning (.deleteObject row.2) t).2 := by
      refine ⟨hrest.doomed, fun m hm => ?_, hrest.listed⟩
      obtain ⟨k, hk, hempty⟩ := hrest.emptied m hm
      refine ⟨k, hk, fun hkd => ⟨(hempty hkd).1, ?_⟩⟩
      by_cases hkey : k = row.2 <;> simp [Store.meaning, hkey, (hempty hkd).2]
    cases fate with
    | lost e =>
      exact ⟨hinv, fun u _ => Undisturbed.refl d u t, fun u hu _ =>
        ⟨hrest.later hu, fun _ hr => (by cases hr), fun hs => by simpa using (hsuccess hs).1⟩⟩
    | late e =>
      exact ⟨hkept.custody, hkept.others, fun u hu _ =>
        ⟨hdone.later hu, fun _ hr => (by cases hr), fun hs => by simpa using (hsuccess hs).1⟩⟩
    | done =>
      refine ⟨hkept.custody, hkept.others, fun u hu _ =>
        ⟨hdone.later hu, fun _ _ => ?_, fun _ => ⟨(), rfl⟩⟩⟩
      obtain ⟨hkey, hgone⟩ := hdoomed row List.mem_cons_self
      have hempty : Emptied d row.1 (Store.meaning (.deleteObject row.2) t).2 :=
        ⟨row.2, hkey, fun hk => ⟨hgone hk, by simp [Store.meaning]⟩⟩
      exact hempty.later hu
  have hbody : Keeps (deletionContract d sweeper a)
      (fun r t => Sweeping d sweeper a all rows ids t ∧
        (∀ purged : List MediaId, r = .ok purged → purged = [row.1] ∧ Emptied d row.1 t) ∧
        (sweeper = some a → ∃ purged : List MediaId, r = .ok purged))
      ((statement (.deleteObject row.2)).bind fun _ => .ret [row.1]) s := by
    apply hdelete.bind hinv
    · rintro _ t _ ⟨hsweep, hempty, _⟩ u hu _
      refine ⟨hsweep.later hu, fun purged hr => ?_, fun _ => ⟨_, rfl⟩⟩
      obtain rfl : [row.1] = purged := Except.ok.inj hr
      exact ⟨rfl, (hempty () rfl).later hu⟩
    · rintro e t _ ⟨hsweep, _, hsuccess⟩
      refine ⟨hsweep, fun _ hr => (by cases hr), fun hs => ?_⟩
      obtain ⟨_, hr⟩ := hsuccess hs
      cases hr
  apply hbody.tryCatch hinv
  · rintro purged t _ ⟨hsweep, hpurged, _⟩
    obtain ⟨rfl, hempty⟩ := hpurged purged rfl
    refine ⟨_, rfl, ⟨hsweep.doomed, fun m hm => ?_, hsweep.listed⟩, fun _ => rfl⟩
    rcases List.mem_append.mp hm with hm | hm
    · exact hsweep.emptied m hm
    · exact List.mem_singleton.mp hm ▸ hempty
  · rintro e t _ ⟨hsweep, _, hsuccess⟩ u hu _
    refine ⟨[], rfl, by simpa using hsweep.later hu, fun hs => ?_⟩
    obtain ⟨_, hr⟩ := hsuccess hs
    cases hr

theorem keeps_purgeObjects (h : Sweeping d sweeper a all rows ids s) (hinv : Custody d s) :
    Keeps (deletionContract d sweeper a)
      (fun r t => ∃ purged : List MediaId, r = .ok purged ∧
        Sweeping d sweeper a all [] (ids ++ purged) t ∧
          (sweeper = some a → purged = rows.map Prod.fst))
      (purgeObjects rows) s := by
  induction rows generalizing ids s with
  | nil =>
    intro t hu _
    exact ⟨[], rfl, by simpa using h.later hu, fun _ => rfl⟩
  | cons row rows ih =>
    apply (keeps_deleteObject h hinv).bind hinv
    · rintro purged t hinv ⟨_, hr, hsweep, hpurged⟩
      obtain rfl := Except.ok.inj hr
      apply (ih hsweep hinv).bind hinv
      · rintro rest u _ ⟨_, hr, hsweep, hrest⟩ v hu _
        obtain rfl := Except.ok.inj hr
        refine ⟨_, rfl, ?_, fun hs => by simp [hpurged hs, hrest hs]⟩
        rw [← List.append_assoc]
        exact hsweep.later hu
      · rintro e u _ ⟨_, hr, _⟩
        cases hr
    · rintro e t _ ⟨_, hr, _⟩
      cases hr

theorem Custody.purged (h : Custody d s) (hgone : ¬ Live s d)
    (hnone : ∀ k, k.document = d → (s.media.slot k).committed = none) : Purged d s :=
  ⟨hgone, fun k hk => ⟨hnone k hk, (h.gone_rows hgone k hk (hnone k hk)).2⟩⟩

theorem Custody.doomed (h : Custody d s) {row : MediaId × ObjectKey} (hrow : row ∈ s.expired) :
    Doomed d row s := by
  simp only [Store.expired, List.mem_map, List.mem_filter, Prod.exists, Table.mem_rows] at hrow
  obtain ⟨k, v, ⟨hview, hdue⟩, rfl⟩ := hrow
  have hv : (s.media.slot k).committed = some v := by simpa [Table.view] using hview
  refine ⟨h.keyed k v (.inl hv), fun hk hl => ?_⟩
  have hpaired := h.paired k v hk (.inl hv)
  rw [h.live_committed hl k v hk hv] at hpaired
  obtain ⟨t, ht, _⟩ := Option.any_eq_true _ _ |>.mp hdue
  simp [ht] at hpaired

theorem Custody.listed (h : Custody d s) (hdue : Overdue d s) : Listed d s.expired s := by
  refine ⟨hdue.1, fun k v hk hv => ?_⟩
  have hmark := h.gone_marked hdue.1 k v hk (.inl hv)
  rw [h.paired k v hk (.inl hv)] at hmark
  obtain ⟨t, ht⟩ := Option.isSome_iff_exists.mp hmark
  simp only [Store.expired, List.mem_map, List.mem_filter, Prod.exists, Table.mem_rows]
  refine ⟨k, v, ⟨by simpa [Table.view] using hv, ?_⟩, rfl⟩
  simpa [ht] using hdue.2 k v t hk hv ht

theorem Emptied.doomed {m : MediaId} (h : Emptied d m s) (k : ObjectKey)
    (hk : s.mediaKey m = some k) (hkd : k.document = d) : ¬ Live s d ∧ s.objects k = none := by
  obtain ⟨k', hk', hempty⟩ := h
  obtain rfl := Option.some.inj (hk.symm.trans hk')
  exact hempty hkd

theorem Kept.purged (h : Kept d a s (s.deleteMedia ids).2) (hgone : ¬ Live s d)
    (hall : ∀ k v, k.document = d → (s.media.slot k).committed = some v → v.id ∈ ids) :
    Purged d (s.deleteMedia ids).2 := by
  refine h.custody.purged (fun hl => hgone ((h.others (a + 1) (Nat.succ_ne_self a)).live hl)) fun k hk => ?_
  have hslot : (s.deleteMedia ids).2.media.slot k = _ := Table.slot_rewrite _ none _ k
  rw [hslot, Slot.view_none]
  cases hv : (s.media.slot k).committed with
  | none => simpa using hv
  | some v => simp [hall k v hk hv, Slot.write]

theorem keeps_deleteMedia (h : Sweeping d sweeper a all [] ids s)
    (hids : sweeper = some a → ids = all.map Prod.fst) :
    Keeps (deletionContract d sweeper a) (fun _ t => sweeper = some a → Purged d t)
      (statement (.deleteMedia ids)) s := by
  apply Keeps.perform
  rintro t hrely hinv fate ⟨hadmits, _, _, hsuccess⟩
  have hsweep := h.later hrely
  rcases Store.admits_cases hadmits with ⟨e, rfl, _⟩ | hfree
  · exact ⟨hinv, fun u _ => Undisturbed.refl d u t, fun u _ _ hs => by
      simpa using (hsuccess hs).1⟩
  · have hkept : Kept d a t (t.deleteMedia ids).2 :=
      hinv.delete_media (fun m hm => (hsweep.emptied m hm).doomed) hfree
    have hpurged : sweeper = some a → Purged d (t.deleteMedia ids).2 := by
      intro hs
      obtain ⟨hgone, hlist⟩ := hsweep.listed hs
      refine hkept.purged hgone fun k v hk hv => ?_
      rw [hids hs]
      exact List.mem_map_of_mem (hlist k v hk hv)
    cases fate with
    | lost e => exact ⟨hinv, fun u _ => Undisturbed.refl d u t, fun u _ _ hs => by
        simpa using (hsuccess hs).1⟩
    | late e => exact ⟨hkept.custody, hkept.others, fun u hu _ hs => (hpurged hs).later hu⟩
    | done => exact ⟨hkept.custody, hkept.others, fun u hu _ hs => (hpurged hs).later hu⟩

theorem Sweeping.purged (h : Sweeping d sweeper a [] rows ids s) (hinv : Custody d s)
    (hs : sweeper = some a) : Purged d s := by
  obtain ⟨hgone, hlist⟩ := h.listed hs
  refine hinv.purged hgone fun k hk => ?_
  by_contra hne
  obtain ⟨v, hv⟩ := Option.ne_none_iff_exists'.mp hne
  simpa using hlist k v hk hv

theorem keeps_purgeExpired (hinv : Custody d s) (hnot : d ∉ s.snapshots a) :
    Keeps (deletionContract d sweeper a) (fun _ t => sweeper = some a → Purged d t)
      purgeExpired s := by
  apply Keeps.bind (keeps_read (c := .expired) (Q := fun rows t => Sweeping d sweeper a rows rows [] t)
    (fun _ => rfl) (fun _ => ⟨_, rfl⟩) (fun t rows hinv hsuccess hr => ?_)
    (fun _ _ _ h hu => h.later hu) hnot) hinv
  · rintro rows t hinv ⟨_, hsweep, _⟩
    have hsweep := hsweep rows rfl
    split_ifs with hrows
    · obtain rfl := List.isEmpty_iff.mp hrows
      exact fun u hu hinv hs => (hsweep.later hu).purged hinv hs
    · apply (keeps_purgeObjects hsweep hinv).bind hinv
      · rintro ids u hinv ⟨_, hr, hsweep, hids⟩
        obtain rfl := Except.ok.inj hr
        refine Keeps.ite (fun hempty => ?_) fun _ => ?_
        · intro v hu hinv hs
          have hnone := hids hs
          rw [List.isEmpty_iff.mp hempty] at hnone
          simp [List.map_eq_nil_iff.mp hnone.symm] at hrows
        · exact keeps_deleteMedia (by simpa using hsweep) hids
      · rintro e u _ ⟨_, hr, _⟩
        cases hr
  · rintro e t _ ⟨_, _, hsuccess⟩ hs
    obtain ⟨_, hr⟩ := hsuccess hs
    cases hr
  · obtain rfl : t.expired = rows := Except.ok.inj hr
    exact ⟨fun row hrow => hinv.doomed hrow, nofun, fun hs => hinv.listed ((hsuccess hs).2 rfl)⟩

end Sweep

end Doci
