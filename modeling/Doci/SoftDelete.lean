import Doci.DeleteCalls

/-! `delete` against other calls of it: every document of its list that is still there becomes its
own, with all its blobs, and it counts exactly those. -/

namespace Doci

open Coroutine ReadCommitted

section Contract

variable (purge : Nat) (start : Store) (asked : Session → List DocumentId)

def deleteContract (a : Session) : Contract DeleteReply Exc DeletePool where
  meaning := DeletePool.meaning
  inv := Deleting purge start asked
  rely := DeleteRely start a
  guar := DeleteGuar start a
  fate := fun c p fate => DeletePool.admits c p fate = true
  rely_refl := DeleteRely.refl a
  rely_trans := DeleteRely.trans

/-- Session `a` has marked nothing. -/
structure Opening (a : Session) (p : DeletePool) : Prop where
  unsettled : Unsettled a p
  no_media : ∀ k w, (p.store.media.slot k).dirty ≠ some (a, w)
  no_document : ∀ d w, (p.store.document.slot d).dirty ≠ some (a, w)

/-- `blobs` are those of documents that the session asked for, and all those of the ones that are
still there. -/
structure Gathered (a : Session) (blobs : List MediaId) (p : DeletePool) : Prop where
  owned : ∀ m ∈ blobs, ∃ d ∈ asked a, Live start d ∧ start.Refers d m
  all : ∀ d ∈ asked a, Live start d → p.deletedBy d = none → ∀ m, start.Refers d m → m ∈ blobs

/-- The session has marked blobs, and no document. -/
structure BlobsDone (a : Session) (now : Time) (p : DeletePool) : Prop where
  unsettled : Unsettled a p
  no_document : ∀ d w, (p.store.document.slot d).dirty ≠ some (a, w)
  marked : BlobsMarked purge start asked a now p

/-- The session has marked `n` documents, which are all that are still there. -/
structure DocumentsDone (a : Session) (n : Nat) (p : DeletePool) : Prop where
  unsettled : Unsettled a p
  taken : Taken asked start a p
  count : Counts n fun d => ∃ w, (p.store.document.slot d).dirty = some (a, w)

/-- The session has deleted `n` documents, and none that it asked for is there. -/
structure CountsItsOwn (a : Session) (n : Nat) (p : DeletePool) : Prop where
  unanswered : ∀ m, (a, m) ∉ p.answers
  count : Counts n fun d => p.deletedBy d = some a
  gone : ∀ d ∈ asked a, Live start d → p.deletedBy d ≠ none

end Contract

section Stages

variable {purge : Nat} {start : Store} {asked : Session → List DocumentId} {a : Session}
  {p q : DeletePool} {blobs : List MediaId} {n : Nat} {now : Time}

theorem DeleteRely.none_back (h : DeleteRely start a p q) {d : DocumentId}
    (hd : q.deletedBy d = none) : p.deletedBy d = none := by
  cases hp : p.deletedBy d with
  | none => rfl
  | some t => exact nomatch (h.deletedBy d t hp).symm.trans hd

theorem Unsettled.later (h : Unsettled a p) (hrely : DeleteRely start a p q) : Unsettled a q :=
  ⟨fun d hd => h.deleted d (hrely.mine d hd), fun n hn => h.answered n ((hrely.answers n).mp hn)⟩

theorem Opening.later (h : Opening a p) (hrely : DeleteRely start a p q) : Opening a q :=
  ⟨h.unsettled.later hrely, fun k w hw => h.no_media k w ((hrely.media_lock k w).mp hw),
    fun d w hw => h.no_document d w ((hrely.document_lock d w).mp hw)⟩

theorem Gathered.later (h : Gathered start asked a blobs p) (hrely : DeleteRely start a p q) :
    Gathered start asked a blobs q :=
  ⟨h.owned, fun d hd hlive hnone => h.all d hd hlive (hrely.none_back hnone)⟩

theorem BlobsDone.later (h : BlobsDone purge start asked a now p) (hrely : DeleteRely start a p q) :
    BlobsDone purge start asked a now q := by
  refine ⟨h.unsettled.later hrely,
    fun d w hw => h.no_document d w ((hrely.document_lock d w).mp hw), fun d hd hnone k howns => ?_⟩
  obtain ⟨v, hv, hdirty⟩ := h.marked d hd (hrely.none_back hnone) k howns
  exact ⟨v, hv, (hrely.media_lock k _).mpr hdirty⟩

theorem DocumentsDone.later (h : DocumentsDone start asked a n p) (hrely : DeleteRely start a p q) :
    DocumentsDone start asked a n q := by
  refine ⟨h.unsettled.later hrely, fun d hd hlive hnone => ?_, h.count.congr fun d => ?_⟩
  · obtain ⟨w, hw⟩ := h.taken d hd hlive (hrely.none_back hnone)
    exact ⟨w, (hrely.document_lock d w).mpr hw⟩
  · exact exists_congr fun w => (hrely.document_lock d w).symm

theorem CountsItsOwn.later (h : CountsItsOwn start asked a n p) (hrely : DeleteRely start a p q) :
    CountsItsOwn start asked a n q :=
  ⟨fun m hm => h.unanswered m ((hrely.answers m).mp hm),
    h.count.congr fun d => ⟨hrely.deletedBy d a, hrely.mine d⟩,
    fun d hd hlive hnone => h.gone d hd hlive (hrely.none_back hnone)⟩

/-- What the snapshot of a session that has marked nothing shows. -/
theorem Deleting.gathered (h : Deleting purge start asked p) (hrest : DocumentsAtRest start)
    (hopen : Opening a p) : Gathered start asked a (p.store.blobIds a (asked a)).1 p := by
  have hview : ∀ d, p.store.document.view (some a) d = (p.store.document.slot d).committed :=
    fun d => Slot.view_of_not_dirty (hopen.no_document d)
  have hpart : ∀ k, p.store.part.view (some a) k = (start.part.slot k).committed := by
    intro k
    rw [Table.view, h.part]
    refine Slot.view_of_not_dirty fun w hw => ?_
    rw [hrest.part_unlocked k] at hw
    cases hw
  have hlive : ∀ d row, (p.store.document.slot d).committed = some row → row.deletedAt = none →
      (start.document.slot d).committed = some row := by
    intro d row hrow hnone
    rcases (h.document d).committed with hsame | ⟨old, n, _, _, hslot⟩
    · rw [← hsame, hrow]
    · have hrows : old.marked purge n = row := by simpa [hslot] using hrow
      rw [← hrows] at hnone
      cases hnone
  have hchosen : ∀ d, d ∈ (p.store.blobIds a (asked a)).2.snapshots a ↔ d ∈ asked a ∧
      ∃ row, (p.store.document.slot d).committed = some row ∧ row.deletedAt = none := by
    intro d
    rw [Store.mem_snapshots_blobIds, hview]
  refine ⟨fun m hm => ?_, fun d hd hl hnone m hm => ?_⟩
  · obtain ⟨d, hd, hrefers⟩ := (Store.mem_blobIds m).mp hm
    obtain ⟨hasked, row, hrow, hdel⟩ := (hchosen d).mp hd
    have hstart := hlive d row hrow hdel
    refine ⟨d, hasked, ⟨row, hstart, hdel⟩, ?_⟩
    rcases hrefers with ⟨row', hrow', hm⟩ | ⟨locator, part, hp, hm⟩
    · rw [hview, hrow] at hrow'
      obtain rfl := Option.some.inj hrow'
      exact .inl ⟨row, hstart, hm⟩
    · rw [hpart] at hp
      exact .inr ⟨locator, part, hp, hm⟩
  · obtain ⟨row, hrow, hdel⟩ := hl
    have hsame := (h.kept d).mp hnone
    refine (Store.mem_blobIds m).mpr ⟨d, (hchosen d).mpr ⟨hd, row, hsame.trans hrow, hdel⟩, ?_⟩
    rcases hm with ⟨row', hrow', hm⟩ | ⟨locator, part, hp, hm⟩
    · exact .inl ⟨row', by rw [hview, hsame, hrow'], hm⟩
    · exact .inr ⟨locator, part, by rw [hpart, hp], hm⟩

theorem Deleting.blobs_done (h : Deleting purge start asked p) (hrest : DocumentsAtRest start)
    (hopen : Opening a p) (hgathered : Gathered start asked a blobs p)
    (hfree : p.store.waits (.markMedia a blobs now purge) = false) :
    BlobsDone purge start asked a now
      { p with store := p.store.markMedia a blobs now purge } := by
  refine ⟨⟨hopen.unsettled.deleted, hopen.unsettled.answered⟩, hopen.no_document,
    fun d hd hnone k howns => ?_⟩
  obtain ⟨hl, v, hv, hrefers⟩ := howns
  have hmem : v.id ∈ blobs := hgathered.all d hd hl hnone v.id hrefers
  have hcommitted := h.blob_kept ⟨hl, v, hv, hrefers⟩ hnone
  obtain ⟨v', hv', hlive, _⟩ := hrest.unmarked d k ⟨hl, v, hv, hrefers⟩
  obtain rfl := Option.some.inj (hv.symm.trans hv')
  rcases h.markMedia_cases hfree k with ⟨_, hpassed⟩ | ⟨u, _, hu, _, _, hnew⟩
  · have hview : (p.store.media.slot k).view (some a) = some v := by
      rw [Slot.view_of_not_dirty (hopen.no_media k), hcommitted, hv]
    have hsel := hpassed v hview
    simp [hmem, hlive] at hsel
  · obtain rfl := Option.some.inj (hv.symm.trans hu)
    exact ⟨v, hv, congrArg Slot.dirty hnew⟩

theorem Deleting.documents_done (h : Deleting purge start asked p)
    (hdone : BlobsDone purge start asked a now p)
    (hfree : p.store.waits (.markDocuments a (asked a) now purge) = false) :
    DocumentsDone start asked a (p.store.markDocuments a (asked a) now purge).1
      { p with store := (p.store.markDocuments a (asked a) now purge).2 } := by
  have hview : ∀ d, p.store.document.view (some a) d = (p.store.document.slot d).committed :=
    fun d => Slot.view_of_not_dirty (hdone.no_document d)
  have hcases := fun d => h.markDocuments_cases hfree d
  refine ⟨⟨hdone.unsettled.deleted, hdone.unsettled.answered⟩, fun d hd hl hnone => ?_, ?_⟩
  · obtain ⟨row, hrow, hlive⟩ := hl
    rcases hcases d with ⟨_, hpassed⟩ | ⟨old, _, _, _, _, hnew⟩
    · have hcommitted : (p.store.document.slot d).view (some a) = some row :=
        (hview d).trans (((h.kept d).mp hnone).trans hrow)
      have hsel := hpassed row hcommitted
      simp [hd, hlive] at hsel
    · exact ⟨_, congrArg Slot.dirty hnew⟩
  · refine (Table.counts_filter p.store.document (some a) fun k row =>
      (asked a).contains k && row.deletedAt.isNone).congr fun d => ?_
    constructor
    · rintro ⟨row, hrow, hsel⟩
      rcases hcases d with ⟨_, hpassed⟩ | ⟨old, _, _, _, _, hnew⟩
      · exact nomatch hsel.symm.trans (hpassed row hrow)
      · exact ⟨_, congrArg Slot.dirty hnew⟩
    · rintro ⟨w, hw⟩
      rcases hcases d with ⟨hsame, _⟩ | ⟨old, hslot, _, hmem, hlive, _⟩
      · exact absurd (hsame ▸ hw) (hdone.no_document d w)
      · refine ⟨old, ?_, by simp [hmem, hlive]⟩
        rw [hview, hslot]

theorem DocumentsDone.commit (hdone : DocumentsDone start asked a n p) :
    CountsItsOwn start asked a n
      { p with store := p.store.commit a, deletedBy := p.record (.commit a) } := by
  refine ⟨hdone.unsettled.answered, hdone.count.congr fun d => ⟨fun hdirty => ?_, fun hmine => ?_⟩, fun d hd hlive => ?_⟩
  · obtain ⟨w, hw⟩ := hdirty
    exact record_commit_of_dirty hw
  · rcases record_commit_cases (a := a) (p := p) d with ⟨hdirty, _⟩ | ⟨_, hsame⟩
    · exact hdirty
    · exact absurd (hsame.symm.trans hmine) (hdone.unsettled.deleted d)
  · show p.record (.commit a) d ≠ none
    rcases record_commit_cases (a := a) (p := p) d with ⟨_, hmine⟩ | ⟨hnot, hsame⟩
    · simp [hmine]
    · intro hnone
      obtain ⟨w, hw⟩ := hdone.taken d hd hlive (hsame.symm.trans hnone)
      exact hnot w hw

/-- A statement of the pool. -/
def stored (c : DocCmd) : Prog DeleteReply Exc (DocReply c) := perform (DeleteCmd.store c)

theorem keeps_stored {c : DocCmd} {A : DocReply c → DeletePool → Prop}
    (hdone : ∀ q, DeleteRely start a p q → Deleting purge start asked q →
      Store.admits c q.store .done = true →
      Deleting purge start asked
          { q with store := (Store.meaning c q.store).2, deletedBy := q.record c } ∧
        DeleteGuar start a q
          { q with store := (Store.meaning c q.store).2, deletedBy := q.record c } ∧
        ∀ r, DeleteRely start a
            { q with store := (Store.meaning c q.store).2, deletedBy := q.record c } r →
          ∀ reply, (Store.meaning c q.store).1 = .ok reply → A reply r) :
    Keeps (deleteContract purge start asked a) (Ends A fun _ => True) (stored c) p := by
  apply Keeps.perform
  intro q hrely hinv fate hadmits
  have hself : DeleteGuar start a q q := fun b _ => DeleteRely.refl b q
  have hadmits : Store.admits c q.store fate = true := hadmits
  rcases Store.admits_cases hadmits with ⟨e, rfl, _⟩ | hfree
  · exact ⟨hinv, hself, fun _ _ _ => trivial⟩
  · have hadmitted : Store.admits c q.store .done = true := by
      simp [Store.admits, Fate.raised, hfree]
    obtain ⟨hsound, hguar, hpost⟩ := hdone q hrely hinv hadmitted
    cases fate with
    | lost e => exact ⟨hinv, hself, fun _ _ _ => trivial⟩
    | late e => exact ⟨hsound, hguar, fun _ _ _ => trivial⟩
    | done => exact ⟨hsound, hguar, fun r hr _ => Ends.intro (hpost r hr) fun _ _ => trivial⟩

theorem waits_of_admits {c : DocCmd} {s : Store} (h : Store.admits c s .done = true) :
    s.waits c = false := by
  simpa [Store.admits, Fate.raised] using h

theorem keeps_opening (hopen : Opening a p) :
    Keeps (deleteContract purge start asked a) (Ends (fun _ q => Opening a q) fun _ => True)
      (stored (.begin a)) p := by
  apply keeps_stored
  intro q hrely hinv _
  obtain ⟨hsound, hguar⟩ := hinv.bystander (a := a) q.store.now q.store.snapshots
  exact ⟨hsound, hguar, fun r hr _ _ => (hopen.later hrely).later hr⟩

theorem keeps_gathering (hrest : DocumentsAtRest start) (hopen : Opening a p) :
    Keeps (deleteContract purge start asked a)
      (Ends (fun blobs q => Opening a q ∧ Gathered start asked a blobs q) fun _ => True)
      (stored (.blobIds a (asked a))) p := by
  apply keeps_stored
  intro q hrely hinv _
  have hopen := hopen.later hrely
  obtain ⟨hsound, hguar⟩ := hinv.bystander (a := a) q.store.now
    (q.store.blobIds a (asked a)).2.snapshots
  refine ⟨hsound, hguar, fun r hr blobs hblobs => ?_⟩
  obtain rfl : (q.store.blobIds a (asked a)).1 = blobs := Except.ok.inj hblobs
  have hgathered := hinv.gathered hrest hopen
  have hopen' : Opening a { q with store := (q.store.blobIds a (asked a)).2 } :=
    ⟨⟨hopen.unsettled.deleted, hopen.unsettled.answered⟩, hopen.no_media, hopen.no_document⟩
  have hgathered' : Gathered start asked a (q.store.blobIds a (asked a)).1
      { q with store := (q.store.blobIds a (asked a)).2 } := ⟨hgathered.owned, hgathered.all⟩
  exact ⟨hopen'.later hr, hgathered'.later hr⟩

theorem keeps_marking (hrest : DocumentsAtRest start) (hopen : Opening a p)
    (hgathered : Gathered start asked a blobs p) :
    Keeps (deleteContract purge start asked a)
      (Ends (fun _ q => BlobsDone purge start asked a now q) fun _ => True)
      (stored (.markMedia a blobs now purge)) p := by
  apply keeps_stored
  intro q hrely hinv hadmits
  have hfree := waits_of_admits hadmits
  have hgathered := hgathered.later hrely
  obtain ⟨hsound, hguar⟩ := hinv.markMedia hfree hgathered.owned
  exact ⟨hsound, hguar, fun r hr _ _ =>
    (hinv.blobs_done hrest (hopen.later hrely) hgathered hfree).later hr⟩

theorem keeps_taking (hdone : BlobsDone purge start asked a now p) :
    Keeps (deleteContract purge start asked a)
      (Ends (fun n q => DocumentsDone start asked a n q) fun _ => True)
      (stored (.markDocuments a (asked a) now purge)) p := by
  apply keeps_stored
  intro q hrely hinv hadmits
  have hfree := waits_of_admits hadmits
  have hdone := hdone.later hrely
  obtain ⟨hsound, hguar⟩ := hinv.markDocuments hfree hdone.marked
  refine ⟨hsound, hguar, fun r hr n hn => ?_⟩
  obtain rfl : (q.store.markDocuments a (asked a) now purge).1 = n := Except.ok.inj hn
  exact (hinv.documents_done hdone hfree).later hr

theorem keeps_deleting (hrest : DocumentsAtRest start) (hdone : DocumentsDone start asked a n p) :
    Keeps (deleteContract purge start asked a)
      (Ends (fun _ q => CountsItsOwn start asked a n q) fun _ => True) (stored (.commit a)) p := by
  apply keeps_stored
  intro q hrely hinv _
  have hdone := hdone.later hrely
  obtain ⟨hsound, hguar⟩ := hinv.commit hrest hdone.taken hdone.unsettled
  exact ⟨hsound, hguar, fun r hr _ _ => hdone.commit.later hr⟩

theorem keeps_undoing (hrest : DocumentsAtRest start) :
    Keeps (deleteContract purge start asked a) (fun _ _ => True) (stored (.rollback a)) p := by
  have h : Keeps (deleteContract purge start asked a)
      (Ends (fun _ _ => True) fun _ => True) (stored (.rollback a)) p := by
    apply keeps_stored
    intro q _ hinv _
    obtain ⟨hsound, hguar⟩ := hinv.rollback (a := a) hrest
    exact ⟨hsound, hguar, fun _ _ _ _ => trivial⟩
  exact h.weaken fun _ _ _ _ => trivial

theorem keeps_answering (h : CountsItsOwn start asked a n p) :
    Keeps (deleteContract purge start asked a) (fun _ _ => True)
      (perform (DeleteCmd.answer a n) : Prog DeleteReply Exc Unit) p := by
  apply Keeps.perform
  intro q hrely hinv fate hadmits
  obtain rfl : fate = .done := of_decide_eq_true hadmits
  have h := h.later hrely
  obtain ⟨hsound, hguar⟩ := hinv.answer h.count h.unanswered h.gone
  exact ⟨hsound, hguar, fun _ _ _ => trivial⟩

theorem expand_delete (cfg : MediaConfig) (ids : List DocumentId) :
    (delete cfg a ids).expand stored =
      if ids.isEmpty then .ret 0
      else (stored (.begin a)).bind fun now =>
        ((((stored (.blobIds a ids)).bind fun blobs =>
            (stored (.markMedia a blobs now cfg.purgeAfter)).bind fun _ =>
              stored (.markDocuments a ids now cfg.purgeAfter)).bind fun n =>
          (stored (.commit a)).bind fun _ => .ret n).tryCatch fun e =>
            (((stored (.rollback a)).tryCatch fun _ => .ret ()).bind fun _ => .throw e)) := by
  unfold delete
  split_ifs
  · rfl
  · show Prog.expand stored ((perform (DocCmd.begin a)).bind fun now =>
      Prog.tryCatch (((perform (DocCmd.blobIds a ids)).bind fun blobs =>
          (perform (DocCmd.markMedia a blobs now cfg.purgeAfter)).bind fun _ =>
            perform (DocCmd.markDocuments a ids now cfg.purgeAfter)).bind fun n =>
        (perform (DocCmd.commit a)).bind fun _ => .ret n) fun e =>
          (((perform (DocCmd.rollback a)).tryCatch fun _ => .ret ()).bind fun _ => .throw e)) = _
    simp only [Prog.expand_bind, Prog.expand_tryCatch, Prog.expand_perform, Prog.expand]
    rfl

/-- A call returns the number of the documents that it has deleted. -/
theorem keeps_deleteProg (cfg : MediaConfig) (hrest : DocumentsAtRest start)
    (hinv : Deleting cfg.purgeAfter start asked p) (hopen : Opening a p) :
    Keeps (deleteContract cfg.purgeAfter start asked a) (fun _ _ => True)
      (deleteProg cfg a (asked a)) p := by
  have hcall : Keeps (deleteContract cfg.purgeAfter start asked a)
      (Ends (fun n q => CountsItsOwn start asked a n q) fun _ => True)
      ((delete cfg a (asked a)).expand stored) p := by
    rw [expand_delete]
    apply Keeps.ite
    · intro hempty q hrely _
      have hnone : asked a = [] := List.isEmpty_iff.mp hempty
      have hunsettled := (hopen.later hrely).unsettled
      refine ⟨hunsettled.answered, Counts.zero hunsettled.deleted, fun d hd => ?_⟩
      rw [hnone] at hd
      exact nomatch hd
    · intro _
      apply (keeps_opening hopen).andThen hinv
      intro now q hinv hopen
      apply Keeps.orElse (E := fun _ => True) ?_ hinv
      · intro e r hinv _
        have hcaught : Keeps (deleteContract cfg.purgeAfter start asked a) (fun _ _ => True)
            ((stored (.rollback a)).tryCatch fun _ => .ret ()) r :=
          (keeps_undoing hrest).tryCatch hinv (fun _ _ _ _ => trivial) fun _ _ _ _ _ _ _ => trivial
        exact hcaught.bind hinv (fun _ _ _ _ _ _ _ => trivial) fun _ _ _ _ => trivial
      · have hbody : Keeps (deleteContract cfg.purgeAfter start asked a)
            (Ends (fun n q => DocumentsDone start asked a n q) fun _ => True)
            ((stored (.blobIds a (asked a))).bind fun blobs =>
              (stored (.markMedia a blobs now cfg.purgeAfter)).bind fun _ =>
                stored (.markDocuments a (asked a) now cfg.purgeAfter)) q := by
          apply (keeps_gathering hrest hopen).andThen hinv
          rintro blobs r hinv ⟨hopen, hgathered⟩
          apply (keeps_marking hrest hopen hgathered).andThen hinv
          exact fun _ _ _ hdone => keeps_taking hdone
        apply hbody.andThen hinv
        intro n r hinv hdone
        apply (keeps_deleting hrest hdone).andThen hinv
        exact fun _ t _ hcounts u hu _ => CountsItsOwn.later hcounts hu
  exact hcall.bind hinv (fun n q _ hcounts => keeps_answering hcounts) fun _ _ _ _ => trivial

end Stages

section Runs

variable {cfg : MediaConfig} {start : Store} {asked : Session → List DocumentId}

def deleteDiscipline (cfg : MediaConfig) (asked : Session → List DocumentId)
    (hrest : DocumentsAtRest start) : Discipline deleteCalls (fun _ _ => True) where
  inv := Deleting cfg.purgeAfter start asked
  contract := deleteContract cfg.purgeAfter start asked
  post := fun _ _ _ => True
  apart := fun a b => a ≠ b
  meaning_eq := fun _ => rfl
  inv_eq := fun _ => rfl
  apart_symm := Ne.symm
  others := fun hapart _ _ hguar => hguar _ hapart.symm
  fates := fun _ _ _ hadmits _ => hadmits
  exit_keeps := fun _ _ _ ht => nomatch ht
  exit_apart := fun _ ht => nomatch ht
  exit_pairwise := @no_threads_apart
  death_inv := fun _ _ hinv => (hinv.rollback hrest).1
  death_rely := fun _ _ hinv hapart => (hinv.rollback hrest).2 _ hapart.symm
  env_inv := by
    intro c duration s new _ henv hinv
    obtain ⟨rfl, _⟩ := Prod.mk.inj (Option.some.inj henv)
    exact (hinv.bystander (a := 0) _ c.shared.store.snapshots).1
  env_rely := by
    intro c duration s new _ henv hinv t _
    obtain ⟨rfl, _⟩ := Prod.mk.inj (Option.some.inj henv)
    exact (hinv.bystander (a := t.tag + 1) _ c.shared.store.snapshots).2 _ (Nat.succ_ne_self _).symm
  env_keeps := by
    intro c duration s new _ henv _ t ht
    obtain ⟨_, rfl⟩ := Prod.mk.inj (Option.some.inj henv)
    exact nomatch ht
  env_apart := by
    intro c duration s new _ henv _
    obtain ⟨_, rfl⟩ := Prod.mk.inj (Option.some.inj henv)
    exact ⟨List.Pairwise.nil, fun _ _ _ hu => nomatch hu⟩

theorem DocumentsAtRest.deleting (h : DocumentsAtRest start) (purge : Nat) :
    Deleting purge start asked { store := start } := by
  refine ⟨rfl, fun _ => rfl, fun k => Marking.of_unlocked rfl (h.media_unlocked k),
    fun d => Marking.of_unlocked rfl (h.document_unlocked d), fun k t w hw => ?_,
    fun d t w hw => ?_, fun _ _ _ => .inl ⟨rfl, rfl⟩, fun d k t row _ hrow => ?_,
    fun _ hk => absurd rfl hk, fun _ => ⟨fun _ => rfl, fun _ => rfl⟩, fun _ _ => nofun,
    fun _ _ => nofun, List.nodup_nil⟩
  · exact nomatch (h.media_unlocked k).symm.trans hw
  · exact nomatch (h.document_unlocked d).symm.trans hw
  · exact nomatch (h.document_unlocked d).symm.trans hrow

theorem DocumentsAtRest.opening (h : DocumentsAtRest start) (a : Session) :
    Opening a { store := start } := by
  refine ⟨⟨fun _ => nofun, fun _ => nofun⟩, fun k w hw => ?_, fun d w hw => ?_⟩
  · exact nomatch (h.media_unlocked k).symm.trans hw
  · exact nomatch (h.document_unlocked d).symm.trans hw

/-- The list of session `t`. -/
def askedIn (calls : List (List DocumentId)) (t : Session) : List DocumentId := calls.getD t []

theorem startDeletes_safe (cfg : MediaConfig) (hrest : DocumentsAtRest start)
    (calls : List (List DocumentId)) :
    (deleteDiscipline cfg (askedIn calls) hrest).Safe (startDeletes cfg start calls) := by
  refine ⟨hrest.deleting cfg.purgeAfter, fun t ht => ?_, ?_⟩
  · obtain ⟨i, hi, rfl⟩ := List.mem_mapIdx.mp ht
    have hasked : calls[i] = askedIn calls i := by
      simp [askedIn, hi]
    show Keeps (deleteContract cfg.purgeAfter start (askedIn calls) i) (fun _ _ => True)
      (deleteProg cfg i calls[i]) { store := start }
    rw [hasked]
    exact keeps_deleteProg cfg hrest (hrest.deleting cfg.purgeAfter) (hrest.opening i)
  · show ((calls.mapIdx _).map Thread.tag).Pairwise (· ≠ ·)
    rw [List.pairwise_map, List.pairwise_iff_getElem]
    intro i j hi hj hlt
    simp only [List.getElem_mapIdx]
    exact hlt.ne

/-- What is deleted stays as it is. -/
structure DeletedStays (start : Store) (p q : DeletePool) : Prop where
  deletedBy : ∀ d t, p.deletedBy d = some t → q.deletedBy d = some t
  document : ∀ d, p.deletedBy d ≠ none →
    (q.store.document.slot d).committed = (p.store.document.slot d).committed
  media : ∀ d k, p.deletedBy d ≠ none → start.Owns d k →
    (q.store.media.slot k).committed = (p.store.media.slot k).committed

theorem DeletedStays.trans {p q r : DeletePool} (h : DeletedStays start p q)
    (h' : DeletedStays start q r) : DeletedStays start p r := by
  have hstill : ∀ d, p.deletedBy d ≠ none → q.deletedBy d ≠ none := by
    intro d hd
    obtain ⟨t, ht⟩ := Option.ne_none_iff_exists'.mp hd
    exact Option.ne_none_iff_exists'.mpr ⟨t, h.deletedBy d t ht⟩
  exact ⟨fun d t hd => h'.deletedBy d t (h.deletedBy d t hd),
    fun d hd => (h'.document d (hstill d hd)).trans (h.document d hd),
    fun d k hd howns => (h'.media d k (hstill d hd) howns).trans (h.media d k hd howns)⟩

variable {calls : List (List DocumentId)} {c c' : Config DeleteReply Exc DeletePool Session}

theorem deleted_stays (hrest : DocumentsAtRest start)
    (hsafe : (deleteDiscipline cfg asked hrest).Safe c)
    (reach : Reach deleteCalls (fun _ _ => True) c c') :
    DeletedStays start c.shared c'.shared := by
  induction reach with
  | start => exact ⟨fun _ _ h => h, fun _ _ => rfl, fun _ _ _ _ => rfl⟩
  | @step b e move hreach hok hstep ih =>
    have hb := hreach.safe _ hsafe
    refine ih.trans (hb.step_rel (G := DeletedStays start) hok hstep
      (fun _ => ⟨fun _ _ h => h, fun _ _ => rfl, fun _ _ _ _ => rfl⟩) (fun {a s t} _ _ hguar => ?_)
      (fun a s => ?_) fun {duration s new} _ henv => ?_)
    · have hrely := hguar (a + 1) (Nat.succ_ne_self a)
      exact ⟨hrely.deletedBy, hrely.document, hrely.media⟩
    · refine ⟨fun _ _ h => h, fun d _ => ?_, fun d k _ _ => ?_⟩
      · show ((s.store.document.rollback a).slot d).committed = _
        rw [Table.slot_rollback, Slot.committed_rollback]
      · show ((s.store.media.rollback a).slot k).committed = _
        rw [Table.slot_rollback, Slot.committed_rollback]
    · obtain ⟨rfl, _⟩ := Prod.mk.inj (Option.some.inj henv)
      exact ⟨fun _ _ h => h, fun _ _ => rfl, fun _ _ _ _ => rfl⟩

/-- What the calls have done to the documents and blobs of the store `start`. -/
structure DeletedExactly (purge : Nat) (start : Store) (calls : List (List DocumentId))
    (c : Config DeleteReply Exc DeletePool Session) : Prop where
  others : ∀ d, (∀ ids ∈ calls, d ∉ ids) ∨ ¬ Live start d →
    (c.shared.store.document.slot d).committed = (start.document.slot d).committed
  other_blobs : ∀ k, (∀ ids ∈ calls, ∀ d ∈ ids, ¬ start.Owns d k) →
    (c.shared.store.media.slot k).committed = (start.media.slot k).committed
  /-- A document is as it was, with all its blobs, or they are marked with one instant. -/
  together : ∀ d row, (start.document.slot d).committed = some row → row.deletedAt = none →
    (c.shared.store.document.slot d).committed = some row ∧
        (∀ k, start.Owns d k →
          (c.shared.store.media.slot k).committed = (start.media.slot k).committed) ∨
      ∃ n, (c.shared.store.document.slot d).committed = some (row.marked purge n) ∧
        ∀ k v, start.Owns d k → (start.media.slot k).committed = some v →
          (c.shared.store.media.slot k).committed = some (v.marked purge n)
  once : ∀ c' d, Reach deleteCalls (fun _ _ => True) c c' →
    (c.shared.store.document.slot d).committed ≠ (start.document.slot d).committed →
    (c'.shared.store.document.slot d).committed = (c.shared.store.document.slot d).committed ∧
      ∀ k, start.Owns d k →
        (c'.shared.store.media.slot k).committed = (c.shared.store.media.slot k).committed
  counted : ∀ i n, (i, n) ∈ c.shared.answers →
    Counts n fun d => c.shared.deletedBy d = some i
  named : ∀ d i, c.shared.deletedBy d = some i → Live start d ∧ ∃ ids, calls[i]? = some ids ∧ d ∈ ids
  /-- When every call has returned, each live document named has been counted, by one call. -/
  total : (∀ i < calls.length, ∃ n, (i, n) ∈ c.shared.answers) →
    (∀ d, Live start d → (∃ ids ∈ calls, d ∈ ids) → ∃ i, c.shared.deletedBy d = some i) ∧
      Counts (c.shared.answers.map Prod.snd).sum
        fun d => Live start d ∧ ∃ ids ∈ calls, d ∈ ids

theorem mem_askedIn {d : DocumentId} {i : Nat} :
    d ∈ askedIn calls i ↔ ∃ ids, calls[i]? = some ids ∧ d ∈ ids := by
  unfold askedIn
  rw [List.getD_eq_getElem?_getD]
  cases hids : calls[i]? with
  | none => simp
  | some ids => simp

theorem Deleting.live {purge : Nat} {p : DeletePool} (h : Deleting purge start asked p)
    {d : DocumentId} (hd : p.deletedBy d ≠ none) : ∃ row n, (start.document.slot d).committed =
      some row ∧ row.deletedAt = none ∧
        (p.store.document.slot d).committed = some (row.marked purge n) := by
  rcases (h.document d).committed with hsame | ⟨row, n, hrow, hlive, hslot⟩
  · exact absurd ((h.kept d).mpr hsame) hd
  · exact ⟨row, n, hrow, hlive, congrArg Slot.committed hslot⟩

/-- Whatever calls of `delete` run side by side. -/
theorem soft_delete_exact (hrest : DocumentsAtRest start)
    (reach : Reach deleteCalls (fun _ _ => True) (startDeletes cfg start calls) c) :
    DeletedExactly cfg.purgeAfter start calls c := by
  have hsafe := reach.safe _ (startDeletes_safe cfg hrest calls)
  have hinv : Deleting cfg.purgeAfter start (askedIn calls) c.shared := hsafe.inv
  have hnamed : ∀ d i, d ∈ askedIn calls i → ∃ ids ∈ calls, d ∈ ids := by
    intro d i hd
    obtain ⟨ids, hids, hmem⟩ := mem_askedIn.mp hd
    exact ⟨ids, List.mem_of_getElem? hids, hmem⟩
  have hlive : ∀ d i, c.shared.deletedBy d = some i → Live start d := by
    intro d i hd
    obtain ⟨row, _, hrow, hdel, _⟩ := hinv.live (Option.ne_none_iff_exists'.mpr ⟨i, hd⟩)
    exact ⟨row, hrow, hdel⟩
  have hmine : ∀ d i, c.shared.deletedBy d = some i → ∃ ids, calls[i]? = some ids ∧ d ∈ ids :=
    fun d i hd => mem_askedIn.mp (hinv.deleted d i hd)
  refine ⟨fun d hd => (hinv.kept d).mp ?_, fun k hk => ?_, fun d row hrow hdel => ?_,
    fun c' d hreach hd => ?_, fun i n hn => (hinv.answered i n hn).1,
    fun d i hd => ⟨hlive d i hd, hmine d i hd⟩, fun hall => ⟨fun d hl hd => ?_, ?_⟩⟩
  · by_contra hne
    obtain ⟨i, hi⟩ := Option.ne_none_iff_exists'.mp hne
    rcases hd with hunnamed | hgone
    · obtain ⟨ids, hids, hmem⟩ := hnamed d i (hinv.deleted d i hi)
      exact hunnamed ids hids hmem
    · exact hgone (hlive d i hi)
  · by_contra hne
    obtain ⟨d, t, hd, howns⟩ := hinv.changed k hne
    obtain ⟨ids, hids, hmem⟩ := hnamed d t hd
    exact hk ids hids d hmem howns
  · by_cases hnone : c.shared.deletedBy d = none
    · exact .inl ⟨((hinv.kept d).mp hnone).trans hrow, fun k howns => hinv.blob_kept howns hnone⟩
    · obtain ⟨row', n, hrow', _, hmarked⟩ := hinv.live hnone
      obtain rfl := Option.some.inj (hrow.symm.trans hrow')
      refine .inr ⟨n, hmarked, fun k v howns hv => ?_⟩
      rcases hinv.whole d k howns with ⟨hsame, _⟩ | ⟨m, old, u, hold, hm, hu, hblob⟩
      · exact absurd ((hinv.kept d).mpr hsame) hnone
      · obtain rfl := Option.some.inj (hrow.symm.trans hold)
        obtain rfl := Option.some.inj (hv.symm.trans hu)
        have hinstant : n = m := by
          have hrows : row.marked cfg.purgeAfter n = row.marked cfg.purgeAfter m :=
            Option.some.inj (hmarked.symm.trans hm)
          exact Option.some.inj (congrArg DocumentRow.deletedAt hrows)
        rw [hinstant, hblob]
  · have hne : c.shared.deletedBy d ≠ none := fun hnone => hd ((hinv.kept d).mp hnone)
    have hstays := deleted_stays hrest hsafe hreach
    exact ⟨hstays.document d hne, fun k howns => hstays.media d k hne howns⟩
  · obtain ⟨ids, hids, hmem⟩ := hd
    obtain ⟨i, hi, rfl⟩ := List.getElem_of_mem hids
    obtain ⟨n, hn⟩ := hall i hi
    have hasked : d ∈ askedIn calls i := mem_askedIn.mpr ⟨_, List.getElem?_eq_getElem hi, hmem⟩
    exact Option.ne_none_iff_exists'.mp ((hinv.answered i n hn).2 d hasked hl)
  · refine (Counts.sum hinv.once fun i n hn => (hinv.answered i n hn).1).congr fun d => ?_
    constructor
    · rintro ⟨i, n, hn, hd⟩
      exact ⟨hlive d i hd, hnamed d i (hinv.deleted d i hd)⟩
    · rintro ⟨hl, ids, hids, hmem⟩
      obtain ⟨i, hi, rfl⟩ := List.getElem_of_mem hids
      obtain ⟨n, hn⟩ := hall i hi
      have hasked : d ∈ askedIn calls i := mem_askedIn.mpr ⟨_, List.getElem?_eq_getElem hi, hmem⟩
      obtain ⟨j, hj⟩ := Option.ne_none_iff_exists'.mp ((hinv.answered i n hn).2 d hasked hl)
      obtain ⟨ids', hids', _⟩ := hmine d j hj
      obtain ⟨hlt, _⟩ := List.getElem?_eq_some_iff.mp hids'
      obtain ⟨m, hm⟩ := hall j hlt
      exact ⟨j, m, hm, hj⟩

end Runs

theorem filedStore_documents : DocumentsAtRest filedStore := by
  have hrest := filedStore_atRest
  refine ⟨hrest.media_unlocked, hrest.document_unlocked, hrest.part_unlocked, hrest.keyed,
    fun d m hm => ?_, fun d k howns => ?_⟩
  · rcases hm with ⟨row, hrow, rfl⟩ | ⟨locator, row, hrow, hm⟩
    · exact hrest.document_ref d row hrow
    · exact hrest.part_ref d locator row m hrow hm
  · obtain ⟨_, v, hv, _⟩ := howns
    rw [filedStore_media] at hv ⊢
    split_ifs at hv ⊢
    cases hv
    exact ⟨_, rfl, rfl, rfl⟩

/-- Both calls see the document; the second comes to the blobs when the first is done. -/
def overlappingDeletes : List (Move Exc Time) :=
  [.run 0 .done, .run 1 .done, .env 5, .run 0 .done, .run 1 .done] ++
    List.replicate 4 (.run 0 .done) ++ List.replicate 4 (.run 1 .done)

theorem overlapping_deletes : ∃ c,
    deleteCalls.exec overlappingDeletes (startDeletes plainConfig filedStore [[1, 1], [1]]) = some c ∧
      c.shared.answers = [(1, 0), (0, 1)] ∧
      DeletedExactly plainConfig.purgeAfter filedStore [[1, 1], [1]] c := by
  have hrun : (deleteCalls.exec overlappingDeletes
      (startDeletes plainConfig filedStore [[1, 1], [1]])).any
        (fun c => c.shared.answers = [(1, 0), (0, 1)]) = true := by
    decide +kernel
  obtain ⟨c, hc, hanswers⟩ := (Option.any_eq_true _ _).mp hrun
  exact ⟨c, hc, of_decide_eq_true hanswers,
    soft_delete_exact filedStore_documents (Reach.start.exec (fun _ _ => trivial) hc)⟩

end Doci
