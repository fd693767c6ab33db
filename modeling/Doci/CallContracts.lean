import Doci.Closing

/-! The contract under which any calls run beside the deletion of one document, and the
calls that keep it without collecting or purging blobs. -/

namespace Doci

open Coroutine ReadCommitted

/-- The document or one of its parts, as the session sees them, points at the blob. -/
def Referenced (s : Store) (session : Session) (d : DocumentId) (m : MediaId) : Prop :=
  (∃ row, s.document.view (some session) d = some row ∧ row.mediaId = m) ∨
    ∃ locator row, s.part.view (some session) (d, locator) = some row ∧
      (row.mediaId = some m ∨ row.thumbMediaId = some m)

/-- No blob of the document is on its way: each of its media rows is referenced, and where
it has none, none is being inserted and no object is stored. -/
structure Settled (d : DocumentId) (session : Session) (s : Store) : Prop where
  referenced : ∀ k v, k.document = d → (s.media.slot k).committed = some v →
    Referenced s session d v.id
  stored : ∀ k, k.document = d → (s.media.slot k).committed = none →
    (s.media.slot k).dirty = none ∧ s.objects k = none

/-- A delete that finds the document live finds its blobs settled; from then on no new blob
of the document is stored; a thumbnail is recorded on a part of its own document. -/
def Orderly (d : DocumentId) (s : Store) : DocCmd → Prop
  | .blobIds session ids => d ∈ ids →
    (∃ row, s.document.view (some session) d = some row ∧ row.deletedAt = none) →
    Settled d session s
  | .uploadObject key _ => key.document = d → s.objects key = none → ¬ Closing s d
  | .insertBlob session key _ _ => key.document = d → s.media.view session key = none →
    ¬ Closing s d
  | .setPartThumb part thumb => ∀ key, s.partKey part = some key → BlobOf s key.1 thumb
  | _ => True

section Plain

variable {d : DocumentId} {a : Session} {s : Store} {B : DocumentId → MediaId → Prop}

/-- The statements of session `a` that neither collect, mark nor purge blobs. The rows it
inserts refer to blobs that `B` gives to their document. -/
def Plain (d : DocumentId) (a : Session) (B : DocumentId → MediaId → Prop) : DocCmd → Prop
  | .commit t => t = a
  | .rollback t => t = a
  | .setStatus session _ _ => RunsIn a session
  | .setContent session _ _ _ => RunsIn a session
  | .insertBlob session _ _ _ => RunsIn a session
  | .insertDocument session e m _ => RunsIn a session ∧ e ≠ d ∧ B e m
  | .insertPart session e _ _ _ m => RunsIn a session ∧ B e m
  | .blobIds _ _ => False
  | .markMedia _ _ _ _ => False
  | .markDocuments _ _ _ _ => False
  | .deleteMedia _ => False
  | _ => True

theorem Custody.plain (h : Custody d s) {c : DocCmd} (hplain : Plain d a B c)
    (hknown : ∀ e m, B e m → BlobOf s e m) (horderly : Orderly d s c)
    (hfree : s.waits c = false) (hnot : d ∉ s.snapshots a) :
    Kept d a s (Store.meaning c s).2 ∧ d ∉ (Store.meaning c s).2.snapshots a := by
  cases c with
  | begin _ | fetchDocument _ _ | partByLocator _ _ | mediaById _ | mediaByKey _
  | invalidDocuments | expired | presignPut _ | render _ _ => exact ⟨Kept.refl h, hnot⟩
  | commit t =>
    obtain rfl : t = a := hplain
    exact ⟨h.commit fun hd => absurd hd hnot, by simp [Store.meaning, Store.commit]⟩
  | rollback t =>
    obtain rfl : t = a := hplain
    exact ⟨h.rollback, by simp [Store.meaning, Store.rollback]⟩
  | setStatus session e status =>
    simp only [Store.waits, Bool.not_eq_false'] at hfree
    refine ⟨h.document_updated fun k => Table.rewrite_updated hplain (fun k v w hw => ?_) hfree
      (fun k v hv => ?_) k, hnot⟩
    · simp only [Option.ite_none_right_eq_some, Option.some.injEq] at hw
      exact ⟨_, hw.2.symm, rfl, rfl⟩
    · simpa [Option.isSome_ite] using hv
  | setPageCount e count =>
    simp only [Store.waits, Bool.not_eq_false'] at hfree
    refine ⟨h.document_updated fun k => Table.rewrite_updated (.inl rfl) (fun k v w hw => ?_) hfree
      (fun k v hv => ?_) k, hnot⟩
    · simp only [Option.ite_none_right_eq_some, Option.some.injEq] at hw
      exact ⟨_, hw.2.symm, rfl, rfl⟩
    · simpa [Option.isSome_ite] using hv
  | setContent session m mime size =>
    simp only [Store.waits, Bool.not_eq_false'] at hfree
    refine ⟨h.media_updated fun k => Table.rewrite_updated hplain (fun k v w hw => ?_) hfree
      (fun k v hv => ?_) k, hnot⟩
    · simp only [Option.ite_none_right_eq_some, Option.some.injEq] at hw
      exact ⟨_, hw.2.symm, rfl, rfl, rfl⟩
    · simpa [Option.isSome_ite] using hv
  | setPartThumb part thumb =>
    simp only [Store.meaning, Store.setPartThumb]
    split
    · exact ⟨Kept.refl h, hnot⟩
    · next key row hfound =>
      split_ifs
      · exact ⟨Kept.refl h, hnot⟩
      · refine ⟨h.part_changed le_rfl fun e locator r m hr hm => ?_, hnot⟩
        rcases Table.has_rewrite hr with hr | ⟨v, hv, hw⟩
        · exact h.part_ref e locator r m hr hm
        · simp only [Option.ite_none_right_eq_some, Option.some.injEq] at hw
          obtain ⟨rfl, rfl⟩ := hw
          rcases hm with hm | hm
          · exact h.part_ref e locator v m (Slot.has_of_view hv) (.inl hm)
          · obtain rfl := Option.some.inj hm
            have hpart := (Option.filter_eq_some_iff.mp hfound).1
            obtain ⟨key, hkey, hrow⟩ := Option.bind_eq_some_iff.mp hpart
            obtain ⟨_, _, heq⟩ := Option.map_eq_some_iff.mp hrow
            obtain ⟨rfl, _⟩ := Prod.mk.inj heq
            exact horderly _ hkey
  | insertBlob session key mime size =>
    simp only [Store.waits, Bool.not_eq_false'] at hfree
    simp only [Store.meaning, Store.insertBlob]
    split
    · next row hview =>
      refine ⟨h.media_updated fun k => ?_, hnot⟩
      rw [Table.slot_rewrite]
      by_cases hk : k = key
      · subst hk
        have hview : (s.media.slot k).view session = some row := hview
        simp only [hview, Option.bind_some, if_true]
        exact Slot.Updated.write hplain hview hfree ⟨rfl, rfl, rfl⟩
      · have hnone : (((s.media.slot k).view session).bind fun row =>
            if k = key then some (some { row with mimeType := mime, sizeBytes := size })
            else none) = none := by
          simp [hk]
        rw [hnone]
        exact Slot.Updated.refl _ _ _
    · next hview =>
      exact ⟨h.insert_media hplain rfl rfl rfl hview hfree fun hk => horderly hk hview, hnot⟩
  | insertDocument session e m name =>
    obtain ⟨_, hne, hm⟩ := hplain
    simp only [Store.meaning, Store.insertDocument]
    split_ifs
    · exact ⟨Kept.refl h, hnot⟩
    · exact ⟨h.insert_document hne (hknown e m hm), hnot⟩
  | insertPart session e locator kind page m =>
    obtain ⟨_, hm⟩ := hplain
    simp only [Store.meaning, Store.insertPart]
    split_ifs
    · exact ⟨Kept.refl h, hnot⟩
    · exact ⟨Kept.refl h, hnot⟩
    · refine ⟨h.part_changed (Nat.le_succ _) fun e' l r m' hr hm' => ?_, hnot⟩
      rcases Table.has_insert hr with hr | ⟨heq, rfl⟩
      · exact h.part_ref e' l r m' hr hm'
      · obtain ⟨rfl, rfl⟩ := Prod.mk.inj heq
        rcases hm' with hm' | hm'
        · exact Option.some.inj hm' ▸ hknown e' m hm
        · simp at hm'
  | blobIds _ _ | markMedia _ _ _ _ | markDocuments _ _ _ _ | deleteMedia _ => exact hplain.elim
  | streamObject key =>
    simp only [Store.meaning]
    split <;> exact ⟨Kept.refl h, hnot⟩
  | uploadObject key data =>
    refine ⟨h.objects_changed fun k hk ho => ?_, hnot⟩
    by_cases hkey : k = key
    · exact .inr (horderly (hkey ▸ hk) (hkey ▸ ho))
    · exact .inl (by simp [hkey, ho])
  | deleteObject key =>
    refine ⟨h.objects_changed fun k hk ho => .inl ?_, hnot⟩
    by_cases hkey : k = key <;> simp [hkey, ho]

end Plain

theorem Store.admits_cases {c : DocCmd} {s : Store} {fate : Fate Exc}
    (h : Store.admits c s fate = true) :
    (∃ e, fate = .lost e ∧ ∀ session, c ≠ .rollback session) ∨ s.waits c = false := by
  simp only [admits, Bool.and_eq_true] at h
  cases fate with
  | done => exact .inr (by simpa using h.2)
  | late e => exact .inr (by simpa using h.2)
  | lost e =>
    refine .inl ⟨e, rfl, ?_⟩
    rintro session rfl
    simp at h

/-- The document is deleted and the deadlines of its blobs have passed. -/
def Overdue (d : DocumentId) (s : Store) : Prop :=
  ¬ Live s d ∧ ∀ k v t, k.document = d → (s.media.slot k).committed = some v →
    v.purgeAfter = some t → t ≤ s.now

/-- An await of a sweep that succeeds: it completes, and the sweep reads its rows when the
document's are overdue. -/
def Successful (d : DocumentId) (s : Store) (c : DocCmd) (fate : Fate Exc) : Prop :=
  fate = .done ∧ (c = .expired → Overdue d s)

/-- The contract of a connection; every await of `sweeper` is successful. -/
def deletionContract (d : DocumentId) (sweeper : Option Session) (a : Session) :
    Contract DocReply Exc Store where
  meaning := Store.meaning
  inv := Custody d
  rely := Undisturbed d a
  guar := fun s s' => ∀ t, t ≠ a → Undisturbed d t s s'
  fate := fun c s fate => Store.admits c s fate = true ∧ Orderly d s c ∧ a < s.fresh ∧
    (sweeper = some a → Successful d s c fate)
  rely_refl := Undisturbed.refl d a
  rely_trans := Undisturbed.trans

section Calls

variable {d : DocumentId} {sweeper : Option Session} {a : Session} {s : Store}
  {B : DocumentId → MediaId → Prop} {α β : Type}

theorem Kept.keys {s' : Store} (h : Kept d a s s') (m : MediaId) (k : ObjectKey)
    (hm : s.mediaKey m = some k) : s'.mediaKey m = some k :=
  (h.others (a + 1) (Nat.succ_ne_self a)).keys m k hm

/-- The program keeps its contract and leaves no collected documents behind. -/
def Idles (d : DocumentId) (sweeper : Option Session) (a : Session) (p : DocProg α) (s : Store) :
    Prop :=
  Keeps (deletionContract d sweeper a) (fun _ t => d ∉ t.snapshots a) p s

theorem keeps_plain {p : DocProg α} (huses : p.Uses (Plain d a B))
    (hknown : ∀ e m, B e m → BlobOf s e m) (hnot : d ∉ s.snapshots a) :
    Idles d sweeper a p s := by
  have hkeeps := Keeps.of_uses (K := deletionContract d sweeper a) (s := s) huses
    (A := fun t => d ∉ t.snapshots a ∧ ∀ e m, B e m → BlobOf t e m)
    (fun s t hA hrely _ => ⟨by rw [hrely.snapshots]; exact hA.1,
      fun e m hm => (hA.2 e m hm).mono hrely.keys⟩)
    (fun c t fate hplain hinv hA hfate => ?_) ⟨hnot, hknown⟩
  · exact hkeeps.weaken fun _ _ _ hA => hA.1
  · obtain ⟨hadmits, horderly, _⟩ := hfate
    have hstay : Custody d t ∧ (∀ u, u ≠ a → Undisturbed d u t t) ∧
        d ∉ t.snapshots a ∧ ∀ e m, B e m → BlobOf t e m :=
      ⟨hinv, fun u _ => Undisturbed.refl d u t, hA.1, hA.2⟩
    rcases Store.admits_cases hadmits with ⟨e, rfl, _⟩ | hfree
    · exact hstay
    · obtain ⟨hkept, hnot⟩ := Custody.plain hinv hplain hA.2 horderly hfree hA.1
      rcases outcome_snd Store.meaning c t fate with hsnd | hsnd
      · rw [show (deletionContract d sweeper a).meaning = Store.meaning from rfl, hsnd]
        exact ⟨hkept.custody, hkept.others, hnot, fun e m hm => (hA.2 e m hm).mono hkept.keys⟩
      · rw [show (deletionContract d sweeper a).meaning = Store.meaning from rfl, hsnd]
        exact hstay

theorem idles_plain {p : DocProg α} (huses : p.Uses (Plain d a fun _ _ => False))
    (hnot : d ∉ s.snapshots a) : Idles d sweeper a p s :=
  keeps_plain huses (fun _ _ hm => hm.elim) hnot

theorem uses_finalize (cfg : MediaConfig) (id : DocumentId) :
    (finalize cfg a id).Uses (Plain d a B) := by
  apply (uses_fetch trivial).bind
  intro doc
  split_ifs
  · trivial
  · apply Prog.Uses.bind
    · apply Prog.Uses.tryCatch
      · apply (uses_statement trivial).bind
        intro data
        split <;> trivial
      · intro e
        split
        · exact (uses_statement (.inl rfl)).bind fun _ => trivial
        · exact (uses_statement (.inl rfl)).bind fun _ => trivial
        · trivial
    · rintro ⟨mime, size⟩
      apply Prog.Uses.bind
      · apply uses_transaction (P := Plain d a B) trivial rfl rfl
        intro _
        exact (uses_statement (.inr rfl)).bind fun _ => uses_statement (.inr rfl)
      · intro _
        exact uses_fetch trivial

theorem uses_ensureThumb (source : MediaId) (data : Bytes) (mime : Option Mime) :
    (ensureThumb source data mime).Uses (Plain d a B) := by
  apply Prog.Uses.bind
  · apply (uses_statement trivial).bind
    intro found
    cases found <;> trivial
  · intro src
    apply (uses_statement trivial).bind
    intro existing
    cases existing with
    | some record => trivial
    | none =>
      apply (uses_statement trivial).bind
      rintro ⟨data, mime⟩
      apply (uses_statement trivial).bind
      intro _
      exact uses_statement (.inl rfl)

theorem Idles.bind {p : DocProg α} {next : α → DocProg β} (h : Idles d sweeper a p s)
    (hinv : Custody d s)
    (hnext : ∀ value t, Custody d t → d ∉ t.snapshots a → Idles d sweeper a (next value) t) :
    Idles d sweeper a (p.bind next) s :=
  Keeps.bind h hinv hnext fun _ _ _ hnot => hnot

theorem idles_statement {c : DocCmd} (hplain : Plain d a (fun _ _ => False) c)
    (hnot : d ∉ s.snapshots a) : Idles d sweeper a (statement c) s :=
  idles_plain (uses_statement hplain) hnot

theorem Custody.blobOf_insertBlob (h : Custody d s) (session : Option Session) (key : ObjectKey)
    (mime : Option Mime) (size : Option Nat) :
    BlobOf (s.insertBlob session key mime size).2 key.document
      (s.insertBlob session key mime size).1.row.id := by
  unfold Store.insertBlob
  split
  · next row hview => exact ⟨key, h.keyed key row (Slot.has_of_view hview), rfl⟩
  · exact ⟨key, if_pos rfl, rfl⟩

theorem keeps_insertBlob {key : ObjectKey} {mime : Option Mime} {size : Option Nat}
    (hnot : d ∉ s.snapshots a) :
    Keeps (deletionContract d sweeper a)
      (fun r t => d ∉ t.snapshots a ∧
        ∀ media : MediaRecord, r = .ok media → BlobOf t key.document media.row.id)
      (statement (.insertBlob (some a) key mime size)) s := by
  apply Keeps.perform
  rintro t hrely hinv fate ⟨hadmits, horderly, _⟩
  have hnot' : d ∉ t.snapshots a := by rwa [hrely.snapshots]
  rcases Store.admits_cases hadmits with ⟨e, rfl, _⟩ | hfree
  · refine ⟨hinv, fun u _ => Undisturbed.refl d u t, fun u hu _ => ⟨?_, fun media hr => by cases hr⟩⟩
    rwa [hu.snapshots]
  · obtain ⟨hkept, hnot''⟩ := Custody.plain (c := .insertBlob (some a) key mime size) (a := a)
      (B := fun _ _ => False) hinv (.inr rfl) (fun _ _ hm => hm.elim) horderly hfree hnot'
    have hblob := Custody.blobOf_insertBlob hinv (some a) key mime size
    cases fate with
    | lost e =>
      refine ⟨hinv, fun u _ => Undisturbed.refl d u t, fun u hu _ => ⟨?_, fun _ hr => by cases hr⟩⟩
      rwa [hu.snapshots]
    | late e =>
      refine ⟨hkept.custody, hkept.others, fun u hu _ => ⟨?_, fun _ hr => by cases hr⟩⟩
      rw [hu.snapshots]
      exact hnot''
    | done =>
      refine ⟨hkept.custody, hkept.others, fun u hu _ => ⟨?_, fun media hr => ?_⟩⟩
      · rw [hu.snapshots]
        exact hnot''
      · obtain rfl : (t.insertBlob (some a) key mime size).1 = media := Except.ok.inj hr
        exact hblob.mono hu.keys

theorem idles_transaction {body : Time → DocProg α}
    (hbody : ∀ now t, Custody d t → d ∉ t.snapshots a → Idles d sweeper a (body now) t)
    (hinv : Custody d s) (hnot : d ∉ s.snapshots a) : Idles d sweeper a (transaction a body) s := by
  have hbegin : Idles d sweeper a (statement (.begin a)) s := idles_statement trivial hnot
  apply hbegin.bind hinv
  intro now t hinv hnot
  apply Keeps.tryCatch (Q := fun _ t => d ∉ t.snapshots a) ?_ hinv (fun _ _ _ hnot => hnot)
  · intro e u hinv hnot
    apply Idles.bind ?_ hinv
    · intro _ v _ hnot
      exact idles_plain trivial hnot
    · exact Keeps.tryCatch (idles_statement rfl hnot) hinv (fun _ _ _ hnot => hnot)
        fun _ v _ hnot => idles_plain trivial hnot
  · apply (hbody now t hinv hnot).bind hinv
    intro value u hinv hnot
    have hcommit : Idles d sweeper a (statement (.commit a)) u := idles_statement rfl hnot
    apply hcommit.bind hinv
    intro _ v _ hnot
    exact idles_plain trivial hnot

theorem idles_storeBlob {key : ObjectKey} {mime : Option Mime} {size : Option Nat}
    {next : MediaRecord → DocProg α}
    (hnext : ∀ media, (next media).Uses
      (Plain d a fun e m => e = key.document ∧ m = media.row.id))
    (hinv : Custody d s) (hnot : d ∉ s.snapshots a) :
    Idles d sweeper a (transaction a fun _ => do
      let media ← statement (.insertBlob (some a) key mime size)
      next media) s := by
  apply idles_transaction ?_ hinv hnot
  intro now t hinv hnot
  apply (keeps_insertBlob hnot).bind hinv
  · rintro media u hinv ⟨hnot, hblob⟩
    apply keeps_plain (hnext media) ?_ hnot
    rintro e m ⟨rfl, rfl⟩
    exact hblob media rfl
  · exact fun _ _ _ h => h.1

theorem idles_ensurePart (id : DocumentId) (locator : String) (kind : PartKind) (data : Bytes)
    (mime : Option Mime) (page : Option Nat) (hinv : Custody d s) (hnot : d ∉ s.snapshots a) :
    Idles d sweeper a (ensurePart a id locator kind data mime page) s := by
  have hread : Idles d sweeper a (statement (.partByLocator id locator)) s :=
    idles_statement trivial hnot
  apply hread.bind hinv
  intro existing t hinv hnot
  split
  · exact idles_plain trivial hnot
  · have hrender : Idles d sweeper a (statement (.render data mime)) t := idles_statement trivial hnot
    apply hrender.bind hinv
    rintro ⟨data, mime⟩ u hinv hnot
    have hupload : Idles d sweeper a (statement (.uploadObject (.region id locator) data)) u :=
      idles_statement trivial hnot
    apply hupload.bind hinv
    intro _ v hinv hnot
    apply Idles.bind (idles_storeBlob ?_ hinv hnot) hinv
    · intro inserted w _ hnot
      apply idles_plain ?_ hnot
      cases inserted with
      | some part => trivial
      | none => exact (uses_statement trivial).bind fun _ => uses_partFromRow _
    · exact fun media => uses_statement ⟨.inr rfl, rfl, rfl⟩

theorem idles_requestUpload (id : DocumentId) (name : Option String) (hne : id ≠ d)
    (hinv : Custody d s) (hnot : d ∉ s.snapshots a) :
    Idles d sweeper a (requestUpload a id name) s := by
  apply Idles.bind (idles_storeBlob ?_ hinv hnot) hinv
  · intro _ t _ hnot
    exact idles_plain ((uses_statement trivial).bind fun _ => trivial) hnot
  · exact fun media => uses_statement ⟨.inr rfl, hne, rfl, rfl⟩

theorem keeps_read {c : DocCmd} {Q : DocReply c → Store → Prop}
    (hread : ∀ t, (Store.meaning c t).2 = t) (hok : ∀ t, ∃ reply, (Store.meaning c t).1 = .ok reply)
    (htells : ∀ t reply, Custody d t → (sweeper = some a → Successful d t c .done) →
      (Store.meaning c t).1 = .ok reply → Q reply t)
    (hstable : ∀ reply t u, Q reply t → Undisturbed d a t u → Q reply u)
    (hnot : d ∉ s.snapshots a) :
    Keeps (deletionContract d sweeper a)
      (fun r t => d ∉ t.snapshots a ∧ (∀ reply, r = .ok reply → Q reply t) ∧
        (sweeper = some a → ∃ reply, r = .ok reply)) (statement c) s := by
  apply Keeps.perform
  rintro t hrely hinv fate ⟨_, _, _, hsuccess⟩
  have hnot' : d ∉ t.snapshots a := by rwa [hrely.snapshots]
  have hstate : (outcome Store.meaning c t fate).2 = t := by
    cases fate with
    | done => exact hread t
    | late e => exact hread t
    | lost e => rfl
  rw [show (deletionContract d sweeper a).meaning = Store.meaning from rfl, hstate]
  refine ⟨hinv, fun u _ => Undisturbed.refl d u t, fun u hu _ => ⟨?_, fun reply hr => ?_, fun hs => ?_⟩⟩
  · rwa [hu.snapshots]
  · cases fate with
    | done => exact hstable reply t u (htells t reply hinv hsuccess hr) hu
    | late e => cases hr
    | lost e => cases hr
  · rw [(hsuccess hs).1]
    exact hok t

theorem Custody.fetched (h : Custody d s) {id : DocumentId} {includeDeleted : Bool}
    {doc : DocumentRecord} (hfound : s.fetchDocument id includeDeleted = some doc) :
    BlobOf s id doc.row.mediaId := by
  simp only [Store.fetchDocument, Option.bind_eq_bind, Option.bind_eq_some_iff] at hfound
  obtain ⟨row, hrow, ⟨key, blob⟩, _, hfound⟩ := hfound
  rw [Option.ite_none_left_eq_some] at hfound
  obtain rfl := Option.some.inj hfound.2
  exact h.document_ref id row (Slot.has_of_view hrow)

theorem keeps_fetch (id : DocumentId) (includeDeleted : Bool) (hinv : Custody d s)
    (hnot : d ∉ s.snapshots a) :
    Keeps (deletionContract d sweeper a)
      (fun r t => d ∉ t.snapshots a ∧
        ∀ doc : DocumentRecord, r = .ok doc → BlobOf t id doc.row.mediaId)
      (fetch id includeDeleted) s := by
  apply Keeps.bind (keeps_read (c := .fetchDocument id includeDeleted)
    (Q := fun found t => ∀ doc, found = some doc → BlobOf t id doc.row.mediaId)
    (fun _ => rfl) (fun _ => ⟨_, rfl⟩)
    (fun t found hinv _ hreply doc hdoc => hinv.fetched (hdoc ▸ Except.ok.inj hreply))
    (fun _ _ _ hq hu doc hdoc => (hq doc hdoc).mono hu.keys) hnot) hinv
  · rintro found t hinv ⟨hnot, hfound, _⟩
    cases found with
    | none => exact fun u hu _ => ⟨by rwa [hu.snapshots], fun doc hr => by cases hr⟩
    | some doc =>
      refine fun u hu _ => ⟨by rwa [hu.snapshots], fun doc' hr => ?_⟩
      obtain rfl : doc = doc' := Except.ok.inj hr
      exact (hfound _ rfl doc rfl).mono hu.keys
  · exact fun _ _ _ h => ⟨h.1, fun doc hr => by cases hr⟩

theorem idles_ensureSourcePart (id : DocumentId) (kind : PartKind) (hinv : Custody d s)
    (hnot : d ∉ s.snapshots a) : Idles d sweeper a (ensureSourcePart id kind) s := by
  have hread : Idles d sweeper a (statement (.partByLocator id (pageLocator 1))) s :=
    idles_statement trivial hnot
  apply hread.bind hinv
  intro existing t hinv hnot
  cases existing with
  | some part => exact idles_plain trivial hnot
  | none =>
    apply (keeps_fetch id false hinv hnot).bind hinv
    · rintro doc u hinv ⟨hnot, hblob⟩
      apply keeps_plain (B := fun e m => e = id ∧ m = doc.row.mediaId) ?_ ?_ hnot
      · apply (uses_statement ⟨.inl rfl, rfl, rfl⟩).bind
        intro inserted
        cases inserted with
        | some part => trivial
        | none => exact (uses_statement trivial).bind fun _ => uses_partFromRow _
      · rintro e m ⟨rfl, rfl⟩
        exact hblob doc rfl
    · exact fun _ _ _ h => h.1

end Calls

end Doci
