import Doci.Retention
import Doci.PageRuns

/-! The calls one after another. While one of them runs nothing else happens, and none of them
loses a row or an object that somebody still needs. -/

namespace Doci

open Coroutine ReadCommitted

def serialContract (a : Session) : Contract DocReply Exc Store where
  meaning := Store.meaning
  inv := Intact
  rely := Eq
  guar := Passed a
  fate := fun c s fate => Store.admits c s fate = true
  rely_refl := fun _ => rfl
  rely_trans := Eq.trans

/-- Outside its transactions the call may run into these statements at any time. `known` are blobs
that it has seen. -/
def Aside (known : DocumentId → MediaId → Prop) : DocCmd → Prop
  | .commit _ => False
  | .rollback _ => False
  | .setStatus session _ _ => session = none
  | .setContent _ _ _ _ => False
  | .setPartThumb _ _ => False
  | .insertBlob session key _ _ => session = none ∧ ∃ m, known key.document m
  | .insertDocument _ _ _ _ => False
  | .insertPart session d _ _ _ m => session = none ∧ known d m
  | .blobIds _ _ => False
  | .markMedia _ _ _ _ => False
  | .markDocuments _ _ _ _ => False
  | .deleteMedia _ => False
  | .deleteObject _ => False
  | _ => True

section Calls

variable {cfg : MediaConfig} {a : Session} {s : Store} {α β : Type}
  {marking marking' adding adding' : DocumentId → Prop} {known : DocumentId → MediaId → Prop}

theorem Intact.aside (h : Intact s) {c : DocCmd} (haside : Aside known c)
    (hknown : ∀ d m, known d m → (s.rows none).Blob d m) :
    Wrote none a Nobody Nobody s (Store.meaning c s).2 := by
  cases c with
  | setStatus session id status =>
    obtain rfl : session = none := haside
    exact h.sound.setStatus id status
  | setPageCount id count => exact h.sound.setPageCount id count
  | insertBlob session key mime size =>
    obtain ⟨rfl, m, hm⟩ := haside
    obtain ⟨k, v, hv, _, hk⟩ := hknown _ m hm
    have hwrote := h.sound.insertBlob (a := a) h.key_lt key mime size
    refine hwrote.mono fun d hd => .inl ?_
    rcases hd with hd | rfl
    · exact hd.elim
    · rcases h.sound.media_lt k v hv with hlt | hk'
      · exact hk ▸ hlt.trans_le hwrote.fresh
      · exact hk'.elim
  | insertPart session d locator kind page m =>
    obtain ⟨rfl, hm⟩ := haside
    exact h.sound.insertPart (hknown d m hm) locator kind page
  | uploadObject key data => exact h.sound.rows_kept Store.object_kept le_rfl
  | streamObject key =>
    simp only [Store.meaning]
    split <;> exact Wrote.refl h.sound
  | begin _ | fetchDocument _ _ | partByLocator _ _ | mediaById _ | mediaByKey _
  | invalidDocuments | expired | presignPut _ | render _ _ => exact Wrote.refl h.sound
  | commit _ | rollback _ | setContent _ _ _ _ | setPartThumb _ _ | insertDocument _ _ _ _
  | blobIds _ _ | markMedia _ _ _ _ | markDocuments _ _ _ _ | deleteMedia _ | deleteObject _ =>
    exact haside.elim

/-- The program, alone, ends outside any transaction. -/
def Serves (a : Session) (p : DocProg α) (s : Store) : Prop :=
  Keeps (serialContract a) (Ends (fun _ t => Idle a t) (Idle a)) p s

theorem keeps_alone {c : DocCmd} {A : DocReply c → Store → Prop} {E : Store → Prop}
    (hlost : (∀ session, c ≠ .rollback session) → E s) (hinv : Intact s)
    (hdone : Intact (Store.meaning c s).2 ∧ Passed a s (Store.meaning c s).2 ∧ E (Store.meaning c s).2)
    (htells : ∀ reply, (Store.meaning c s).1 = .ok reply → A reply (Store.meaning c s).2) :
    Keeps (serialContract a) (Ends A E) (statement c) s := by
  apply Keeps.perform
  rintro t rfl _ fate hadmits
  obtain ⟨hinv', hpassed, hE⟩ := hdone
  cases fate with
  | lost e =>
    refine ⟨hinv, Passed.refl a s, ?_⟩
    rintro u rfl _
    refine hlost fun session hc => ?_
    subst hc
    have hnever : Store.admits (.rollback session) s (.lost e) = true := hadmits
    simp [Store.admits] at hnever
  | late e =>
    refine ⟨hinv', hpassed, ?_⟩
    rintro u rfl _
    exact hE
  | done =>
    refine ⟨hinv', hpassed, ?_⟩
    rintro u rfl _
    exact Ends.intro htells fun _ _ => hE

variable (known) in
theorem serves_aside {p : DocProg α} (huses : p.Uses (Aside known))
    (hknown : ∀ d m, known d m → (s.rows none).Blob d m) (hidle : Idle a s) : Serves a p s := by
  have hkeeps := Keeps.of_uses (K := serialContract a) (s := s) huses
    (A := fun t => Idle a t ∧ ∀ d m, known d m → (t.rows none).Blob d m)
    (fun s t hA hst _ => hst ▸ hA) (fun c t fate haside hinv hA _ => ?_) ⟨hidle, hknown⟩
  · exact hkeeps.split (fun _ _ hA => hA.1) fun _ hA => hA.1
  · have hwrote : Wrote none a Nobody Nobody t (Store.meaning c t).2 := Intact.aside hinv haside hA.2
    obtain ⟨hinv', hpassed, hidle'⟩ := hwrote.passed hinv hA.1
    rcases outcome_snd Store.meaning c t fate with hsnd | hsnd
    · rw [show (serialContract a).meaning = Store.meaning from rfl, hsnd]
      exact ⟨hinv', hpassed, hidle', fun d m hm => hwrote.grows.blob (hA.2 d m hm)⟩
    · rw [show (serialContract a).meaning = Store.meaning from rfl, hsnd]
      exact ⟨hinv, Passed.refl a t, hA⟩

theorem serves_plain {p : DocProg α} (huses : p.Uses (Aside fun _ _ => False)) (hidle : Idle a s) :
    Serves a p s :=
  serves_aside (fun _ _ => False) huses (fun _ _ hm => hm.elim) hidle

/-- A read. -/
theorem keeps_told {c : DocCmd} (hread : (Store.meaning c s).2 = s) (hinv : Intact s) (hidle : Idle a s) :
    Keeps (serialContract a)
      (Ends (fun reply t => t = s ∧ (Store.meaning c s).1 = .ok reply) (Idle a)) (statement c) s := by
  refine keeps_alone (fun _ => hidle) hinv ?_ fun reply hreply => ⟨hread, hreply⟩
  rw [hread]
  exact ⟨hinv, Passed.refl a s, hidle⟩

theorem serves_transaction {body : Time → DocProg α}
    (hbody : ∀ now, Keeps (serialContract a) (Ends (fun _ t => Inside a Nobody Nobody t) fun t => a < t.fresh)
      (body now) s) (hinv : Intact s) (hidle : Idle a s) : Serves a (transaction a body) s := by
  have hbegin := keeps_told (c := .begin a) rfl hinv hidle
  apply hbegin.andThen hinv
  rintro now t _ ⟨rfl, -⟩
  apply Keeps.orElse (E := fun t => a < t.fresh) ?_ hinv
  · intro e u hinv hlt
    have hrollback : Keeps (serialContract a) (Ends (fun _ t => Idle a t) (Idle a))
        (statement (.rollback a)) u := by
      obtain ⟨hinv', hpassed⟩ := hinv.rollback a a
      have hidle' : Idle a (u.rollback a) := ⟨u.not_locks_rollback a, hlt⟩
      exact keeps_alone (fun hnot => absurd rfl (hnot a)) hinv ⟨hinv', hpassed, hidle'⟩
        fun _ _ => hidle'
    apply Keeps.andThen (A := fun _ t => Idle a t) ?_ hinv
    · rintro _ v _ hidle w rfl _
      exact hidle
    · apply hrollback.orElse hinv
      rintro _ v _ hidle w rfl _
      exact hidle
  · apply (hbody now).andThen hinv
    intro value u hinv hin
    obtain ⟨hinv', hpassed, hidle'⟩ := hin.commit hinv
    have hcommit : Keeps (serialContract a) (Ends (fun _ t => Idle a t) fun t => a < t.fresh)
        (statement (.commit a)) u :=
      keeps_alone (fun _ => hin.lt) hinv ⟨hinv', hpassed, hidle'.lt⟩ fun _ _ => hidle'
    apply hcommit.andThen hinv
    rintro _ v _ hidle w rfl _
    exact hidle

/-- A statement of the transaction, with what it tells. -/
theorem keeps_inside {c : DocCmd} {A : DocReply c → Store → Prop}
    (hwrote : Wrote (some a) a marking' adding' s (Store.meaning c s).2) (hinv : Intact s)
    (hin : Inside a marking adding s)
    (htells : ∀ reply, (Store.meaning c s).1 = .ok reply → A reply (Store.meaning c s).2) :
    Keeps (serialContract a)
      (Ends (fun reply t => Inside a marking' adding' t ∧ A reply t) fun t => a < t.fresh)
      (statement c) s := by
  obtain ⟨hinv', hpassed, hin'⟩ := hwrote.inside hinv hin
  exact keeps_alone (fun _ => hin.lt) hinv ⟨hinv', hpassed, hin'.lt⟩
    fun reply hreply => ⟨hin', htells reply hreply⟩

theorem keeps_written {c : DocCmd} (hwrote : Wrote (some a) a marking' adding' s (Store.meaning c s).2)
    (hinv : Intact s) (hin : Inside a marking adding s) :
    Keeps (serialContract a) (Ends (fun _ t => Inside a marking' adding' t) fun t => a < t.fresh)
      (statement c) s := by
  obtain ⟨hinv', hpassed, hin'⟩ := hwrote.inside hinv hin
  exact keeps_alone (fun _ => hin.lt) hinv ⟨hinv', hpassed, hin'.lt⟩ fun _ _ => hin'

theorem keeps_insideInsert {key : ObjectKey} {mime : Option Mime} {size : Option Nat} (hinv : Intact s)
    (hin : Inside a Nobody Nobody s) :
    Keeps (serialContract a)
      (Ends (fun media t => Inside a Nobody (fun d => d = key.document) t ∧
          (t.rows (some a)).Blob key.document media.row.id ∧
          ((s.rows (some a)).media key = none → ∀ k v, (t.rows (some a)).media k = some v →
            v.deletedAt = none ∨ (s.rows (some a)).media k = some v)) fun t => a < t.fresh)
      (statement (.insertBlob (some a) key mime size)) s := by
  have hwrote : Wrote (some a) a Nobody (fun d => d = key.document) s
      (s.insertBlob (some a) key mime size).2 :=
    (hin.sound.insertBlob hinv.key_lt key mime size).mono fun d hd => by
      rcases hd with hd | hd
      · exact hd.elim
      · exact .inr hd
  refine keeps_inside hwrote hinv hin fun media hreply => ?_
  obtain rfl : (s.insertBlob (some a) key mime size).1 = media := Except.ok.inj hreply
  refine ⟨s.blob_insertBlob (some a) key mime size, fun hnone k v hv => ?_⟩
  have hview := (s.media_insertBlob (some a) key mime size k).symm.trans hv
  split_ifs at hview with hk
  · obtain rfl := Option.some.inj hview
    exact .inl (s.deletedAt_insertBlob hnone mime size)
  · exact .inr hview

/-- The document gets the number of a connection that has only just been opened. -/
theorem serves_requestUpload {name : Option String} (hinv : Intact s) (hidle : Idle a s)
    (hunborn : ∀ k v, (s.rows none).media k = some v → k.document ≠ a) :
    Serves a (requestUpload a a name) s := by
  have hupload : Serves a (transaction a fun _ => do
      let media ← statement (.insertBlob (some a) (.original a) none none)
      statement (.insertDocument (some a) a media.row.id name)) s := by
    refine serves_transaction (fun _ => ?_) hinv hidle
    have hnew : ∀ k v, (s.rows (some a)).media k = some v → k.document ≠ a := by
      rw [Store.rows_of_unlocked hidle.unlocked]
      exact hunborn
    have hnone : (s.rows (some a)).media (.original a) = none := by
      by_contra hsome
      obtain ⟨v, hv⟩ := Option.ne_none_iff_exists'.mp hsome
      exact hnew _ v hv rfl
    apply (keeps_insideInsert hinv (hidle.inside hinv)).andThen hinv
    rintro media t hinv ⟨hin, hblob, hmarks⟩
    have hlive : ∀ k v, k.document = a → (t.rows (some a)).media k = some v → v.deletedAt = none := by
      intro k v hk hv
      rcases hmarks hnone k v hv with hlive | hold
      · exact hlive
      · exact absurd hk (hnew k v hold)
    have hwrote : Wrote (some a) a Nobody Nobody t
        (t.insertDocument (some a) a media.row.id name).2 := by
      have hwrote := hin.sound.insertDocument hblob hlive hin.lt name
      refine hwrote.mono fun d hd => .inl ?_
      rw [hd]
      exact hin.lt.trans_le hwrote.fresh
    exact keeps_written hwrote hinv hin
  apply Keeps.andThen hupload hinv
  intro _ t _ hidle
  exact serves_plain ((uses_statement trivial).bind fun _ => trivial) hidle

theorem Store.Sound.refers_fetched {id : DocumentId} {includeDeleted : Bool} {doc : DocumentRecord} (h : s.Sound none marking adding)
    (hfound : s.fetchDocument id includeDeleted = some doc) : (s.rows none).Blob id doc.row.mediaId := by
  simp only [Store.fetchDocument, Option.bind_eq_bind, Option.bind_eq_some_iff] at hfound
  obtain ⟨row, hrow, ⟨key, blob⟩, _, hfound⟩ := hfound
  rw [Option.ite_none_left_eq_some] at hfound
  obtain rfl := Option.some.inj hfound.2
  exact h.whole.refers id row.mediaId (.inl ⟨row, hrow, rfl⟩)

/-- A part is recorded only of a document that exists. -/
theorem Store.Sound.owner_insertPart {session : Option Session} (h : s.Sound session marking adding)
    {d : DocumentId} {locator : String} {kind : PartKind} {page : Option Nat} {media : MediaId}
    {reply : Option DocumentPartRecord}
    (hreply : (s.insertPart session d locator kind page media).1 = .ok reply) : d < s.fresh := by
  have howner : ((s.rows session).document d).isSome := by
    unfold Store.insertPart at hreply
    split_ifs at hreply with hpart hviolated
    · obtain ⟨row, hrow⟩ := Option.isSome_iff_exists.mp hpart
      exact h.whole.owner d locator row hrow
    · simp only [Bool.or_eq_true, not_or, Bool.not_eq_true, Option.isNone_eq_false_iff] at hviolated
      exact hviolated.1
  obtain ⟨row, hrow⟩ := Option.isSome_iff_exists.mp howner
  exact h.document_lt d row hrow

theorem serves_ensurePart {id : DocumentId} {locator : String} {kind : PartKind} {data : Bytes}
    {mime : Option Mime} {page : Option Nat} (hinv : Intact s) (hidle : Idle a s) :
    Serves a (ensurePart a id locator kind data mime page) s := by
  have hread : Serves a (statement (.partByLocator id locator)) s :=
    serves_plain (uses_statement trivial) hidle
  apply hread.andThen hinv
  intro existing t hinv hidle
  split
  · exact serves_plain trivial hidle
  · have hrender : Serves a (statement (.render data mime)) t :=
      serves_plain (uses_statement trivial) hidle
    apply hrender.andThen hinv
    rintro ⟨data, mime⟩ u hinv hidle
    have hupload : Serves a (statement (.uploadObject (.region id locator) data)) u :=
      serves_plain (uses_statement trivial) hidle
    apply hupload.andThen hinv
    intro _ v hinv hidle
    apply Keeps.andThen (serves_transaction (fun _ => ?_) hinv hidle) hinv
    · intro inserted w _ hidle
      apply serves_plain ?_ hidle
      cases inserted with
      | some part => trivial
      | none => exact (uses_statement trivial).bind fun _ => uses_partFromRow _
    · apply (keeps_insideInsert hinv (hidle.inside hinv)).andThen hinv
      rintro media w hinv ⟨hin, hblob, -⟩
      have hwrote : Wrote (some a) a Nobody (fun d => d = id) w
          (w.insertPart (some a) id locator kind page media.row.id).2 :=
        hin.sound.insertPart hblob locator kind page
      refine (keeps_inside (A := fun _ x => id < x.fresh) hwrote hinv hin fun part hpart => ?_).weaken
        fun r x _ hr => ?_
      · exact (hin.sound.owner_insertPart hpart).trans_le hwrote.fresh
      · cases r with
        | ok part => exact ⟨hr.1.sound.mono fun d hd => .inl (hd ▸ hr.2), hr.1.grows, hr.1.lt⟩
        | error e => exact hr

theorem keeps_fetchOwned {id : DocumentId} {includeDeleted : Bool} (hinv : Intact s) (hidle : Idle a s) :
    Keeps (serialContract a)
      (Ends (fun doc t => Idle a t ∧ (t.rows none).Blob id doc.row.mediaId) (Idle a))
      (fetch id includeDeleted) s := by
  have hread := keeps_told (c := .fetchDocument id includeDeleted) rfl hinv hidle
  apply hread.andThen hinv
  rintro found t hinv' ⟨rfl, hfound⟩
  cases found with
  | none =>
    rintro u rfl _
    exact hidle
  | some doc =>
    rintro u rfl _
    exact ⟨hidle, hinv.sound.refers_fetched (Except.ok.inj hfound)⟩

theorem serves_ensureSourcePart {id : DocumentId} {kind : PartKind} (hinv : Intact s)
    (hidle : Idle a s) : Serves a (ensureSourcePart id kind) s := by
  have hread : Serves a (statement (.partByLocator id (pageLocator 1))) s :=
    serves_plain (uses_statement trivial) hidle
  apply hread.andThen hinv
  intro existing t hinv hidle
  cases existing with
  | some part => exact serves_plain trivial hidle
  | none =>
    apply (keeps_fetchOwned hinv hidle).andThen hinv
    rintro doc u hinv ⟨hidle, hblob⟩
    apply serves_aside (fun d m => d = id ∧ m = doc.row.mediaId) ?_ ?_ hidle
    · apply (uses_statement ⟨rfl, rfl, rfl⟩).bind
      intro inserted
      cases inserted with
      | some part => trivial
      | none => exact (uses_statement trivial).bind fun _ => uses_partFromRow _
    · rintro d m ⟨rfl, rfl⟩
      exact hblob

theorem Store.blob_mediaById {m : MediaId} {record : MediaRecord} (h : s.mediaById m = some record) :
    (s.rows none).Blob record.objectKey.document m := by
  obtain ⟨found, hfound, rfl⟩ := Option.map_eq_some_iff.mp h
  obtain ⟨key, _, hview⟩ := Option.bind_eq_some_iff.mp (Option.filter_eq_some_iff.mp hfound).1
  obtain ⟨row, hrow, rfl⟩ := Option.map_eq_some_iff.mp hview
  obtain ⟨hrow, hid⟩ := Option.filter_eq_some_iff.mp hrow
  exact ⟨key, row, hrow, of_decide_eq_true hid, rfl⟩

theorem serves_ensureThumb {source : MediaId} {data : Bytes} {mime : Option Mime} (hinv : Intact s)
    (hidle : Idle a s) : Serves a (ensureThumb source data mime) s := by
  have hread := keeps_told (c := .mediaById source) rfl hinv hidle
  have hfetch : Keeps (serialContract a)
      (Ends (fun src t => Idle a t ∧ (t.rows none).Blob src.objectKey.document source) (Idle a))
      (fetchMedia source) s := by
    apply hread.andThen hinv
    rintro found t hinv' ⟨rfl, hfound⟩
    cases found with
    | none =>
      rintro u rfl _
      exact hidle
    | some src =>
      rintro u rfl _
      exact ⟨hidle, Store.blob_mediaById (Except.ok.inj hfound)⟩
  apply hfetch.andThen hinv
  rintro src t hinv ⟨hidle, hblob⟩
  apply serves_aside (fun d m => d = src.objectKey.document ∧ m = source) ?_ ?_ hidle
  · apply (uses_statement trivial).bind
    intro existing
    cases existing with
    | some record => trivial
    | none =>
      apply (uses_statement trivial).bind
      rintro ⟨data, mime⟩
      apply (uses_statement trivial).bind
      intro _
      exact uses_statement ⟨rfl, source, rfl, rfl⟩
  · rintro d m ⟨rfl, rfl⟩
    exact hblob

theorem serves_finalize {id : DocumentId} (hinv : Intact s) (hidle : Idle a s) :
    Serves a (finalize cfg a id) s := by
  have hfetch : Serves a (fetch id false) s := serves_plain (uses_fetch trivial) hidle
  apply hfetch.andThen hinv
  intro doc t hinv hidle
  apply Keeps.ite
  · exact fun _ => serves_plain trivial hidle
  · intro _
    have hvalidate : Serves a (validateStored cfg doc.objectKey doc.row.name) t := by
      apply serves_plain ?_ hidle
      apply (uses_statement trivial).bind
      intro data
      split <;> trivial
    apply Keeps.andThen (hvalidate.orElse hinv fun e u hinv hidle => ?_) hinv
    · rintro ⟨mime, size⟩ u hinv hidle
      apply Keeps.andThen (serves_transaction (fun _ => ?_) hinv hidle) hinv
      · exact fun _ v _ hidle => serves_plain (uses_fetch trivial) hidle
      · have hin := hidle.inside hinv
        apply Keeps.andThen (keeps_written (hin.sound.setContent doc.row.mediaId mime size) hinv hin) hinv
        exact fun _ v hinv hin => keeps_written (hin.sound.setStatus id .ready) hinv hin
    · apply serves_plain ?_ hidle
      split
      · exact Prog.Uses.bind (uses_statement rfl) fun _ => trivial
      · exact Prog.Uses.bind (uses_statement rfl) fun _ => trivial
      · trivial

theorem serves_setPartThumb {part : PartId} {thumb : MediaId} (hinv : Intact s) (hidle : Idle a s)
    (hthumb : ∀ key, s.partKey part = some key → BlobOf s key.1 thumb) :
    Serves a (setPartThumb part thumb) s := by
  have hwrote : Wrote none a Nobody Nobody s (s.setPartThumb part thumb).2 :=
    hinv.sound.setPartThumb hthumb
  obtain ⟨hinv', hpassed, hidle'⟩ := hwrote.passed hinv hidle
  exact keeps_alone (fun _ => hidle) hinv ⟨hinv', hpassed, hidle'⟩ fun _ _ => hidle'

theorem serves_delete {ids : List DocumentId} (hinv : Intact s) (hidle : Idle a s) :
    Serves a (delete cfg a ids) s := by
  apply Keeps.ite
  · exact fun _ => serves_plain trivial hidle
  · refine fun _ => serves_transaction (fun now => ?_) hinv hidle
    have hin := hidle.inside hinv
    have hcollected : Wrote (some a) a Nobody Nobody s (s.blobIds a ids).2 :=
      hin.sound.rows_kept (fun _ hk => hk) le_rfl
    have hblobs : ∀ reply : List MediaId, (Store.meaning (.blobIds a ids) s).1 = .ok reply →
        ∀ m ∈ reply, ∃ d ∈ ids, ((s.blobIds a ids).2.rows (some a)).Refers d m := by
      intro reply hreply m hm
      obtain rfl : (s.blobIds a ids).1 = reply := Except.ok.inj hreply
      obtain ⟨d, hd, hrefers⟩ := (Store.mem_blobIds m).mp hm
      exact ⟨d, ((Store.mem_snapshots_blobIds d).mp hd).1, hrefers⟩
    apply (keeps_inside (c := .blobIds a ids) (A := fun (blobs : List MediaId) t =>
      ∀ m ∈ blobs, ∃ d ∈ ids, (t.rows (some a)).Refers d m) hcollected hinv hin hblobs).andThen hinv
    rintro blobs t hinv ⟨hin, hblobs⟩
    apply Keeps.andThen (keeps_written (hin.sound.markMedia hblobs now cfg.purgeAfter) hinv hin) hinv
    exact fun _ u hinv hin =>
      keeps_written (hin.sound.markDocuments ids now cfg.purgeAfter) hinv hin

theorem serves_softDeleteInvalid (hinv : Intact s) (hidle : Idle a s) :
    Serves a (softDeleteInvalid cfg a) s := by
  have hread : Serves a (statement .invalidDocuments) s := serves_plain (uses_statement trivial) hidle
  apply hread.andThen hinv
  intro ids t hinv hidle
  apply Keeps.ite
  · exact fun _ => serves_plain trivial hidle
  · exact fun _ => serves_delete hinv hidle

/-- Rows that a sweep has read as expired, and that are still there. -/
def Expired (rows : List (MediaId × ObjectKey)) (s : Store) : Prop :=
  ∀ row ∈ rows, ∃ v, (s.rows none).media row.2 = some v ∧ v.id = row.1 ∧ v.purgeAfter.isSome

/-- A sweep of session `a`, with the rows that it has read; those in `ids` have lost their
objects. -/
structure Purging (a : Session) (rows : List (MediaId × ObjectKey)) (ids : List MediaId) (s : Store) :
    Prop where
  idle : Idle a s
  unborn : ∀ k v, (s.rows none).media k = some v → k.document ≠ a
  expired : Expired rows s
  emptied : ∀ id ∈ ids, ∃ k, (id, k) ∈ rows ∧ s.objects k = none

theorem Purging.departed {rows : List (MediaId × ObjectKey)} {ids : List MediaId} (h : Purging a rows ids s)
    (hinv : Intact s) {row : MediaId × ObjectKey} (hrow : row ∈ rows) :
    Departed a s row.2.document := by
  obtain ⟨v, hv, _, hpurge⟩ := h.expired row hrow
  refine ⟨?_, h.unborn row.2 v hv, fun hlive => ?_⟩
  · exact (hinv.sound.media_lt row.2 v hv).elim id fun hd => hd.elim
  · have hdeleted := hinv.sound.whole.paired row.2 v hv hpurge
    rw [hinv.sound.whole.live _ hlive id row.2 v rfl hv] at hdeleted
    cases hdeleted

theorem keeps_purgeObject {rows : List (MediaId × ObjectKey)} {ids : List MediaId}
    {row : MediaId × ObjectKey} (h : Purging a rows ids s) (hinv : Intact s) (hrow : row ∈ rows) :
    Keeps (serialContract a)
      (Ends (fun _ t => Purging a rows (row.1 :: ids) t) (Purging a rows ids))
      (statement (.deleteObject row.2)) s := by
  have hempty : ∀ k, s.objects k = none → (if k = row.2 then none else s.objects k) = none := by
    intro k hk
    rw [hk, ite_self]
  have hpurging : Purging a rows ids { s with
      objects := fun k => if k = row.2 then none else s.objects k } := by
    refine ⟨⟨h.idle.unlocked, h.idle.lt⟩, h.unborn, h.expired, fun m hm => ?_⟩
    obtain ⟨k, hk, hnone⟩ := h.emptied m hm
    exact ⟨k, hk, hempty k hnone⟩
  refine keeps_alone (fun _ => h) hinv ⟨hinv.rows_kept le_rfl, ?_, hpurging⟩ fun _ _ => ?_
  · refine ⟨fun k v hv => .inl ⟨v, hv, rfl⟩, fun _ _ hd => .inl hd, fun _ hd => .inl hd, fun k hk => ?_, le_rfl⟩
    by_cases heq : k = row.2
    · exact .inr (heq ▸ h.departed hinv hrow)
    · exact .inl fun hnone => hk ((if_neg heq).symm.trans hnone)
  · refine ⟨hpurging.idle, hpurging.unborn, hpurging.expired, fun m hm => ?_⟩
    rcases List.mem_cons.mp hm with rfl | hm
    · exact ⟨row.2, hrow, if_pos rfl⟩
    · exact hpurging.emptied m hm

theorem keeps_purgeObjects_alone {all rows : List (MediaId × ObjectKey)} {ids : List MediaId}
    (h : Purging a all ids s) (hinv : Intact s) (hsub : rows ⊆ all) :
    Keeps (serialContract a) (Ends (fun purged t => Purging a all (ids ++ purged) t) (Idle a))
      (purgeObjects rows) s := by
  induction rows generalizing ids s with
  | nil =>
    rintro t rfl _
    show Purging a all (ids ++ []) s
    rwa [List.append_nil]
  | cons row rows ih =>
    obtain ⟨hrow, hsub⟩ := List.cons_subset.mp hsub
    have hobject : Keeps (serialContract a)
        (Ends (fun purged t => Purging a all (ids ++ purged) t) (Idle a))
        (tryCatch (do statement (.deleteObject row.2); return [row.1]) fun _ => return []) s := by
      apply Keeps.orElse (E := Purging a all ids) ?_ hinv
      · rintro _ t _ hpurging u rfl _
        show Purging a all (ids ++ []) t
        rwa [List.append_nil]
      · apply (keeps_purgeObject h hinv hrow).andThen hinv
        rintro _ t _ hpurging u rfl _
        refine ⟨hpurging.idle, hpurging.unborn, hpurging.expired, fun m hm => hpurging.emptied m ?_⟩
        rcases List.mem_append.mp hm with hm | hm
        · exact List.mem_cons_of_mem _ hm
        · exact List.mem_singleton.mp hm ▸ List.mem_cons_self
    apply hobject.andThen hinv
    intro purged t hinv hpurging
    apply (ih hpurging hinv hsub).andThen hinv
    rintro rest u _ hpurging v rfl _
    show Purging a all (ids ++ (purged ++ rest)) u
    rwa [← List.append_assoc]

/-- The rows of `ids` have lost their objects, and no live document refers to them. -/
theorem Purging.deleteMedia {rows : List (MediaId × ObjectKey)} {ids : List MediaId}
    (h : Purging a rows ids s) (hinv : Intact s) :
    Intact (s.deleteMedia ids).2 ∧ Passed a s (s.deleteMedia ids).2 ∧ Idle a (s.deleteMedia ids).2 := by
  have hids : ∀ k v, (s.rows none).media k = some v → v.id ∈ ids →
      v.deletedAt.isSome ∧ s.objects k = none := by
    intro k v hv hmem
    obtain ⟨key, hrow, hnone⟩ := h.emptied v.id hmem
    obtain ⟨w, hw, hid, hpurge⟩ := h.expired _ hrow
    obtain rfl : k = key := by
      have hkey := hinv.sound.whole.keyed key w hw
      rw [hid] at hkey
      exact Option.some.inj ((hinv.sound.whole.keyed k v hv).symm.trans hkey)
    obtain rfl := Option.some.inj (hv.symm.trans hw)
    exact ⟨hinv.sound.whole.paired k v hv hpurge, hnone⟩
  have hlocks : ∀ b, (s.deleteMedia ids).2.Locks b → s.Locks b := by
    have hfree : ∀ {p : Prop} {b : Session}, p ∨ none = some b → p := by
      rintro p b (hp | hb)
      · exact hp
      · cases hb
    rintro b (hb | hb | hb)
    · exact .inl (hfree hb.of_rewrite)
    · exact .inr (.inl (hfree hb.of_rewrite))
    · exact .inr (.inr (hfree hb.of_rewrite))
  refine ⟨⟨⟨?_, ?_, ?_⟩, hinv.key_lt, fun b hb => hinv.lock_lt b (hlocks b hb)⟩, ⟨?_, ?_, ?_, ?_, le_rfl⟩,
    fun hb => h.idle.unlocked (hlocks a hb), h.idle.lt⟩
  · rw [Store.rows_deleteMedia]
    exact hinv.sound.whole.without ids
  · rw [Store.rows_deleteMedia]
    exact fun k v hv => hinv.sound.media_lt k v (Rows.without_media.mp hv).1
  · rw [Store.rows_deleteMedia]
    exact fun d row hrow => hinv.sound.document_lt d row (Rows.without_document.mp hrow).1
  · rw [Store.rows_deleteMedia]
    intro k v hv
    by_cases hmem : v.id ∈ ids
    · exact .inr ⟨(hids k v hv hmem).2, (hids k v hv hmem).2⟩
    · exact .inl ⟨v, Rows.without_media.mpr ⟨hv, hmem⟩, rfl⟩
  · rw [Store.rows_deleteMedia]
    intro d m hd
    by_cases hlive : (s.rows none).Live d
    · exact .inl (hinv.sound.whole.without_refers (fun k v hv hmem => (hids k v hv hmem).1) hlive id hd)
    · obtain ⟨k, v, hv, _, rfl⟩ := hinv.sound.whole.refers d m hd
      exact .inr ⟨(hinv.sound.media_lt k v hv).elim id fun hd => hd.elim, h.unborn k v hv, hlive⟩
  · rw [Store.rows_deleteMedia]
    exact fun d hd => .inl (Rows.live_of_without hd)
  · exact fun k hk => .inl hk

theorem serves_purgeExpired (hinv : Intact s) (hidle : Idle a s)
    (hunborn : ∀ k v, (s.rows none).media k = some v → k.document ≠ a) :
    Serves a purgeExpired s := by
  have hread := keeps_told (c := .expired) rfl hinv hidle
  apply hread.andThen hinv
  rintro rows t hinv ⟨rfl, hrows⟩
  obtain rfl : t.expired = rows := Except.ok.inj hrows
  apply Keeps.ite
  · exact fun _ => serves_plain trivial hidle
  · intro _
    have hexpired : Expired t.expired t := by
      rintro ⟨m, k⟩ hrow
      obtain ⟨⟨key, v⟩, hv, heq⟩ := List.mem_map.mp hrow
      obtain ⟨rfl, rfl⟩ := Prod.mk.inj heq
      obtain ⟨hv, hdue⟩ := List.mem_filter.mp hv
      refine ⟨v, Table.mem_rows.mp hv, rfl, ?_⟩
      obtain ⟨deadline, hdeadline, _⟩ := (Option.any_eq_true _ _).mp hdue
      exact Option.isSome_iff_exists.mpr ⟨deadline, hdeadline⟩
    have hpurging : Purging a t.expired [] t := ⟨hidle, hunborn, hexpired, nofun⟩
    apply (keeps_purgeObjects_alone hpurging hinv (List.Subset.refl _)).andThen hinv
    intro ids u hinv hpurging
    apply Keeps.ite
    · exact fun _ => serves_plain trivial hpurging.idle
    · intro _
      obtain ⟨hinv', hpassed, hidle'⟩ := hpurging.deleteMedia hinv
      exact keeps_alone (fun _ => hpurging.idle) hinv ⟨hinv', hpassed, hidle'⟩ fun _ _ => hidle'

end Calls

end Doci
