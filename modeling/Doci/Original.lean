import Doci.Conduct
import Doci.FinalizeCalls

/-! One document and its original beside any other calls: the row keeps its name and leads to the key
of the original, and `finalize` on an original that validation refuses raises. -/

namespace Doci

open Coroutine ReadCommitted

/-- The row of document `d`, where there is one, bears this name and refers to the blob of its
original. What is stored there, if anything, is `data`. -/
structure Store.Originates (d : DocumentId) (name : Option String) (data : Bytes) (s : Store) :
    Prop where
  row : ∀ row, (s.document.slot d).Has row →
    s.mediaKey row.mediaId = some (.original d) ∧ row.name = name
  blob : ∀ v, (s.media.slot (.original d)).Has v → s.mediaKey v.id = some (.original d)
  key_lt : ∀ m k, s.mediaKey m = some k → m < s.fresh
  object : ∀ stored, s.objects (.original d) = some stored → stored = data

def Store.KeepsKeys (s t : Store) : Prop := ∀ m k, s.mediaKey m = some k → t.mediaKey m = some k

/-- An insert of document `d` gives it this name and one of the known blobs, and its original is not
written. -/
def DocCmd.Spares (d : DocumentId) (name : Option String) (known : MediaId → Prop) : DocCmd → Prop
  | .insertDocument _ id media given => id = d → known media ∧ given = name
  | .uploadObject key _ => key ≠ .original d
  | _ => True

section Statements

variable {d : DocumentId} {name : Option String} {data : Bytes} {s t : Store}
  {B : MediaId → Prop} {c : DocCmd}

theorem DocCmd.Derived.spares (h : c.Derived) : c.Spares d name B := by
  cases c with
  | insertDocument session id media given => exact h.elim
  | uploadObject key data => exact h d
  | _ => trivial

/-- The rows of the document and of its original stem from rows that they had, and nothing else of
them is touched. -/
theorem Store.Originates.rows_from (h : s.Originates d name data) (hkey : t.mediaKey = s.mediaKey)
    (hfresh : s.fresh ≤ t.fresh) (hobjects : t.objects = s.objects)
    (hrow : ∀ row', (t.document.slot d).Has row' → ∃ row, (s.document.slot d).Has row ∧
      row'.mediaId = row.mediaId ∧ row'.name = row.name)
    (hblob : ∀ v', (t.media.slot (.original d)).Has v' → ∃ v, (s.media.slot (.original d)).Has v ∧
      v'.id = v.id) : t.Originates d name data := by
  refine ⟨fun row' hhas => ?_, fun v' hhas => ?_, fun m k hm => ?_,
    fun stored hs => h.object stored (hobjects ▸ hs)⟩
  · obtain ⟨row, hhas, hmedia, hname⟩ := hrow row' hhas
    rw [hkey, hmedia, hname]
    exact h.row row hhas
  · obtain ⟨v, hhas, hid⟩ := hblob v' hhas
    rw [hkey, hid]
    exact h.blob v hhas
  · exact (h.key_lt m k (hkey ▸ hm)).trans_le hfresh

theorem Store.Originates.document_rewritten (h : s.Originates d name data) {session : Option Session}
    {f : DocumentId → DocumentRow → Option (Option DocumentRow)}
    (hf : ∀ k row row', f k row = some (some row') →
      row'.mediaId = row.mediaId ∧ row'.name = row.name) :
    Store.Originates d name data { s with document := s.document.rewrite session f } := by
  refine h.rows_from rfl le_rfl rfl (fun row' hhas => ?_) fun v hhas => ⟨v, hhas, rfl⟩
  rcases Table.has_rewrite hhas with hhas | ⟨row, hview, hnew⟩
  · exact ⟨row', hhas, rfl, rfl⟩
  · exact ⟨row, Slot.has_of_view hview, hf d row row' hnew⟩

theorem Store.Originates.document_updated (h : s.Originates d name data) {session : Option Session}
    (p : DocumentId → DocumentRow → Prop) [∀ k row, Decidable (p k row)]
    {g : DocumentRow → DocumentRow} (hg : ∀ row, (g row).mediaId = row.mediaId ∧ (g row).name = row.name) :
    Store.Originates d name data { s with
      document := s.document.rewrite session fun k row =>
        if p k row then some (some (g row)) else none } := by
  refine h.document_rewritten fun k row row' hnew => ?_
  obtain ⟨_, hnew⟩ := Option.ite_none_right_eq_some.mp hnew
  obtain rfl := Option.some.inj (Option.some.inj hnew)
  exact hg row

theorem Store.Originates.media_rewritten (h : s.Originates d name data) {session : Option Session}
    {f : ObjectKey → MediaRow → Option (Option MediaRow)}
    (hf : ∀ k v v', f k v = some (some v') → v'.id = v.id) :
    Store.Originates d name data { s with media := s.media.rewrite session f } := by
  refine h.rows_from rfl le_rfl rfl (fun row hhas => ⟨row, hhas, rfl, rfl⟩) fun v' hhas => ?_
  rcases Table.has_rewrite hhas with hhas | ⟨v, hview, hnew⟩
  · exact ⟨v', hhas, rfl⟩
  · exact ⟨v, Slot.has_of_view hview, hf _ v v' hnew⟩

theorem Store.Originates.media_updated (h : s.Originates d name data) {session : Option Session}
    (p : ObjectKey → MediaRow → Prop) [∀ k v, Decidable (p k v)] {g : MediaRow → MediaRow}
    (hg : ∀ v, (g v).id = v.id) :
    Store.Originates d name data { s with
      media := s.media.rewrite session fun k v => if p k v then some (some (g v)) else none } := by
  refine h.media_rewritten fun k v v' hnew => ?_
  obtain ⟨_, hnew⟩ := Option.ite_none_right_eq_some.mp hnew
  obtain rfl := Option.some.inj (Option.some.inj hnew)
  exact hg v

theorem Store.Originates.insertBlob (h : s.Originates d name data) (session : Option Session)
    (key : ObjectKey) (mime : Option Mime) (size : Option Nat) :
    (s.insertBlob session key mime size).2.Originates d name data ∧
      s.KeepsKeys (s.insertBlob session key mime size).2 := by
  unfold Store.insertBlob
  split
  · exact ⟨h.media_updated (fun k _ => k = key) fun _ => rfl, fun _ _ hm => hm⟩
  · have hkeys : ∀ m k, s.mediaKey m = some k →
        (if m = s.fresh then some key else s.mediaKey m) = some k := by
      intro m k hm
      rw [if_neg (h.key_lt m k hm).ne, hm]
    refine ⟨⟨fun row hhas => ?_, fun v hhas => ?_, fun m k hm => ?_, h.object⟩, hkeys⟩
    · obtain ⟨hmedia, hname⟩ := h.row row hhas
      exact ⟨hkeys _ _ hmedia, hname⟩
    · rcases Table.has_insert hhas with hhas | ⟨rfl, rfl⟩
      · exact hkeys _ _ (h.blob v hhas)
      · exact if_pos rfl
    · dsimp only at hm
      split_ifs at hm with heq
      · exact heq ▸ Nat.lt_succ_self _
      · exact (h.key_lt m k hm).trans (Nat.lt_succ_self _)

/-- The blob that an upsert under the key of the original gives. -/
theorem Store.Originates.inserted (h : s.Originates d name data) (session : Option Session)
    (mime : Option Mime) (size : Option Nat) :
    (s.insertBlob session (.original d) mime size).2.mediaKey
      (s.insertBlob session (.original d) mime size).1.row.id = some (.original d) := by
  unfold Store.insertBlob
  split
  · next row hview => exact h.blob row (Slot.has_of_view hview)
  · exact if_pos rfl

theorem Store.Originates.insertDocument (h : s.Originates d name data) {session : Option Session}
    {id : DocumentId} {media : MediaId} {given : Option String}
    (hknown : id = d → s.mediaKey media = some (.original d) ∧ given = name) :
    (s.insertDocument session id media given).2.Originates d name data := by
  unfold Store.insertDocument
  split_ifs
  · exact h
  · refine ⟨fun row hhas => ?_, h.blob, h.key_lt, h.object⟩
    rcases Table.has_insert hhas with hhas | ⟨rfl, rfl⟩
    · exact h.row row hhas
    · exact hknown rfl

theorem Store.Originates.commit (h : s.Originates d name data) {session : Session} :
    (s.commit session).Originates d name data := by
  refine h.rows_from rfl le_rfl rfl (fun row hhas => ⟨row, ?_, rfl, rfl⟩) fun v hhas => ⟨v, ?_, rfl⟩
  · rw [document_commit] at hhas
    exact hhas.commit
  · rw [media_commit] at hhas
    exact hhas.commit

theorem Store.Originates.rollback (h : s.Originates d name data) {session : Session} :
    (s.rollback session).Originates d name data := by
  refine h.rows_from rfl le_rfl rfl (fun row hhas => ⟨row, ?_, rfl, rfl⟩) fun v hhas => ⟨v, ?_, rfl⟩
  · rw [document_rollback] at hhas
    exact hhas.rollback
  · rw [media_rollback] at hhas
    exact hhas.rollback

theorem Store.Originates.meaning (h : s.Originates d name data) (hc : c.Spares d name B)
    (hknown : ∀ m, B m → s.mediaKey m = some (.original d)) :
    (Store.meaning c s).2.Originates d name data ∧ s.KeepsKeys (Store.meaning c s).2 := by
  cases c with
  | begin _ | fetchDocument _ _ | partByLocator _ _ | mediaById _ | mediaByKey _
  | invalidDocuments | expired | presignPut _ | render _ _ => exact ⟨h, fun _ _ hm => hm⟩
  | commit session => exact ⟨h.commit, fun _ _ hm => hm⟩
  | rollback session => exact ⟨h.rollback, fun _ _ hm => hm⟩
  | setStatus session id status =>
    exact ⟨h.document_updated (fun k _ => k = id) fun _ => ⟨rfl, rfl⟩,
      fun _ _ hm => hm⟩
  | setPageCount id count =>
    exact ⟨h.document_updated (fun k _ => k = id) fun _ => ⟨rfl, rfl⟩,
      fun _ _ hm => hm⟩
  | markDocuments session ids now purge =>
    exact ⟨h.document_updated (fun k row => ids.contains k && row.deletedAt.isNone) fun _ => ⟨rfl, rfl⟩,
      fun _ _ hm => hm⟩
  | deleteMedia ids =>
    have hdocument : Store.Originates d name data { s with
        document := s.document.rewrite none fun _ row =>
          if ids.contains row.mediaId then some none else none } :=
      h.document_rewritten fun k row row' hnew => by simp at hnew
    have hmedia : Store.Originates d name data { s with
        media := s.media.rewrite none fun _ row => if ids.contains row.id then some none else none } :=
      h.media_rewritten fun k v v' hnew => by simp at hnew
    exact ⟨⟨hdocument.row, hmedia.blob, h.key_lt, h.object⟩, fun _ _ hm => hm⟩
  | setContent session id mime size =>
    exact ⟨h.media_updated (fun _ v => v.id = id) fun _ => rfl,
      fun _ _ hm => hm⟩
  | markMedia session blobs now purge =>
    exact ⟨h.media_updated (fun _ v => blobs.contains v.id && v.deletedAt.isNone) fun _ => rfl,
      fun _ _ hm => hm⟩
  | blobIds _ _ => exact ⟨⟨h.row, h.blob, h.key_lt, h.object⟩, fun _ _ hm => hm⟩
  | setPartThumb id thumb =>
    simp only [Store.meaning, Store.setPartThumb]
    split
    · exact ⟨h, fun _ _ hm => hm⟩
    · split_ifs
      · exact ⟨h, fun _ _ hm => hm⟩
      · exact ⟨⟨h.row, h.blob, h.key_lt, h.object⟩, fun _ _ hm => hm⟩
  | insertBlob session key mime size => exact h.insertBlob session key mime size
  | insertDocument session id media given =>
    refine ⟨h.insertDocument fun hid => ?_, ?_⟩
    · obtain ⟨hmedia, hname⟩ := hc hid
      exact ⟨hknown media hmedia, hname⟩
    · simp only [Store.meaning, Store.insertDocument]
      split_ifs <;> exact fun _ _ hm => hm
  | insertPart session id locator kind page media =>
    simp only [Store.meaning, Store.insertPart]
    split_ifs
    · exact ⟨h, fun _ _ hm => hm⟩
    · exact ⟨h, fun _ _ hm => hm⟩
    · exact ⟨⟨h.row, h.blob, fun m k hm => (h.key_lt m k hm).trans (Nat.lt_succ_self _), h.object⟩,
        fun _ _ hm => hm⟩
  | streamObject key =>
    rw [Store.stream_snd]
    exact ⟨h, fun _ _ hm => hm⟩
  | uploadObject key written =>
    refine ⟨⟨h.row, h.blob, h.key_lt, fun stored hs => h.object stored ?_⟩, fun _ _ hm => hm⟩
    have hne : ObjectKey.original d ≠ key := fun heq => hc heq.symm
    simpa only [Store.meaning, if_neg hne] using hs
  | deleteObject key =>
    refine ⟨⟨h.row, h.blob, h.key_lt, fun stored hs => h.object stored ?_⟩, fun _ _ hm => hm⟩
    simp only [Store.meaning] at hs
    split_ifs at hs
    exact hs

end Statements

/-- A live document is found new. -/
def Store.FoundNew (d : DocumentId) (s : Store) : Prop :=
  ∀ record, s.fetchDocument d false = some record → record.row.status = .new

/-- What a program relies on that works beside others on document `d`; a watched one finds it new
whenever it reads it. -/
def originContract (d : DocumentId) (name : Option String) (data : Bytes) (watched : Prop) :
    Contract DocReply Exc Store where
  meaning := Store.meaning
  inv := Store.Originates d name data
  rely := Store.KeepsKeys
  guar := Store.KeepsKeys
  fate := fun c s fate => fate.raised.all Exc.fromOutside = true ∧
    (watched → c = .fetchDocument d false → s.FoundNew d)
  rely_refl := fun _ _ _ h => h
  rely_trans := fun h h' m k hm => h' m k (h m k hm)

section Calls

variable {d : DocumentId} {name : Option String} {data : Bytes} {watched : Prop} {s t : Store}
  {B : MediaId → Prop} {a : Session} {c : DocCmd} {fate : Fate Exc} {α : Type}

theorem Store.Originates.outcome (h : s.Originates d name data) (hc : c.Spares d name B)
    (hknown : ∀ m, B m → s.mediaKey m = some (.original d)) (fate : Fate Exc) :
    (outcome Store.meaning c s fate).2.Originates d name data ∧
      s.KeepsKeys (outcome Store.meaning c s fate).2 := by
  rcases outcome_snd Store.meaning c s fate with hsnd | hsnd
  · rw [hsnd]
    exact h.meaning hc hknown
  · rw [hsnd]
    exact ⟨h, fun _ _ hm => hm⟩

theorem origin_spares {p : DocProg α} (huses : p.Uses (DocCmd.Spares d name B))
    (hknown : ∀ m, B m → s.mediaKey m = some (.original d)) :
    Keeps (originContract d name data watched) (fun _ _ => True) p s := by
  have hkeeps := Keeps.of_uses (K := originContract d name data watched) (s := s) huses
    (A := fun t => ∀ m, B m → t.mediaKey m = some (.original d))
    (fun s t hA hrely _ m hm => hrely m _ (hA m hm)) (fun c t fate hc hinv hA _ => ?_) hknown
  · exact hkeeps.weaken fun _ _ _ _ => trivial
  · obtain ⟨hinv', hkeys⟩ := Store.Originates.outcome hinv hc hA fate
    exact ⟨hinv', hkeys, fun m hm => hkeys m _ (hA m hm)⟩

theorem origin_derived {p : DocProg α} (huses : p.Uses DocCmd.Derived) :
    Keeps (originContract d name data watched) (fun _ _ => True) p s :=
  origin_spares (B := fun _ => False) (huses.mono fun _ h => h.spares) fun _ h => h.elim

theorem origin_transaction {body : Time → DocProg α} (hinv : s.Originates d name data)
    (hbody : ∀ now t, t.Originates d name data →
      Keeps (originContract d name data watched) (fun _ _ => True) (body now) t) :
    Keeps (originContract d name data watched) (fun _ _ => True) (transaction a body) s := by
  have hplain : ∀ {β : Type} {p : DocProg β} t, p.Uses DocCmd.Derived →
      Keeps (originContract d name data watched) (fun _ _ => True) p t := fun _ h => origin_derived h
  apply Keeps.bind (hplain s (uses_statement trivial : (statement (.begin a)).Uses DocCmd.Derived)) hinv
    ?_ fun _ _ _ _ => trivial
  intro now t hinv _
  apply Keeps.tryCatch (Q := fun _ _ => True) ?_ hinv fun _ _ _ _ => trivial
  · intro e u _ _
    apply hplain
    apply Prog.Uses.bind
    · exact (uses_statement trivial).tryCatch fun _ => trivial
    · exact fun _ => trivial
  · apply (hbody now t hinv).bind hinv ?_ fun _ _ _ _ => trivial
    intro value u _ _
    exact hplain u ((uses_statement trivial).bind fun _ => trivial)

theorem origin_insertBlob {mime : Option Mime} {size : Option Nat} :
    Keeps (originContract d name data watched)
      (fun r t => ∀ media, r = .ok media → t.mediaKey media.row.id = some (.original d))
      (statement (.insertBlob (some a) (.original d) mime size)) s := by
  apply Keeps.perform
  intro t _ hinv fate _
  obtain ⟨hinv', hkeys⟩ := Store.Originates.outcome (B := fun _ => False) hinv
    (c := .insertBlob (some a) (.original d) mime size) trivial (fun _ h => h.elim) fate
  refine ⟨hinv', hkeys, fun u hu _ media hr => ?_⟩
  cases fate with
  | lost e => cases hr
  | late e => cases hr
  | done =>
    obtain rfl : (t.insertBlob (some a) (.original d) mime size).1 = media := Except.ok.inj hr
    exact hu _ _ (Store.Originates.inserted hinv (some a) mime size)

/-- The document of an upload has the number of its connection. -/
theorem origin_requestUpload {given : Option String} (hname : a = d → given = name)
    (hinv : s.Originates d name data) :
    Keeps (originContract d name data watched) (fun _ _ => True) (requestUpload a a given) s := by
  by_cases had : a = d
  · subst had
    have hupload : Keeps (originContract a name data watched) (fun _ _ => True) (transaction a fun _ => do
        let media ← statement (.insertBlob (some a) (.original a) none none)
        statement (.insertDocument (some a) a media.row.id given)) s := by
      apply origin_transaction hinv
      intro now t hinv
      apply origin_insertBlob.bind hinv ?_ fun _ _ _ _ => trivial
      intro media u _ hmedia
      apply origin_spares (B := fun m => m = media.row.id)
      · exact uses_statement fun _ => ⟨rfl, hname rfl⟩
      · rintro m rfl
        exact hmedia media rfl
    apply hupload.bind hinv ?_ fun _ _ _ _ => trivial
    intro _ t _ _
    exact origin_derived ((uses_statement trivial).bind fun _ => trivial)
  · apply origin_spares (B := fun _ => False) ?_ fun _ h => h.elim
    apply Prog.Uses.bind
    · apply uses_transaction (P := DocCmd.Spares d name fun _ => False) trivial trivial trivial
      intro now
      exact (uses_statement trivial).bind fun _ => uses_statement fun heq => absurd heq had
    · exact fun _ => (uses_statement trivial).bind fun _ => trivial

theorem Store.Originates.fetched (h : s.Originates d name data) {record : DocumentRecord}
    (hfound : s.fetchDocument d false = some record) :
    record.objectKey = .original d ∧ record.row.name = name := by
  simp only [Store.fetchDocument, Option.bind_eq_bind, Option.bind_eq_some_iff] at hfound
  obtain ⟨row, hrow, ⟨key, blob⟩, hblob, hfound⟩ := hfound
  rw [Option.ite_none_left_eq_some] at hfound
  obtain rfl := Option.some.inj hfound.2
  obtain ⟨hmedia, hname⟩ := h.row row (Slot.has_of_view hrow)
  obtain ⟨key', hkey, hrow⟩ := Option.bind_eq_some_iff.mp hblob
  obtain rfl := Option.some.inj (hkey.symm.trans hmedia)
  obtain ⟨_, _, heq⟩ := Option.map_eq_some_iff.mp hrow
  exact ⟨(Prod.mk.inj heq).1.symm, hname⟩

section Refused

variable {cfg : MediaConfig}

/-- An exception that says nothing of an earlier call. -/
def Exc.Fresh (e : Exc) : Prop := ∀ document, e ≠ .alreadyFinalized document

theorem Exc.fresh_of_outside {e : Exc} (h : e.fromOutside = true) : e.Fresh := by
  rintro document rfl
  cases h

theorem Exc.fresh_of_refuses {e : Exc} (h : e.refuses = true) : e.Fresh := by
  rintro document rfl
  cases h

theorem origin_await {A : DocReply c → Prop} (hc : c.Derived)
    (htells : ∀ t reply, t.Originates d name data → (watched → c = .fetchDocument d false → t.FoundNew d) →
      (Store.meaning c t).1 = .ok reply → A reply)
    (hraises : ∀ t e, (Store.meaning c t).1 = .error e → e.fromOutside = true) :
    Keeps (originContract d name data watched) (Outcome (fun reply _ => A reply) fun e _ => e.Fresh)
      (statement c) s := by
  apply Keeps.perform
  rintro t _ hinv fate ⟨hraised, hnew⟩
  obtain ⟨hinv', hkeys⟩ := Store.Originates.outcome (B := fun _ => False) hinv hc.spares
    (fun _ h => h.elim) fate
  refine ⟨hinv', hkeys, fun u _ _ => ?_⟩
  cases fate with
  | lost e => exact Exc.fresh_of_outside hraised
  | late e => exact Exc.fresh_of_outside hraised
  | done =>
    exact Outcome.intro (fun reply hr => htells t reply hinv hnew hr) fun e he =>
      Exc.fresh_of_outside (hraises t e he)

theorem origin_fetch (hwatched : watched) (hinv : s.Originates d name data) :
    Keeps (originContract d name data watched)
      (Outcome (fun doc _ => doc.row.status = .new ∧ doc.objectKey = .original d ∧ doc.row.name = name)
        fun e _ => e.Fresh) (fetch d false) s := by
  have hread : Keeps (originContract d name data watched)
      (Outcome (fun found _ => ∀ doc, found = some doc →
        doc.row.status = .new ∧ doc.objectKey = .original d ∧ doc.row.name = name)
        fun e _ => e.Fresh) (statement (.fetchDocument d false)) s := by
    apply origin_await (c := .fetchDocument d false) trivial
    · intro t found hinv hnew hreply doc hdoc
      have hfound : t.fetchDocument d false = some doc := hdoc ▸ Except.ok.inj hreply
      exact ⟨hnew hwatched rfl doc hfound, hinv.fetched hfound⟩
    · exact fun _ _ he => nomatch he
  apply hread.next hinv ?_ fun _ _ h => h
  intro found t _ hfound
  cases found with
  | none => exact fun _ _ _ => nofun
  | some doc => exact fun _ _ _ => hfound doc rfl

theorem origin_validateStored (hrefused : ∀ found, validate cfg (.original d) data name ≠ .ok found)
    (hinv : s.Originates d name data) :
    Keeps (originContract d name data watched) (Outcome (fun _ _ => False) fun e _ => e.Fresh)
      (validateStored cfg (.original d) name) s := by
  have hread : Keeps (originContract d name data watched)
      (Outcome (fun stored _ => stored = data) fun e _ => e.Fresh)
      (statement (.streamObject (.original d))) s := by
    apply origin_await (c := .streamObject (.original d)) trivial
    · exact fun t stored hinv _ hreply => hinv.object stored (Store.stream_ok hreply)
    · exact fun _ _ he => Store.stream_error he
  apply hread.next hinv ?_ fun _ _ h => h
  rintro stored t _ rfl
  cases hvalid : validate cfg (.original d) stored name with
  | ok found => exact absurd hvalid (hrefused found)
  | error e =>
    rcases validate_refuses hvalid with hrefuses | ⟨text, rfl⟩
    · exact fun _ _ _ => Exc.fresh_of_refuses hrefuses
    · exact fun _ _ _ => Exc.fresh_of_outside rfl

/-- A call that finds the document new and its original refused raises, and never because of an
earlier call. -/
theorem origin_finalize (hrefused : ∀ found, validate cfg (.original d) data name ≠ .ok found)
    (hwatched : watched) (hinv : s.Originates d name data) :
    Keeps (originContract d name data watched) (Outcome (fun _ _ => False) fun e _ => e.Fresh)
      (finalize cfg a d) s := by
  apply (origin_fetch hwatched hinv).next hinv ?_ fun _ _ h => h
  rintro doc t hinv ⟨hstatus, hkey, hname⟩
  rw [if_neg (not_not.mpr hstatus), hkey, hname]
  refine Keeps.next (A := fun _ _ => False) (E := fun e _ => e.Fresh) ?_ hinv
    (fun _ _ _ (h : False) => h.elim) fun _ _ h => h
  apply (origin_validateStored hrefused hinv).rescue hinv
  intro e u hinv hfresh
  have hset : Keeps (originContract d name data watched)
      (Outcome (fun _ _ => True) fun e _ => e.Fresh) (statement (.setStatus none d .invalid)) u :=
    origin_await trivial (fun _ _ _ _ _ => trivial) fun _ _ he => nomatch he
  split
  · exact hset.next hinv (fun _ _ _ _ _ _ _ => hfresh) fun _ _ h => h
  · exact hset.next hinv (fun _ _ _ _ _ _ _ => hfresh) fun _ _ h => h
  · exact fun _ _ _ => hfresh

/-- Nor does the activity take the refusal for an earlier success. -/
theorem origin_finalizeDocument (hrefused : ∀ found, validate cfg (.original d) data name ≠ .ok found)
    (hwatched : watched) (hinv : s.Originates d name data) :
    Keeps (originContract d name data watched) (Ends (fun _ _ => False) fun _ => True)
      (finalizeDocument cfg a d) s := by
  refine Keeps.tryCatch (origin_finalize hrefused hwatched hinv) hinv
    (fun _ _ _ (h : False) => h.elim) fun e t _ hfresh => ?_
  split
  · next document => exact absurd rfl (hfresh document)
  · exact fun _ _ _ => trivial

end Refused

end Calls

end Doci
