import Doci.Filing

/-! The calls of the services against a filing: what each leaves of the document's parts, and what its
answer tells of them. -/

namespace Doci

open Coroutine ReadCommitted

def Filing.contract (F : Filing) : Contract DocReply Exc Store where
  meaning := Store.meaning
  inv := F.Sound
  rely := F.Kept
  guar := F.Kept
  fate := fun c s fate => Store.admits c s fate = true ∧ ∀ ids, c = .deleteMedia ids → F.Spares ids s
  rely_refl := Filing.Kept.refl
  rely_trans := Filing.Kept.trans

/-- The program keeps to the filing, and its answer tells `A`. -/
def Filing.Leaves {α : Type} (F : Filing) (A : α → Store → Prop) (p : DocProg α) (s : Store) : Prop :=
  Keeps F.contract (Ends A fun _ => True) p s

/-- Statements that fit in every state, a purge if it spares the document. -/
def Filing.Safe (F : Filing) (c : DocCmd) : Prop :=
  ∀ t, (∀ ids, c = .deleteMedia ids → F.Spares ids t) → F.Fits t c

section Rules

variable {F : Filing} {s : Store} {α β : Type} {A : α → Store → Prop} {B : β → Store → Prop}

theorem leaves_statement {c : DocCmd} {A : DocReply c → Store → Prop}
    (hfits : ∀ t, F.Kept s t → F.Sound t → (∀ ids, c = .deleteMedia ids → F.Spares ids t) → F.Fits t c)
    (htells : ∀ t reply, F.Kept s t → F.Sound t → (Store.meaning c t).1 = .ok reply →
      A reply (Store.meaning c t).2)
    (hstable : ∀ reply t u, A reply t → F.Kept t u → A reply u) : F.Leaves A (statement c) s := by
  apply Keeps.perform
  rintro t hrely hinv fate ⟨hadmits, hspares⟩
  rcases Store.admits_cases hadmits with ⟨e, rfl, _⟩ | hfree
  · exact ⟨hinv, Filing.Kept.refl t, fun _ _ _ => trivial⟩
  · obtain ⟨hsound, hkept⟩ := Filing.Sound.step hinv (hfits t hrely hinv hspares) hfree
    cases fate with
    | lost e => exact ⟨hinv, Filing.Kept.refl t, fun _ _ _ => trivial⟩
    | late e => exact ⟨hsound, hkept, fun _ _ _ => trivial⟩
    | done =>
      refine ⟨hsound, hkept, fun u hu _ => Ends.intro (fun reply hreply => ?_) fun _ _ => trivial⟩
      exact hstable reply _ u (htells t reply hrely hinv hreply) hu

theorem leaves_uses {p : DocProg α} (huses : p.Uses F.Safe) : F.Leaves (fun _ _ => True) p s := by
  have hkeeps : Keeps F.contract (fun _ _ => True) p s := by
    refine Keeps.of_uses (A := fun _ => True) huses (fun _ _ _ _ _ => trivial) ?_ trivial
    rintro c t fate hsafe hinv _ ⟨hadmits, hspares⟩
    rcases Store.admits_cases hadmits with ⟨e, rfl, _⟩ | hfree
    · exact ⟨hinv, Filing.Kept.refl t, trivial⟩
    · obtain ⟨hsound, hkept⟩ := Filing.Sound.step hinv (hsafe t hspares) hfree
      cases fate with
      | lost e => exact ⟨hinv, Filing.Kept.refl t, trivial⟩
      | late e => exact ⟨hsound, hkept, trivial⟩
      | done => exact ⟨hsound, hkept, trivial⟩
  exact hkeeps.weaken fun _ _ _ _ => Ends.intro (fun _ _ => trivial) fun _ _ => trivial

theorem leaves_safe {c : DocCmd} (hsafe : F.Safe c) : F.Leaves (fun _ _ => True) (statement c) s :=
  leaves_uses (uses_statement hsafe)

theorem leaves_ret {value : α} (h : ∀ t, F.Kept s t → F.Sound t → A value t) :
    F.Leaves A (.ret value) s := h

theorem leaves_throw (e : Exc) : F.Leaves A (.throw e) s := fun _ _ _ => trivial

theorem Filing.Leaves.bind {p : DocProg α} {next : α → DocProg β} (h : F.Leaves A p s)
    (hinv : F.Sound s) (hnext : ∀ value t, F.Sound t → A value t → F.Leaves B (next value) t) :
    F.Leaves B (p.bind next) s := Keeps.andThen h hinv hnext

theorem Filing.Leaves.weaken {A' : α → Store → Prop} {p : DocProg α} (h : F.Leaves A p s)
    (himp : ∀ value t, F.Sound t → A value t → A' value t) : F.Leaves A' p s :=
  Keeps.weaken h fun r t hinv hr => by
    cases r with
    | ok value => exact himp value t hinv hr
    | error e => trivial

/-- What is known from before the program stays known. -/
theorem Filing.Leaves.along {p : DocProg α} {P : Store → Prop} (h : F.Leaves A p s) (hP : P s)
    (hstable : ∀ t u, P t → F.Kept t u → P u) : F.Leaves (fun value t => A value t ∧ P t) p s :=
  Keeps.weaken (Keeps.along h hP hstable hstable) fun r t _ hr => by
    cases r with
    | ok value => exact hr
    | error e => trivial

theorem leaves_transaction {session : Session} {body : Time → DocProg α}
    (hbody : ∀ now t, F.Sound t → F.Kept s t → F.Leaves A (body now) t)
    (hstable : ∀ value t u, A value t → F.Kept t u → A value u) (hinv : F.Sound s) :
    F.Leaves A (transaction session body) s := by
  have hbegin : F.Leaves (fun _ _ => True) (statement (.begin session)) s :=
    leaves_safe fun _ _ => trivial
  apply (hbegin.along (Filing.Kept.refl s) fun _ _ hkept hkept' => hkept.trans hkept').bind hinv
  rintro now t hinv ⟨_, hkept⟩
  apply Keeps.orElse (E := fun _ => True) ?_ hinv
  · intro e u hinv _
    have hrollback : F.Leaves (fun _ _ => True)
        ((statement (.rollback session)).tryCatch fun _ => .ret ()) u := by
      apply leaves_uses
      exact (uses_statement fun _ _ => trivial).tryCatch fun _ => trivial
    exact hrollback.bind hinv fun _ v _ _ => leaves_throw e
  · apply (hbody now t hinv hkept).bind hinv
    intro value u hinv hA
    have hcommit : F.Leaves (fun _ _ => True) (statement (.commit session)) u :=
      leaves_safe fun _ _ => trivial
    apply (hcommit.along hA fun _ _ hA hkept => hstable value _ _ hA hkept).bind hinv
    intro _ v _ hA
    exact leaves_ret fun w hkept _ => hstable value v w hA.2 hkept

end Rules

section Replies

variable (F : Filing)

/-- What a part of the document is once it was found or made at the locator. -/
def Filing.Placed (id : DocumentId) (place : String) (part : DocumentPartRecord) (s : Store) : Prop :=
  id = F.document → s.partKey part.row.id = some (id, place) ∧
    ∃ m key, part.row.mediaId = some m ∧ s.mediaKey m = some key ∧
      F.files place part.row.kind part.row.pageNumber key

def Filing.Fetched (id : DocumentId) (doc : DocumentRecord) (s : Store) : Prop :=
  s.mediaKey doc.row.mediaId = some (.original id) ∧ doc.objectKey = .original id ∧
    (id = F.document → ∀ mime, doc.mimeType = some mime → F.recorded mime)

/-- What the bytes under a key are. -/
def Filing.Reads (key : ObjectKey) (data : Bytes) : Prop :=
  (key = .original F.document → F.put data) ∧ ∀ place, key = .region F.document place → F.holds place data

variable {F} {s t : Store} {id : DocumentId} {place : String} {part : DocumentPartRecord}
  {doc : DocumentRecord}

theorem Filing.Placed.later (h : F.Placed id place part s) (hkept : F.Kept s t) :
    F.Placed id place part t := by
  intro hid
  obtain ⟨hkey, m, key, hm, hmedia, hfiles⟩ := h hid
  exact ⟨hkept.keys.part _ _ hkey, m, key, hm, hkept.keys.media _ _ hmedia, hfiles⟩

theorem Filing.Fetched.later (h : F.Fetched id doc s) (hkept : F.Kept s t) : F.Fetched id doc t :=
  ⟨hkept.keys.media _ _ h.1, h.2⟩

theorem Filing.Sound.placed (h : F.Sound s) (hfound : s.partByLocator id place = some part) :
    F.Placed id place part s := by
  rintro rfl
  obtain ⟨row, hview, rfl⟩ := Option.map_eq_some_iff.mp hfound
  have hhas := Slot.has_of_view hview
  exact ⟨h.parts.row_key place row hhas, h.parts.row_files place row hhas⟩

theorem inserted_placed {session : Option Session} {kind : PartKind}
    {page : Option Nat} {media : MediaId} (hfits : F.Fits s (.insertPart session id place kind page media))
    (hreply : (s.insertPart session id place kind page media).1 = .ok (some part)) :
    F.Placed id place part (s.insertPart session id place kind page media).2 := by
  unfold Store.insertPart at hreply ⊢
  split_ifs at hreply ⊢
  · cases hreply
  · intro hid
    obtain rfl := Option.some.inj (Except.ok.inj hreply)
    obtain ⟨key, hkey, hfiles⟩ := hfits hid
    exact ⟨if_pos rfl, media, key, rfl, hkey, hfiles⟩

theorem Filing.Sound.fetched (h : F.Sound s) {includeDeleted : Bool}
    (hfound : s.fetchDocument id includeDeleted = some doc) : F.Fetched id doc s := by
  simp only [Store.fetchDocument, Option.bind_eq_bind, Option.bind_eq_some_iff] at hfound
  obtain ⟨row, hrow, ⟨key, blob⟩, hblob, hdoc⟩ := hfound
  rw [Option.ite_none_left_eq_some] at hdoc
  obtain rfl := Option.some.inj hdoc.2
  have hkey := h.keys.original id row (Slot.has_of_view hrow)
  obtain ⟨key', hkey', hview⟩ := Option.bind_eq_some_iff.mp hblob
  obtain ⟨v, hv, heq⟩ := Option.map_eq_some_iff.mp hview
  obtain ⟨rfl, rfl⟩ := Prod.mk.inj heq
  obtain rfl := Option.some.inj (hkey'.symm.trans hkey)
  refine ⟨hkey, rfl, ?_⟩
  rintro rfl
  exact h.blobs.uploaded v (Slot.has_of_view (Option.filter_eq_some_iff.mp hv).1)

theorem Filing.Sound.reads (h : F.Sound s) {key : ObjectKey} {data : Bytes}
    (hobject : s.objects key = some data) : F.Reads key data := by
  constructor
  · rintro rfl
    exact h.blobs.object data hobject
  · rintro place rfl
    exact h.blobs.region place data hobject

end Replies

section Parts

variable {F : Filing} {s : Store} {session : Session} {id : DocumentId} {place : String}
  {kind : PartKind} {page : Option Nat}

theorem leaves_find : F.Leaves (fun found t => ∀ part, found = some part → F.Placed id place part t)
    (statement (.partByLocator id place)) s := by
  apply leaves_statement
  · exact fun _ _ _ _ => trivial
  · rintro t found _ hinv hreply part rfl
    exact hinv.placed (Except.ok.inj hreply)
  · exact fun found t u hfound hkept part hpart => (hfound part hpart).later hkept

theorem leaves_reread (hinv : F.Sound s) :
    F.Leaves (F.Placed id place) ((statement (.partByLocator id place)).bind partFromRow) s := by
  apply leaves_find.bind hinv
  intro found t _ hfound
  cases found with
  | none => exact leaves_throw _
  | some part => exact leaves_ret fun u hkept _ => (hfound part rfl).later hkept

theorem leaves_upsertBlob {session : Option Session} {key : ObjectKey} {mime : Option Mime}
    {size : Option Nat} (horiginal : key = .original F.document → ∀ m, mime = some m → F.recorded m) :
    F.Leaves (fun media t => t.mediaKey media.row.id = some key)
      (statement (.insertBlob session key mime size)) s := by
  apply leaves_statement
  · exact fun _ _ _ _ => horiginal
  · intro t media _ hinv hreply
    obtain rfl := Except.ok.inj hreply
    exact (hinv.keys.insertBlob session key mime size).2.2
  · exact fun media t u hkey hkept => hkept.keys.media _ _ hkey

theorem leaves_insertPart {session : Option Session} {media : MediaId}
    (hfits : ∀ t, F.Kept s t → F.Fits t (.insertPart session id place kind page media)) :
    F.Leaves (fun inserted t => ∀ part, inserted = some part → F.Placed id place part t)
      (statement (.insertPart session id place kind page media)) s := by
  apply leaves_statement
  · exact fun t hkept _ _ => hfits t hkept
  · rintro t inserted hkept _ hreply part rfl
    exact inserted_placed (hfits t hkept) hreply
  · exact fun found t u hfound hkept part hpart => (hfound part hpart).later hkept

theorem leaves_ensurePart {data : Bytes} {mime : Option Mime}
    (hfiles : id = F.document → F.files place kind page (.region id place))
    (hholds : id = F.document → F.holds place data) (hinv : F.Sound s) :
    F.Leaves (F.Placed id place) (ensurePart session id place kind data mime page) s := by
  apply leaves_find.bind hinv
  intro existing t hinv hexisting
  split
  · next part hpart =>
    have hfound := (Option.filter_eq_some_iff.mp hpart).1
    exact leaves_ret fun u hkept _ => (hexisting part hfound).later hkept
  · have hrender : F.Leaves (fun rendered _ => rendered.1 = data) (statement (.render data mime)) t := by
      apply leaves_statement
      · exact fun _ _ _ _ => trivial
      · exact fun _ _ _ _ hreply => (congrArg Prod.fst (Except.ok.inj hreply)).symm
      · exact fun _ _ _ hdata _ => hdata
    apply hrender.bind hinv
    rintro ⟨data, mime⟩ u hinv rfl
    have hupload : F.Leaves (fun _ _ => True) (statement (.uploadObject (.region id place) data)) u := by
      apply leaves_safe
      refine fun _ _ => ⟨fun hkey => (by cases hkey), fun locator hkey => ?_⟩
      obtain ⟨rfl, rfl⟩ := ObjectKey.region.inj hkey
      exact hholds rfl
    apply hupload.bind hinv
    intro _ v hinv _
    refine (leaves_transaction (A := fun inserted t => ∀ part, inserted = some part →
      F.Placed id place part t) ?_ (fun found t u hfound hkept part hpart => (hfound part hpart).later hkept)
      hinv).bind hinv ?_
    swap
    · intro inserted w hinv hinserted
      cases inserted with
      | some part => exact leaves_ret fun x hkept _ => (hinserted part rfl).later hkept
      | none => exact leaves_reread hinv
    intro _ w hinv _
    have hupsert : F.Leaves (fun media t => t.mediaKey media.row.id = some (.region id place))
        (statement (.insertBlob (some session) (.region id place) mime (some data.length))) w :=
      leaves_upsertBlob fun hkey => by cases hkey
    apply hupsert.bind hinv
    intro media x hinv hkey
    exact leaves_insertPart fun y hkept hid => ⟨_, hkept.keys.media _ _ hkey, hfiles hid⟩

theorem leaves_fetch (includeDeleted : Bool) (hinv : F.Sound s) :
    F.Leaves (F.Fetched id) (fetch id includeDeleted) s := by
  have hread : F.Leaves (fun found t => ∀ doc, found = some doc → F.Fetched id doc t)
      (statement (.fetchDocument id includeDeleted)) s := by
    apply leaves_statement
    · exact fun _ _ _ _ => trivial
    · rintro t found _ hinv hreply doc rfl
      exact hinv.fetched (Except.ok.inj hreply)
    · exact fun found t u hfound hkept doc hdoc => (hfound doc hdoc).later hkept
  apply hread.bind hinv
  intro found t _ hfound
  cases found with
  | none => exact leaves_throw _
  | some doc => exact leaves_ret fun u hkept _ => (hfound doc rfl).later hkept

theorem leaves_ensureSourcePart (hfiles : id = F.document →
    F.files (pageLocator 1) kind (some 1) (.original id)) (hinv : F.Sound s) :
    F.Leaves (F.Placed id (pageLocator 1)) (ensureSourcePart id kind) s := by
  apply leaves_find.bind hinv
  intro existing t hinv hexisting
  cases existing with
  | some part => exact leaves_ret fun u hkept _ => (hexisting part rfl).later hkept
  | none =>
    apply (leaves_fetch false hinv).bind hinv
    rintro doc u hinv ⟨hkey, _⟩
    apply (leaves_insertPart fun v hkept hid => ⟨_, hkept.keys.media _ _ hkey, hfiles hid⟩).bind hinv
    intro inserted v hinv hinserted
    cases inserted with
    | some part => exact leaves_ret fun w hkept _ => (hinserted part rfl).later hkept
    | none => exact leaves_reread hinv

theorem leaves_requestUpload {name : Option String} (hinv : F.Sound s) :
    F.Leaves (fun _ _ => True) (requestUpload session id name) s := by
  refine (leaves_transaction (A := fun _ _ => True) ?_ (fun _ _ _ _ _ => trivial) hinv).bind hinv ?_
  · intro _ t hinv _
    have hupsert : F.Leaves (fun media t => t.mediaKey media.row.id = some (.original id))
        (statement (.insertBlob (some session) (.original id) none none)) t :=
      leaves_upsertBlob fun _ m hm => by cases hm
    apply hupsert.bind hinv
    intro media u _ hkey
    apply leaves_statement
    · exact fun v hkept _ _ => hkept.keys.media _ _ hkey
    · exact fun _ _ _ _ _ => trivial
    · exact fun _ _ _ _ _ => trivial
  · intro _ t _ _
    exact leaves_uses ((uses_statement fun _ _ => trivial).bind fun _ => trivial)

theorem leaves_ensureThumb (source : MediaId) (data : Bytes) (mime : Option Mime) :
    F.Leaves (fun _ _ => True) (ensureThumb source data mime) s := by
  apply leaves_uses
  apply Prog.Uses.bind
  · apply (uses_statement fun _ _ => trivial).bind
    intro found
    cases found <;> trivial
  · intro src
    apply (uses_statement fun _ _ => trivial).bind
    intro existing
    cases existing with
    | some record => trivial
    | none =>
      apply (uses_statement fun _ _ => trivial).bind
      rintro ⟨data, mime⟩
      apply (uses_statement fun _ _ => ⟨fun hkey => (by cases hkey), fun _ hkey => (by cases hkey)⟩).bind
      exact fun _ => uses_statement fun _ _ hkey => by cases hkey

theorem uses_safe_purgeObjects (rows : List (MediaId × ObjectKey)) : (purgeObjects rows).Uses F.Safe := by
  induction rows with
  | nil => trivial
  | cons row rows ih =>
    apply Prog.Uses.bind
    · apply Prog.Uses.tryCatch
      · exact (uses_statement fun _ _ => trivial).bind fun _ => trivial
      · exact fun _ => trivial
    · exact fun _ => ih.bind fun _ => trivial

theorem leaves_purgeExpired : F.Leaves (fun _ _ => True) purgeExpired s := by
  apply leaves_uses
  apply (uses_statement fun _ _ => trivial).bind
  intro rows
  apply Prog.Uses.ite
  · trivial
  · apply (uses_safe_purgeObjects rows).bind
    intro ids
    apply Prog.Uses.ite
    · trivial
    · exact uses_statement fun _ hspares => hspares ids rfl

end Parts

section Finalize

variable {F : Filing} {s : Store} {session : Session} {id : DocumentId} {cfg : MediaConfig}

theorem uses_safe_delete (ids : List DocumentId) : (delete cfg session ids).Uses F.Safe := by
  apply Prog.Uses.ite
  · trivial
  · apply uses_transaction (fun _ _ => trivial) (fun _ _ => trivial) (fun _ _ => trivial)
    intro now
    apply (uses_statement fun _ _ => trivial).bind
    intro blobs
    apply (uses_statement fun _ _ => trivial).bind
    exact fun _ => uses_statement fun _ _ => trivial

theorem uses_safe_softDeleteInvalid : (softDeleteInvalid cfg session).Uses F.Safe := by
  apply (uses_statement fun _ _ => trivial).bind
  intro ids
  apply Prog.Uses.ite
  · trivial
  · exact uses_safe_delete ids

/-- What validation takes of the bytes that are put is what the upload may be recorded as. -/
def Filing.Validates (F : Filing) (cfg : MediaConfig) : Prop :=
  ∀ data name mime size, F.put data → validate cfg (.original F.document) data name = .ok (mime, size) →
    F.recorded mime

theorem leaves_validateStored {name : Option String} (hvalid : F.Validates cfg) (hinv : F.Sound s) :
    F.Leaves (fun found _ => id = F.document → F.recorded found.1)
      (validateStored cfg (.original id) name) s := by
  have hstream : F.Leaves (fun data _ => F.Reads (.original id) data)
      (statement (.streamObject (.original id))) s := by
    apply leaves_statement
    · exact fun _ _ _ _ => trivial
    · intro t data _ hinv hreply
      apply hinv.reads
      simp only [Store.meaning] at hreply
      cases hobject : t.objects (.original id) with
      | none =>
        rw [hobject] at hreply
        cases hreply
      | some object =>
        rw [hobject] at hreply
        rw [Except.ok.inj hreply]
    · exact fun _ _ _ hdata _ => hdata
  apply hstream.bind hinv
  intro data t _ hdata
  split
  · next found hfound =>
    apply leaves_ret
    rintro u _ _ rfl
    exact hvalid data name found.1 found.2 (hdata.1 rfl) hfound
  · exact leaves_throw _

theorem leaves_finalize (hvalid : F.Validates cfg) (hinv : F.Sound s) :
    F.Leaves (F.Fetched id) (finalize cfg session id) s := by
  apply (leaves_fetch false hinv).bind hinv
  rintro doc t hinv ⟨hkey, hobject, _⟩
  apply Keeps.ite
  · exact fun _ => leaves_throw _
  · intro _
    refine Filing.Leaves.bind (A := fun found u => (id = F.document → F.recorded found.1) ∧
      u.mediaKey doc.row.mediaId = some (.original id)) ?_ hinv ?_
    · rw [hobject]
      have hread : F.Leaves (fun found _ => id = F.document → F.recorded found.1)
          (validateStored cfg (.original id) doc.row.name) t := leaves_validateStored hvalid hinv
      apply Keeps.orElse (hread.along hkey fun _ _ hkey hkept => hkept.keys.media _ _ hkey) hinv
      intro e u hinv _
      have hmark : F.Leaves (fun _ _ => True) (statement (.setStatus none id .invalid)) u :=
        leaves_safe fun _ _ => trivial
      split
      · exact hmark.bind hinv fun _ v _ _ => leaves_throw _
      · exact hmark.bind hinv fun _ v _ _ => leaves_throw _
      · exact leaves_throw _
    · rintro ⟨mime, size⟩ u hinv ⟨hrecorded, hkey⟩
      refine (leaves_transaction (A := fun _ _ => True) ?_ (fun _ _ _ _ _ => trivial) hinv).bind hinv
        fun _ v hinv _ => leaves_fetch true hinv
      intro _ v hinv hkept
      have hset : F.Leaves (fun _ _ => True)
          (statement (.setContent (some session) doc.row.mediaId mime size)) v := by
        apply leaves_statement
        · intro w hkept' _ _ horiginal
          have hkey' := hkept'.keys.media _ _ (hkept.keys.media _ _ hkey)
          exact hrecorded (ObjectKey.original.inj (Option.some.inj (hkey'.symm.trans horiginal)))
        · exact fun _ _ _ _ _ => trivial
        · exact fun _ _ _ _ _ => trivial
      exact hset.bind hinv fun _ w _ _ => leaves_safe fun _ _ => trivial

theorem leaves_finalizeDocument (hvalid : F.Validates cfg) (hinv : F.Sound s) :
    F.Leaves (F.Fetched id) (finalizeDocument cfg session id) s := by
  apply Keeps.orElse (E := fun _ => True) (leaves_finalize hvalid hinv) hinv
  intro e t hinv _
  split
  · exact leaves_fetch false hinv
  · exact leaves_throw _

/-- Parts of the document are filed by other calls only as the filing has it. -/
def Filing.Admits (F : Filing) : ServiceCall → Prop
  | .ensurePart id place kind data _ page => id = F.document →
      F.files place kind page (.region id place) ∧ F.holds place data
  | .ensureSourcePart id kind => id = F.document → F.files (pageLocator 1) kind (some 1) (.original id)
  | _ => True

theorem leaves_call {call : ServiceCall} (hadmits : F.Admits call) (hvalid : F.Validates cfg)
    (hinv : F.Sound s) : F.Leaves (fun _ _ => True) (call.run cfg session) s := by
  cases call with
  | requestUpload name => exact leaves_requestUpload hinv
  | finalize id => exact (leaves_finalize hvalid hinv).weaken fun _ _ _ _ => trivial
  | getDocument id => exact (leaves_fetch false hinv).weaken fun _ _ _ _ => trivial
  | ensurePart id place kind data mime page =>
    exact (leaves_ensurePart (fun hid => (hadmits hid).1) (fun hid => (hadmits hid).2) hinv).weaken
      fun _ _ _ _ => trivial
  | ensureSourcePart id kind =>
    exact (leaves_ensureSourcePart hadmits hinv).weaken fun _ _ _ _ => trivial
  | setPartThumb part thumb => exact leaves_safe fun _ _ => trivial
  | setPageCount id count => exact leaves_safe fun _ _ => trivial
  | ensureThumb source data mime => exact leaves_ensureThumb source data mime
  | delete ids => exact leaves_uses (uses_safe_delete ids)
  | softDeleteInvalid => exact leaves_uses uses_safe_softDeleteInvalid
  | purgeExpired => exact leaves_purgeExpired

end Finalize

section Events

variable {F : Filing} {s t : Store}

theorem Filing.Sound.rollback (h : F.Sound s) (session : Session) :
    F.Sound (s.rollback session) ∧ F.Kept s (s.rollback session) :=
  h.step (c := .rollback session) trivial rfl

theorem Filing.Sound.put (h : F.Sound s) {document : DocumentId} {data : Bytes}
    (hput : document = F.document → F.put data) :
    F.Sound { s with objects := fun k => if k = .original document then some data else s.objects k } := by
  refine ⟨⟨h.keys.key_lt, h.keys.part_lt, h.keys.keyed, h.keys.original⟩,
    ⟨h.parts.row_key, h.parts.row_files, h.parts.inserting⟩, h.blobs.uploaded, fun object hobject => ?_,
    fun place object hobject => ?_⟩
  · by_cases hid : document = F.document
    · subst hid
      obtain rfl := Option.some.inj ((if_pos rfl).symm.trans hobject)
      exact hput rfl
    · have hne : ObjectKey.original F.document ≠ .original document :=
        fun hkey => hid (ObjectKey.original.inj hkey).symm
      exact h.blobs.object object ((if_neg hne).symm.trans hobject)
  · have hne : ObjectKey.region F.document place ≠ .original document := fun hkey => by cases hkey
    change (if ObjectKey.region F.document place = .original document then some data else
      s.objects (.region F.document place)) = some object at hobject
    rw [if_neg hne] at hobject
    exact h.blobs.region place object hobject

theorem Filing.Sound.aged (h : F.Sound s) (now : Nat) {fresh : Nat} (hfresh : s.fresh ≤ fresh) :
    F.Sound { s with now := now, fresh := fresh } ∧ F.Kept s { s with now := now, fresh := fresh } :=
  ⟨⟨⟨fun m k hk => (h.keys.key_lt m k hk).trans_le hfresh,
      fun p k hp => (h.keys.part_lt p k hp).trans_le hfresh, h.keys.keyed, h.keys.original⟩,
    ⟨h.parts.row_key, h.parts.row_files, h.parts.inserting⟩,
    ⟨h.blobs.uploaded, h.blobs.object, h.blobs.region⟩⟩,
    ⟨fun _ _ hk => hk, fun _ _ hp => hp⟩, fun _ row hrow => ⟨row, hrow, rfl⟩⟩

/-- A store from before the document's upload. -/
structure Unfiled (document : DocumentId) (s : Store) : Prop where
  notYet : NotYet document s
  parts : ∀ place, s.part.slot (document, place) = {}
  regions : ∀ place, s.objects (.region document place) = none

theorem Unfiled.sound (h : Unfiled F.document s) : F.Sound s := by
  refine ⟨⟨h.notYet.key_lt, h.notYet.part_lt, h.notYet.keyed, h.notYet.original⟩,
    ⟨fun place row hrow => ?_, fun place row hrow => ?_, fun place a v hv => ?_⟩, fun v hv => ?_,
    fun data hdata => ?_, fun place data hdata => ?_⟩
  · exact absurd hrow (h.notYet.no_part place row)
  · exact absurd hrow (h.notYet.no_part place row)
  · rw [h.parts place] at hv
    cases hv
  · exact absurd hv (h.notYet.no_blob _ v rfl)
  · rw [h.notYet.no_object] at hdata
    cases hdata
  · rw [h.regions place] at hdata
    cases hdata

end Events

end Doci
