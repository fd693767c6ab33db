import Doci.CallContracts
import Doci.PageKinds
import Doci.PurgeWindow

/-! The calls of the services against what a part's blob is recorded as, and what `get_page_image`
shows after any of their runs. -/

namespace Doci

open Coroutine ReadCommitted

def pageContract (cfg : MediaConfig) (document : DocumentId) (locator : String) (source : PageSource) :
    Contract DocReply Exc Store where
  meaning := Store.meaning
  inv := PagesSound cfg document locator source
  rely := KeysKept
  guar := KeysKept
  fate := fun _ _ _ => True
  rely_refl := KeysKept.refl
  rely_trans := KeysKept.trans

section Calls

variable {cfg : MediaConfig} {document : DocumentId} {locator : String} {source : PageSource}
  {s : Store} {α β : Type}

/-- The program stores nothing else of the part. -/
def Shares (cfg : MediaConfig) (document : DocumentId) (locator : String) (source : PageSource)
    (p : DocProg α) (s : Store) : Prop :=
  Keeps (pageContract cfg document locator source) (fun _ _ => True) p s

/-- The statement is safe, and what its reply tells stays so. -/
theorem keeps_safe {c : DocCmd} {A : DocReply c → Store → Prop}
    (hsafe : ∀ t, KeysKept s t → PageSafe document locator source t c)
    (htells : ∀ t reply, PagesSound cfg document locator source t → (Store.meaning c t).1 = .ok reply →
      A reply (Store.meaning c t).2)
    (hstable : ∀ reply t u, A reply t → KeysKept t u → A reply u) :
    Keeps (pageContract cfg document locator source) (Ends A fun _ => True) (statement c) s := by
  apply Keeps.perform
  intro t hrely hinv fate _
  obtain ⟨hsound, hkept⟩ := PagesSound.step hinv (hsafe t hrely)
  cases fate with
  | lost e => exact ⟨hinv, KeysKept.refl t, fun _ _ _ => trivial⟩
  | late e => exact ⟨hsound, hkept, fun _ _ _ => trivial⟩
  | done =>
    refine ⟨hsound, hkept, fun u hu _ => Ends.intro (fun reply hreply => ?_) fun _ _ => trivial⟩
    exact hstable reply _ u (htells t reply hinv hreply) hu

theorem shares_uses {p : DocProg α}
    (huses : p.Uses fun c => ∀ t, PageSafe document locator source t c) :
    Shares cfg document locator source p s := by
  refine Keeps.of_uses (A := fun _ => True) huses (fun _ _ _ _ _ => trivial)
    (fun c t fate hsafe hinv _ _ => ?_) trivial
  obtain ⟨hsound, hkept⟩ := PagesSound.step hinv (hsafe t)
  rcases outcome_snd Store.meaning c t fate with hsnd | hsnd
  · rw [show (pageContract cfg document locator source).meaning = Store.meaning from rfl, hsnd]
    exact ⟨hsound, hkept, trivial⟩
  · rw [show (pageContract cfg document locator source).meaning = Store.meaning from rfl, hsnd]
    exact ⟨hinv, KeysKept.refl t, trivial⟩

theorem shares_statement {c : DocCmd} (hsafe : ∀ t, PageSafe document locator source t c) :
    Shares cfg document locator source (statement c) s :=
  shares_uses (uses_statement hsafe)

theorem shares_ret (value : α) : Shares cfg document locator source (.ret value) s :=
  fun _ _ _ => trivial

theorem Shares.bind {p : DocProg α} {next : α → DocProg β}
    (h : Shares cfg document locator source p s) (hinv : PagesSound cfg document locator source s)
    (hnext : ∀ value t, PagesSound cfg document locator source t →
      Shares cfg document locator source (next value) t) :
    Shares cfg document locator source (p.bind next) s :=
  Keeps.bind h hinv (fun value t hinv _ => hnext value t hinv) fun _ _ _ _ => trivial

theorem shares_after {p : DocProg α} {next : α → DocProg β} {A : α → Store → Prop}
    (h : Keeps (pageContract cfg document locator source) (Ends A fun _ => True) p s)
    (hinv : PagesSound cfg document locator source s)
    (hnext : ∀ value t, PagesSound cfg document locator source t → A value t →
      Shares cfg document locator source (next value) t) :
    Shares cfg document locator source (p.bind next) s :=
  h.bind hinv hnext fun _ _ _ _ => trivial

theorem shares_transaction {session : Session} {body : Time → DocProg α}
    (hbody : ∀ now t, PagesSound cfg document locator source t → KeysKept s t →
      Shares cfg document locator source (body now) t)
    (hinv : PagesSound cfg document locator source s) :
    Shares cfg document locator source (transaction session body) s := by
  have hbegin : Keeps (pageContract cfg document locator source)
      (Ends (fun _ t => KeysKept s t) fun _ => True) (statement (.begin session)) s := by
    apply Keeps.perform
    intro t hrely hinv fate _
    have hstate : (outcome Store.meaning (.begin session) t fate).2 = t := by cases fate <;> rfl
    rw [show (pageContract cfg document locator source).meaning = Store.meaning from rfl, hstate]
    exact ⟨hinv, KeysKept.refl t, fun u hu _ => Ends.intro (fun _ _ => hrely.trans hu) fun _ _ => trivial⟩
  apply shares_after hbegin hinv
  intro now t hinv hkept
  apply Keeps.tryCatch (Q := fun _ _ => True) ?_ hinv (fun _ _ _ _ => trivial)
  · intro e u hinv _
    have hrollback : Shares cfg document locator source
        ((statement (.rollback session)).tryCatch fun _ => .ret ()) u :=
      Keeps.tryCatch (Q := fun _ _ => True) (shares_statement fun _ => trivial) hinv
        (fun _ _ _ _ => trivial) fun _ _ _ _ => shares_ret ()
    exact hrollback.bind hinv fun _ _ _ _ _ _ => trivial
  · apply Shares.bind (hbody now t hinv hkept) hinv
    intro value u hinv
    have hcommit : Shares cfg document locator source (statement (.commit session)) u :=
      shares_statement fun _ => trivial
    exact hcommit.bind hinv fun _ v _ => shares_ret value

theorem keeps_upsertBlob {session : Option Session} {key : ObjectKey} {mime : Option Mime}
    {size : Option Nat} (hregion : key = .region document locator → source.Records mime)
    (horiginal : source = .standalone → key = .original document → source.Records mime) :
    Keeps (pageContract cfg document locator source)
      (Ends (fun media t => t.mediaKey media.row.id = some key) fun _ => True)
      (statement (.insertBlob session key mime size)) s := by
  have hsafe : ∀ t, PageSafe document locator source t (.insertBlob session key mime size) :=
    fun _ => ⟨hregion, horiginal⟩
  apply keeps_safe fun t _ => hsafe t
  · intro t media hinv hreply
    obtain rfl : (t.insertBlob session key mime size).1 = media := Except.ok.inj hreply
    exact (hinv.insertBlob (hsafe t)).2.2
  · exact fun media t u hkey hkept => hkept.media _ _ hkey

theorem shares_reread (id : DocumentId) (place : String) :
    Shares cfg document locator source ((statement (.partByLocator id place)).bind partFromRow) s := by
  apply shares_uses
  apply Prog.Uses.bind (uses_statement fun _ => trivial)
  intro found
  cases found <;> trivial

theorem PageSource.Stores.records {kind : PartKind} {mime : Option Mime} (h : source.Stores kind mime) :
    source.Records mime := by
  cases source with
  | split page => exact (Prod.mk.inj h).2
  | standalone => exact h.elim

theorem shares_insertPart {session : Option Session} {id : DocumentId} {place : String} {kind : PartKind}
    {page : Option Nat} {media : MediaId}
    (hsafe : ∀ t, KeysKept s t → PageSafe document locator source t
      (.insertPart session id place kind page media)) :
    Shares cfg document locator source (statement (.insertPart session id place kind page media)) s := by
  have hkeeps : Keeps (pageContract cfg document locator source) (Ends (fun _ _ => True) fun _ => True)
      (statement (.insertPart session id place kind page media)) s :=
    keeps_safe hsafe (fun _ _ _ _ => trivial) fun _ _ _ _ _ => trivial
  exact hkeeps.weaken fun _ _ _ _ => trivial

theorem shares_ensurePart {session : Session} {id : DocumentId} {place : String} {kind : PartKind}
    {data : Bytes} {mime : Option Mime} {page : Option Nat}
    (hstores : id = document → place = locator → source.Stores kind mime)
    (hinv : PagesSound cfg document locator source s) :
    Shares cfg document locator source (ensurePart session id place kind data mime page) s := by
  have hread : Shares cfg document locator source (statement (.partByLocator id place)) s :=
    shares_statement fun _ => trivial
  apply hread.bind hinv
  intro existing t hinv
  split
  · exact shares_ret _
  · have hrender : Keeps (pageContract cfg document locator source)
        (Ends (fun rendered _ => rendered.2 = mime) fun _ => True) (statement (.render data mime)) t := by
      have hsafe : ∀ u, PageSafe document locator source u (.render data mime) := fun _ => trivial
      apply keeps_safe fun u _ => hsafe u
      · intro u rendered _ hreply
        exact congrArg Prod.snd (Except.ok.inj hreply).symm
      · exact fun _ _ _ hmime _ => hmime
    apply shares_after hrender hinv
    rintro ⟨data, mime⟩ u hinv rfl
    have hupload : Shares cfg document locator source (statement (.uploadObject (.region id place) data)) u :=
      shares_statement fun _ => nofun
    apply hupload.bind hinv
    intro _ v hinv
    have hfile : Shares cfg document locator source (transaction session fun _ => do
        let media ← statement (.insertBlob (some session) (.region id place) mime (some data.length))
        statement (.insertPart (some session) id place kind page media.row.id)) v := by
      apply shares_transaction ?_ hinv
      intro now w hinv _
      have hupsert : Keeps (pageContract cfg document locator source)
          (Ends (fun media t => t.mediaKey media.row.id = some (.region id place)) fun _ => True)
          (statement (.insertBlob (some session) (.region id place) mime (some data.length))) w := by
        apply keeps_upsertBlob
        · intro hkey
          obtain ⟨rfl, rfl⟩ := ObjectKey.region.inj hkey
          exact (hstores rfl rfl).records
        · exact fun _ hkey => nomatch hkey
      apply shares_after hupsert hinv
      intro media x hinv hkey
      apply shares_insertPart
      rintro y hkept rfl rfl
      exact .inl (hkept.media _ _ hkey)
    apply hfile.bind hinv
    intro inserted w _
    cases inserted with
    | some part => exact shares_ret part
    | none => exact shares_reread id place

/-- The blob of a document that was found is its upload. -/
theorem fetched_original {t : Store} {id : DocumentId} {includeDeleted : Bool} {doc : DocumentRecord}
    (hinv : PagesSound cfg document locator source t)
    (h : t.fetchDocument id includeDeleted = some doc) :
    t.mediaKey doc.row.mediaId = some (.original id) ∧ doc.objectKey = .original id := by
  simp only [Store.fetchDocument, Option.bind_eq_bind, Option.bind_eq_some_iff] at h
  obtain ⟨row, hrow, ⟨key, blob⟩, hblob, hdoc⟩ := h
  rw [Option.ite_none_left_eq_some] at hdoc
  obtain rfl := Option.some.inj hdoc.2
  have hkey := hinv.original id row (Slot.has_of_view hrow)
  obtain ⟨key', hkey', hview⟩ := Option.bind_eq_some_iff.mp hblob
  obtain ⟨_, _, heq⟩ := Option.map_eq_some_iff.mp hview
  refine ⟨hkey, ?_⟩
  rw [← (Prod.mk.inj heq).1]
  exact Option.some.inj (hkey'.symm.trans hkey)

theorem keeps_fetched (id : DocumentId) (includeDeleted : Bool)
    (hinv : PagesSound cfg document locator source s) :
    Keeps (pageContract cfg document locator source)
      (Ends (fun doc t => t.mediaKey doc.row.mediaId = some (.original id) ∧
        doc.objectKey = .original id) fun _ => True) (fetch id includeDeleted) s := by
  have hread : Keeps (pageContract cfg document locator source)
      (Ends (fun found t => ∀ doc, found = some doc →
        t.mediaKey doc.row.mediaId = some (.original id) ∧ doc.objectKey = .original id) fun _ => True)
      (statement (.fetchDocument id includeDeleted)) s := by
    have hsafe : ∀ t, PageSafe document locator source t (.fetchDocument id includeDeleted) :=
      fun _ => trivial
    apply keeps_safe fun t _ => hsafe t
    · rintro t found hinv hreply doc rfl
      exact fetched_original hinv (Except.ok.inj hreply)
    · exact fun found t u hfound hkept doc hdoc =>
        ⟨hkept.media _ _ (hfound doc hdoc).1, (hfound doc hdoc).2⟩
  apply hread.andThen hinv
  intro found t _ hfound
  cases found with
  | none => exact fun _ _ _ => trivial
  | some doc => exact fun u hu _ => ⟨hu.media _ _ (hfound doc rfl).1, (hfound doc rfl).2⟩

theorem shares_fetch (id : DocumentId) (includeDeleted : Bool)
    (hinv : PagesSound cfg document locator source s) :
    Shares cfg document locator source (fetch id includeDeleted) s :=
  (keeps_fetched id includeDeleted hinv).weaken fun _ _ _ _ => trivial

theorem shares_requestUpload {session : Session} {id : DocumentId} {name : Option String}
    (hinv : PagesSound cfg document locator source s) :
    Shares cfg document locator source (requestUpload session id name) s := by
  have hfile : Shares cfg document locator source (transaction session fun _ => do
      let media ← statement (.insertBlob (some session) (.original id) none none)
      statement (.insertDocument (some session) id media.row.id name)) s := by
    apply shares_transaction ?_ hinv
    intro now t hinv _
    have hupsert : Keeps (pageContract cfg document locator source)
        (Ends (fun media t => t.mediaKey media.row.id = some (.original id)) fun _ => True)
        (statement (.insertBlob (some session) (.original id) none none)) t := by
      apply keeps_upsertBlob
      · exact fun hkey => nomatch hkey
      · rintro rfl _ m ⟨⟩
    apply shares_after hupsert hinv
    intro media u hinv hkey
    have hinsert : Keeps (pageContract cfg document locator source) (Ends (fun _ _ => True) fun _ => True)
        (statement (.insertDocument (some session) id media.row.id name)) u := by
      apply keeps_safe
      · exact fun t hkept => hkept.media _ _ hkey
      · exact fun _ _ _ _ => trivial
      · exact fun _ _ _ _ _ => trivial
    exact hinsert.weaken fun _ _ _ _ => trivial
  apply hfile.bind hinv
  intro _ t hinv
  have hpresign : Shares cfg document locator source (statement (.presignPut (.original id))) t :=
    shares_statement fun _ => trivial
  exact hpresign.bind hinv fun _ u _ => shares_ret id

theorem shares_ensureSourcePart {id : DocumentId} {kind : PartKind}
    (hsource : id = document → locator = pageLocator 1 → source = .standalone)
    (hinv : PagesSound cfg document locator source s) :
    Shares cfg document locator source (ensureSourcePart id kind) s := by
  have hread : Shares cfg document locator source (statement (.partByLocator id (pageLocator 1))) s :=
    shares_statement fun _ => trivial
  apply hread.bind hinv
  intro existing t hinv
  cases existing with
  | some part => exact shares_ret part
  | none =>
    apply shares_after (keeps_fetched id false hinv) hinv
    rintro doc u hinv ⟨hkey, _⟩
    apply Shares.bind (shares_insertPart ?_) hinv
    · intro inserted v _
      cases inserted with
      | some part => exact shares_ret part
      | none => exact shares_reread id (pageLocator 1)
    · rintro v hkept rfl hplace
      exact .inr ⟨hsource rfl hplace.symm, hkept.media _ _ hkey⟩

theorem keeps_validated {id : DocumentId} {key : ObjectKey} {name : Option String}
    (hkey : key = .original id) (hinv : PagesSound cfg document locator source s) :
    Keeps (pageContract cfg document locator source)
      (Ends (fun found _ => id = document → source = .standalone → found.1.isImage = true) fun _ => True)
      (validateStored cfg key name) s := by
  subst hkey
  have hstream : Keeps (pageContract cfg document locator source)
      (Ends (fun data _ => id = document → source = .standalone → ImageUpload cfg document data)
        fun _ => True) (statement (.streamObject (.original id))) s := by
    have hsafe : ∀ t, PageSafe document locator source t (.streamObject (.original id)) := fun _ => trivial
    apply keeps_safe fun t _ => hsafe t
    · rintro t data hinv hreply rfl hs
      apply hinv.object hs data
      unfold Store.meaning at hreply
      cases hobject : t.objects (.original id) with
      | none => simp [hobject] at hreply
      | some object =>
        simp only [hobject] at hreply
        rw [Except.ok.inj hreply]
    · exact fun _ _ _ hdata _ => hdata
  apply hstream.andThen hinv
  intro data t _ hdata
  split
  · next found hfound =>
    intro u _ _ hid hs
    subst hid
    exact hdata rfl hs name found.1 found.2 hfound
  · exact fun _ _ _ => trivial

theorem shares_finalize {session : Session} {id : DocumentId}
    (hinv : PagesSound cfg document locator source s) :
    Shares cfg document locator source (finalize cfg session id) s := by
  apply shares_after (keeps_fetched id false hinv) hinv
  rintro doc t hinv ⟨hkey, hobject⟩
  apply Keeps.ite
  · exact fun _ _ _ _ => trivial
  · intro _
    refine shares_after (A := fun found u =>
      (id = document → source = .standalone → found.1.isImage = true) ∧
        u.mediaKey doc.row.mediaId = some (.original id)) ?_ hinv ?_
    · have hread := @keeps_validated cfg document locator source t id doc.objectKey doc.row.name hobject hinv
      apply (hread.along hkey (fun _ _ hk hkept => hkept.media _ _ hk)
        fun _ _ hk hkept => hkept.media _ _ hk).tryCatch hinv
      · exact fun found u _ hfound => hfound
      · intro e u hinv _
        have hmark : Shares cfg document locator source (statement (.setStatus none id .invalid)) u :=
          shares_statement fun _ => trivial
        have hthrow : ∀ v, Keeps (pageContract cfg document locator source)
            (Ends (fun found u => (id = document → source = .standalone → found.1.isImage = true) ∧
              u.mediaKey doc.row.mediaId = some (.original id)) fun _ => True)
            (.throw e : DocProg (Mime × Nat)) v := fun _ _ _ _ => trivial
        split
        · exact Keeps.bind hmark hinv (fun _ v _ _ => hthrow v) fun _ _ _ _ => trivial
        · exact Keeps.bind hmark hinv (fun _ v _ _ => hthrow v) fun _ _ _ _ => trivial
        · exact hthrow u
    rintro ⟨mime, size⟩ u hinv ⟨himage, hkey⟩
    apply Shares.bind ?_ hinv
    · exact fun _ v hinv => shares_fetch id true hinv
    · apply shares_transaction ?_ hinv
      intro now v hinv hkept
      have hset : Keeps (pageContract cfg document locator source) (Ends (fun _ _ => True) fun _ => True)
          (statement (.setContent (some session) doc.row.mediaId mime size)) v := by
        apply keeps_safe
        · exact fun w hkept' => ⟨id, hkept'.media _ _ (hkept.media _ _ hkey), himage⟩
        · exact fun _ _ _ _ => trivial
        · exact fun _ _ _ _ _ => trivial
      apply shares_after hset hinv
      exact fun _ w _ _ => shares_statement fun _ => trivial

theorem shares_ensureThumb (blob : MediaId) (data : Bytes) (mime : Option Mime) :
    Shares cfg document locator source (ensureThumb blob data mime) s := by
  apply shares_uses
  apply Prog.Uses.bind
  · apply (uses_statement fun _ => trivial).bind
    intro found
    cases found <;> trivial
  · intro src
    apply (uses_statement fun _ => trivial).bind
    intro existing
    cases existing with
    | some record => trivial
    | none =>
      apply (uses_statement fun _ => trivial).bind
      rintro ⟨data, mime⟩
      apply (uses_statement fun _ => nofun).bind
      exact fun _ => uses_statement fun _ => ⟨nofun, nofun⟩

theorem shares_delete {session : Session} {ids : List DocumentId}
    (hinv : PagesSound cfg document locator source s) :
    Shares cfg document locator source (delete cfg session ids) s := by
  apply Keeps.ite
  · exact fun _ => shares_ret 0
  · intro _
    apply shares_transaction ?_ hinv
    intro now t hinv _
    apply shares_uses
    apply (uses_statement fun _ => trivial).bind
    intro blobs
    apply (uses_statement fun _ => trivial).bind
    exact fun _ => uses_statement fun _ => trivial

theorem shares_softDeleteInvalid {session : Session} (hinv : PagesSound cfg document locator source s) :
    Shares cfg document locator source (softDeleteInvalid cfg session) s := by
  have hread : Shares cfg document locator source (statement .invalidDocuments) s :=
    shares_statement fun _ => trivial
  apply hread.bind hinv
  intro ids t hinv
  apply Keeps.ite
  · exact fun _ => shares_ret 0
  · exact fun _ => shares_delete hinv

theorem uses_purgeObjects (rows : List (MediaId × ObjectKey)) :
    (purgeObjects rows).Uses fun c => ∀ t, PageSafe document locator source t c := by
  induction rows with
  | nil => trivial
  | cons row rows ih =>
    apply Prog.Uses.bind
    · apply Prog.Uses.tryCatch
      · exact (uses_statement fun _ => trivial).bind fun _ => trivial
      · exact fun _ => trivial
    · exact fun _ => ih.bind fun _ => trivial

theorem shares_purgeExpired (hinv : PagesSound cfg document locator source s) :
    Shares cfg document locator source purgeExpired s := by
  have hread : Shares cfg document locator source (statement .expired) s :=
    shares_statement fun _ => trivial
  apply hread.bind hinv
  intro rows t hinv
  apply Keeps.ite
  · exact fun _ => shares_ret 0
  · intro _
    apply Shares.bind (shares_uses (uses_purgeObjects rows)) hinv
    intro ids u hinv
    apply Keeps.ite
    · exact fun _ => shares_ret 0
    · exact fun _ => shares_statement fun _ => trivial

end Calls

section Runs

variable {cfg : MediaConfig} {document : DocumentId} {locator : String} {source : PageSource}
  {s t : Store}

theorem shares_call {session : Session} {call : ServiceCall} {c : Config DocReply Exc Store CallTag}
    (hok : MinedFrom cfg document locator source c (.env (.call call)))
    (hinv : PagesSound cfg document locator source s) :
    Shares cfg document locator source (startCall cfg session call).prog s := by
  have hcall : Shares cfg document locator source (call.run cfg session) s := by
    cases call with
    | requestUpload name => exact shares_requestUpload hinv
    | finalize id => exact shares_finalize hinv
    | getDocument id => exact shares_fetch id false hinv
    | ensurePart id place kind data mime page => exact shares_ensurePart hok hinv
    | ensureSourcePart id kind => exact shares_ensureSourcePart hok hinv
    | setPartThumb part thumb => exact shares_statement fun _ => trivial
    | setPageCount id count => exact shares_statement fun _ => trivial
    | ensureThumb blob data mime => exact shares_ensureThumb blob data mime
    | delete ids => exact shares_delete hinv
    | softDeleteInvalid => exact shares_softDeleteInvalid hinv
    | purgeExpired => exact shares_purgeExpired hinv
  exact hcall.bind hinv fun _ t _ => shares_ret ()

theorem PagesSound.event (h : PagesSound cfg document locator source s) {e : StoreEvent}
    {new : List (Thread DocReply Exc CallTag)} {c : Config DocReply Exc Store CallTag}
    (hok : MinedFrom cfg document locator source c (.env e)) (henv : storeEvent cfg s e = some (t, new)) :
    PagesSound cfg document locator source t ∧ KeysKept s t := by
  cases e with
  | call call =>
    obtain ⟨rfl, -⟩ := Prod.mk.inj (Option.some.inj henv)
    exact ⟨⟨fun m k hk => (h.key_lt m k hk).trans (Nat.lt_succ_self _),
      fun p k hp => (h.part_lt p k hp).trans (Nat.lt_succ_self _), h.keyed, h.original, h.page, h.stored,
      h.uploaded, h.object⟩, fun _ _ hk => hk, fun _ _ hp => hp⟩
  | put id data =>
    obtain ⟨rfl, -⟩ := Prod.mk.inj (Option.some.inj henv)
    refine ⟨⟨h.key_lt, h.part_lt, h.keyed, h.original, h.page, h.stored, h.uploaded,
      fun hs object hobject => ?_⟩, fun _ _ hk => hk, fun _ _ hp => hp⟩
    by_cases hid : id = document
    · subst hid
      obtain rfl := Option.some.inj ((if_pos rfl).symm.trans hobject)
      exact hok rfl hs
    · have hne : ObjectKey.original document ≠ .original id := fun hkey => hid (ObjectKey.original.inj hkey).symm
      exact h.object hs object ((if_neg hne).symm.trans hobject)
  | tick duration =>
    obtain ⟨rfl, -⟩ := Prod.mk.inj (Option.some.inj henv)
    exact ⟨⟨h.key_lt, h.part_lt, h.keyed, h.original, h.page, h.stored, h.uploaded, h.object⟩,
      fun _ _ hk => hk, fun _ _ hp => hp⟩

theorem PagesSound.rollback (h : PagesSound cfg document locator source s) (session : Session) :
    PagesSound cfg document locator source (s.rollback session) ∧ KeysKept s (s.rollback session) :=
  h.step (c := .rollback session) trivial

def pageDiscipline (cfg : MediaConfig) (document : DocumentId) (locator : String) (source : PageSource) :
    Discipline (serviceCalls cfg) (MinedFrom cfg document locator source) where
  inv := PagesSound cfg document locator source
  contract := fun _ => pageContract cfg document locator source
  post := fun _ _ _ => True
  apart := fun _ _ => True
  meaning_eq := fun _ => rfl
  inv_eq := fun _ => rfl
  apart_symm := fun _ => trivial
  others := fun _ _ _ hguar => hguar
  fates := fun _ _ _ _ _ => trivial
  exit_keeps := fun _ _ _ ht => nomatch ht
  exit_apart := fun _ ht => nomatch ht
  exit_pairwise := List.Pairwise.nil
  death_inv := fun _ _ hinv => (hinv.rollback _).1
  death_rely := fun _ _ hinv _ => (hinv.rollback _).2
  env_inv := fun hok henv hinv => (hinv.event hok henv).1
  env_rely := fun hok henv hinv _ _ => (hinv.event hok henv).2
  env_keeps := by
    intro c e t new hok henv hinv u hu
    have hsound := (hinv.event hok henv).1
    cases e with
    | call call =>
      obtain ⟨-, rfl⟩ := Prod.mk.inj (Option.some.inj henv)
      obtain rfl := List.mem_singleton.mp hu
      exact shares_call hok hsound
    | put id data =>
      obtain ⟨-, rfl⟩ := Prod.mk.inj (Option.some.inj henv)
      exact nomatch hu
    | tick duration =>
      obtain ⟨-, rfl⟩ := Prod.mk.inj (Option.some.inj henv)
      exact nomatch hu
  env_apart := fun _ _ _ => ⟨List.pairwise_of_forall fun _ _ => trivial, fun _ _ _ _ => trivial⟩

theorem pages_safe (h : PagesSound cfg document locator source s) :
    (pageDiscipline cfg document locator source).Safe ⟨s, []⟩ :=
  ⟨h, nofun, List.Pairwise.nil⟩

variable {c d : Config DocReply Exc Store CallTag}

theorem keys_reach (hsafe : (pageDiscipline cfg document locator source).Safe c)
    (reach : Reach (serviceCalls cfg) (MinedFrom cfg document locator source) c d) :
    (pageDiscipline cfg document locator source).Safe d ∧ KeysKept c.shared d.shared := by
  refine reach.invariant (I := fun d => (pageDiscipline cfg document locator source).Safe d ∧
    KeysKept c.shared d.shared) ⟨hsafe, KeysKept.refl _⟩ ?_
  rintro d e move ⟨hsafe, hkept⟩ hok h
  have hstep : KeysKept d.shared e.shared :=
    hsafe.step_rel hok h KeysKept.refl (fun _ _ hguar => hguar)
      (fun _ _ => ⟨fun _ _ hk => hk, fun _ _ hp => hp⟩)
      fun hok henv => (PagesSound.event hsafe.inv hok henv).2
  exact ⟨hsafe.step hok h, hkept.trans hstep⟩

/-- A store from before the document's upload. -/
structure NotYet (document : DocumentId) (s : Store) : Prop where
  key_lt : ∀ m k, s.mediaKey m = some k → m < s.fresh
  part_lt : ∀ p k, s.partKey p = some k → p < s.fresh
  keyed : ∀ k v, (s.media.slot k).Has v → s.mediaKey v.id = some k
  original : ∀ e row, (s.document.slot e).Has row → s.mediaKey row.mediaId = some (.original e)
  no_blob : ∀ k v, k.document = document → ¬ (s.media.slot k).Has v
  no_part : ∀ place row, ¬ (s.part.slot (document, place)).Has row
  no_object : s.objects (.original document) = none

theorem NotYet.sound (h : NotYet document s) : PagesSound cfg document locator source s where
  key_lt := h.key_lt
  part_lt := h.part_lt
  keyed := h.keyed
  original := h.original
  page := fun row _ hrow => absurd hrow (h.no_part locator row)
  stored := fun v hv => absurd hv (h.no_blob _ v rfl)
  uploaded := fun _ v hv => absurd hv (h.no_blob _ v rfl)
  object := fun _ data hdata => by
    rw [h.no_object] at hdata
    cases hdata

theorem partMedia_row {p : PartId} {key : DocumentId × String} {m : MediaId}
    (h : s.partMedia p = some (some m)) (hkey : s.partKey p = some key) :
    ∃ row, (s.part.slot key).Has row ∧ row.mediaId = some m := by
  obtain ⟨found, hfound, hmedia⟩ := Option.map_eq_some_iff.mp h
  obtain ⟨key', hkey', hview⟩ := Option.bind_eq_some_iff.mp hfound
  obtain ⟨row, hrow, rfl⟩ := Option.map_eq_some_iff.mp hview
  obtain rfl := Option.some.inj (hkey.symm.trans hkey')
  exact ⟨row, Slot.has_of_view (Option.filter_eq_some_iff.mp hrow).1, hmedia⟩

theorem mediaById_row {m : MediaId} {record : MediaRecord} (h : s.mediaById m = some record) :
    s.mediaKey m = some record.objectKey ∧ (s.media.slot record.objectKey).Has record.row := by
  obtain ⟨found, hfound, rfl⟩ := Option.map_eq_some_iff.mp h
  obtain ⟨key, hkey, hview⟩ := Option.bind_eq_some_iff.mp (Option.filter_eq_some_iff.mp hfound).1
  obtain ⟨row, hrow, rfl⟩ := Option.map_eq_some_iff.mp hview
  exact ⟨hkey, Slot.has_of_view (Option.filter_eq_some_iff.mp hrow).1⟩

def shownType (mime : Option Mime) : String := (mime.map Mime.text).getD "image/png"

def ImageType (mimeType : String) : Prop := "image/".toList <+: mimeType.toList

instance (mimeType : String) : Decidable (ImageType mimeType) := inferInstanceAs (Decidable (_ <+: _))

theorem imageType_text (mime : Mime) : ImageType mime.text ↔ mime.isImage = true := by
  cases mime <;> decide

theorem shownType_iff {mime : Option Mime} (h : source.Records mime) :
    ImageType (shownType mime) ↔ source.isText = false := by
  cases source with
  | split page =>
    obtain rfl : mime = _ := h
    cases hkind : classifyPage page <;> simp [PageSource.isText, shownType, hkind, storedPage,
      imageType_text, Mime.isImage]
  | standalone =>
    cases mime with
    | none => exact iff_of_true (by decide) rfl
    | some mime => exact iff_of_true ((imageType_text mime).mpr (h mime rfl)) rfl

end Runs

section Shown

/-- The type is that of an image, and the data decode to what is stored for the part's blob. -/
def ShowsPage (pid : PartId) (looks : List (PageCmd × Store)) (mimeType data : String) : Prop :=
  ImageType mimeType ∧ ∃ s₁ s₂ s₃ media record object, (PageCmd.partMedia pid, s₁) ∈ looks ∧
    s₁.partMedia pid = some (some media) ∧ (PageCmd.fetchMedia media, s₂) ∈ looks ∧
    s₂.mediaById media = some record ∧ (PageCmd.download record.objectKey, s₃) ∈ looks ∧
    s₃.objects record.objectKey = some object ∧ Base64.decode data.toList = some object

variable {cfg : MediaConfig} {document : DocumentId} {locator : String} {source : PageSource}
  {repr : String → String} {readId : String → Option PartId} {partId : String} {pid : PartId}
  {start : Store} {c d : Config DocReply Exc Store CallTag} {looks : List (PageCmd × Store)}
  {text mimeType data : String}

/-- The part's blob is recorded as its source says whenever the tool reads it. -/
theorem read_records (hstart : NotYet document start)
    (reach : Reach (serviceCalls cfg) (MinedFrom cfg document locator source) ⟨start, []⟩ c)
    (hpart : c.shared.partKey pid = some (document, locator))
    (hpassed : ∀ look ∈ looks, ∃ e, look.2 = e.shared ∧
      Reach (serviceCalls cfg) (MinedFrom cfg document locator source) c e ∧
      Reach (serviceCalls cfg) (MinedFrom cfg document locator source) e d)
    {s₁ s₂ : Store} {media : MediaId} {record : MediaRecord} (h₁ : (PageCmd.partMedia pid, s₁) ∈ looks)
    (hmedia : s₁.partMedia pid = some (some media)) (h₂ : (PageCmd.fetchMedia media, s₂) ∈ looks)
    (hrecord : s₂.mediaById media = some record) : source.Records record.row.mimeType := by
  have hsafe : (pageDiscipline cfg document locator source).Safe c :=
    reach.safe _ (pages_safe hstart.sound)
  obtain ⟨e₁, rfl, hfrom₁, hto₁⟩ := hpassed _ h₁
  obtain ⟨e₂, rfl, hfrom₂, hto₂⟩ := hpassed _ h₂
  obtain ⟨hsafe₁, hkept₁⟩ := keys_reach hsafe hfrom₁
  obtain ⟨hsafe₂, _⟩ := keys_reach hsafe hfrom₂
  have hinv₁ : PagesSound cfg document locator source e₁.shared := hsafe₁.inv
  have hinv₂ : PagesSound cfg document locator source e₂.shared := hsafe₂.inv
  obtain ⟨row, hrow, hid⟩ := partMedia_row hmedia (hkept₁.part _ _ hpart)
  have hpage := hinv₁.page row media hrow hid
  obtain ⟨hkey₂, hhas⟩ := mediaById_row hrecord
  -- both reads agree on the blob's key, since the last state keeps it
  have hlast₁ := (keys_reach hsafe₁ hto₁).2.media
  have hlast₂ := (keys_reach hsafe₂ hto₂).2.media _ _ hkey₂
  rcases hpage with hregion | ⟨hs, horiginal⟩
  · have hsame := Option.some.inj (hlast₂.symm.trans (hlast₁ _ _ hregion))
    exact hinv₂.stored _ (hsame ▸ hhas)
  · have hsame := Option.some.inj (hlast₂.symm.trans (hlast₁ _ _ horiginal))
    exact hinv₂.uploaded hs _ (hsame ▸ hhas)

/-- Whatever the calls do, the tool shows the part as an image exactly when it is not a text page. -/
theorem page_shown_iff (hstart : NotYet document start)
    (reach : Reach (serviceCalls cfg) (MinedFrom cfg document locator source) ⟨start, []⟩ c)
    (hid : readId partId = some pid) (hpart : c.shared.partKey pid = some (document, locator))
    (h : (getPageImage repr readId partId).Within (serviceCalls cfg)
      (MinedFrom cfg document locator source) Store.pageLook c looks d
      (.ok (.blocks text mimeType data))) :
    ShowsPage pid looks mimeType data ↔ source.isText = false := by
  rcases getPageImage_cases h.beside with ⟨_, _, heq⟩ | ⟨_, _, heq⟩ |
    ⟨_, pid', media, record, found, object, hread, heq⟩
  · cases heq
  · cases heq
  · obtain ⟨-, rfl, rfl⟩ := PageAnswer.blocks.inj (Except.ok.inj heq)
    obtain rfl := Option.some.inj (hid.symm.trans hread.id)
    obtain ⟨s₁, s₂, s₃, s₄, rfl, hmedia, hrecord, hfound, hobject⟩ := hread.looks
    have hrecords : source.Records record.row.mimeType :=
      read_records hstart reach hpart h.passed (.head _) hmedia (.tail _ (.head _)) hrecord
    have hdecode : Base64.decode (String.ofList (Base64.encode object)).toList = some object := by
      rw [String.toList_ofList, Base64.decode_encode]
    rw [← shownType_iff hrecords]
    constructor
    · exact fun hshows => hshows.1
    · intro himage
      exact ⟨himage, s₁, s₃, s₄, media, found, object, by simp, hmedia, by simp, hfound, by simp, hobject,
        hdecode⟩

end Shown

section Example

def emptyStore : Store where
  media := Table.empty
  document := Table.empty
  part := Table.empty
  objects := fun _ => none
  mediaKey := fun _ => none
  partKey := fun _ => none
  snapshots := fun _ => []
  now := 0
  fresh := 0

theorem emptyStore_notYet (document : DocumentId) : NotYet document emptyStore where
  key_lt := nofun
  part_lt := nofun
  keyed := fun _ _ hv => by rcases hv with hv | ⟨_, hv⟩ <;> cases hv
  original := fun _ _ hrow => by rcases hrow with hrow | ⟨_, hrow⟩ <;> cases hrow
  no_blob := fun _ _ _ hv => by rcases hv with hv | ⟨_, hv⟩ <;> cases hv
  no_part := fun _ _ hrow => by rcases hrow with hrow | ⟨_, hrow⟩ <;> cases hrow
  no_object := rfl

/-- A check that pages are stored as the split of `page` stores them. -/
def splitMove (page : PdfPage) : Config DocReply Exc Store CallTag → Move Exc StoreEvent → Bool
  | _, .env (.call (.ensurePart _ _ kind _ mime _)) =>
    (kind, mime) = ((storedPage (classifyPage page)).1, some (storedPage (classifyPage page)).2)
  | _, .env (.call (.ensureSourcePart _ _)) => false
  | _, _ => true

theorem splitMove_mined {cfg : MediaConfig} {document : DocumentId} {locator : String} {page : PdfPage}
    {c : Config DocReply Exc Store CallTag} {move : Move Exc StoreEvent}
    (h : splitMove page c move = true) : MinedFrom cfg document locator (.split page) c move := by
  cases move with
  | env e =>
    cases e with
    | call call =>
      cases call with
      | ensurePart id place kind data mime number =>
        have hstores : (kind, mime) = ((storedPage (classifyPage page)).1,
            some (storedPage (classifyPage page)).2) := of_decide_eq_true h
        exact fun _ _ => hstores
      | ensureSourcePart id kind => cases h
      | _ => trivial
    | put id data => exact fun _ hs => nomatch hs
    | tick duration => trivial
  | _ => trivial

/-- A PDF is uploaded and finalized, and its first page is stored. -/
def firstPage (kind : PartKind) (mime : Mime) : List (Move Exc StoreEvent) :=
  inTurn (.requestUpload none) 5 ++ .env (.put 0 (ascii "%PDF")) :: inTurn (.finalize 0) 7 ++
    inTurn (.ensurePart 0 (pageLocator 1) kind [8] (some mime) (some 1)) 7

def storedFirst (page : PdfPage) : Option (Config DocReply Exc Store CallTag) :=
  (serviceCalls plainConfig).execWhen (splitMove page)
    (firstPage (storedPage (classifyPage page)).1 (storedPage (classifyPage page)).2) ⟨emptyStore, []⟩

def shownFirst (c : Config DocReply Exc Store CallTag) (mime : Mime) : Bool :=
  c.shared.partKey 5 = some (0, pageLocator 1) && c.shared.partMedia 5 = some (some 4) &&
    (c.shared.mediaById 4).any fun record => record.row.mimeType = some mime &&
      record.objectKey = .region 0 (pageLocator 1) &&
      c.shared.objects (.region 0 (pageLocator 1)) = some [8]

def textPage : PdfPage := { textLen := 120, imageCount := 0, hasAnnotations := false }

def scannedPage : PdfPage := { textLen := 0, imageCount := 1, hasAnnotations := false }

theorem shown_first {page : PdfPage} {mime : Mime}
    (h : (storedFirst page).any (shownFirst · mime) = true) : ∃ c looks text data,
      Reach (serviceCalls plainConfig) (MinedFrom plainConfig 0 (pageLocator 1) (.split page))
        ⟨emptyStore, []⟩ c ∧ c.shared.partKey 5 = some (0, pageLocator 1) ∧
      (getPageImage quoted partOf pageId).Within (serviceCalls plainConfig)
        (MinedFrom plainConfig 0 (pageLocator 1) (.split page)) Store.pageLook c looks c
        (.ok (.blocks text mime.text data)) := by
  obtain ⟨c, hc, hshown⟩ := (Option.any_eq_true _ _).mp h
  simp only [shownFirst, Bool.and_eq_true, decide_eq_true_eq, Option.any_eq_true] at hshown
  obtain ⟨⟨hpart, hmedia⟩, record, hrecord, ⟨hmime, hkey⟩, hobject⟩ := hshown
  have hid : partOf pageId = some 5 := by decide +kernel
  refine ⟨c, [(.partMedia 5, c.shared), (.fetchMedia 4, c.shared), (.fetchMedia 4, c.shared),
    (.download record.objectKey, c.shared)], "Page image for part " ++ pageId ++ ":",
    String.ofList (Base64.encode [8]), Reach.start.execWhen (fun _ _ _ => splitMove_mined) hc, hpart, ?_⟩
  rw [getPageImage, hid]
  refine .await .start ?_
  simp only [Store.pageLook, hmedia]
  refine .await .start ?_
  simp only [Store.pageLook, hrecord]
  refine .await .start ?_
  simp only [Store.pageLook, hrecord]
  refine .await .start ?_
  simp only [Store.pageLook, hkey, hobject]
  have hblocks : pageBlocks pageId record [8] = .blocks ("Page image for part " ++ pageId ++ ":")
      mime.text (String.ofList (Base64.encode [8])) := by
    rw [pageBlocks, hmime]
    rfl
  rw [← hblocks]
  exact .ret c _

theorem page_shown_iff_scanned : ∃ looks data, ShowsPage 5 looks "image/png" data := by
  obtain ⟨c, looks, text, data, reach, hpart, h⟩ :=
    @shown_first scannedPage .png (by decide +kernel)
  have hid : partOf pageId = some 5 := by decide +kernel
  exact ⟨looks, data, (page_shown_iff (emptyStore_notYet 0) reach hid hpart h).mpr rfl⟩

theorem text_page_as_pdf : ∃ c looks text data,
    Reach (serviceCalls plainConfig) (MinedFrom plainConfig 0 (pageLocator 1) (.split textPage))
      ⟨emptyStore, []⟩ c ∧ c.shared.partKey 5 = some (0, pageLocator 1) ∧
    (getPageImage quoted partOf pageId).Within (serviceCalls plainConfig)
      (MinedFrom plainConfig 0 (pageLocator 1) (.split textPage)) Store.pageLook c looks c
      (.ok (.blocks text "application/pdf" data)) ∧ ¬ ShowsPage 5 looks "application/pdf" data := by
  obtain ⟨c, looks, text, data, reach, hpart, h⟩ := @shown_first textPage .pdf (by decide +kernel)
  refine ⟨c, looks, text, data, reach, hpart, h, fun hshows => ?_⟩
  have himage : ¬ ImageType "application/pdf" := by decide
  exact himage hshows.1

end Example

end Doci
