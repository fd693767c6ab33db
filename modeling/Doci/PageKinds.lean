import Doci.PageImage
import Doci.ServiceCalls

/-! What a part's blob is recorded as, from the classification of a PDF page or from a standalone
image: what every call of the services leaves of it. -/

namespace Doci

open Coroutine ReadCommitted

inductive PageKind where
  | text | image
  deriving DecidableEq

/-- The signals of `PdfPage` that a page is classified by. -/
structure PdfPage where
  textLen : Nat
  imageCount : Nat
  hasAnnotations : Bool

def classifyPage (page : PdfPage) : PageKind :=
  if page.textLen > 0 ∧ page.imageCount = 0 ∧ page.hasAnnotations = false then .text else .image

/-- What `split_node` stores of a page: the page itself or its rendering. -/
def storedPage : PageKind → PartKind × Mime
  | .text => (.text, .pdf)
  | .image => (.image, .png)

def Mime.isImage : Mime → Bool
  | png | jpeg | gif | webp | bmp | tiff => true
  | _ => false

/-- Where a part comes from: a page of a split PDF, or an image that is its own page. -/
inductive PageSource where
  | split (page : PdfPage)
  | standalone

namespace PageSource

def isText : PageSource → Bool
  | split page => classifyPage page = .text
  | standalone => false

/-- What is passed to `ensure_part`. -/
def Stores : PageSource → PartKind → Option Mime → Prop
  | split page, kind, mime => (kind, mime) = ((storedPage (classifyPage page)).1,
      some (storedPage (classifyPage page)).2)
  | standalone, _, _ => False

/-- What the part's blob may be recorded as. -/
def Records : PageSource → Option Mime → Prop
  | split page, mime => mime = some (storedPage (classifyPage page)).2
  | standalone, mime => ∀ m, mime = some m → m.isImage = true

end PageSource

section Moves

variable (cfg : MediaConfig) (document : DocumentId) (locator : String) (source : PageSource)

/-- The bytes are of an image if `validate_object` takes them at all. -/
def ImageUpload (data : Bytes) : Prop :=
  ∀ name mime size, validate cfg (.original document) data name = .ok (mime, size) →
    mime.isImage = true

/-- The part is mined from the source, and for a standalone image only images are put. -/
def MinedFrom : Config DocReply Exc Store CallTag → Move Exc StoreEvent → Prop
  | _, .env (.call (.ensurePart id place kind _ mime _)) =>
    id = document → place = locator → source.Stores kind mime
  | _, .env (.call (.ensureSourcePart id _)) =>
    id = document → locator = pageLocator 1 → source = .standalone
  | _, .env (.put id data) => id = document → source = .standalone → ImageUpload cfg document data
  | _, _ => True

/-- What holds of the part and of its blob in every state. -/
structure PagesSound (s : Store) : Prop where
  key_lt : ∀ m k, s.mediaKey m = some k → m < s.fresh
  part_lt : ∀ p k, s.partKey p = some k → p < s.fresh
  keyed : ∀ k v, (s.media.slot k).Has v → s.mediaKey v.id = some k
  original : ∀ e row, (s.document.slot e).Has row → s.mediaKey row.mediaId = some (.original e)
  page : ∀ row m, (s.part.slot (document, locator)).Has row → row.mediaId = some m →
    s.mediaKey m = some (.region document locator) ∨
      source = .standalone ∧ s.mediaKey m = some (.original document)
  stored : ∀ v, (s.media.slot (.region document locator)).Has v → source.Records v.mimeType
  uploaded : source = .standalone →
    ∀ v, (s.media.slot (.original document)).Has v → source.Records v.mimeType
  object : source = .standalone → ∀ data, s.objects (.original document) = some data →
    ImageUpload cfg document data

/-- Primary keys stay where they are. -/
structure KeysKept (s t : Store) : Prop where
  media : ∀ m k, s.mediaKey m = some k → t.mediaKey m = some k
  part : ∀ p k, s.partKey p = some k → t.partKey p = some k

/-- A statement that stores nothing else of the part. -/
def PageSafe (s : Store) : DocCmd → Prop
  | .insertBlob _ key mime _ => (key = .region document locator → source.Records mime) ∧
      (source = .standalone → key = .original document → source.Records mime)
  | .setContent _ id mime _ => ∃ e, s.mediaKey id = some (.original e) ∧
      (e = document → source = .standalone → mime.isImage = true)
  | .insertDocument _ id media _ => s.mediaKey media = some (.original id)
  | .insertPart _ id place _ _ media => id = document → place = locator →
      s.mediaKey media = some (.region document locator) ∨
        source = .standalone ∧ s.mediaKey media = some (.original document)
  | .uploadObject key _ => key ≠ .original document
  | _ => True

end Moves

section Effects

variable {cfg : MediaConfig} {document : DocumentId} {locator : String} {source : PageSource}
  {s t u : Store}

theorem KeysKept.refl (s : Store) : KeysKept s s := ⟨fun _ _ h => h, fun _ _ h => h⟩

theorem KeysKept.trans (h : KeysKept s t) (h' : KeysKept t u) : KeysKept s u :=
  ⟨fun m k hk => h'.media m k (h.media m k hk), fun p k hk => h'.part p k (h.part p k hk)⟩

theorem PagesSound.media_changed (h : PagesSound cfg document locator source s)
    {media : Table ObjectKey Session MediaRow}
    (hrows : ∀ k v, (media.slot k).Has v → ∃ w, (s.media.slot k).Has w ∧ v.id = w.id ∧
      (v.mimeType = w.mimeType ∨ (k = .region document locator → source.Records v.mimeType) ∧
        (source = .standalone → k = .original document → source.Records v.mimeType))) :
    PagesSound cfg document locator source { s with media := media } := by
  refine ⟨h.key_lt, h.part_lt, fun k v hv => ?_, h.original, h.page, fun v hv => ?_,
    fun hs v hv => ?_, h.object⟩
  · obtain ⟨w, hw, hid, _⟩ := hrows k v hv
    rw [hid]
    exact h.keyed k w hw
  · obtain ⟨w, hw, _, hmime | ⟨hmime, _⟩⟩ := hrows _ v hv
    · rw [hmime]
      exact h.stored w hw
    · exact hmime rfl
  · obtain ⟨w, hw, _, hmime | ⟨_, hmime⟩⟩ := hrows _ v hv
    · rw [hmime]
      exact h.uploaded hs w hw
    · exact hmime hs rfl

theorem PagesSound.document_changed (h : PagesSound cfg document locator source s)
    {documents : Table DocumentId Session DocumentRow}
    (hrows : ∀ e row, (documents.slot e).Has row → s.mediaKey row.mediaId = some (.original e)) :
    PagesSound cfg document locator source { s with document := documents } :=
  ⟨h.key_lt, h.part_lt, h.keyed, hrows, h.page, h.stored, h.uploaded, h.object⟩

theorem PagesSound.part_changed (h : PagesSound cfg document locator source s)
    {parts : Table (DocumentId × String) Session DocumentPartRow}
    (hrows : ∀ row, (parts.slot (document, locator)).Has row →
      ∃ w, (s.part.slot (document, locator)).Has w ∧ row.mediaId = w.mediaId) :
    PagesSound cfg document locator source { s with part := parts } := by
  refine ⟨h.key_lt, h.part_lt, h.keyed, h.original, fun row m hrow hm => ?_, h.stored, h.uploaded,
    h.object⟩
  obtain ⟨w, hw, hmedia⟩ := hrows row hrow
  exact h.page w m hw (hmedia ▸ hm)

theorem PagesSound.insertBlob (h : PagesSound cfg document locator source s) {session : Option Session}
    {key : ObjectKey} {mime : Option Mime} {size : Option Nat}
    (hsafe : PageSafe document locator source s (.insertBlob session key mime size)) :
    PagesSound cfg document locator source (s.insertBlob session key mime size).2 ∧
      KeysKept s (s.insertBlob session key mime size).2 ∧
      (s.insertBlob session key mime size).2.mediaKey
        (s.insertBlob session key mime size).1.row.id = some key := by
  obtain ⟨hregion, horiginal⟩ := hsafe
  unfold Store.insertBlob
  split
  · next row hview =>
    refine ⟨h.media_changed fun k v hv => ?_, ⟨fun _ _ hk => hk, fun _ _ hp => hp⟩,
      h.keyed key row (Slot.has_of_view hview)⟩
    rcases Table.has_rewrite hv with hv | ⟨w, hw, heq⟩
    · exact ⟨v, hv, rfl, .inl rfl⟩
    · rw [Option.ite_none_right_eq_some] at heq
      obtain ⟨rfl, heq⟩ := heq
      obtain rfl := Option.some.inj (Option.some.inj heq)
      exact ⟨w, Slot.has_of_view hw, rfl, .inr ⟨hregion, horiginal⟩⟩
  · have hkeys : ∀ m k, s.mediaKey m = some k →
        (if m = s.fresh then some key else s.mediaKey m) = some k := by
      intro m k hk
      rw [if_neg (h.key_lt m k hk).ne, hk]
    have hkept : KeysKept s { s with
        media := s.media.insert session key { id := s.fresh, mimeType := mime, sizeBytes := size }
        mediaKey := fun id => if id = s.fresh then some key else s.mediaKey id
        fresh := s.fresh + 1 } := ⟨hkeys, fun _ _ hp => hp⟩
    refine ⟨⟨fun m k hk => ?_, fun p k hp => (h.part_lt p k hp).trans (Nat.lt_succ_self _),
      fun k v hv => ?_, fun e row hrow => hkeys _ _ (h.original e row hrow), fun row m hrow hm => ?_,
      fun v hv => ?_, fun hs v hv => ?_, h.object⟩, hkept, if_pos rfl⟩
    · by_cases hm : m = s.fresh
      · rw [hm]
        exact Nat.lt_succ_self _
      · exact (h.key_lt m k ((if_neg hm).symm.trans hk)).trans (Nat.lt_succ_self _)
    · rcases Table.has_insert hv with hv | ⟨rfl, rfl⟩
      · exact hkeys _ _ (h.keyed k v hv)
      · exact if_pos rfl
    · exact (h.page row m hrow hm).imp (hkeys _ _) fun hpage => ⟨hpage.1, hkeys _ _ hpage.2⟩
    · rcases Table.has_insert hv with hv | ⟨hkey, rfl⟩
      · exact h.stored v hv
      · exact hregion hkey.symm
    · rcases Table.has_insert hv with hv | ⟨hkey, rfl⟩
      · exact h.uploaded hs v hv
      · exact horiginal hs hkey.symm

theorem PagesSound.insertPart (h : PagesSound cfg document locator source s) {session : Option Session}
    {id : DocumentId} {place : String} {kind : PartKind} {page : Option Nat} {media : MediaId}
    (hsafe : PageSafe document locator source s (.insertPart session id place kind page media)) :
    PagesSound cfg document locator source (s.insertPart session id place kind page media).2 ∧
      KeysKept s (s.insertPart session id place kind page media).2 := by
  unfold Store.insertPart
  split_ifs
  · exact ⟨h, KeysKept.refl s⟩
  · exact ⟨h, KeysKept.refl s⟩
  · refine ⟨⟨fun m k hk => (h.key_lt m k hk).trans (Nat.lt_succ_self _), fun p k hp => ?_, h.keyed,
      h.original, fun row m hrow hm => ?_, h.stored, h.uploaded, h.object⟩,
      ⟨fun _ _ hk => hk, fun p k hp => ?_⟩⟩
    · by_cases hp' : p = s.fresh
      · rw [hp']
        exact Nat.lt_succ_self _
      · exact (h.part_lt p k ((if_neg hp').symm.trans hp)).trans (Nat.lt_succ_self _)
    · rcases Table.has_insert hrow with hrow | ⟨hplace, rfl⟩
      · exact h.page row m hrow hm
      · obtain ⟨rfl, rfl⟩ := Prod.mk.inj hplace
        obtain rfl := Option.some.inj hm
        exact hsafe rfl rfl
    · have hne : p ≠ s.fresh := (h.part_lt p k hp).ne
      exact (if_neg hne).trans hp

/-- No new version of a row, and no new original. -/
theorem PagesSound.fewer (h : PagesSound cfg document locator source s)
    (hmedia : ∀ k v, (t.media.slot k).Has v → (s.media.slot k).Has v)
    (hdocument : ∀ e row, (t.document.slot e).Has row → (s.document.slot e).Has row)
    (hpart : ∀ k row, (t.part.slot k).Has row → (s.part.slot k).Has row)
    (hobject : ∀ k data, t.objects k = some data → k = .original document → s.objects k = some data)
    (hmediaKey : t.mediaKey = s.mediaKey) (hpartKey : t.partKey = s.partKey) (hfresh : t.fresh = s.fresh) :
    PagesSound cfg document locator source t ∧ KeysKept s t := by
  refine ⟨⟨fun m k hk => ?_, fun p k hp => ?_, fun k v hv => ?_, fun e row hrow => ?_,
    fun row m hrow hm => ?_, fun v hv => h.stored v (hmedia _ v hv),
    fun hs v hv => h.uploaded hs v (hmedia _ v hv),
    fun hs data hdata => h.object hs data (hobject _ data hdata rfl)⟩, fun m k hk => ?_, fun p k hp => ?_⟩
  · rw [hfresh]
    exact h.key_lt m k (hmediaKey ▸ hk)
  · rw [hfresh]
    exact h.part_lt p k (hpartKey ▸ hp)
  · rw [hmediaKey]
    exact h.keyed k v (hmedia k v hv)
  · rw [hmediaKey]
    exact h.original e row (hdocument e row hrow)
  · rw [hmediaKey]
    exact h.page row m (hpart _ row hrow) hm
  · rw [hmediaKey, hk]
  · rw [hpartKey, hp]

/-- An update of a table's rows that keeps what they refer to. -/
theorem has_updated {K V α : Type} [DecidableEq K] {table : Table K Session V} {session : Option Session}
    {f : K → V → Option (Option V)} (ref : V → α)
    (hf : ∀ k v w, f k v = some (some w) → ref w = ref v) {k : K} {w : V}
    (h : ((table.rewrite session f).slot k).Has w) : ∃ v, (table.slot k).Has v ∧ ref w = ref v := by
  rcases Table.has_rewrite h with hw | ⟨v, hv, hw⟩
  · exact ⟨w, hw, rfl⟩
  · exact ⟨v, Slot.has_of_view hv, hf k v w hw⟩

theorem PagesSound.setContent (h : PagesSound cfg document locator source s) {session : Option Session}
    {id : MediaId} {mime : Mime} {size : Nat}
    (hsafe : PageSafe document locator source s (.setContent session id mime size)) :
    PagesSound cfg document locator source (s.setContent session id mime size) := by
  obtain ⟨e, hkey, himage⟩ := hsafe
  refine h.media_changed fun k v hv => ?_
  rcases Table.has_rewrite hv with hv | ⟨w, hw, heq⟩
  · exact ⟨v, hv, rfl, .inl rfl⟩
  · rw [Option.ite_none_right_eq_some] at heq
    obtain ⟨hid, heq⟩ := heq
    obtain rfl := Option.some.inj (Option.some.inj heq)
    have hrow := Slot.has_of_view hw
    -- the row is that of an upload, so it is not under a region's key
    have hk : k = .original e := by
      have hkeyed := h.keyed k w hrow
      rw [hid, hkey] at hkeyed
      exact (Option.some.inj hkeyed).symm
    refine ⟨w, hrow, rfl, .inr ⟨fun hregion => ?_, fun hs horiginal => ?_⟩⟩
    · rw [hk] at hregion
      cases hregion
    · rw [hk] at horiginal
      obtain rfl := ObjectKey.original.inj horiginal
      subst hs
      intro m hm
      obtain rfl := Option.some.inj hm
      exact himage rfl rfl

theorem PagesSound.insertDocument (h : PagesSound cfg document locator source s)
    {session : Option Session} {id : DocumentId} {media : MediaId} {name : Option String}
    (hsafe : PageSafe document locator source s (.insertDocument session id media name)) :
    PagesSound cfg document locator source (s.insertDocument session id media name).2 ∧
      KeysKept s (s.insertDocument session id media name).2 := by
  unfold Store.insertDocument
  split
  · exact ⟨h, KeysKept.refl s⟩
  · refine ⟨h.document_changed fun e row hrow => ?_, fun _ _ hk => hk, fun _ _ hp => hp⟩
    rcases Table.has_insert hrow with hrow | ⟨rfl, rfl⟩
    · exact h.original e row hrow
    · exact hsafe

theorem PagesSound.setPartThumb (h : PagesSound cfg document locator source s) (id : PartId)
    (thumb : MediaId) : PagesSound cfg document locator source (s.setPartThumb id thumb).2 ∧
      KeysKept s (s.setPartThumb id thumb).2 := by
  unfold Store.setPartThumb
  split
  · exact ⟨h, KeysKept.refl s⟩
  · split_ifs
    · exact ⟨h, KeysKept.refl s⟩
    · refine ⟨h.part_changed fun row hrow => ?_, fun _ _ hk => hk, fun _ _ hp => hp⟩
      refine has_updated DocumentPartRow.mediaId (fun k v w hw => ?_) hrow
      rw [Option.ite_none_right_eq_some] at hw
      rw [← Option.some.inj (Option.some.inj hw.2)]

theorem PagesSound.documents_updated (h : PagesSound cfg document locator source s)
    {session : Option Session} {f : DocumentId → DocumentRow → Option (Option DocumentRow)}
    (hf : ∀ k v w, f k v = some (some w) → w.mediaId = v.mediaId) :
    PagesSound cfg document locator source { s with document := s.document.rewrite session f } ∧
      KeysKept s { s with document := s.document.rewrite session f } := by
  refine ⟨h.document_changed fun e row hrow => ?_, fun _ _ hk => hk, fun _ _ hp => hp⟩
  obtain ⟨w, hw, hmedia⟩ := has_updated DocumentRow.mediaId hf hrow
  rw [hmedia]
  exact h.original e w hw

theorem PagesSound.blobs_updated (h : PagesSound cfg document locator source s)
    {session : Option Session} {f : ObjectKey → MediaRow → Option (Option MediaRow)}
    (hf : ∀ k v w, f k v = some (some w) → (w.id, w.mimeType) = (v.id, v.mimeType)) :
    PagesSound cfg document locator source { s with media := s.media.rewrite session f } ∧
      KeysKept s { s with media := s.media.rewrite session f } := by
  refine ⟨h.media_changed fun k v hv => ?_, fun _ _ hk => hk, fun _ _ hp => hp⟩
  obtain ⟨w, hw, hsame⟩ := has_updated (fun row : MediaRow => (row.id, row.mimeType)) hf hv
  exact ⟨w, hw, congrArg Prod.fst hsame, .inl (congrArg Prod.snd hsame)⟩

theorem PagesSound.deleteMedia (h : PagesSound cfg document locator source s) (ids : List MediaId) :
    PagesSound cfg document locator source (s.deleteMedia ids).2 ∧ KeysKept s (s.deleteMedia ids).2 := by
  have hmedia : PagesSound cfg document locator source { s with
      media := s.media.rewrite none fun _ row => if ids.contains row.id then some none else none } := by
    refine (h.blobs_updated fun k v w hw => ?_).1
    rw [Option.ite_none_right_eq_some] at hw
    cases hw.2
  have hdocument : PagesSound cfg document locator source { s with
      media := s.media.rewrite none fun _ row => if ids.contains row.id then some none else none
      document := s.document.rewrite none fun _ row =>
        if ids.contains row.mediaId then some none else none } := by
    refine (hmedia.documents_updated fun k v w hw => ?_).1
    rw [Option.ite_none_right_eq_some] at hw
    cases hw.2
  refine ⟨hdocument.part_changed fun row hrow => ?_, fun _ _ hk => hk, fun _ _ hp => hp⟩
  refine has_updated DocumentPartRow.mediaId (fun k v w hw => ?_) hrow
  unfold Store.cascadePart at hw
  split_ifs at hw
  · cases hw
  · rw [← Option.some.inj (Option.some.inj hw)]

theorem PagesSound.step (h : PagesSound cfg document locator source s) {c : DocCmd}
    (hsafe : PageSafe document locator source s c) :
    PagesSound cfg document locator source (Store.meaning c s).2 ∧ KeysKept s (Store.meaning c s).2 := by
  have hstay := And.intro h (KeysKept.refl s)
  cases c with
  | insertBlob session key mime size =>
    obtain ⟨hsound, hkept, _⟩ := h.insertBlob hsafe
    exact ⟨hsound, hkept⟩
  | insertPart session id place kind page media => exact h.insertPart hsafe
  | insertDocument session id media name => exact h.insertDocument hsafe
  | setContent session id mime size => exact ⟨h.setContent hsafe, fun _ _ hk => hk, fun _ _ hp => hp⟩
  | setPartThumb id thumb => exact h.setPartThumb id thumb
  | deleteMedia ids => exact h.deleteMedia ids
  | commit session =>
    exact h.fewer (fun k v hv => Slot.Has.commit (Table.slot_commit s.media session k ▸ hv))
      (fun e row hrow => Slot.Has.commit (Table.slot_commit s.document session e ▸ hrow))
      (fun k row hrow => Slot.Has.commit (Table.slot_commit s.part session k ▸ hrow))
      (fun _ _ hdata _ => hdata) rfl rfl rfl
  | rollback session =>
    exact h.fewer (fun k v hv => Slot.Has.rollback (Table.slot_rollback s.media session k ▸ hv))
      (fun e row hrow => Slot.Has.rollback (Table.slot_rollback s.document session e ▸ hrow))
      (fun k row hrow => Slot.Has.rollback (Table.slot_rollback s.part session k ▸ hrow))
      (fun _ _ hdata _ => hdata) rfl rfl rfl
  | setStatus session id status =>
    refine h.documents_updated fun k v w hw => ?_
    rw [Option.ite_none_right_eq_some] at hw
    rw [← Option.some.inj (Option.some.inj hw.2)]
  | setPageCount id count =>
    refine h.documents_updated fun k v w hw => ?_
    rw [Option.ite_none_right_eq_some] at hw
    rw [← Option.some.inj (Option.some.inj hw.2)]
  | markDocuments session ids now purge =>
    refine h.documents_updated fun k v w hw => ?_
    rw [Option.ite_none_right_eq_some] at hw
    rw [← Option.some.inj (Option.some.inj hw.2)]
  | markMedia session blobs now purge =>
    refine h.blobs_updated fun k v w hw => ?_
    rw [Option.ite_none_right_eq_some] at hw
    rw [← Option.some.inj (Option.some.inj hw.2)]
  | streamObject key =>
    simp only [Store.meaning]
    split <;> exact hstay
  | uploadObject key data =>
    refine h.fewer (fun _ _ hv => hv) (fun _ _ hrow => hrow) (fun _ _ hrow => hrow)
      (fun k object hobject hk => ?_) rfl rfl rfl
    exact (if_neg fun heq : k = key => hsafe (heq.symm.trans hk)).symm.trans hobject
  | deleteObject key =>
    refine h.fewer (fun _ _ hv => hv) (fun _ _ hrow => hrow) (fun _ _ hrow => hrow)
      (fun k object hobject _ => ?_) rfl rfl rfl
    exact (Option.ite_none_left_eq_some.mp hobject).2
  | blobIds session ids =>
    exact h.fewer (fun _ _ hv => hv) (fun _ _ hrow => hrow) (fun _ _ hrow => hrow)
      (fun _ _ hdata _ => hdata) rfl rfl rfl
  | _ => exact hstay

end Effects

end Doci
