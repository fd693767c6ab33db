import Doci.Base64
import Doci.Readers
import Doci.Tasks
import Doci.Uuids

/-! The tool `get_page_image` beside other calls: it reads the part's row, its blob's row twice and
the blob, one after the other. -/

namespace Doci

open Coroutine

inductive PageCmd where
  | partMedia (id : PartId)
  | fetchMedia (id : MediaId)
  | download (key : ObjectKey)

abbrev PageReply : PageCmd → Type
  | .partMedia _ => Option (Option MediaId)
  | .fetchMedia _ => Option MediaRecord
  | .download _ => Bytes

abbrev PageProg (α : Type) := Prog PageReply Exc α

/-- `SELECT media_id FROM document_part WHERE id = ...`. -/
def Store.partMedia (s : Store) (id : PartId) : Option (Option MediaId) :=
  (s.partRow none id).map fun found => found.2.mediaId

def Store.pageLook : (q : PageCmd) → Store → Except Exc (PageReply q)
  | .partMedia id, s => .ok (s.partMedia id)
  | .fetchMedia id, s => .ok (s.mediaById id)
  | .download key, s =>
    match s.objects key with
    | some data => .ok data
    | none => .error (.external "NoSuchKey")

/-- `MediaService.get`. -/
def getMedia (id : MediaId) : PageProg MediaRecord := do
  match ← Coroutine.perform (PageCmd.fetchMedia id) with
  | some record => return record
  | none => throw (.mediaNotFound id)

/-- `MediaService.download`. -/
def downloadMedia (id : MediaId) : PageProg Bytes := do
  let record ← getMedia id
  Coroutine.perform (PageCmd.download record.objectKey)

/-- An answer `{"ok": False, "error": ...}`, or a text block and an image block. -/
inductive PageAnswer where
  | failed (error : String)
  | blocks (text mimeType data : String)

section Tool

variable (repr : String → String) (readId : String → Option PartId)

/-- The blocks for the record of the first read and the bytes. -/
def pageBlocks (partId : String) (record : MediaRecord) (data : Bytes) : PageAnswer :=
  .blocks ("Page image for part " ++ partId ++ ":")
    ((record.row.mimeType.map Mime.text).getD "image/png") (String.ofList (Base64.encode data))

/-- `readId` is `UUID`, and `repr` the `!r` of a format. -/
def getPageImage (partId : String) : PageProg PageAnswer :=
  match readId partId with
  | none => return .failed (repr partId ++ " is not a valid part_id (UUID).")
  | some pid => do
    match ← Coroutine.perform (PageCmd.partMedia pid) with
    | some (some media) =>
      let record ← getMedia media
      let data ← downloadMedia media
      return pageBlocks partId record data
    | _ => return .failed ("no page image for part " ++ partId ++ ".")

end Tool

/-- At each read of a blob's row it is there and not deleted, and so is the object when it is
downloaded. -/
def BlobKept (looks : List (PageCmd × Store)) : Prop :=
  ∀ look ∈ looks, match look.1 with
    | .partMedia _ => True
    | .fetchMedia id => (look.2.mediaById id).isSome
    | .download key => (look.2.objects key).isSome

section Reads

variable {τ ι : Type} {S : System DocReply Exc Store τ ι} {c d : Config DocReply Exc Store τ}
  {looks rest : List (PageCmd × Store)} {media : MediaId} {s : Store}

theorem blobKept_nil : BlobKept [] := nofun

theorem blobKept_part {id : PartId} : BlobKept ((.partMedia id, s) :: rest) ↔ BlobKept rest := by
  simp [BlobKept]

theorem blobKept_fetch : BlobKept ((.fetchMedia media, s) :: rest) ↔
    (s.mediaById media).isSome ∧ BlobKept rest := by
  simp [BlobKept]

theorem blobKept_download {key : ObjectKey} : BlobKept ((.download key, s) :: rest) ↔
    (s.objects key).isSome ∧ BlobKept rest := by
  simp [BlobKept]

theorem getMedia_cases {result : Except Exc MediaRecord}
    (h : (getMedia media).Beside S Store.pageLook c looks d result) :
    ∃ s, looks = [(.fetchMedia media, s)] ∧
      ((∃ record, s.mediaById media = some record ∧ result = .ok record) ∨
        s.mediaById media = none ∧ result = .error (.mediaNotFound media)) := by
  obtain ⟨s, _, found, rest, hfound, hrest, rfl⟩ := Prog.Beside.of_look h fun s => ⟨_, rfl⟩
  obtain rfl : s.mediaById media = found := Except.ok.inj hfound
  cases hrecord : s.mediaById media with
  | none =>
    rw [hrecord] at hrest
    obtain ⟨rfl, rfl⟩ := hrest.of_throw
    exact ⟨s, rfl, .inr ⟨hrecord, rfl⟩⟩
  | some record =>
    rw [hrecord] at hrest
    obtain ⟨rfl, rfl⟩ := hrest.of_ret
    exact ⟨s, rfl, .inl ⟨record, hrecord, rfl⟩⟩

theorem downloadMedia_cases {result : Except Exc Bytes}
    (h : (downloadMedia media).Beside S Store.pageLook c looks d result) :
    (¬ BlobKept looks ∧ ∃ e, result = .error e) ∨
    ∃ s t found data, looks = [(.fetchMedia media, s), (.download found.objectKey, t)] ∧
      s.mediaById media = some found ∧ t.objects found.objectKey = some data ∧ result = .ok data := by
  rcases Prog.Beside.of_bind h with ⟨_, _, record, _, hfetch, hload, rfl⟩ | ⟨e, hfetch, rfl⟩
  · obtain ⟨s, rfl, ⟨found, hfound, heq⟩ | ⟨_, heq⟩⟩ := getMedia_cases hfetch
    · obtain rfl := Except.ok.inj heq
      obtain ⟨t, rfl, rfl⟩ := hload.of_perform
      cases hdata : t.objects record.objectKey with
      | none =>
        refine .inl ⟨?_, .external "NoSuchKey", by rw [Store.pageLook, hdata]⟩
        simp [blobKept_fetch, blobKept_download, hdata]
      | some data => exact .inr ⟨s, t, record, data, rfl, hfound, hdata, by rw [Store.pageLook, hdata]⟩
    · cases heq
  · obtain ⟨s, rfl, ⟨_, _, heq⟩ | ⟨hnone, heq⟩⟩ := getMedia_cases hfetch
    · cases heq
    · exact .inl ⟨by simp [blobKept_fetch, hnone], e, rfl⟩

end Reads

section Run

variable {τ ι : Type} {S : System DocReply Exc Store τ ι} {c d : Config DocReply Exc Store τ}
  {looks : List (PageCmd × Store)} {repr : String → String} {readId : String → Option PartId}
  {partId : String} {result : Except Exc PageAnswer}

structure PageRead (readId : String → Option PartId) (partId : String) (looks : List (PageCmd × Store))
    (pid : PartId) (media : MediaId) (record found : MediaRecord) (data : Bytes) : Prop where
  id : readId partId = some pid
  looks : ∃ s₁ s₂ s₃ s₄, looks = [(.partMedia pid, s₁), (.fetchMedia media, s₂),
      (.fetchMedia media, s₃), (.download found.objectKey, s₄)] ∧
    s₁.partMedia pid = some (some media) ∧ s₂.mediaById media = some record ∧
    s₃.mediaById media = some found ∧ s₄.objects found.objectKey = some data

/-- The tool answers that there is no image, or raises since something has gone, or shows what
it has read. -/
theorem getPageImage_cases
    (h : (getPageImage repr readId partId).Beside S Store.pageLook c looks d result) :
    (BlobKept looks ∧ ∃ error, result = .ok (.failed error)) ∨
    (¬ BlobKept looks ∧ ∃ e, result = .error e) ∨
    BlobKept looks ∧ ∃ pid media record found data, PageRead readId partId looks pid media record found data ∧
      result = .ok (pageBlocks partId record data) := by
  cases hid : readId partId with
  | none =>
    rw [getPageImage, hid] at h
    obtain ⟨rfl, rfl⟩ := h.of_ret
    exact .inl ⟨blobKept_nil, _, rfl⟩
  | some pid =>
    rw [getPageImage, hid] at h
    obtain ⟨s₁, _, row, rest, hrow, hrest, rfl⟩ := Prog.Beside.of_look h fun s => ⟨_, rfl⟩
    obtain rfl : s₁.partMedia pid = row := Except.ok.inj hrow
    rw [blobKept_part]
    cases hmedia : s₁.partMedia pid with
    | none =>
      rw [hmedia] at hrest
      obtain ⟨rfl, rfl⟩ := hrest.of_ret
      exact .inl ⟨blobKept_nil, _, rfl⟩
    | some found =>
      cases found with
      | none =>
        rw [hmedia] at hrest
        obtain ⟨rfl, rfl⟩ := hrest.of_ret
        exact .inl ⟨blobKept_nil, _, rfl⟩
      | some media =>
        rw [hmedia] at hrest
        rcases Prog.Beside.of_bind hrest with ⟨_, _, record, tail, hfetch, htail, rfl⟩ | ⟨e, hfetch, rfl⟩
        · obtain ⟨s₂, rfl, ⟨_, hrecord, heq⟩ | ⟨_, heq⟩⟩ := getMedia_cases hfetch
          · obtain rfl := Except.ok.inj heq
            have hkept : BlobKept ([(.fetchMedia media, s₂)] ++ tail) ↔ BlobKept tail := by
              simp [blobKept_fetch, hrecord]
            rw [hkept]
            rcases Prog.Beside.of_bind htail with ⟨_, _, data, last, hload, hlast, rfl⟩ | ⟨e, hload, rfl⟩
            · obtain ⟨rfl, rfl⟩ := hlast.of_ret
              rcases downloadMedia_cases hload with ⟨_, _, heq⟩ |
                ⟨s₃, s₄, found, _, rfl, hfound, hdata, heq⟩
              · cases heq
              · obtain rfl := Except.ok.inj heq
                refine .inr (.inr ⟨?_, pid, media, record, found, data,
                  ⟨hid, s₁, s₂, s₃, s₄, rfl, hmedia, hrecord, hfound, hdata⟩, rfl⟩)
                simp [blobKept_fetch, blobKept_download, blobKept_nil, hfound, hdata]
            · rcases downloadMedia_cases hload with ⟨hgone, _⟩ | ⟨_, _, _, _, _, _, _, heq⟩
              · exact .inr (.inl ⟨hgone, e, rfl⟩)
              · cases heq
          · cases heq
        · obtain ⟨s₂, rfl, ⟨_, _, heq⟩ | ⟨hnone, heq⟩⟩ := getMedia_cases hfetch
          · cases heq
          · exact .inr (.inl ⟨by simp [blobKept_fetch, hnone], e, rfl⟩)

theorem getPageImage_answers
    (h : (getPageImage repr readId partId).Beside S Store.pageLook c looks d result) :
    (∃ answer, result = .ok answer) ↔ BlobKept looks := by
  rcases getPageImage_cases h with ⟨hkept, error, rfl⟩ | ⟨hgone, e, rfl⟩ |
    ⟨hkept, _, _, _, _, _, _, rfl⟩
  · exact iff_of_true ⟨_, rfl⟩ hkept
  · exact iff_of_false (fun ⟨_, hanswer⟩ => nomatch hanswer) hgone
  · exact iff_of_true ⟨_, rfl⟩ hkept

end Run

def quoted (text : String) : String := "'" ++ text ++ "'"

def partOf (text : String) : Option PartId := (uuidOf text).map BitVec.toNat

def pageId : String := "00000000-0000-0000-0000-000000000005"

end Doci
