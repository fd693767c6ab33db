import Doci.Mime
import Doci.Coroutine
import Doci.ReadCommitted

/-! The tables `media`, `document` and `document_part`, the object store, and the
statements that the services run on them. Times are the microseconds of a timestamp. -/

namespace Doci

open Coroutine ReadCommitted

abbrev Time := Nat
abbrev DocumentId := Nat
abbrev MediaId := Nat
abbrev PartId := Nat
abbrev ExecutionId := Nat

abbrev Session := Nat

inductive ObjectKey where
  | original (document : DocumentId)
  | region (document : DocumentId) (locator : String)
  | thumb (source : ObjectKey)
  deriving DecidableEq

def ObjectKey.document : ObjectKey → DocumentId
  | original document => document
  | region document _ => document
  | thumb source => source.document

def ObjectKey.text : ObjectKey → String
  | original document => "doc/" ++ toString document ++ "/original"
  | region document locator => "doc/" ++ toString document ++ "/" ++ locator
  | thumb source => source.text ++ ".thumb"

inductive DocumentStatus where
  | new | ready | invalid
  deriving DecidableEq

def DocumentStatus.name : DocumentStatus → String
  | new => "NEW"
  | ready => "READY"
  | invalid => "INVALID"

inductive PartKind where
  | text | image
  deriving DecidableEq

structure MediaRow where
  id : MediaId
  mimeType : Option Mime
  sizeBytes : Option Nat
  deletedAt : Option Time := none
  purgeAfter : Option Time := none
  deriving DecidableEq

structure DocumentRow where
  mediaId : MediaId
  name : Option String
  status : DocumentStatus := .new
  pageCount : Option Nat := none
  deletedAt : Option Time := none
  purgeAfter : Option Time := none
  deriving DecidableEq

structure DocumentPartRow where
  id : PartId
  kind : PartKind
  pageNumber : Option Nat
  mediaId : Option MediaId
  thumbMediaId : Option MediaId := none
  deriving DecidableEq

structure MediaRecord where
  objectKey : ObjectKey
  row : MediaRow

structure DocumentRecord where
  id : DocumentId
  row : DocumentRow
  objectKey : ObjectKey
  mimeType : Option Mime
  sizeBytes : Option Nat

structure DocumentPartRecord where
  documentId : DocumentId
  locator : String
  row : DocumentPartRow

/-- The exceptions that the modelled code raises or meets. `external` are those of the
drivers, `timeoutError` may come from them too. -/
inductive Exc where
  | timeoutError
  | external (text : String)
  | taskTimeout (execution : ExecutionId)
  | documentNotFound (document : DocumentId)
  | alreadyFinalized (document : DocumentId)
  | documentNotReady (document : DocumentId) (status : DocumentStatus)
  | mediaNotFound (media : MediaId)
  | tooLarge (key : ObjectKey)
  | unsupportedType (key : ObjectKey)
  | workflowExecutionNotFound (execution : ExecutionId)
  deriving DecidableEq

/-- `str(exc)`. -/
def Exc.str : Exc → String
  | timeoutError => ""
  | external text => text
  | taskTimeout execution => toString execution
  | documentNotFound document => toString document
  | alreadyFinalized document => toString document
  | documentNotReady document status =>
    toString document ++ " is " ++ status.name ++ ", expected READY"
  | mediaNotFound media => toString media
  | tooLarge key => key.text
  | unsupportedType key => key.text
  | workflowExecutionNotFound execution => toString execution

def Exc.fromOutside : Exc → Bool
  | timeoutError => true
  | external _ => true
  | _ => false

structure Store where
  media : Table ObjectKey Session MediaRow
  document : Table DocumentId Session DocumentRow
  part : Table (DocumentId × String) Session DocumentPartRow
  objects : ObjectKey → Option Bytes
  /-- Primary keys: where the row with this id was inserted. -/
  mediaKey : MediaId → Option ObjectKey
  partKey : PartId → Option (DocumentId × String)
  /-- The documents whose blobs a session has collected in its open transaction. -/
  snapshots : Session → List DocumentId
  now : Time
  fresh : Nat

/-- Statements of the document and media services. A session is given where the statement
runs inside that session's transaction. -/
inductive DocCmd where
  | begin (session : Session)
  | commit (session : Session)
  | rollback (session : Session)
  | fetchDocument (id : DocumentId) (includeDeleted : Bool)
  | partByLocator (id : DocumentId) (locator : String)
  | mediaById (id : MediaId)
  | mediaByKey (key : ObjectKey)
  | invalidDocuments
  | expired
  | setStatus (session : Option Session) (id : DocumentId) (status : DocumentStatus)
  | setContent (session : Option Session) (id : MediaId) (mime : Mime) (size : Nat)
  | setPageCount (id : DocumentId) (count : Nat)
  | setPartThumb (id : PartId) (thumb : MediaId)
  | insertBlob (session : Option Session) (key : ObjectKey) (mime : Option Mime) (size : Option Nat)
  | insertDocument (session : Option Session) (id : DocumentId) (media : MediaId)
    (name : Option String)
  | insertPart (session : Option Session) (id : DocumentId) (locator : String) (kind : PartKind)
    (page : Option Nat) (media : MediaId)
  | blobIds (session : Session) (ids : List DocumentId)
  | markMedia (session : Session) (blobs : List MediaId) (now : Time) (purge : Nat)
  | markDocuments (session : Session) (ids : List DocumentId) (now : Time) (purge : Nat)
  | deleteMedia (ids : List MediaId)
  | presignPut (key : ObjectKey)
  | streamObject (key : ObjectKey)
  | uploadObject (key : ObjectKey) (data : Bytes)
  | deleteObject (key : ObjectKey)
  | render (data : Bytes) (mime : Option Mime)

def DocReply : DocCmd → Type
  | .begin _ => Time
  | .fetchDocument _ _ => Option DocumentRecord
  | .partByLocator _ _ => Option DocumentPartRecord
  | .mediaById _ => Option MediaRecord
  | .mediaByKey _ => Option MediaRecord
  | .invalidDocuments => List DocumentId
  | .expired => List (MediaId × ObjectKey)
  | .insertBlob _ _ _ _ => MediaRecord
  | .insertPart _ _ _ _ _ _ => Option DocumentPartRecord
  | .blobIds _ _ => List MediaId
  | .markDocuments _ _ _ _ => Nat
  | .deleteMedia _ => Nat
  | .streamObject _ => Bytes
  | .render _ _ => Bytes × Option Mime
  | _ => Unit

namespace Store

def mediaRow (s : Store) (session : Option Session) (id : MediaId) : Option (ObjectKey × MediaRow) :=
  (s.mediaKey id).bind fun key =>
    ((s.media.view session key).filter (·.id = id)).map (key, ·)

def partRow (s : Store) (session : Option Session) (id : PartId) :
    Option ((DocumentId × String) × DocumentPartRow) :=
  (s.partKey id).bind fun key =>
    ((s.part.view session key).filter (·.id = id)).map (key, ·)

/-- `_fetch`: the document and, by the join, its original blob. -/
def fetchDocument (s : Store) (id : DocumentId) (includeDeleted : Bool) : Option DocumentRecord := do
  let row ← s.document.view none id
  let (key, blob) ← s.mediaRow none row.mediaId
  if !includeDeleted && row.deletedAt.isSome then none
  else some { id, row, objectKey := key, mimeType := blob.mimeType, sizeBytes := blob.sizeBytes }

def partByLocator (s : Store) (id : DocumentId) (locator : String) : Option DocumentPartRecord :=
  (s.part.view none (id, locator)).map fun row => { documentId := id, locator := locator, row := row }

def notDeleted (found : Option (ObjectKey × MediaRow)) : Option MediaRecord :=
  (found.filter fun found => found.2.deletedAt.isNone).map fun found =>
    { objectKey := found.1, row := found.2 }

def mediaById (s : Store) (id : MediaId) : Option MediaRecord := notDeleted (s.mediaRow none id)

def mediaByKey (s : Store) (key : ObjectKey) : Option MediaRecord :=
  notDeleted ((s.media.view none key).map (key, ·))

def invalidDocuments (s : Store) : List DocumentId :=
  ((s.document.rows none).filter fun r => r.2.status = .invalid && r.2.deletedAt.isNone).map Prod.fst

def expired (s : Store) : List (MediaId × ObjectKey) :=
  ((s.media.rows none).filter fun r => r.2.purgeAfter.any (· ≤ s.now)).map fun r => (r.2.id, r.1)

def commit (s : Store) (session : Session) : Store :=
  { s with
    media := s.media.commit session
    document := s.document.commit session
    part := s.part.commit session
    snapshots := fun t => if t = session then [] else s.snapshots t }

def rollback (s : Store) (session : Session) : Store :=
  { s with
    media := s.media.rollback session
    document := s.document.rollback session
    part := s.part.rollback session
    snapshots := fun t => if t = session then [] else s.snapshots t }

def setStatus (s : Store) (session : Option Session) (id : DocumentId) (status : DocumentStatus) :
    Store :=
  { s with document := s.document.rewrite session fun k row =>
      if k = id then some (some { row with status := status }) else none }

def setPageCount (s : Store) (id : DocumentId) (count : Nat) : Store :=
  { s with document := s.document.rewrite none fun k row =>
      if k = id then some (some { row with pageCount := some count }) else none }

def setContent (s : Store) (session : Option Session) (id : MediaId) (mime : Mime) (size : Nat) :
    Store :=
  { s with media := s.media.rewrite session fun _ row =>
      if row.id = id then some (some { row with mimeType := some mime, sizeBytes := some size })
      else none }

/-- The upsert of a `media` row on its `object_key`. -/
def insertBlob (s : Store) (session : Option Session) (key : ObjectKey) (mime : Option Mime)
    (size : Option Nat) : MediaRecord × Store :=
  match s.media.view session key with
  | some row =>
    ({ objectKey := key, row := { row with mimeType := mime, sizeBytes := size } },
      { s with media := s.media.rewrite session fun k row =>
          if k = key then some (some { row with mimeType := mime, sizeBytes := size }) else none })
  | none =>
    let row := { id := s.fresh, mimeType := mime, sizeBytes := size }
    ({ objectKey := key, row := row },
      { s with
        media := s.media.insert session key row
        mediaKey := fun id => if id = s.fresh then some key else s.mediaKey id
        fresh := s.fresh + 1 })

/-- A violated foreign key or unique constraint. -/
def violation : Exc := .external "violates constraint"

def insertDocument (s : Store) (session : Option Session) (id : DocumentId) (media : MediaId)
    (name : Option String) : Except Exc Unit × Store :=
  if (s.document.view session id).isSome || (s.mediaRow session media).isNone then
    (.error violation, s)
  else (.ok (), { s with document := s.document.insert session id { mediaId := media, name := name } })

/-- `INSERT INTO document_part ... ON CONFLICT (document_id, locator) DO NOTHING`. -/
def insertPart (s : Store) (session : Option Session) (id : DocumentId) (locator : String)
    (kind : PartKind) (page : Option Nat) (media : MediaId) :
    Except Exc (Option DocumentPartRecord) × Store :=
  if (s.part.view session (id, locator)).isSome then (.ok none, s)
  else if (s.document.view session id).isNone || (s.mediaRow session media).isNone then
    (.error violation, s)
  else
    let row := { id := s.fresh, kind := kind, pageNumber := page, mediaId := some media }
    (.ok (some { documentId := id, locator := locator, row := row }),
      { s with
        part := s.part.insert session (id, locator) row
        partKey := fun id' => if id' = s.fresh then some (id, locator) else s.partKey id'
        fresh := s.fresh + 1 })

def setPartThumb (s : Store) (id : PartId) (thumb : MediaId) : Except Exc Unit × Store :=
  match (s.partRow none id).filter fun found => found.2.thumbMediaId.isNone with
  | none => (.ok (), s)
  | some (key, _) =>
    if (s.mediaRow none thumb).isNone then (.error violation, s)
    else (.ok (), { s with part := s.part.rewrite none fun k row =>
        if k = key then some (some { row with thumbMediaId := some thumb }) else none })

/-- The first statement of `delete` up to its `UPDATE`: the blobs of the live documents. -/
def blobIds (s : Store) (session : Session) (ids : List DocumentId) : List MediaId × Store :=
  let docs := (s.document.rows (some session)).filter fun r =>
    ids.contains r.1 && r.2.deletedAt.isNone
  let parts := (s.part.rows (some session)).filter fun r => (docs.map Prod.fst).contains r.1.1
  (docs.map (·.2.mediaId) ++ parts.filterMap (·.2.mediaId) ++ parts.filterMap (·.2.thumbMediaId),
    { s with snapshots := fun t => if t = session then docs.map Prod.fst else s.snapshots t })

def deadline (now : Time) (purge : Nat) : Time := now + purge * 1000000

def markMedia (s : Store) (session : Session) (blobs : List MediaId) (now : Time) (purge : Nat) :
    Store :=
  { s with media := s.media.rewrite (some session) fun _ row =>
      if blobs.contains row.id && row.deletedAt.isNone then
        some (some { row with deletedAt := some now, purgeAfter := some (deadline now purge) })
      else none }

def markDocuments (s : Store) (session : Session) (ids : List DocumentId) (now : Time)
    (purge : Nat) : Nat × Store :=
  (((s.document.rows (some session)).filter fun r => ids.contains r.1 && r.2.deletedAt.isNone).length,
    { s with document := s.document.rewrite (some session) fun k row =>
        if ids.contains k && row.deletedAt.isNone then
          some (some { row with deletedAt := some now, purgeAfter := some (deadline now purge) })
        else none })

/-- The documents that go with their original blob. -/
def cascades (s : Store) (ids : List MediaId) (id : DocumentId) : Bool :=
  (s.document.view none id).any fun row => ids.contains row.mediaId

/-- What the cascade leaves of a part: nothing, a part without thumbnail, or (`none`) the
part as it is. -/
def cascadePart (s : Store) (ids : List MediaId) (key : DocumentId × String)
    (row : DocumentPartRow) : Option (Option DocumentPartRow) :=
  if s.cascades ids key.1 || row.mediaId.any ids.contains then some none
  else if row.thumbMediaId.any ids.contains then some (some { row with thumbMediaId := none })
  else none

/-- `DELETE FROM media` with its `ON DELETE CASCADE` and `ON DELETE SET NULL`. -/
def deleteMedia (s : Store) (ids : List MediaId) : Nat × Store :=
  (((s.media.rows none).filter fun r => ids.contains r.2.id).length,
    { s with
      media := s.media.rewrite none fun _ row => if ids.contains row.id then some none else none
      document := s.document.rewrite none fun _ row =>
        if ids.contains row.mediaId then some none else none
      part := s.part.rewrite none (s.cascadePart ids) })

def meaning : (c : DocCmd) → Store → Except Exc (DocReply c) × Store
  | .begin _, s => (.ok s.now, s)
  | .commit session, s => (.ok (), s.commit session)
  | .rollback session, s => (.ok (), s.rollback session)
  | .fetchDocument id includeDeleted, s => (.ok (s.fetchDocument id includeDeleted), s)
  | .partByLocator id locator, s => (.ok (s.partByLocator id locator), s)
  | .mediaById id, s => (.ok (s.mediaById id), s)
  | .mediaByKey key, s => (.ok (s.mediaByKey key), s)
  | .invalidDocuments, s => (.ok s.invalidDocuments, s)
  | .expired, s => (.ok s.expired, s)
  | .setStatus session id status, s => (.ok (), s.setStatus session id status)
  | .setContent session id mime size, s => (.ok (), s.setContent session id mime size)
  | .setPageCount id count, s => (.ok (), s.setPageCount id count)
  | .setPartThumb id thumb, s => s.setPartThumb id thumb
  | .insertBlob session key mime size, s =>
    let (record, s) := s.insertBlob session key mime size
    (.ok record, s)
  | .insertDocument session id media name, s => s.insertDocument session id media name
  | .insertPart session id locator kind page media, s =>
    s.insertPart session id locator kind page media
  | .blobIds session ids, s =>
    let (blobs, s) := s.blobIds session ids
    (.ok blobs, s)
  | .markMedia session blobs now purge, s => (.ok (), s.markMedia session blobs now purge)
  | .markDocuments session ids now purge, s =>
    let (count, s) := s.markDocuments session ids now purge
    (.ok count, s)
  | .deleteMedia ids, s =>
    let (count, s) := s.deleteMedia ids
    (.ok count, s)
  | .presignPut _, s => (.ok (), s)
  | .streamObject key, s =>
    match s.objects key with
    | some data => (.ok data, s)
    | none => (.error (.external "NoSuchKey"), s)
  | .uploadObject key data, s =>
    (.ok (), { s with objects := fun k => if k = key then some data else s.objects k })
  | .deleteObject key, s =>
    (.ok (), { s with objects := fun k => if k = key then none else s.objects k })
  | .render data mime, s => (.ok (data, mime), s)

/-- A transaction of another session holds a lock that the statement needs. -/
def waits (s : Store) : DocCmd → Bool
  | .setStatus session id _ => !s.document.freeWhere session fun k _ => k = id
  | .setPageCount id _ => !s.document.freeWhere none fun k _ => k = id
  | .setContent session id _ _ => !s.media.freeWhere session fun _ row => row.id = id
  | .setPartThumb id _ =>
    !s.part.freeWhere none fun _ row => row.id = id && row.thumbMediaId.isNone
  | .insertBlob session key _ _ => !(s.media.slot key).free session
  | .insertDocument session id _ _ => !(s.document.slot id).free session
  | .insertPart session id locator _ _ _ => !(s.part.slot (id, locator)).free session
  | .markMedia session blobs _ _ =>
    !s.media.freeWhere (some session) fun _ row => blobs.contains row.id && row.deletedAt.isNone
  | .markDocuments session ids _ _ =>
    !s.document.freeWhere (some session) fun k row => ids.contains k && row.deletedAt.isNone
  | .deleteMedia ids =>
    !s.media.freeWhere none (fun _ row => ids.contains row.id) ||
      !s.document.freeWhere none (fun _ row => ids.contains row.mediaId) ||
      !s.part.freeWhere none (fun key row => (s.cascadePart ids key row).isSome) ||
      s.document.lockedWhere (fun _ row => ids.contains row.mediaId) ||
      s.part.lockedWhere (fun key row => (s.cascadePart ids key row).isSome)
  | _ => false

/-- Exceptions of an await come from outside, a statement that waits for a lock can only
fail, and a rollback takes place also when the connection is lost. -/
def admits (c : DocCmd) (s : Store) (fate : Fate Exc) : Bool :=
  fate.raised.all Exc.fromOutside &&
    match fate, c with
    | .lost _, .rollback _ => false
    | .lost _, _ => true
    | _, c => !s.waits c

theorem fresh_le (c : DocCmd) (s : Store) : s.fresh ≤ (meaning c s).2.fresh := by
  cases c with
  | insertBlob session key mime size =>
    simp only [meaning, insertBlob]
    split <;> simp
  | insertDocument session id media name =>
    simp only [meaning, insertDocument]
    split <;> exact le_rfl
  | insertPart session id locator kind page media =>
    simp only [meaning, insertPart]
    split_ifs <;> simp
  | setPartThumb id thumb =>
    simp only [meaning, setPartThumb]
    split
    · exact le_rfl
    · split_ifs <;> exact le_rfl
  | streamObject key =>
    simp only [meaning]
    split <;> exact le_rfl
  | _ => exact le_rfl

theorem now_eq (c : DocCmd) (s : Store) : (meaning c s).2.now = s.now := by
  cases c with
  | insertBlob session key mime size =>
    simp only [meaning, insertBlob]
    split <;> rfl
  | insertDocument session id media name =>
    simp only [meaning, insertDocument]
    split <;> rfl
  | insertPart session id locator kind page media =>
    simp only [meaning, insertPart]
    split_ifs <;> rfl
  | setPartThumb id thumb =>
    simp only [meaning, setPartThumb]
    split
    · rfl
    · split_ifs <;> rfl
  | streamObject key =>
    simp only [meaning]
    split <;> rfl
  | _ => rfl

end Store

end Doci
