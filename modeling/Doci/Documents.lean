import Doci.Store

/-! `DocumentService` and `MediaService`: the programs that run the statements. -/

namespace Doci

open Coroutine

abbrev DocProg (α : Type) := Prog DocReply Exc α

def statement (c : DocCmd) : DocProg (DocReply c) := perform c

/-- The settings of `MediaConfig` that the services use, with the `zipfile` module and
the way in which the store cuts an object into chunks. -/
structure MediaConfig where
  maxSize : Nat := 33554432
  purgeAfter : Nat := 604800
  zipNames : ZipNames
  chunks : Bytes → List Bytes

/-- `Postgres.transaction`: commit on exit, roll back on an error. The body is given the
transaction's `now()`. -/
def transaction {α : Type} (session : Session) (body : Time → DocProg α) : DocProg α := do
  let now ← statement (.begin session)
  tryCatch (do
      let value ← body now
      statement (.commit session)
      return value)
    fun e => do
      tryCatch (statement (.rollback session)) fun _ => return ()
      throw e

/-- `page_locator`. -/
def pageLocator (page : Nat) : String :=
  let digits := toString page
  "p" ++ String.ofList (List.replicate (5 - digits.length) '0') ++ digits

section MediaService

variable (cfg : MediaConfig)

def validate (key : ObjectKey) (data : Bytes) (name : Option String) : Except Exc (Mime × Nat) :=
  match validateObject cfg.zipNames cfg.maxSize (cfg.chunks data) name with
  | .ok found => .ok found
  | .error .tooLarge => .error (.tooLarge key)
  | .error .unsupportedType => .error (.unsupportedType key)
  | .error (.raised text) => .error (.external text)

/-- `validate_object` on the stored object. -/
def validateStored (key : ObjectKey) (name : Option String) : DocProg (Mime × Nat) := do
  let data ← statement (.streamObject key)
  match validate cfg key data name with
  | .ok found => return found
  | .error e => throw e

/-- `MediaService._fetch`. -/
def fetchMedia (id : MediaId) : DocProg MediaRecord := do
  match ← statement (.mediaById id) with
  | some record => return record
  | none => throw (.mediaNotFound id)

def ensureThumb (source : MediaId) (data : Bytes) (mime : Option Mime) : DocProg MediaRecord := do
  let src ← fetchMedia source
  let key := ObjectKey.thumb src.objectKey
  match ← statement (.mediaByKey key) with
  | some record => return record
  | none =>
    let (data, mime) ← statement (.render data mime)
    statement (.uploadObject key data)
    statement (.insertBlob none key mime (some data.length))

def purgeObjects : List (MediaId × ObjectKey) → DocProg (List MediaId)
  | [] => return []
  | row :: rows => do
    let purged ← tryCatch (do
        statement (.deleteObject row.2)
        return [row.1])
      fun _ => return []
    let rest ← purgeObjects rows
    return purged ++ rest

def purgeExpired : DocProg Nat := do
  let rows ← statement .expired
  if rows.isEmpty then return 0
  else
    let ids ← purgeObjects rows
    if ids.isEmpty then return 0
    else statement (.deleteMedia ids)

end MediaService

section DocumentService

variable (cfg : MediaConfig) (session : Session)

/-- `DocumentService._fetch`. -/
def fetch (id : DocumentId) (includeDeleted : Bool) : DocProg DocumentRecord := do
  match ← statement (.fetchDocument id includeDeleted) with
  | some record => return record
  | none => throw (.documentNotFound id)

/-- `DocumentService.get`. -/
def getDocument (id : DocumentId) : DocProg DocumentRecord := fetch id false

def requestUpload (id : DocumentId) (name : Option String) : DocProg DocumentId := do
  let key := ObjectKey.original id
  transaction session fun _ => do
    let media ← statement (.insertBlob (some session) key none none)
    statement (.insertDocument (some session) id media.row.id name)
  statement (.presignPut key)
  return id

def finalize (id : DocumentId) : DocProg DocumentRecord := do
  let doc ← fetch id false
  if doc.row.status ≠ .new then throw (.alreadyFinalized id)
  else
    let (mime, size) ← tryCatch (validateStored cfg doc.objectKey doc.row.name) fun e =>
      match e with
      | .tooLarge _ | .unsupportedType _ => do
        statement (.setStatus none id .invalid)
        throw e
      | _ => throw e
    transaction session fun _ => do
      statement (.setContent (some session) doc.row.mediaId mime size)
      statement (.setStatus (some session) id .ready)
    fetch id true

/-- `DocumentPartRecord.from_row`, which fails on a missing row. -/
def partFromRow : Option DocumentPartRecord → DocProg DocumentPartRecord
  | some record => return record
  | none => throw (.external "'NoneType' object is not subscriptable")

def ensurePart (id : DocumentId) (locator : String) (kind : PartKind) (data : Bytes)
    (mime : Option Mime) (page : Option Nat) : DocProg DocumentPartRecord := do
  let existing ← statement (.partByLocator id locator)
  match existing.filter fun part => part.row.mediaId.isSome with
  | some part => return part
  | none =>
    let (data, mime) ← statement (.render data mime)
    let key := ObjectKey.region id locator
    statement (.uploadObject key data)
    let inserted ← transaction session fun _ => do
      let media ← statement (.insertBlob (some session) key mime (some data.length))
      statement (.insertPart (some session) id locator kind page media.row.id)
    match inserted with
    | some part => return part
    | none => partFromRow (← statement (.partByLocator id locator))

def ensureSourcePart (id : DocumentId) (kind : PartKind) : DocProg DocumentPartRecord := do
  let locator := pageLocator 1
  match ← statement (.partByLocator id locator) with
  | some part => return part
  | none =>
    let doc ← fetch id false
    match ← statement (.insertPart none id locator kind (some 1) doc.row.mediaId) with
    | some part => return part
    | none => partFromRow (← statement (.partByLocator id locator))

def setPartThumb (part : PartId) (thumb : MediaId) : DocProg Unit :=
  statement (.setPartThumb part thumb)

def setPageCount (id : DocumentId) (count : Nat) : DocProg Unit :=
  statement (.setPageCount id count)

def delete (ids : List DocumentId) : DocProg Nat :=
  if ids.isEmpty then return 0
  else transaction session fun now => do
    let blobs ← statement (.blobIds session ids)
    statement (.markMedia session blobs now cfg.purgeAfter)
    statement (.markDocuments session ids now cfg.purgeAfter)

def softDeleteInvalid : DocProg Nat := do
  let ids ← statement .invalidDocuments
  if ids.isEmpty then return 0
  else delete cfg session ids

end DocumentService

section Uses

variable {P : DocCmd → Prop} {session : Session}

theorem uses_statement {c : DocCmd} (h : P c) : (statement c).Uses P := uses_perform h

theorem uses_transaction {α : Type} {body : Time → DocProg α} (hbegin : P (.begin session))
    (hcommit : P (.commit session)) (hrollback : P (.rollback session))
    (hbody : ∀ now, (body now).Uses P) : (transaction session body).Uses P := by
  apply (uses_statement hbegin).bind
  intro now
  apply Prog.Uses.tryCatch
  · apply (hbody now).bind
    intro value
    exact (uses_statement hcommit).bind fun _ => trivial
  · intro e
    apply Prog.Uses.bind
    · exact (uses_statement hrollback).tryCatch fun _ => trivial
    · intro _
      trivial

theorem uses_fetch {id : DocumentId} {includeDeleted : Bool}
    (h : P (.fetchDocument id includeDeleted)) : (fetch id includeDeleted).Uses P := by
  apply (uses_statement h).bind
  intro found
  cases found <;> trivial

theorem uses_partFromRow (found : Option DocumentPartRecord) : (partFromRow found).Uses P := by
  cases found <;> trivial

end Uses

end Doci
