import Doci.Listings
import Doci.PageImage
import Doci.PurgeWindow

/-! The tool `get_dossier_spec` beside calls of the dossier and document definitions' services: the
dossier is looked up once for itself and once more for its documents. -/

namespace Doci

open Coroutine Paging

structure DocumentDef where
  key : String
  name : String
  description : Option String
  lookFor : Option String
  deriving DecidableEq

structure DocumentDefRow where
  id : Nat
  dossierId : Nat
  createdAt : Time
  record : DocumentDef
  deriving DecidableEq

/-- `dossier_def` and `document_def`. -/
structure DossierStore where
  dossiers : List (ListedRow DossierDef)
  documents : List DocumentDefRow
  now : Time
  fresh : Nat

/-- `NotFound`, `DuplicateKey`, and what the driver raises. -/
inductive DossierError where
  | notFound (text : String)
  | duplicateKey (text : String)
  | external (text : String)
  deriving DecidableEq

def DossierError.fromOutside : DossierError → Bool
  | external _ => true
  | _ => false

inductive DossierCmd where
  | fetchDossier (key : String)
  | dossierId (key : String)
  | documentRows (dossier : Nat)
  | insertDossier (record : DossierDef)
  | patchDossier (key : String) (name description : Option String)
  | markDossiers (keys : List String)
  | upsertRow (dossier : Nat) (record : DocumentDef)
  | deleteRow (dossier : Nat) (key : String)

/-- An insert that violates the unique index and an update of no row reply `false`. -/
abbrev DossierReply : DossierCmd → Type
  | .fetchDossier _ => Option DossierDef
  | .dossierId _ => Option Nat
  | .documentRows _ => List DocumentDef
  | .insertDossier _ => Bool
  | .patchDossier _ _ _ => Bool
  | .markDossiers _ => Nat
  | .upsertRow _ _ => Unit
  | .deleteRow _ _ => Nat

abbrev DossierProg (α : Type) := Prog DossierReply DossierError α

namespace DossierStore

/-- `WHERE key = ... AND deleted_at IS NULL`. -/
def live (s : DossierStore) (key : String) : Option (ListedRow DossierDef) :=
  s.dossiers.find? fun row => row.record.key = key && row.deletedAt.isNone

/-- `ORDER BY created_at DESC, id`. -/
def documentRows (s : DossierStore) (dossier : Nat) : List DocumentDef :=
  (newestFirst DocumentDefRow.createdAt DocumentDefRow.id
    (s.documents.filter fun row => row.dossierId = dossier)).map DocumentDefRow.record

def rewrite (s : DossierStore) (keys : List String)
    (change : ListedRow DossierDef → ListedRow DossierDef) : DossierStore :=
  { s with dossiers := s.dossiers.map fun row =>
      if row.record.key ∈ keys ∧ row.deletedAt = none then change row else row }

def patched (record : DossierDef) (name description : Option String) : DossierDef :=
  { record with name := name.getD record.name, description := description.or record.description }

/-- `ON CONFLICT (dossier_id, key) DO UPDATE`. -/
def upsertRow (s : DossierStore) (dossier : Nat) (record : DocumentDef) : DossierStore :=
  if s.documents.any fun row => row.dossierId = dossier && row.record.key = record.key then
    { s with documents := s.documents.map fun row =>
        if row.dossierId = dossier ∧ row.record.key = record.key then { row with record } else row }
  else { s with
    documents := { id := s.fresh, dossierId := dossier, createdAt := s.now, record } :: s.documents
    fresh := s.fresh + 1 }

def meaning : (c : DossierCmd) → DossierStore → Except DossierError (DossierReply c) × DossierStore
  | .fetchDossier key, s => (.ok ((s.live key).map ListedRow.record), s)
  | .dossierId key, s => (.ok ((s.live key).map ListedRow.id), s)
  | .documentRows dossier, s => (.ok (s.documentRows dossier), s)
  | .insertDossier record, s =>
    if (s.live record.key).isSome then (.ok false, s)
    else (.ok true, { s with
      dossiers := { id := s.fresh, createdAt := s.now, record } :: s.dossiers
      fresh := s.fresh + 1 })
  | .patchDossier key name description, s =>
    (.ok (s.live key).isSome,
      s.rewrite [key] fun row => { row with record := patched row.record name description })
  | .markDossiers keys, s =>
    (.ok (s.dossiers.countP fun row => row.record.key ∈ keys && row.deletedAt.isNone),
      s.rewrite keys fun row => { row with deletedAt := some s.now })
  | .upsertRow dossier record, s => (.ok (), s.upsertRow dossier record)
  | .deleteRow dossier key, s =>
    (.ok (s.documents.countP fun row => row.dossierId = dossier && row.record.key = key),
      { s with documents := s.documents.filter fun row => ¬ (row.dossierId = dossier ∧ row.record.key = key) })

def look (q : DossierCmd) (s : DossierStore) : Except DossierError (DossierReply q) := (meaning q s).1

end DossierStore

section Services

variable (repr : String → String)

def dossierNotFound (key : String) : DossierError := .notFound ("dossier_def " ++ repr key)

namespace DossierDefService

def getDossier (key : String) : DossierProg DossierDef := do
  match ← Coroutine.perform (DossierCmd.fetchDossier key) with
  | some record => return record
  | none => throw (dossierNotFound repr key)

/-- The key of the record is the one given or the one that `gen_key` derives. -/
def createDossier (record : DossierDef) : DossierProg Unit := do
  if ← Coroutine.perform (DossierCmd.insertDossier record) then return ()
  else throw (.duplicateKey ("dossier_def " ++ repr record.key))

def updateDossier (key : String) (name description : Option String) : DossierProg Unit := do
  if ← Coroutine.perform (DossierCmd.patchDossier key name description) then return ()
  else throw (dossierNotFound repr key)

def deleteDossiers (keys : List String) : DossierProg Nat :=
  if keys = [] then return 0 else Coroutine.perform (DossierCmd.markDossiers keys)

end DossierDefService

namespace DocumentDefService

/-- `_dossier_id`. -/
def dossierId (dossierKey : String) : DossierProg Nat := do
  match ← Coroutine.perform (DossierCmd.dossierId dossierKey) with
  | some id => return id
  | none => throw (dossierNotFound repr dossierKey)

def listDocuments (dossierKey : String) : DossierProg (List DocumentDef) := do
  let id ← dossierId repr dossierKey
  Coroutine.perform (DossierCmd.documentRows id)

def upsertDocument (dossierKey : String) (record : DocumentDef) : DossierProg Unit := do
  let id ← dossierId repr dossierKey
  Coroutine.perform (DossierCmd.upsertRow id record)

def deleteDocument (dossierKey docKey : String) : DossierProg Nat := do
  let id ← dossierId repr dossierKey
  Coroutine.perform (DossierCmd.deleteRow id docKey)

end DocumentDefService

inductive DossierCall where
  | create (record : DossierDef)
  | update (key : String) (name description : Option String)
  | delete (keys : List String)
  | upsertDocument (dossierKey : String) (record : DocumentDef)
  | deleteDocument (dossierKey docKey : String)

def DossierCall.run : DossierCall → DossierProg Unit
  | create record => DossierDefService.createDossier repr record
  | update key name description => DossierDefService.updateDossier repr key name description
  | delete keys => do
    let _ ← DossierDefService.deleteDossiers keys
    return ()
  | upsertDocument dossierKey record => DocumentDefService.upsertDocument repr dossierKey record
  | deleteDocument dossierKey docKey => do
    let _ ← DocumentDefService.deleteDocument repr dossierKey docKey
    return ()

inductive DossierEvent where
  | call (call : DossierCall)
  | tick (duration : Time)

def dossierCalls : System DossierReply DossierError DossierStore Unit DossierEvent where
  meaning := DossierStore.meaning
  admits := fun _ _ fate => fate.raised.all DossierError.fromOutside
  env := fun e s => match e with
    | .call call => some (s, [{ tag := (), prog := call.run repr }])
    | .tick duration => some ({ s with now := s.now + duration }, [])
  exit := fun _ _ => []
  death := fun _ s => s

/-- An answer `{"ok": False, "error": ...}`, or the dossier with its documents. -/
inductive SpecAnswer where
  | failed (error : String)
  | spec (dossier : DossierDef) (documents : List DocumentDef)

def getDossierSpec (dossierKey : String) : DossierProg SpecAnswer := do
  let found ← tryCatch (do return some (← DossierDefService.getDossier repr dossierKey)) fun e =>
    match e with
    | .notFound _ => return none
    | e => throw e
  match found with
  | none => return .failed ("dossier " ++ repr dossierKey ++ " not found.")
  | some dossier =>
    let documents ← DocumentDefService.listDocuments repr dossierKey
    return .spec dossier documents

end Services

/-- When the dossier is looked up for its documents, it is not deleted. -/
def DossierKept (looks : List (DossierCmd × DossierStore)) : Prop :=
  ∀ look ∈ looks, match look.1 with
    | .dossierId key => (look.2.live key).isSome
    | _ => True

section Reads

variable {S : System DossierReply DossierError DossierStore Unit DossierEvent}
  {c d : Config DossierReply DossierError DossierStore Unit} {repr : String → String} {key : String}
  {looks rest : List (DossierCmd × DossierStore)} {s : DossierStore}

theorem dossierKept_nil : DossierKept [] := nofun

theorem dossierKept_fetch : DossierKept ((.fetchDossier key, s) :: rest) ↔ DossierKept rest := by
  simp [DossierKept]

theorem dossierKept_id : DossierKept ((.dossierId key, s) :: rest) ↔
    (s.live key).isSome ∧ DossierKept rest := by
  simp [DossierKept]

theorem dossierKept_rows {dossier : Nat} :
    DossierKept ((.documentRows dossier, s) :: rest) ↔ DossierKept rest := by
  simp [DossierKept]

theorem dossier_look_total (q : DossierCmd) (s : DossierStore) :
    ∃ value, DossierStore.look q s = .ok value := by
  cases q with
  | insertDossier record =>
    simp only [DossierStore.look, DossierStore.meaning]
    split
    · exact ⟨_, rfl⟩
    · exact ⟨_, rfl⟩
  | _ => exact ⟨_, rfl⟩

theorem getDossier_cases {result : Except DossierError DossierDef}
    (h : (DossierDefService.getDossier repr key).Beside S DossierStore.look c looks d result) :
    ∃ s, looks = [(.fetchDossier key, s)] ∧
      ((∃ record, result = .ok record) ∨ result = .error (dossierNotFound repr key)) := by
  obtain ⟨s, _, found, rest, _, hrest, rfl⟩ := Prog.Beside.of_look h (dossier_look_total _)
  cases found with
  | none =>
    obtain ⟨rfl, rfl⟩ := hrest.of_throw
    exact ⟨s, rfl, .inr rfl⟩
  | some record =>
    obtain ⟨rfl, rfl⟩ := hrest.of_ret
    exact ⟨s, rfl, .inl ⟨record, rfl⟩⟩

theorem dossierId_cases {result : Except DossierError Nat}
    (h : (DocumentDefService.dossierId repr key).Beside S DossierStore.look c looks d result) :
    ∃ s, looks = [(.dossierId key, s)] ∧
      ((∃ id, (s.live key).isSome = true ∧ result = .ok id) ∨
        (s.live key).isSome = false ∧ result = .error (dossierNotFound repr key)) := by
  obtain ⟨s, _, found, rest, hfound, hrest, rfl⟩ := Prog.Beside.of_look h (dossier_look_total _)
  obtain rfl : (s.live key).map ListedRow.id = found := Except.ok.inj hfound
  cases hlive : s.live key with
  | none =>
    rw [hlive] at hrest
    obtain ⟨rfl, rfl⟩ := hrest.of_throw
    exact ⟨s, rfl, .inr ⟨by rw [hlive]; rfl, rfl⟩⟩
  | some row =>
    rw [hlive] at hrest
    obtain ⟨rfl, rfl⟩ := hrest.of_ret
    exact ⟨s, rfl, .inl ⟨row.id, by rw [hlive]; rfl, rfl⟩⟩

theorem listDocuments_cases {result : Except DossierError (List DocumentDef)}
    (h : (DocumentDefService.listDocuments repr key).Beside S DossierStore.look c looks d result) :
    (DossierKept looks ∧ ∃ documents, result = .ok documents) ∨
      ¬ DossierKept looks ∧ result = .error (dossierNotFound repr key) := by
  rcases Prog.Beside.of_bind h with ⟨_, _, id, _, hfirst, hrows, rfl⟩ | ⟨e, hfirst, rfl⟩
  · obtain ⟨s, rfl, ⟨_, hlive, _⟩ | ⟨_, heq⟩⟩ := dossierId_cases hfirst
    · obtain ⟨t, rfl, rfl⟩ := hrows.of_perform
      refine .inl ⟨?_, _, rfl⟩
      simp [dossierKept_id, dossierKept_rows, dossierKept_nil, hlive]
    · cases heq
  · obtain ⟨s, rfl, ⟨_, _, heq⟩ | ⟨hlive, heq⟩⟩ := dossierId_cases hfirst
    · cases heq
    · obtain rfl := Except.error.inj heq
      exact .inr ⟨by simp [dossierKept_id, hlive], rfl⟩

/-- The tool answers exactly when the dossier is not deleted between its two lookups. -/
theorem getDossierSpec_answers {result : Except DossierError SpecAnswer}
    (h : (getDossierSpec repr key).Beside S DossierStore.look c looks d result) :
    (∃ answer, result = .ok answer) ↔ DossierKept looks := by
  have hcatch : ∀ {d looks result}, (tryCatch
      (do return some (← DossierDefService.getDossier repr key)) (fun e => match e with
        | .notFound _ => return none
        | e => throw e) : DossierProg (Option DossierDef)).Beside S DossierStore.look c looks d result →
      ∃ s found, looks = [(.fetchDossier key, s)] ∧ result = .ok found := by
    intro d looks result h
    obtain ⟨_, m, middle, _, hfirst, hsecond, rfl⟩ := Prog.Beside.of_settle h
    rcases Prog.Beside.of_bind hfirst with ⟨_, _, record, _, hget, hret, rfl⟩ | ⟨e, hget, rfl⟩
    · obtain ⟨s, rfl, _⟩ := getDossier_cases hget
      obtain ⟨rfl, rfl⟩ := hret.of_ret
      obtain ⟨rfl, rfl⟩ := hsecond.of_ret
      exact ⟨s, some record, rfl, rfl⟩
    · obtain ⟨s, rfl, ⟨_, heq⟩ | heq⟩ := getDossier_cases hget
      · cases heq
      · obtain rfl := Except.error.inj heq
        obtain ⟨rfl, rfl⟩ := hsecond.of_ret
        exact ⟨s, none, rfl, rfl⟩
  rcases Prog.Beside.of_bind h with ⟨_, _, found, _, hfirst, hrest, rfl⟩ | ⟨e, hfirst, rfl⟩
  · obtain ⟨s, _, rfl, _⟩ := hcatch hfirst
    cases found with
    | none =>
      obtain ⟨rfl, rfl⟩ := hrest.of_ret
      exact iff_of_true ⟨_, rfl⟩ (by simp [dossierKept_fetch, dossierKept_nil])
    | some dossier =>
      rw [List.singleton_append, dossierKept_fetch]
      rcases Prog.Beside.of_bind hrest with ⟨_, _, documents, _, hlist, hret, rfl⟩ | ⟨e, hlist, rfl⟩
      · obtain ⟨rfl, rfl⟩ := hret.of_ret
        rw [List.append_nil]
        rcases listDocuments_cases hlist with ⟨hkept, _⟩ | ⟨_, heq⟩
        · exact iff_of_true ⟨_, rfl⟩ hkept
        · cases heq
      · rcases listDocuments_cases hlist with ⟨_, _, heq⟩ | ⟨hgone, _⟩
        · cases heq
        · exact iff_of_false (fun ⟨_, hanswer⟩ => nomatch hanswer) hgone
  · obtain ⟨_, _, _, heq⟩ := hcatch hfirst
    cases heq

end Reads

section Tools

/-- Each tool answers exactly when nothing that it reads is deleted before it reads it. -/
theorem tools_answer_iff {cfg : MediaConfig} {repr : String → String} {readId : String → Option PartId}
    {partId dossierKey : String} {c d : Config DocReply Exc Store CallTag}
    {looks : List (PageCmd × Store)} {result : Except Exc PageAnswer}
    {c' d' : Config DossierReply DossierError DossierStore Unit}
    {looks' : List (DossierCmd × DossierStore)} {result' : Except DossierError SpecAnswer}
    (hpage : (getPageImage repr readId partId).Beside (serviceCalls cfg) Store.pageLook c looks d result)
    (hspec : (getDossierSpec repr dossierKey).Beside (dossierCalls repr) DossierStore.look c' looks' d'
      result') :
    ((∃ answer, result = .ok answer) ↔ BlobKept looks) ∧
      ((∃ answer, result' = .ok answer) ↔ DossierKept looks') :=
  ⟨getPageImage_answers hpage, getDossierSpec_answers hspec⟩

def oneDossier : DossierStore where
  dossiers := [{ id := 1, createdAt := 0, record := { key := "claims", name := "Claims", description := none } }]
  documents := []
  now := 7
  fresh := 2

def invoiceDef : DocumentDef :=
  { key := "invoice", name := "Invoice", description := none, lookFor := some "VAT" }

def reportDef : DocumentDef :=
  { key := "report", name := "Report", description := none, lookFor := none }

def filedDossier : DossierStore :=
  { oneDossier with documents := [{ id := 1, dossierId := 1, createdAt := 0, record := invoiceDef }] }

/-- The page tool shows the page, whose document gets its page count meanwhile; a document definition
comes while the dossier tool reads. -/
theorem tools_answer_iff_stored : ∃ looks c looks' c',
    (getPageImage quoted partOf pageId).Beside (serviceCalls plainConfig) Store.pageLook ⟨pagedStore, []⟩
      looks c (.ok (.blocks ("Page image for part " ++ pageId ++ ":") "image/png" "CA==")) ∧
    BlobKept looks ∧ 4 ≤ looks.length ∧
    (getDossierSpec quoted "claims").Beside (dossierCalls quoted) DossierStore.look ⟨filedDossier, []⟩
      looks' c' (.ok (.spec { key := "claims", name := "Claims", description := none }
        [reportDef, invoiceDef])) ∧ DossierKept looks' ∧ 3 ≤ looks'.length := by
  have hid : partOf pageId = some 5 := by decide +kernel
  obtain ⟨c, hc, hmedia, hobject⟩ : ∃ c, (serviceCalls plainConfig).exec
      (inTurn (.setPageCount 1 1) 1) ⟨pagedStore, []⟩ = some c ∧ c.shared.mediaById 3 =
        some ⟨firstPageKey, { id := 3, mimeType := some .png, sizeBytes := some 1 }⟩ ∧
      c.shared.objects firstPageKey = some [8] := ⟨_, rfl, rfl, rfl⟩
  have hpage : (getPageImage quoted partOf pageId).Beside (serviceCalls plainConfig) Store.pageLook
      ⟨pagedStore, []⟩ [(.partMedia 5, pagedStore), (.fetchMedia 3, c.shared), (.fetchMedia 3, c.shared),
        (.download firstPageKey, c.shared)] c
      (.ok (.blocks ("Page image for part " ++ pageId ++ ":") "image/png" "CA==")) := by
    have hdownload : (downloadMedia 3).Beside (serviceCalls plainConfig) Store.pageLook c
        [(.fetchMedia 3, c.shared), (.download firstPageKey, c.shared)] c (.ok [8]) := by
      refine .await .start ?_
      simp only [Store.pageLook, hmedia]
      exact .await .start (by
        simp only [Store.pageLook, hobject]
        exact .ret c [8])
    have hget : (getMedia 3).Beside (serviceCalls plainConfig) Store.pageLook ⟨pagedStore, []⟩
        [(.fetchMedia 3, c.shared)] c
        (.ok ⟨firstPageKey, { id := 3, mimeType := some .png, sizeBytes := some 1 }⟩) := by
      refine .await (Reach.start.exec (fun _ _ => trivial) hc) ?_
      simp only [Store.pageLook, hmedia]
      exact .ret c _
    rw [getPageImage, hid]
    exact .await .start (hget.settle (hdownload.settle (.ret c _)))
  have hrun : ((dossierCalls quoted).exec [.env (.call (.upsertDocument "claims" reportDef)),
      .run 0 .done, .run 0 .done] ⟨filedDossier, []⟩).any (fun d =>
        (d.shared.live "claims").map ListedRow.id = some 1 && d.shared.documents = [⟨2, 1, 7, reportDef⟩,
          ⟨1, 1, 0, invoiceDef⟩]) = true := by decide +kernel
  obtain ⟨d, hd, hread⟩ := (Option.any_eq_true _ _).mp hrun
  simp only [Bool.and_eq_true, decide_eq_true_eq] at hread
  obtain ⟨hlive, hdocuments⟩ := hread
  have hrows : d.shared.documentRows 1 = [reportDef, invoiceDef] := by
    have hsorted : newestFirst DocumentDefRow.createdAt DocumentDefRow.id
        [⟨2, 1, 7, reportDef⟩, ⟨1, 1, 0, invoiceDef⟩] = [⟨2, 1, 7, reportDef⟩, ⟨1, 1, 0, invoiceDef⟩] :=
      List.mergeSort_of_pairwise (by decide)
    simp [DossierStore.documentRows, hdocuments, hsorted]
  have hspec : (getDossierSpec quoted "claims").Beside (dossierCalls quoted) DossierStore.look
      ⟨filedDossier, []⟩ [(.fetchDossier "claims", filedDossier), (.dossierId "claims", d.shared),
        (.documentRows 1, d.shared)] d
      (.ok (.spec { key := "claims", name := "Claims", description := none } [reportDef, invoiceDef])) := by
    have hlist : (DocumentDefService.listDocuments quoted "claims").Beside (dossierCalls quoted)
        DossierStore.look ⟨filedDossier, []⟩ [(.dossierId "claims", d.shared), (.documentRows 1, d.shared)]
        d (.ok [reportDef, invoiceDef]) := by
      refine .await (Reach.start.exec (fun _ _ => trivial) hd) ?_
      simp only [DossierStore.look, DossierStore.meaning, hlive]
      exact .await .start (by
        simp only [DossierStore.look, DossierStore.meaning, hrows]
        exact .ret d _)
    exact .await .start (hlist.settle (.ret d _))
  obtain ⟨hblob, hdossier⟩ := tools_answer_iff hpage hspec
  exact ⟨_, c, _, d, hpage, hblob.mp ⟨_, rfl⟩, le_rfl, hspec, hdossier.mp ⟨_, rfl⟩, le_rfl⟩

/-- The document is deleted after the tool has found its part. -/
def pageStored : List (Move Exc StoreEvent) :=
  inTurn (.ensurePart 1 (pageLocator 1) .image [8] (some .png) (some 1)) 7

def pageDeleted : Bool :=
  match (serviceCalls plainConfig).exec pageStored ⟨filedStore, []⟩ with
  | none => false
  | some c => c.shared.partMedia 5 = some (some 4) &&
    match (serviceCalls plainConfig).exec (inTurn (.delete [1]) 5) c with
    | none => false
    | some d => (d.shared.mediaById 4).isNone

def dossierDeleted : List (Move DossierError DossierEvent) :=
  [.env (.call (.delete ["claims"])), .run 0 .done]

theorem tools_raise :
    (∃ c looks d, Reach (serviceCalls plainConfig) (fun _ _ => True) ⟨filedStore, []⟩ c ∧
      (getPageImage quoted partOf pageId).Beside (serviceCalls plainConfig) Store.pageLook c looks d
        (.error (.mediaNotFound 4))) ∧
    ∃ looks d, (getDossierSpec quoted "claims").Beside (dossierCalls quoted) DossierStore.look
      ⟨oneDossier, []⟩ looks d (.error (.notFound "dossier_def 'claims'")) := by
  constructor
  · have hrun : pageDeleted = true := by decide +kernel
    unfold pageDeleted at hrun
    cases hc : (serviceCalls plainConfig).exec pageStored ⟨filedStore, []⟩ with
    | none => simp [hc] at hrun
    | some c =>
      cases hd : (serviceCalls plainConfig).exec (inTurn (.delete [1]) 5) c with
      | none => simp [hc, hd] at hrun
      | some d =>
        simp only [hc, hd, Bool.and_eq_true, decide_eq_true_eq, Option.isNone_iff_eq_none] at hrun
        have hid : partOf pageId = some 5 := by decide +kernel
        have hfetch : (getMedia 4).Beside (serviceCalls plainConfig) Store.pageLook c
            [(.fetchMedia 4, d.shared)] d (.error (.mediaNotFound 4)) := by
          refine .await (Reach.start.exec (fun _ _ => trivial) hd) ?_
          simp only [Store.pageLook, hrun.2]
          exact .throw d _
        refine ⟨c, [(.partMedia 5, c.shared), (.fetchMedia 4, d.shared)], d,
          Reach.start.exec (fun _ _ => trivial) hc, ?_⟩
        rw [getPageImage, hid]
        refine .await .start ?_
        simp only [Store.pageLook, hrun.1]
        exact hfetch.settle (.throw d _)
  · have hrun : ((dossierCalls quoted).exec dossierDeleted ⟨oneDossier, []⟩).any
        (fun d => (d.shared.live "claims").isNone) = true := by decide +kernel
    obtain ⟨d, hd, hgone⟩ := (Option.any_eq_true _ _).mp hrun
    have hlist : (DocumentDefService.listDocuments quoted "claims").Beside (dossierCalls quoted)
        DossierStore.look ⟨oneDossier, []⟩ [(.dossierId "claims", d.shared)] d
        (.error (dossierNotFound quoted "claims")) := by
      refine .await (Reach.start.exec (fun _ _ => trivial) hd) ?_
      simp only [DossierStore.look, DossierStore.meaning, Option.isNone_iff_eq_none.mp hgone]
      exact .throw d _
    refine ⟨[(.fetchDossier "claims", oneDossier), (.dossierId "claims", d.shared)], d, ?_⟩
    exact .await .start (hlist.settle (.throw d _))

end Tools

end Doci
