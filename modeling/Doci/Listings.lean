import Doci.Executions
import Doci.Paging

/-! The paged lists of documents, rules, dossiers, knowledge and workflow runs. -/

namespace Doci

open Paging

/-- A row of a table with soft deletion, with the columns that a list orders it by. -/
structure ListedRow (β : Type) where
  id : Nat
  createdAt : Time
  deletedAt : Option Time := none
  record : β

structure ListedTable (β : Type) where
  rows : List (ListedRow β)
  ids : (rows.map ListedRow.id).Nodup

def ListedTable.live {β : Type} (table : ListedTable β) : List (ListedRow β) :=
  table.rows.filter fun row => row.deletedAt.isNone

/-- `limit or default`. -/
def limitOr (limit : Option Int) (default : Int) : Int :=
  match limit with
  | some n => if n = 0 then default else n
  | none => default

def clampLimit (limit : Option Int) (default most : Int) : Int := max 1 (min (limitOr limit default) most)

/-- `_page_bounds`. -/
def pageBounds (limit : Option Int) (offset : Int) : Int × Int := (clampLimit limit 50 200, max 0 offset)

section Userdata

structure AgentRule where
  key : String
  name : String
  body : String

structure DossierDef where
  key : String
  name : String
  description : Option String

structure Knowledge where
  key : String
  name : String
  description : Option String
  body : String

variable {β : Type}

/-- The rows that are not deleted, newest first, and the page that the bounds give. -/
def listTable (table : ListedTable β) (limit : Option Int) (offset : Int) : Page (ListedRow β) :=
  let (lim, off) := pageBounds limit offset
  page (newestFirst ListedRow.createdAt ListedRow.id table.live) lim off

def listRules (rules : ListedTable AgentRule) (limit : Option Int) (offset : Int) :
    Page (ListedRow AgentRule) := listTable rules limit offset

def listDossiers (dossiers : ListedTable DossierDef) (limit : Option Int) (offset : Int) :
    Page (ListedRow DossierDef) := listTable dossiers limit offset

/-- `list_knowledge` without a search. -/
def listKnowledge (knowledge : ListedTable Knowledge) (limit : Option Int) (offset : Int) :
    Page (ListedRow Knowledge) := listTable knowledge limit offset

end Userdata

structure BlobColumns where
  objectKey : String
  mimeType : Option Mime
  sizeBytes : Option Nat

structure DocumentColumns where
  mediaId : MediaId
  name : Option String
  status : DocumentStatus
  pageCount : Option Nat
  purgeAfter : Option Time

structure DocumentTables where
  documents : ListedTable DocumentColumns
  media : ListedTable BlobColumns
  references : ∀ d ∈ documents.rows, ∃ m ∈ media.rows, m.id = d.record.mediaId

/-- The settings of `MediaConfig` that `list_documents` reads. -/
structure PageConfig where
  pageSize : Int := 50
  maxPageSize : Int := 100

/-- `_DOC_SELECT`: each document with its original blob. -/
def DocumentTables.select (t : DocumentTables) : List (ListedRow DocumentColumns × ListedRow BlobColumns) :=
  t.documents.rows.flatMap fun d =>
    (t.media.rows.filter fun m => m.id = d.record.mediaId).map fun m => (d, m)

def listDocuments (cfg : PageConfig) (t : DocumentTables) (limit : Option Int) (offset : Int) :
    Page (ListedRow DocumentColumns × ListedRow BlobColumns) :=
  let lim := clampLimit limit cfg.pageSize cfg.maxPageSize
  let offset := max 0 offset
  page (newestFirst (fun r => r.1.createdAt) (fun r => r.1.id)
    (t.select.filter fun r => r.1.deletedAt.isNone)) lim offset

/-- A row of `workflow_execution`; none is ever deleted. -/
structure RunRow where
  id : ExecutionId
  workflow : String
  entityType : String
  entityId : Nat
  status : WorkflowStatus
  startedAt : Option Time
  finishedAt : Option Time
  createdAt : Time

structure RunTables where
  runs : List RunRow
  ids : (runs.map RunRow.id).Nodup
  documents : ListedTable DocumentColumns

/-- The run's document, if it has one: the `LEFT JOIN` has a row for a run without one too. -/
def RunTables.select (t : RunTables) : List (RunRow × Option (ListedRow DocumentColumns)) :=
  t.runs.flatMap fun run =>
    match t.documents.rows.filter fun d => run.entityType = "document" ∧ d.id = run.entityId with
    | [] => [(run, none)]
    | found => found.map fun d => (run, some d)

/-- `list_recent` over all workflows. -/
def listRecent (t : RunTables) (limit offset : Int) : List (RunRow × Option (ListedRow DocumentColumns)) :=
  window (newestFirst (fun r => r.1.createdAt) (fun r => r.1.id) t.select) limit offset

/-- The answer of a request that fails its validation. -/
inductive ListError where
  | unprocessable
  deriving DecidableEq

/-- `list_runs`; a missing parameter has its default. -/
def listRuns (t : RunTables) (limit offset : Option Int) :
    Except ListError (Page (RunRow × Option (ListedRow DocumentColumns))) :=
  let limit := limit.getD 50
  let offset := offset.getD 0
  if 1 ≤ limit ∧ limit ≤ 200 ∧ 0 ≤ offset then
    .ok (pageOf (listRecent t (limit + 1) offset) limit offset)
  else .error .unprocessable

/-- The list of runs answers every page and enumerates the runs. -/
def RunsEnumerated (t : RunTables) (limit : Option Int) : Prop :=
  ∃ fetch, (∀ offset, 0 ≤ offset → listRuns t limit (some offset) = .ok (fetch offset)) ∧
    Enumerates fetch Prod.fst RunRow.createdAt RunRow.id t.runs

theorem one_le_clampLimit (limit : Option Int) (default most : Int) : 1 ≤ clampLimit limit default most :=
  le_max_left _ _

section Tables

variable {β : Type} {table : ListedTable β}

theorem ListedTable.live_ids : (table.live.map ListedRow.id).Nodup :=
  table.ids.sublist (List.filter_sublist.map _)

/-- Looking a row up by its id finds it alone. -/
theorem ListedTable.filter_id {row : ListedRow β} (h : row ∈ table.rows) :
    table.rows.filter (fun r => r.id = row.id) = [row] := by
  have hids := table.ids
  revert h hids
  generalize table.rows = rows
  induction rows with
  | nil => intro h; cases h
  | cons r rows ih =>
    intro h hids
    obtain ⟨hr, hrest⟩ := List.nodup_cons.mp (List.map_cons ▸ hids)
    rcases List.mem_cons.mp h with rfl | hmem
    · rw [List.filter_cons_of_pos (by simp), List.filter_eq_nil_iff.mpr]
      intro a ha
      have hne : a.id ≠ row.id := fun heq => hr (heq ▸ List.mem_map_of_mem ha)
      simpa using hne
    · have hne : r.id ≠ row.id := fun heq => hr (heq ▸ List.mem_map_of_mem hmem)
      rw [List.filter_cons_of_neg (by simpa using hne), ih hmem hrest]

theorem listTable_enumerates (table : ListedTable β) (limit : Option Int) :
    Enumerates (listTable table limit) id ListedRow.createdAt ListedRow.id table.live :=
  enumerates_page (one_le_clampLimit limit 50 200) (List.Perm.of_eq (List.map_id table.live)) table.live_ids
    fun offset hoffset => by
      rw [listTable, pageBounds, max_eq_right hoffset]
      rfl

end Tables

theorem flatMap_fst {α γ : Type} {rows : List α} {f : α → List (α × γ)}
    (h : ∀ a ∈ rows, (f a).map Prod.fst = [a]) : (rows.flatMap f).map Prod.fst = rows := by
  rw [List.map_flatMap, List.flatMap_congr h, List.flatMap_singleton']

theorem DocumentTables.select_fst (t : DocumentTables) : t.select.map Prod.fst = t.documents.rows := by
  refine flatMap_fst fun d hd => ?_
  obtain ⟨m, hm, hid⟩ := t.references d hd
  rw [← hid, t.media.filter_id hm]
  rfl

/-- No run is listed twice for its document. -/
theorem RunTables.select_fst (t : RunTables) : t.select.map Prod.fst = t.runs := by
  refine flatMap_fst fun run _ => ?_
  cases hfound : t.documents.rows.filter fun d => run.entityType = "document" ∧ d.id = run.entityId with
  | nil => rfl
  | cons d rest =>
    obtain ⟨hd, hkind, hid⟩ : d ∈ t.documents.rows ∧ run.entityType = "document" ∧ d.id = run.entityId := by
      have hmem := List.mem_filter.mp (hfound ▸ List.mem_cons_self)
      exact ⟨hmem.1, by simpa using hmem.2⟩
    have hone : (t.documents.rows.filter fun d => run.entityType = "document" ∧ d.id = run.entityId) = [d] := by
      rw [← t.documents.filter_id hd, hid]
      exact List.filter_congr fun r _ => by simp [hkind]
    obtain rfl : rest = [] := (List.cons.inj (hfound.symm.trans hone)).2
    rfl

theorem listDocuments_enumerates (cfg : PageConfig) (t : DocumentTables) (limit : Option Int) :
    Enumerates (listDocuments cfg t limit) Prod.fst ListedRow.createdAt ListedRow.id t.documents.live := by
  have hlive : (t.select.filter fun r => r.1.deletedAt.isNone).map Prod.fst = t.documents.live := by
    rw [ListedTable.live, ← t.select_fst, List.filter_map]
    rfl
  exact enumerates_page (one_le_clampLimit limit cfg.pageSize cfg.maxPageSize) (List.Perm.of_eq hlive)
    t.documents.live_ids fun offset hoffset => by
      rw [listDocuments, max_eq_right hoffset]
      rfl

theorem listRuns_enumerates (t : RunTables) (limit : Option Int) :
    RunsEnumerated t limit ↔ 1 ≤ limit.getD 50 ∧ limit.getD 50 ≤ 200 := by
  constructor
  · rintro ⟨fetch, hfetch, -⟩
    have hfirst := hfetch 0 (le_refl 0)
    by_cases hrange : 1 ≤ limit.getD 50 ∧ limit.getD 50 ≤ 200 ∧ (0 : Int) ≤ (some (0 : Int)).getD 0
    · exact ⟨hrange.1, hrange.2.1⟩
    · rw [listRuns, if_neg hrange] at hfirst
      cases hfirst
  · rintro ⟨hone, hmost⟩
    refine ⟨page (newestFirst (fun r => r.1.createdAt) (fun r => r.1.id) t.select) (limit.getD 50),
      fun offset hoffset => ?_, enumerates_page hone (List.Perm.of_eq t.select_fst) t.ids fun _ _ => rfl⟩
    rw [listRuns, if_pos ⟨hone, hmost, hoffset⟩]
    rfl

theorem listRuns_refused {t : RunTables} {limit offset : Option Int}
    (h : ¬ (1 ≤ limit.getD 50 ∧ limit.getD 50 ≤ 200)) : listRuns t limit offset = .error .unprocessable := by
  rw [listRuns, if_neg fun hrange => h ⟨hrange.1, hrange.2.1⟩]

def noRuns : RunTables := { runs := [], ids := List.nodup_nil, documents := ⟨[], List.nodup_nil⟩ }

/-- A list of runs with a limit of zero is refused, so it enumerates nothing. -/
theorem zero_limit_refused : ¬ RunsEnumerated noRuns (some 0) := by
  rw [listRuns_enumerates]
  decide

/-- Whatever limit is asked for, the pages of the four services enumerate their live rows;
those of the runs do for a limit that the request may have, and any other is refused. -/
theorem listings_enumerate (cfg : PageConfig) (documents : DocumentTables) (rules : ListedTable AgentRule)
    (dossiers : ListedTable DossierDef) (knowledge : ListedTable Knowledge) (runs : RunTables)
    (limit : Option Int) :
    Enumerates (listDocuments cfg documents limit) Prod.fst ListedRow.createdAt ListedRow.id
        documents.documents.live ∧
      Enumerates (listRules rules limit) id ListedRow.createdAt ListedRow.id rules.live ∧
      Enumerates (listDossiers dossiers limit) id ListedRow.createdAt ListedRow.id dossiers.live ∧
      Enumerates (listKnowledge knowledge limit) id ListedRow.createdAt ListedRow.id knowledge.live ∧
      (RunsEnumerated runs limit ∨
        ¬ (1 ≤ limit.getD 50 ∧ limit.getD 50 ≤ 200) ∧
          ∀ offset, listRuns runs limit offset = .error .unprocessable) := by
  refine ⟨listDocuments_enumerates cfg documents limit, listTable_enumerates rules limit,
    listTable_enumerates dossiers limit, listTable_enumerates knowledge limit, ?_⟩
  by_cases hrange : 1 ≤ limit.getD 50 ∧ limit.getD 50 ≤ 200
  · exact .inl ((listRuns_enumerates runs limit).mpr hrange)
  · exact .inr ⟨hrange, fun _ => listRuns_refused hrange⟩

end Doci
