import Doci.Annotations
import Mathlib.Data.List.Sort

/-! The table `workflow_result`: one row for a run, a part and a kind of result, and the index of a
run's annotated pages. -/

namespace Doci

open ReadCommitted

abbrev ResultId := Nat

inductive ResultKind where
  | extract | annotation
  deriving DecidableEq

namespace ResultKind

def value : ResultKind → String
  | extract => "extract.md"
  | annotation => "annotation.json"

def isJson (kind : ResultKind) : Bool := ".json".toList.isSuffixOf kind.value.toList

/-- `ResultKind(kind)`. -/
def ofValue (text : String) : Option ResultKind :=
  [extract, annotation].find? fun kind => kind.value = text

@[simp] theorem ofValue_value (kind : ResultKind) : ofValue kind.value = some kind := by
  cases kind <;> decide

end ResultKind

section Content

/-- No NUL, which a JSONB column refuses. -/
def storableText (text : String) : Bool := !text.toList.contains (Char.ofNat 0)

mutual

def Json.storable : Json → Bool
  | .str s => storableText s
  | .arr items => storableItems items
  | .obj entries => storableEntries entries
  | _ => true

def storableItems : List Json → Bool
  | [] => true
  | v :: items => v.storable && storableItems items

def storableEntries : List (String × Json) → Bool
  | [] => true
  | (k, v) :: entries => storableText k && v.storable && storableEntries entries

end

/-- `content.get(key)`. -/
def Json.field (key : String) : Json → Option Json
  | .obj entries => entries.lookup key
  | _ => none

/-- `content->>'key'`. -/
def Json.textField (key : String) (content : Json) : Option String :=
  match content.field key with
  | none => none
  | some .null => none
  | some (.str s) => some s
  | some value => some (JsonText.dumps value)

/-- What `save` stores of a payload. -/
def ResultKind.content (kind : ResultKind) (payload : String) : Option Json :=
  if kind.isJson then JsonText.loads payload else some (.obj [("result", .str payload)])

theorem ResultKind.content_extract (payload : String) :
    extract.content payload = some (.obj [("result", .str payload)]) :=
  if_neg (by decide)

theorem ResultKind.content_annotation (payload : String) :
    annotation.content payload = JsonText.loads payload := if_pos (by decide)

end Content

structure ResultRow where
  id : ResultId
  execution : ExecutionId
  part : PartId
  kind : ResultKind
  content : Json

abbrev ResultKey := ExecutionId × PartId × ResultKind

def ResultRow.key (row : ResultRow) : ResultKey := (row.execution, row.part, row.kind)

structure ResultTable where
  rows : List ResultRow
  fresh : ResultId
  unique : (rows.map ResultRow.key).Nodup
  primary : (rows.map ResultRow.id).Nodup
  id_lt : ∀ row ∈ rows, row.id < fresh

namespace ResultTable

def empty : ResultTable := ⟨[], 0, List.nodup_nil, List.nodup_nil, by simp⟩

variable (t : ResultTable)

def find (key : ResultKey) : Option ResultRow := t.rows.find? fun row => row.key = key

def insert (key : ResultKey) (content : Json) (h : key ∉ t.rows.map ResultRow.key) : ResultTable where
  rows := ⟨t.fresh, key.1, key.2.1, key.2.2, content⟩ :: t.rows
  fresh := t.fresh + 1
  unique := List.nodup_cons.mpr ⟨h, t.unique⟩
  primary := by
    refine List.nodup_cons.mpr ⟨fun hmem => ?_, t.primary⟩
    obtain ⟨row, hrow, hid⟩ := List.mem_map.mp hmem
    exact absurd hid (Nat.ne_of_lt (t.id_lt row hrow))
  id_lt := by
    intro row hrow
    rcases List.mem_cons.mp hrow with rfl | hrow
    · exact Nat.lt_succ_self _
    · exact Nat.lt_succ_of_lt (t.id_lt row hrow)

def replace (key : ResultKey) (content : Json) : ResultTable where
  rows := t.rows.map fun row => if row.key = key then { row with content } else row
  fresh := t.fresh
  unique := by
    have hkeys : ∀ row : ResultRow, (if row.key = key then { row with content } else row).key = row.key := by
      intro row
      split <;> rfl
    rw [List.map_map, show ResultRow.key ∘ _ = ResultRow.key from funext hkeys]
    exact t.unique
  primary := by
    have hids : ∀ row : ResultRow, (if row.key = key then { row with content } else row).id = row.id := by
      intro row
      split <;> rfl
    rw [List.map_map, show ResultRow.id ∘ _ = ResultRow.id from funext hids]
    exact t.primary
  id_lt := by
    intro row hrow
    obtain ⟨old, hold, rfl⟩ := List.mem_map.mp hrow
    have hlt := t.id_lt old hold
    split <;> exact hlt

/-- `INSERT ... ON CONFLICT (execution_id, part_id, kind) DO UPDATE ... RETURNING id`. -/
def upsert (key : ResultKey) (content : Json) : ResultId × ResultTable :=
  if h : key ∈ t.rows.map ResultRow.key then
    (((t.find key).map ResultRow.id).getD 0, t.replace key content)
  else (t.fresh, t.insert key content h)

/-- `ON DELETE CASCADE`. -/
def restrict (keep : PartId → Bool) : ResultTable where
  rows := t.rows.filter fun row => keep row.part
  fresh := t.fresh
  unique := t.unique.sublist (List.filter_sublist.map _)
  primary := t.primary.sublist (List.filter_sublist.map _)
  id_lt := fun row hrow => t.id_lt row (List.mem_filter.mp hrow).1

section Lemmas

variable {t} {key : ResultKey} {row : ResultRow} {content : Json}

theorem find_some (h : t.find key = some row) : row ∈ t.rows ∧ row.key = key := by
  refine ⟨List.mem_of_find?_eq_some h, ?_⟩
  simpa using List.find?_some h

theorem find_of_mem (h : row ∈ t.rows) : t.find row.key = some row := by
  cases hfind : t.find row.key with
  | none =>
    have hnot := List.find?_eq_none.mp hfind row h
    simp at hnot
  | some other =>
    obtain ⟨hother, hkey⟩ := find_some hfind
    rw [List.inj_on_of_nodup_map t.unique hother h hkey]

theorem mem_upsert : row ∈ (t.upsert key content).2.rows ↔
    row = ⟨(t.upsert key content).1, key.1, key.2.1, key.2.2, content⟩ ∨ row ∈ t.rows ∧ row.key ≠ key := by
  unfold upsert
  split_ifs with h
  · obtain ⟨old, hold, hkey⟩ := List.mem_map.mp h
    have hfind : t.find key = some old := hkey ▸ find_of_mem hold
    simp only [hfind, Option.map_some, Option.getD_some]
    constructor
    · intro hrow
      obtain ⟨other, hother, rfl⟩ := List.mem_map.mp hrow
      by_cases hk : other.key = key
      · rw [if_pos hk, List.inj_on_of_nodup_map t.unique hother hold (hk.trans hkey.symm), ← hkey]
        exact .inl rfl
      · rw [if_neg hk]
        exact .inr ⟨hother, hk⟩
    · rintro (rfl | ⟨hrow, hk⟩)
      · refine List.mem_map.mpr ⟨old, hold, ?_⟩
        rw [if_pos hkey, ← hkey]
        rfl
      · exact List.mem_map.mpr ⟨row, hrow, if_neg hk⟩
  · constructor
    · intro hrow
      rcases List.mem_cons.mp hrow with hrow | hrow
      · exact .inl hrow
      · exact .inr ⟨hrow, fun hk => h (hk ▸ List.mem_map_of_mem hrow)⟩
    · rintro (rfl | ⟨hrow, _⟩)
      · exact List.mem_cons_self ..
      · exact List.mem_cons_of_mem _ hrow

/-- A repeated save keeps the row's id. -/
theorem upsert_stable (h : row ∈ t.rows) :
    ∃ row' ∈ (t.upsert key content).2.rows, row'.id = row.id ∧ row'.key = row.key := by
  by_cases hk : row.key = key
  · subst hk
    refine ⟨_, mem_upsert.mpr (.inl rfl), ?_, rfl⟩
    simp only [upsert, List.mem_map_of_mem h, dif_pos, find_of_mem h, Option.map_some, Option.getD_some]
  · exact ⟨row, mem_upsert.mpr (.inr ⟨h, hk⟩), rfl, rfl⟩

theorem mem_restrict {keep : PartId → Bool} :
    row ∈ (t.restrict keep).rows ↔ row ∈ t.rows ∧ keep row.part = true :=
  List.mem_filter

end Lemmas

end ResultTable

/-- `PageRef` of the results: a page's part with its classification. -/
structure PageEntry where
  part : PartId
  pageNumber : Option Nat
  locator : String
  itemKey : Option String
  category : Option String

/-- `ORDER BY page_number NULLS LAST, locator`. -/
def pageBefore (a b : PageEntry) : Bool :=
  match a.pageNumber, b.pageNumber with
  | some m, some n => decide (m < n) || m == n && decide (a.locator ≤ b.locator)
  | some _, none => true
  | none, some _ => false
  | none, none => decide (a.locator ≤ b.locator)

section Index

def pageEntry (store : Store) (row : ResultRow) : Option PageEntry :=
  (store.partRow none row.part).map fun found =>
    { part := row.part
      pageNumber := found.2.pageNumber
      locator := found.1.2
      itemKey := row.content.textField "item_key"
      category := row.content.textField "category" }

/-- `page_index`. -/
def pageIndex (results : ResultTable) (store : Store) (execution : ExecutionId) : List PageEntry :=
  ((results.rows.filter fun row => row.execution = execution ∧ row.kind = ResultKind.annotation).filterMap
    (pageEntry store)).insertionSort fun a b => pageBefore a b

end Index

end Doci
