import Doci.Keyspace
import Doci.Monitor
import Doci.SortedSet
import Mathlib.Data.List.AList
import Mathlib.Data.List.Induction
import Mathlib.Data.String.Basic

/-! `TaskMonitor`: the records of all tasks and the index that lists them, the last updated first. -/

namespace Doci

open Expiring Scored

/-- The fields of a record. Where `row` is empty there is no record. -/
abbrev Row := AList fun _ : String => String

structure MonitorDb where
  records : Keyspace String Row := .empty
  index : Keyspace String (SortedSet String Int) := .empty

/-- Times and `ttl` are in one unit. -/
structure TaskMonitor where
  keyPrefix : String
  ttl : Nat

def TaskMonitor.taskKey (m : TaskMonitor) (taskId : String) : String :=
  m.keyPrefix ++ ":task:" ++ taskId

def TaskMonitor.indexKey (m : TaskMonitor) : String := m.keyPrefix ++ ":index"

/-- `HDEL` and `HSET` on the value of a hash. -/
def Row.hdel (row : Row) (fields : List String) : Row :=
  fields.foldl (fun row field => row.erase field) row

def Row.hset (row : Row) (mapping : Fields) : Row :=
  mapping.foldl (fun row fv => row.insert fv.1 fv.2) row

inductive Parsed (J : Type) where
  | text (text : String)
  | json (value : J)

def jsonFields : List String := ["args", "kwargs", "labels", "execution_time"]

section Monitor

variable {J : Type} (loads : String → Option J) (isoFormat : Nat → String) (m : TaskMonitor)
  (now : Nat)

def parseField (field text : String) : Parsed J :=
  if field ∈ jsonFields then
    match loads text with
    | some value => .json value
    | none => .text text
  else .text text

/-- `_parse`. -/
def parseRow (row : Row) : List (String × Parsed J) :=
  row.entries.map fun e => (e.1, parseField loads e.1 e.2)

/-- `_touch`. -/
def TaskMonitor.touch (db : MonitorDb) (taskId : String) (mapping : Fields)
    (clear : List String) : MonitorDb :=
  let key := m.taskKey taskId
  let records := db.records.modify now key (Row.hdel · clear)
  let records := records.write now key fun row => Row.hset (row.getD ∅) mapping
  let records := records.expire now m.ttl key
  let index := db.index.write now m.indexKey fun z => (z.getD .empty).add taskId now
  let index := index.expire now m.ttl m.indexKey
  let index := index.modify now m.indexKey (SortedSet.remUpTo · (now - m.ttl))
  { records, index }

def TaskMonitor.markQueued (db : MonitorDb) (message : TaskiqMessage) : MonitorDb :=
  m.touch now db message.taskId (queuedFields message (isoFormat now)) runtimeFields

def TaskMonitor.markRunning (db : MonitorDb) (taskId : String) : MonitorDb :=
  m.touch now db taskId (runningFields (isoFormat now)) []

/-- `mark_success` and `mark_failed`. -/
def TaskMonitor.markEnded (db : MonitorDb) (taskId : String) (result : TaskiqResult) : MonitorDb :=
  m.touch now db taskId (endedFields result (isoFormat now)) []

/-- What `HGETALL` returns. -/
def TaskMonitor.row (db : MonitorDb) (taskId : String) : Row :=
  (db.records.read now (m.taskKey taskId)).getD ∅

def TaskMonitor.zrem (db : MonitorDb) (taskId : String) : MonitorDb :=
  { db with index := db.index.modify now m.indexKey (SortedSet.rem · taskId) }

/-- The loop of `list`. -/
def TaskMonitor.collect (state : Option String) :
    List (String × Row) → MonitorDb → List (List (String × Parsed J)) →
      MonitorDb × List (List (String × Parsed J))
  | [], db, out => (db, out)
  | (taskId, row) :: rows, db, out =>
    if row.entries = [] then TaskMonitor.collect state rows (m.zrem now db taskId) out
    else if state.isSome ∧ row.lookup "state" ≠ state then TaskMonitor.collect state rows db out
    else TaskMonitor.collect state rows db (out ++ [parseRow loads row])

def TaskMonitor.list (db : MonitorDb) (state : Option String) (limit offset : Nat) :
    MonitorDb × List (List (String × Parsed J)) :=
  let ids := ((db.index.read now m.indexKey).getD .empty).revRange 0 999
  if ids = [] then (db, [])
  else
    let rows := ids.map fun taskId => (taskId, m.row now db taskId)
    let (db, out) := m.collect loads now state rows db []
    (db, (out.drop offset).take limit)

/-- The first pages of a listing, each call after the other. -/
def TaskMonitor.pages (state : Option String) (limit : Nat) :
    Nat → Nat → MonitorDb → List (List (List (String × Parsed J)))
  | 0, _, _ => []
  | n + 1, offset, db =>
    let (db, page) := m.list loads now db state limit offset
    page :: TaskMonitor.pages state limit n (offset + limit) db

inductive MonitorCall where
  | queued (message : TaskiqMessage)
  | running (taskId : String)
  | ended (taskId : String) (result : TaskiqResult)
  | list (state : Option String) (limit offset : Nat)

/-- The task whose record a call updates. -/
def MonitorCall.task : MonitorCall → Option String
  | queued message => some message.taskId
  | running taskId => some taskId
  | ended taskId _ => some taskId
  | list .. => none

def TaskMonitor.call (db : MonitorDb) : MonitorCall → MonitorDb
  | .queued message => m.markQueued isoFormat now db message
  | .running taskId => m.markRunning isoFormat now db taskId
  | .ended taskId result => m.markEnded isoFormat now db taskId result
  | .list state limit offset => (m.list loads now db state limit offset).1

/-- The keys after calls at these times, one after the other. -/
def TaskMonitor.run (calls : List (Nat × MonitorCall)) : MonitorDb :=
  calls.foldl (fun db c => m.call loads isoFormat c.1 db c.2) {}

/-- When a call last updated the record of a task. -/
def lastUpdate (calls : List (Nat × MonitorCall)) (taskId : String) : Option Nat :=
  (calls.reverse.find? fun c => c.2.task = some taskId).map Prod.fst

def TaskMonitor.indexed (db : MonitorDb) : List String :=
  ((db.index.read now m.indexKey).getD .empty).entries.map Prod.fst

def TaskMonitor.alive (db : MonitorDb) (taskId : String) : Prop :=
  (db.records.read now (m.taskKey taskId)).isSome

end Monitor

/-- What the keys are after calls of which the last one was at `now` or before. -/
structure Tracked (m : TaskMonitor) (calls : List (Nat × MonitorCall)) (now : Nat)
    (db : MonitorDb) : Prop where
  clock : ∀ c ∈ calls, c.1 ≤ now
  recorded : ∀ id last, lastUpdate calls id = some last →
    ∃ row : Row, row.entries ≠ [] ∧
      db.records.entry (m.taskKey id) = some ⟨row, some (last + m.ttl)⟩
  unrecorded : ∀ id, lastUpdate calls id = none → db.records.entry (m.taskKey id) = none
  indexed : ∀ id last t, lastUpdate calls id = some last → now ≤ t → t < last + m.ttl →
    ∃ z, db.index.read t m.indexKey = some z ∧ (id, (last : Int)) ∈ z.entries
  scored : ∀ t z id s, now ≤ t → db.index.read t m.indexKey = some z → (id, s) ∈ z.entries →
    ∃ last, lastUpdate calls id = some last ∧ s = last

section Keys

variable {m : TaskMonitor} {id id' : String} {row : Row} {field : String}

theorem taskKey_ne (h : id' ≠ id) : m.taskKey id' ≠ m.taskKey id :=
  fun heq => h (String.append_right_inj _ |>.mp heq)

theorem hset_ne_nil {mapping : Fields} (h : row.entries ≠ [] ∨ mapping ≠ []) :
    (Row.hset row mapping).entries ≠ [] := by
  induction mapping generalizing row with
  | nil => exact h.resolve_right fun hne => hne rfl
  | cons e mapping ih => exact ih (.inl (by simp [AList.entries_insert]))

end Keys

section Updates

variable {calls : List (Nat × MonitorCall)} {c : Nat × MonitorCall} {id : String}

theorem lastUpdate_append :
    lastUpdate (calls ++ [c]) id =
      if c.2.task = some id then some c.1 else lastUpdate calls id := by
  unfold lastUpdate
  by_cases h : c.2.task = some id <;> simp [h]

theorem Tracked.lastUpdate_le {m : TaskMonitor} {db : MonitorDb} {last now : Nat}
    (h : Tracked m calls now db) (hlast : lastUpdate calls id = some last) : last ≤ now := by
  obtain ⟨c, hc, rfl⟩ := Option.map_eq_some_iff.mp hlast
  exact h.clock c (List.mem_reverse.mp (List.mem_of_find?_eq_some hc))

theorem Tracked.clock_append {m : TaskMonitor} {db : MonitorDb} {now : Nat}
    (h : Tracked m calls now db) (hle : now ≤ c.1) : ∀ c' ∈ calls ++ [c], c'.1 ≤ c.1 := by
  intro c' hc'
  rcases List.mem_append.mp hc' with hc' | hc'
  · exact (h.clock c' hc').trans hle
  · rw [List.mem_singleton.mp hc']

end Updates

section Touch

variable {m : TaskMonitor} {calls : List (Nat × MonitorCall)} {c : Nat × MonitorCall}
  {db : MonitorDb} {id taskId : String} {mapping : Fields} {clear : List String} {now t before : Nat}

theorem entry_touch_self : ∃ row : Row,
    (m.touch now db taskId mapping clear).records.entry (m.taskKey taskId) =
      some ⟨Row.hset row mapping, some (now + m.ttl)⟩ := by
  refine ⟨((db.records.modify now (m.taskKey taskId) (Row.hdel · clear)).read now
    (m.taskKey taskId)).getD ∅, ?_⟩
  simp only [TaskMonitor.touch, Keyspace.entry_write_expire, if_true]

theorem entry_touch_ne (h : id ≠ taskId) :
    (m.touch now db taskId mapping clear).records.entry (m.taskKey id) =
      db.records.entry (m.taskKey id) := by
  have hkey : m.taskKey id ≠ m.taskKey taskId := taskKey_ne h
  simp only [TaskMonitor.touch, Keyspace.entry_write_expire, if_neg hkey]
  exact Keyspace.entry_modify_ne hkey

/-- The index lives as long as the record that was just updated. -/
theorem read_touch_index (ht : now ≤ t) :
    (m.touch now db taskId mapping clear).index.read t m.indexKey =
      if t < now + m.ttl then
        some ((((db.index.read now m.indexKey).getD .empty).add taskId now).remUpTo (now - m.ttl))
      else none := by
  simp only [TaskMonitor.touch]
  rw [Keyspace.read_modify ht, Keyspace.read_expire, Keyspace.read_write]
  by_cases hlive : t < now + m.ttl <;> simp [hlive]

theorem Tracked.touch (h : Tracked m calls before db) (hle : before ≤ c.1)
    (htask : c.2.task = some taskId) (hmapping : mapping ≠ []) :
    Tracked m (calls ++ [c]) c.1 (m.touch c.1 db taskId mapping clear) := by
  have hself : lastUpdate (calls ++ [c]) taskId = some c.1 := by rw [lastUpdate_append, if_pos htask]
  have hother : ∀ id, id ≠ taskId → lastUpdate (calls ++ [c]) id = lastUpdate calls id := by
    intro id hne
    rw [lastUpdate_append, htask, if_neg fun heq => hne (Option.some.inj heq).symm]
  refine ⟨h.clock_append hle, fun id last hlast => ?_, fun id hnone => ?_,
    fun id last t hlast ht hlt => ?_, fun t z id s ht hz hmem => ?_⟩
  · by_cases hid : id = taskId
    · subst hid
      have hwritten : ∃ row : Row,
          (m.touch c.1 db id mapping clear).records.entry (m.taskKey id) =
            some ⟨Row.hset row mapping, some (c.1 + m.ttl)⟩ := entry_touch_self
      obtain ⟨row, hrow⟩ := hwritten
      obtain rfl : c.1 = last := Option.some.inj (hself.symm.trans hlast)
      exact ⟨_, hset_ne_nil (.inr hmapping), hrow⟩
    · rw [entry_touch_ne hid]
      exact h.recorded id last ((hother id hid).symm.trans hlast)
  · by_cases hid : id = taskId
    · subst hid
      exact nomatch hself.symm.trans hnone
    · rw [entry_touch_ne hid]
      exact h.unrecorded id ((hother id hid).symm.trans hnone)
  · by_cases hid : id = taskId
    · subst hid
      obtain rfl : c.1 = last := Option.some.inj (hself.symm.trans hlast)
      have hscore : (c.1 : Int) - m.ttl < c.1 := by omega
      exact ⟨_, (read_touch_index ht).trans (if_pos hlt),
        SortedSet.mem_remUpTo.mpr ⟨SortedSet.mem_add.mpr (.inl ⟨rfl, rfl⟩), hscore⟩⟩
    · have hbefore := (hother id hid).symm.trans hlast
      have hlast_le := h.lastUpdate_le hbefore
      have hscore : (c.1 : Int) - m.ttl < last := by omega
      obtain ⟨z, hz, hmem⟩ := h.indexed id last c.1 hbefore hle (by omega)
      refine ⟨_, (read_touch_index ht).trans (if_pos (by omega)), SortedSet.mem_remUpTo.mpr
        ⟨SortedSet.mem_add.mpr (.inr ⟨?_, hid⟩), hscore⟩⟩
      rw [hz]
      exact hmem
  · rw [read_touch_index ht] at hz
    by_cases hlive : t < c.1 + m.ttl
    · rw [if_pos hlive, Option.some.injEq] at hz
      subst hz
      rcases SortedSet.mem_add.mp (SortedSet.mem_remUpTo.mp hmem).1 with ⟨rfl, rfl⟩ | ⟨hmem, hne⟩
      · exact ⟨c.1, hself, rfl⟩
      · rw [hother id hne]
        cases hz : db.index.read c.1 m.indexKey with
        | none => simp [hz, SortedSet.empty] at hmem
        | some z => exact h.scored c.1 z id s hle hz (by simpa [hz] using hmem)
    · simp [hlive] at hz

end Touch

def inState (state : Option String) (row : Row) : Bool :=
  row.entries ≠ [] ∧ ¬(state.isSome ∧ row.lookup "state" ≠ state)

def TaskMonitor.newest (m : TaskMonitor) (now : Nat) (db : MonitorDb) : List String :=
  ((db.index.read now m.indexKey).getD .empty).revRange 0 999

/-- The tasks that `list` returns, before it cuts out a page. -/
def TaskMonitor.matching (m : TaskMonitor) (now : Nat) (db : MonitorDb) (state : Option String) :
    List String :=
  (m.newest now db).filter fun id => inState state (m.row now db id)

def TaskMonitor.gone (m : TaskMonitor) (now : Nat) (db : MonitorDb) : List String :=
  (m.newest now db).filter fun id => (m.row now db id).entries = []

section List

variable {J : Type} {loads : String → Option J} {m : TaskMonitor} {now t : Nat}
  {state : Option String} {rows : List (String × Row)} {db : MonitorDb}
  {out : List (List (String × Parsed J))} {limit offset : Nat}

theorem collect_snd : (m.collect loads now state rows db out).2 =
    out ++ (rows.filter fun r => inState state r.2).map fun r => parseRow loads r.2 := by
  induction rows generalizing db out with
  | nil => simp [TaskMonitor.collect]
  | cons r rows ih =>
    obtain ⟨taskId, row⟩ := r
    by_cases hrow : row.entries = []
    · simp [TaskMonitor.collect, hrow, ih, inState]
    · by_cases hstate : state.isSome ∧ row.lookup "state" ≠ state
      · have hout : inState state row = false := by simp [inState, hrow, hstate]
        rw [TaskMonitor.collect, if_neg hrow, if_pos hstate, ih, List.filter_cons, hout]
        rfl
      · have hin : inState state row = true := decide_eq_true ⟨hrow, hstate⟩
        rw [TaskMonitor.collect, if_neg hrow, if_neg hstate, ih, List.filter_cons, hin]
        simp

theorem collect_records :
    (m.collect loads now state rows db out).1.records = db.records := by
  induction rows generalizing db out with
  | nil => rfl
  | cons r rows ih =>
    obtain ⟨taskId, row⟩ := r
    unfold TaskMonitor.collect
    split_ifs <;> exact ih

theorem collect_index (ht : now ≤ t) :
    (m.collect loads now state rows db out).1.index.read t m.indexKey =
      (db.index.read t m.indexKey).map fun z =>
        ((rows.filter fun r => r.2.entries = []).map Prod.fst).foldl SortedSet.rem z := by
  induction rows generalizing db out with
  | nil => simp [TaskMonitor.collect]
  | cons r rows ih =>
    obtain ⟨taskId, row⟩ := r
    unfold TaskMonitor.collect
    by_cases hrow : row.entries = []
    · rw [if_pos hrow, ih, TaskMonitor.zrem, Keyspace.read_modify ht, Option.map_map]
      simp [hrow, Function.comp_def]
    · rw [if_neg hrow]
      split_ifs <;> simp [ih, hrow]

theorem list_eq : m.list loads now db state limit offset =
    if m.newest now db = [] then (db, [])
    else
      let rows := (m.newest now db).map fun taskId => (taskId, m.row now db taskId)
      ((m.collect loads now state rows db []).1,
        ((m.collect loads now state rows db []).2.drop offset).take limit) := rfl

theorem list_snd : (m.list loads now db state limit offset).2 =
    (((m.matching now db state).map fun id => parseRow loads (m.row now db id)).drop offset).take
      limit := by
  rw [list_eq]
  by_cases hids : m.newest now db = []
  · rw [if_pos hids]
    simp [TaskMonitor.matching, hids]
  · rw [if_neg hids]
    simp only [collect_snd, List.nil_append, List.filter_map, List.map_map]
    rfl

theorem list_records : (m.list loads now db state limit offset).1.records = db.records := by
  rw [list_eq]
  split_ifs
  · rfl
  · exact collect_records

theorem list_index (ht : now ≤ t) :
    (m.list loads now db state limit offset).1.index.read t m.indexKey =
      (db.index.read t m.indexKey).map fun z => (m.gone now db).foldl SortedSet.rem z := by
  rw [list_eq]
  by_cases hids : m.newest now db = []
  · rw [if_pos hids]
    simp [TaskMonitor.gone, hids]
  · rw [if_neg hids]
    simp only [collect_index ht, List.filter_map, List.map_map]
    simp [TaskMonitor.gone, TaskMonitor.newest, Function.comp_def]

end List

section Runs

variable {J : Type} {loads : String → Option J} {isoFormat : Nat → String} {m : TaskMonitor}
  {calls : List (Nat × MonitorCall)} {c : Nat × MonitorCall} {now before : Nat} {db : MonitorDb}
  {id : String} {state : Option String} {limit offset : Nat}

theorem Tracked.later (h : Tracked m calls before db) (hle : before ≤ now) :
    Tracked m calls now db :=
  ⟨fun c hc => (h.clock c hc).trans hle, h.recorded, h.unrecorded,
    fun id last t hlast ht hlt => h.indexed id last t hlast (hle.trans ht) hlt,
    fun t z id s ht hz hmem => h.scored t z id s (hle.trans ht) hz hmem⟩

theorem Tracked.alive_iff (h : Tracked m calls before db) :
    m.alive now db id ↔ ∃ last, lastUpdate calls id = some last ∧ now < last + m.ttl := by
  unfold TaskMonitor.alive
  cases hlast : lastUpdate calls id with
  | none =>
    have hentry := h.unrecorded id hlast
    simp [Keyspace.read, Keyspace.liveEntry, hentry]
  | some last =>
    obtain ⟨row, _, hentry⟩ := h.recorded id last hlast
    rw [Keyspace.read_of_entry hentry]
    by_cases hlive : now < last + m.ttl <;> simp [Entry.live, hlive]

/-- `HGETALL` returns no fields exactly when there is no record. -/
theorem Tracked.row_eq_nil_iff (h : Tracked m calls before db) :
    (m.row now db id).entries = [] ↔ ¬ m.alive now db id := by
  unfold TaskMonitor.alive TaskMonitor.row
  cases hread : db.records.read now (m.taskKey id) with
  | none => simp
  | some row =>
    have hne : row.entries ≠ [] := by
      cases hlast : lastUpdate calls id with
      | none => simp [Keyspace.read, Keyspace.liveEntry, h.unrecorded id hlast] at hread
      | some last =>
        obtain ⟨row', hne, hentry⟩ := h.recorded id last hlast
        rw [Keyspace.read_of_entry hentry] at hread
        obtain ⟨_, heq⟩ := Option.ite_none_right_eq_some.mp hread
        exact Option.some.inj heq ▸ hne
    simpa using hne

theorem lastUpdate_list (hlist : c.2.task = none) :
    lastUpdate (calls ++ [c]) id = lastUpdate calls id := by
  rw [lastUpdate_append, hlist]
  rfl

/-- A listing only removes tasks from the index whose records are gone. -/
theorem Tracked.list (h : Tracked m calls before db) (hle : before ≤ c.1)
    (hlist : c.2.task = none) :
    Tracked m (calls ++ [c]) c.1 (m.list loads c.1 db state limit offset).1 := by
  refine ⟨h.clock_append hle, fun id last hlast => ?_, fun id hnone => ?_,
    fun id last t hlast ht hlt => ?_, fun t z id s ht hz hmem => ?_⟩
  · rw [list_records]
    exact h.recorded id last ((lastUpdate_list hlist).symm.trans hlast)
  · rw [list_records]
    exact h.unrecorded id ((lastUpdate_list hlist).symm.trans hnone)
  · rw [lastUpdate_list hlist] at hlast
    obtain ⟨z, hz, hmem⟩ := h.indexed id last t hlast (hle.trans ht) hlt
    have halive : m.alive c.1 db id := h.alive_iff.mpr ⟨last, hlast, by omega⟩
    have hkept : id ∉ m.gone c.1 db := fun hgone =>
      h.row_eq_nil_iff.mp (of_decide_eq_true (List.mem_filter.mp hgone).2) halive
    refine ⟨(m.gone c.1 db).foldl SortedSet.rem z, by rw [list_index ht, hz]; rfl, ?_⟩
    rw [SortedSet.entries_foldl_rem]
    exact List.mem_filter.mpr ⟨hmem, decide_eq_true hkept⟩
  · rw [list_index ht] at hz
    obtain ⟨z', hz', rfl⟩ := Option.map_eq_some_iff.mp hz
    rw [SortedSet.entries_foldl_rem] at hmem
    rw [lastUpdate_list hlist]
    exact h.scored t z' id s (hle.trans ht) hz' (List.mem_filter.mp hmem).1

theorem Tracked.call (h : Tracked m calls before db) (hle : before ≤ c.1) :
    Tracked m (calls ++ [c]) c.1 (m.call loads isoFormat c.1 db c.2) := by
  obtain ⟨t, call⟩ := c
  cases call with
  | queued message => exact h.touch hle rfl (by simp [queuedFields])
  | running taskId => exact h.touch hle rfl (by simp [runningFields])
  | ended taskId result =>
    refine h.touch hle rfl ?_
    cases result <;> simp [endedFields]
  | list state limit offset => exact h.list hle rfl

theorem tracked_run (hclock : (calls.map Prod.fst ++ [now]).Pairwise (· ≤ ·)) :
    Tracked m calls now (m.run loads isoFormat calls) := by
  induction calls using List.reverseRecOn generalizing now with
  | nil =>
    exact ⟨nofun, nofun, fun _ _ => rfl, nofun, nofun⟩
  | append_singleton calls c ih =>
    rw [List.map_append, List.map_singleton] at hclock
    have hbefore := (List.pairwise_append.mp hclock).1
    have hle : c.1 ≤ now := (List.pairwise_append.mp hclock).2.2 c.1 (by simp) now (by simp)
    have hrun : m.run loads isoFormat (calls ++ [c]) =
        m.call loads isoFormat c.1 (m.run loads isoFormat calls) c.2 := by
      simp [TaskMonitor.run]
    rw [hrun]
    exact ((ih hbefore).call le_rfl).later hle

end Runs

section Pages

variable {J : Type} {loads : String → Option J} {isoFormat : Nat → String} {m : TaskMonitor}
  {calls : List (Nat × MonitorCall)} {now before : Nat} {db : MonitorDb} {id : String}
  {state : Option String} {limit offset n : Nat}

theorem newest_eq (hlength : (m.indexed now db).length ≤ 1000) :
    m.newest now db = (m.indexed now db).reverse := by
  unfold TaskMonitor.newest TaskMonitor.indexed at *
  rw [SortedSet.revRange_all (by simpa using hlength), List.map_reverse]

theorem indexed_list : m.indexed now (m.list loads now db state limit offset).1 =
    (m.indexed now db).filter fun id => id ∉ m.gone now db := by
  unfold TaskMonitor.indexed
  rw [list_index le_rfl]
  cases db.index.read now m.indexKey with
  | none => rfl
  | some z => simp [SortedSet.entries_foldl_rem, List.filter_map, Function.comp_def]

theorem row_list :
    m.row now (m.list loads now db state limit offset).1 id = m.row now db id := by
  rw [TaskMonitor.row, list_records]
  rfl

/-- As long as the whole index fits into one reply, what a listing removes no listing returns. -/
theorem matching_list (hlength : (m.indexed now db).length ≤ 1000) :
    m.matching now (m.list loads now db state limit offset).1 state = m.matching now db state := by
  have hlength' : (m.indexed now (m.list loads now db state limit offset).1).length ≤ 1000 := by
    rw [indexed_list]
    exact (List.length_filter_le _ _).trans hlength
  unfold TaskMonitor.matching
  rw [newest_eq hlength', newest_eq hlength, indexed_list, ← List.filter_reverse, List.filter_filter]
  refine List.filter_congr fun id hid => ?_
  rw [row_list]
  cases hin : inState state (m.row now db id) with
  | false => simp
  | true =>
    have hrow : (m.row now db id).entries ≠ [] := (of_decide_eq_true hin).1
    have hkept : id ∉ m.gone now db := fun hgone =>
      hrow (of_decide_eq_true (List.mem_filter.mp hgone).2)
    simp [hkept]

theorem pages_flatten (hlength : (m.indexed now db).length ≤ 1000) :
    (m.pages loads now state limit n offset db).flatten =
      (((m.matching now db state).map fun id => parseRow loads (m.row now db id)).drop offset).take
        (n * limit) := by
  induction n generalizing offset db with
  | zero => simp [TaskMonitor.pages]
  | succ n ih =>
    have hlength' : (m.indexed now (m.list loads now db state limit offset).1).length ≤ 1000 := by
      rw [indexed_list]
      exact (List.length_filter_le _ _).trans hlength
    have hpages : (m.pages loads now state limit (n + 1) offset db).flatten =
        (m.list loads now db state limit offset).2 ++ (m.pages loads now state limit n
          (offset + limit) (m.list loads now db state limit offset).1).flatten := rfl
    rw [hpages, ih hlength', list_snd, matching_list hlength]
    simp only [row_list]
    rw [← List.drop_drop, Nat.succ_mul, Nat.add_comm, List.take_add]

theorem matching_nodup : (m.matching now db state).Nodup :=
  List.Nodup.filter _ SortedSet.revRange_nodup

theorem matching_alive (h : Tracked m calls before db) (hid : id ∈ m.matching now db state) :
    m.alive now db id := by
  have hin := (List.mem_filter.mp hid).2
  exact not_not.mp fun hdead => (of_decide_eq_true hin).1 (h.row_eq_nil_iff.mpr hdead)

theorem Tracked.newest_ordered (h : Tracked m calls now db) :
    (m.newest now db).Pairwise fun a b =>
      ∃ s t, lastUpdate calls a = some s ∧ lastUpdate calls b = some t ∧ t ≤ s := by
  unfold TaskMonitor.newest
  cases hz : db.index.read now m.indexKey with
  | none => simp [SortedSet.revRange, SortedSet.empty]
  | some z =>
    rw [Option.getD_some]
    let score : String → Int := fun id => (lastUpdate calls id).getD 0
    have hscore : ∀ e ∈ z.entries, e.2 = score e.1 := by
      intro e he
      obtain ⟨last, hlast, heq⟩ := h.scored now z e.1 e.2 le_rfl hz he
      simp only [score, hlast, heq, Option.getD_some]
    refine (SortedSet.revRange_ordered hscore).imp_of_mem fun {a b} ha hb hle => ?_
    obtain ⟨s, hs⟩ := SortedSet.mem_of_mem_revRange ha
    obtain ⟨t, ht⟩ := SortedSet.mem_of_mem_revRange hb
    obtain ⟨lastA, hlastA, _⟩ := h.scored now z a s le_rfl hz hs
    obtain ⟨lastB, hlastB, _⟩ := h.scored now z b t le_rfl hz ht
    simp only [score, hlastA, hlastB, Option.getD_some] at hle
    exact ⟨lastA, lastB, hlastA, hlastB, by simpa using hle⟩

theorem Tracked.inState_iff (h : Tracked m calls before db) :
    inState state (m.row now db id) = true ↔
      m.alive now db id ∧ (state = none ∨ (m.row now db id).lookup "state" = state) := by
  have hrow : (m.row now db id).entries ≠ [] ↔ m.alive now db id := h.row_eq_nil_iff.not_left
  rw [inState, decide_eq_true_eq, hrow]
  cases state with
  | none => simp
  | some state => simp

theorem Tracked.mem_indexed (h : Tracked m calls now db) (halive : m.alive now db id) :
    id ∈ m.indexed now db := by
  obtain ⟨last, hlast, hlt⟩ := h.alive_iff.mp halive
  obtain ⟨z, hz, hmem⟩ := h.indexed id last now hlast le_rfl hlt
  unfold TaskMonitor.indexed
  rw [hz]
  exact List.mem_map.mpr ⟨(id, (last : Int)), hmem, rfl⟩

/-- At any time after any calls, a live record is indexed; a listing returns live records only, each
once, the last updated first; and the pages of an index of at most 1000 tasks make up exactly the
live records in the state. -/
theorem index_follows_records
    (hclock : (calls.map Prod.fst ++ [now]).Pairwise (· ≤ ·)) {db : MonitorDb}
    (hdb : db = m.run loads isoFormat calls) :
    (∀ id, m.alive now db id → id ∈ m.indexed now db) ∧
    (∀ state limit offset, ∃ ids : List String,
      (m.list loads now db state limit offset).2 =
        ids.map (fun id => parseRow loads (m.row now db id)) ∧
      ids.Nodup ∧ (∀ id ∈ ids, m.alive now db id) ∧
      ids.Pairwise fun a b =>
        ∃ s t, lastUpdate calls a = some s ∧ lastUpdate calls b = some t ∧ t ≤ s) ∧
    (∀ state limit n, (m.indexed now db).length ≤ 1000 →
      (m.indexed now db).length ≤ n * limit → ∃ ids : List String,
        (m.pages loads now state limit n 0 db).flatten =
          ids.map (fun id => parseRow loads (m.row now db id)) ∧
        ids.Nodup ∧
        ∀ id, id ∈ ids ↔ m.alive now db id ∧
          (state = none ∨ (m.row now db id).lookup "state" = state)) := by
  have h : Tracked m calls now db := hdb ▸ tracked_run hclock
  refine ⟨fun id => h.mem_indexed, fun state limit offset => ?_, fun state limit n hsize hpages => ?_⟩
  · have hsub : (((m.matching now db state).drop offset).take limit).Sublist
        (m.matching now db state) := (List.take_sublist _ _).trans (List.drop_sublist _ _)
    refine ⟨((m.matching now db state).drop offset).take limit, ?_, hsub.nodup matching_nodup,
      fun id hid => matching_alive h (hsub.subset hid), ?_⟩
    · rw [list_snd, List.map_take, List.map_drop]
    · exact (h.newest_ordered.sublist List.filter_sublist).sublist hsub
  · refine ⟨m.matching now db state, ?_, matching_nodup, fun id => ?_⟩
    · have hlength : (m.matching now db state).length ≤ n * limit := by
        refine (List.length_filter_le _ _).trans ?_
        rwa [newest_eq hsize, List.length_reverse]
      rw [pages_flatten hsize, List.drop_zero, List.take_of_length_le (by simpa using hlength)]
    · unfold TaskMonitor.matching
      rw [List.mem_filter, newest_eq hsize, List.mem_reverse, h.inState_iff]
      exact ⟨fun hid => hid.2, fun hid => ⟨h.mem_indexed hid.1, hid⟩⟩

end Pages

section Example

def shortMonitor : TaskMonitor := ⟨"doci:monitor", 10⟩

/-- The record of `b` expires at 12, when those of `a` and `c` are still alive. -/
def threeTasks : List (Nat × MonitorCall) :=
  [(0, .queued ⟨"a", "verify", "[]", "\x7b\x7d", "\x7b\x7d"⟩),
    (2, .queued ⟨"b", "verify", "[]", "\x7b\x7d", "\x7b\x7d"⟩), (4, .running "a"),
    (5, .queued ⟨"c", "verify", "[]", "\x7b\x7d", "\x7b\x7d"⟩), (11, .list none 50 0)]

def threeTasksRun : MonitorDb :=
  shortMonitor.run (fun _ => (none : Option String)) (fun _ => "") threeTasks

/-- The listing and the pages of one task each, of those that run. -/
theorem index_follows_records_three :
    "a" ∈ shortMonitor.indexed 13 threeTasksRun ∧ "c" ∈ shortMonitor.indexed 13 threeTasksRun ∧
    (∃ ids : List String,
      (shortMonitor.list (fun _ => (none : Option String)) 13 threeTasksRun none 50 0).2 =
        ids.map (fun id => parseRow (fun _ => none) (shortMonitor.row 13 threeTasksRun id)) ∧
      ids.Nodup ∧ "b" ∉ ids) ∧
    ∃ ids : List String,
      (shortMonitor.pages (fun _ => (none : Option String)) 13 (some "running") 1 3 0
        threeTasksRun).flatten =
          ids.map (fun id => parseRow (fun _ => none) (shortMonitor.row 13 threeTasksRun id)) ∧
      ids.Nodup ∧ "a" ∈ ids ∧ "b" ∉ ids ∧ "c" ∉ ids := by
  have hfirst : shortMonitor.alive 13 threeTasksRun "a" := rfl
  have hthird : shortMonitor.alive 13 threeTasksRun "c" := rfl
  have hdead : ¬ shortMonitor.alive 13 threeTasksRun "b" := by
    unfold TaskMonitor.alive
    exact Bool.false_ne_true
  have hrunning : (shortMonitor.row 13 threeTasksRun "a").lookup "state" = some "running" := rfl
  have hqueued : (shortMonitor.row 13 threeTasksRun "c").lookup "state" = some "queued" := rfl
  have hsize : (shortMonitor.indexed 13 threeTasksRun).length = 3 := by decide +kernel
  have hclock : (threeTasks.map Prod.fst ++ [13]).Pairwise (· ≤ ·) := by decide
  have hdb : threeTasksRun = shortMonitor.run (fun _ => (none : Option String)) (fun _ => "") threeTasks := rfl
  obtain ⟨hindexed, hlist, hpages⟩ := index_follows_records hclock hdb
  obtain ⟨listed, heq, hnodup, halive, _⟩ := hlist none 50 0
  obtain ⟨ids, hflat, hnodup', hmem⟩ := hpages (some "running") 1 3 (by omega) (by omega)
  refine ⟨hindexed "a" hfirst, hindexed "c" hthird, ⟨listed, heq, hnodup, fun hb => hdead (halive "b" hb)⟩,
    ids, hflat, hnodup', (hmem "a").mpr ⟨hfirst, .inr hrunning⟩, fun hb => hdead ((hmem "b").mp hb).1,
    fun hc => ?_⟩
  rcases ((hmem "c").mp hc).2 with hnone | hstate
  · cases hnone
  · rw [hqueued] at hstate
    exact absurd hstate (by decide)

end Example

end Doci
