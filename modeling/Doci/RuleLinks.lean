import Doci.RelyGuarantee
import Doci.ReadCommitted
import Mathlib.Logic.Function.Basic

/-! `doci/userdata/rules/service.py`: `set_dossiers` replaces the links of a rule, in a transaction
of its own. -/

namespace Doci

open Coroutine ReadCommitted

structure KeyedRow where
  id : Nat
  key : String
  deleted : Bool

/-- `agent_rule` or `dossier_def`: ids are unique, keys are among the rows not deleted. -/
structure KeyedTable where
  rows : List KeyedRow
  ids : (rows.map KeyedRow.id).Nodup
  keys : ((rows.filter fun row => !row.deleted).map KeyedRow.key).Nodup

structure Catalog where
  rules : KeyedTable
  dossiers : KeyedTable

/-- `WHERE key = ANY(keys) AND deleted_at IS NULL`. -/
def KeyedTable.select (table : KeyedTable) (keys : List String) : List KeyedRow :=
  (table.rows.filter fun row => !row.deleted).filter fun row => row.key ∈ keys

structure LinkCall where
  session : Nat
  ruleKey : String
  dossierKeys : List String
  deriving DecidableEq

inductive LinkError where
  | notFound (table key : String)
  | uniqueViolation
  | deadlockDetected
  deriving DecidableEq

/-- `DELETE` is its snapshot, the dossiers and the tuples that it saw, and then a lock on each
tuple in turn. -/
inductive LinkCmd where
  | fetchRule (ruleKey : String)
  | fetchDossiers (wanted : List String)
  | startDelete (call : LinkCall) (rule : Nat)
  | deleteRow (call : LinkCall) (rule dossier tuple : Nat)
  | insert (call : LinkCall) (rule dossier : Nat)
  | commit (call : LinkCall)
  | rollback (call : LinkCall)
  | answer (call : LinkCall) (result : Except LinkError Nat)

abbrev LinkReply : LinkCmd → Type
  | .fetchRule _ => Option KeyedRow
  | .fetchDossiers _ => List KeyedRow
  | .startDelete _ _ => List (Nat × Nat)
  | _ => Unit

abbrev LinkProg := Prog LinkReply LinkError

section Service

variable (call : LinkCall)

/-- `Postgres.transaction`. -/
def linkTransaction {α : Type} (body : LinkProg α) : LinkProg α := do
  let value ← tryCatch body fun e => do
    perform (LinkCmd.rollback call)
    throw e
  perform (LinkCmd.commit call)
  return value

/-- `{r["key"]: r["id"] for r in rows}`. -/
def found (rows : List KeyedRow) : String → Option Nat :=
  rows.foldl (fun ids row => Function.update ids row.key (some row.id)) fun _ => none

def dossierIds (wanted : List String) : LinkProg (List Nat) := do
  if wanted = [] then return []
  let rows ← perform (LinkCmd.fetchDossiers wanted)
  match wanted.filter fun key => (found rows key).isNone with
  | key :: _ => throw (.notFound "dossier_def" key)
  | [] => return wanted.filterMap (found rows)

def deleteRows (rule : Nat) : List (Nat × Nat) → LinkProg Unit
  | [] => return ()
  | (dossier, tuple) :: rows => do
    perform (LinkCmd.deleteRow call rule dossier tuple)
    deleteRows rule rows

def insertLinks (rule : Nat) : List Nat → LinkProg Unit
  | [] => return ()
  | dossier :: ids => do
    perform (LinkCmd.insert call rule dossier)
    insertLinks rule ids

def setDossiers : LinkProg Nat := do
  let wanted := call.dossierKeys.eraseDups
  let ids ← linkTransaction call do
    match ← perform (LinkCmd.fetchRule call.ruleKey) with
    | none => throw (.notFound "agent_rule" call.ruleKey)
    | some rule =>
      let ids ← dossierIds wanted
      let rows ← perform (LinkCmd.startDelete call rule.id)
      deleteRows call rule.id rows
      insertLinks call rule.id ids
      return ids
  return ids.length

/-- The endpoint answers with the count or with the error. -/
def answerCall : LinkProg Unit :=
  (setDossiers call).settle fun result => perform (LinkCmd.answer call result)

end Service

/-- `agent_rule_dossier` by rule and dossier, each row with the number of its tuple. `inside` are
the transactions that have begun their `DELETE`, `committed` and `answers` what has happened, the
last first. -/
structure Links where
  table : Table (Nat × Nat) Nat Nat
  nextSession : Nat := 0
  nextTuple : Nat := 0
  inside : List (LinkCall × Nat) := []
  committed : List LinkCall := []
  answers : List (LinkCall × Except LinkError Nat) := []

def Links.leave (s : Links) (call : LinkCall) (table : Table (Nat × Nat) Nat Nat) : Links :=
  { s with table := table, inside := s.inside.filter fun e => e.1 ≠ call }

def Links.meaning (catalog : Catalog) :
    (c : LinkCmd) → Links → Except LinkError (LinkReply c) × Links
  | .fetchRule ruleKey, s => (.ok (catalog.rules.select [ruleKey]).head?, s)
  | .fetchDossiers wanted, s => (.ok (catalog.dossiers.select wanted), s)
  | .startDelete call rule, s =>
    let rows := (s.table.rows (some call.session)).filter fun row => row.1.1 = rule
    (.ok (rows.map fun row => (row.1.2, row.2)), { s with inside := (call, rule) :: s.inside })
  | .deleteRow call rule dossier tuple, s =>
    let table := s.table.rewrite (some call.session) fun k v =>
      if k = (rule, dossier) ∧ v = tuple then some none else none
    (.ok (), { s with table := table })
  | .insert call rule dossier, s =>
    if (s.table.view (some call.session) (rule, dossier)).isSome then (.error .uniqueViolation, s)
    else
      let table := s.table.insert (some call.session) (rule, dossier) s.nextTuple
      (.ok (), { s with table := table, nextTuple := s.nextTuple + 1 })
  | .commit call, s =>
    (.ok (), { s.leave call (s.table.commit call.session) with
      committed := call :: s.committed })
  | .rollback call, s => (.ok (), s.leave call (s.table.rollback call.session))
  | .answer call result, s => (.ok (), { s with answers := (call, result) :: s.answers })

/-- Another transaction holds the tuple that the `DELETE` wants, or the key of an `INSERT`. -/
def LinkCmd.blocked (s : Links) : LinkCmd → Bool
  | .deleteRow call rule dossier tuple =>
    let slot := s.table.slot (rule, dossier)
    slot.committed = some tuple && !slot.free (some call.session)
  | .insert call rule dossier => !(s.table.slot (rule, dossier)).free (some call.session)
  | _ => false

/-- An await completes when nothing blocks it; one that is blocked may be chosen to end a
deadlock. -/
def LinkCmd.admits (c : LinkCmd) (s : Links) : Fate LinkError → Bool
  | .done => !c.blocked s
  | .lost .deadlockDetected => c.blocked s
  | _ => false

structure LinkRequest where
  ruleKey : String
  dossierKeys : List String

def Links.request (s : Links) (r : LinkRequest) : Links × List (Thread LinkReply LinkError LinkCall) :=
  let call := ⟨s.nextSession, r.ruleKey, r.dossierKeys⟩
  ({ s with nextSession := s.nextSession + 1 }, [⟨call, answerCall call⟩])

/-- The database rolls back the transaction of a call that dies. -/
def ruleLinks (catalog : Catalog) : System LinkReply LinkError Links LinkCall LinkRequest where
  meaning := Links.meaning catalog
  admits c s fate := c.admits s fate
  env r s := some (s.request r)
  exit _ _ := []
  death call s := s.leave call (s.table.rollback call.session)

end Doci
