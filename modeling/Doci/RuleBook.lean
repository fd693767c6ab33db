import Doci.LinkOrder
import Doci.Listings
import Doci.SoftKeys

/-! `doci/userdata`: rules and dossiers with the links between them, while both are created, changed
and deleted and `set_dossiers` runs beside. A key is free again once its row is deleted. -/

namespace Doci

open Coroutine Paging ReadCommitted

/-- The columns of `agent_rule` and `dossier_def`; the unique index on the key leaves out deleted rows. -/
def definitionColumns {β : Type} (key : β → String) : SoftKeys.Columns (ListedRow β) String where
  id := ListedRow.id
  key := fun row => key row.record
  live := fun row => row.deletedAt.isNone

abbrev Definitions {β : Type} (key : β → String) := SoftKeys.Table (definitionColumns key)

namespace Definitions

variable {β : Type} {key : β → String}

def change (keys : List String) (f : ListedRow β → ListedRow β) (row : ListedRow β) : ListedRow β :=
  if key row.record ∈ keys ∧ row.deletedAt = none then f row else row

theorem keeping_change {keys : List String} {f : ListedRow β → ListedRow β}
    (hid : ∀ row, (f row).id = row.id) (hkey : ∀ row, key (f row).record = key row.record) :
    SoftKeys.Table.Keeping (definitionColumns key) (@change β key keys f) := by
  refine ⟨fun row => ?_, fun row => ?_, fun row => ?_⟩
  · unfold change
    split
    · exact hid row
    · rfl
  · unfold change
    split
    · exact hkey row
    · rfl
  · unfold change
    split
    · next h => exact fun _ => Option.isNone_iff_eq_none.mpr h.2
    · exact fun h => h

/-- `INSERT INTO ...`: `false` stands for the violation of the unique index. -/
def insert (now : Time) (record : β) (t : Definitions key) : Bool × Definitions key :=
  if h : t.find (key record) = none then
    (true, SoftKeys.Table.insert t ⟨t.next, now, none, record⟩ rfl h)
  else (false, t)

/-- `UPDATE ... WHERE key = ... AND deleted_at IS NULL`, and whether there was such a row. -/
def patch (k : String) (f : β → β) (hf : ∀ record, key (f record) = key record) (t : Definitions key) :
    Bool × Definitions key :=
  ((t.find k).isSome, t.rewrite (change [k] fun row => { row with record := f row.record })
    (keeping_change (fun _ => rfl) fun row => hf row.record))

/-- `UPDATE ... SET deleted_at = now() WHERE key = ANY(...) AND deleted_at IS NULL`. -/
def mark (now : Time) (keys : List String) (t : Definitions key) : Nat × Definitions key :=
  (t.rows.countP fun row => key row.record ∈ keys && row.deletedAt.isNone,
    t.rewrite (change keys fun row => { row with deletedAt := some now })
      (keeping_change (fun _ => rfl) fun _ => rfl))

theorem later_insert (now : Time) (record : β) (t : Definitions key) :
    SoftKeys.Table.Later t (insert now record t).2 := by
  unfold insert
  split
  · next h => exact SoftKeys.Table.later_insert t ⟨t.next, now, none, record⟩ rfl h
  · exact .refl t

theorem later_patch (k : String) (f : β → β) (hf : ∀ record, key (f record) = key record)
    (t : Definitions key) : SoftKeys.Table.Later t (patch k f hf t).2 :=
  SoftKeys.Table.later_rewrite t
    (keeping_change (f := fun row => { row with record := f row.record }) (fun _ => rfl) fun row =>
      hf row.record)

theorem later_mark (now : Time) (keys : List String) (t : Definitions key) :
    SoftKeys.Table.Later t (mark now keys t).2 :=
  SoftKeys.Table.later_rewrite t
    (keeping_change (f := fun row => { row with deletedAt := some now }) (fun _ => rfl) fun _ => rfl)

/-- What `set_dossiers` sees of the rows. -/
def keyed (t : Definitions key) : KeyedTable where
  rows := t.rows.map fun row => ⟨row.id, key row.record, row.deletedAt.isSome⟩
  ids := by
    rw [List.map_map]
    exact t.ids
  keys := by
    rw [List.filter_map, List.map_map]
    have hsame : ((fun row : KeyedRow => !row.deleted) ∘ fun row : ListedRow β =>
        ⟨row.id, key row.record, row.deletedAt.isSome⟩) = (definitionColumns key).live :=
      funext fun row => by cases h : row.deletedAt <;> simp [definitionColumns, h]
    rw [hsame]
    exact t.keys

theorem mem_select_keyed {t : Definitions key} {keys : List String} {row : KeyedRow} :
    row ∈ t.keyed.select keys ↔ ∃ r ∈ t.rows, (definitionColumns key).live r = true ∧
      key r.record ∈ keys ∧ row.id = r.id ∧ row.key = key r.record ∧ row.deleted = false := by
  rw [mem_select]
  constructor
  · rintro ⟨hmem, hlive, hkey⟩
    obtain ⟨r, hr, rfl⟩ := List.mem_map.mp hmem
    refine ⟨r, hr, ?_, hkey, rfl, rfl, hlive⟩
    exact Option.isSome_eq_false_iff.mp hlive
  · rintro ⟨r, hr, hlive, hkey, hid, hrow, hdeleted⟩
    refine ⟨List.mem_map.mpr ⟨r, hr, ?_⟩, hdeleted, hrow ▸ hkey⟩
    cases row
    simp only at hid hrow hdeleted
    subst hid hrow hdeleted
    have hnone : r.deletedAt.isSome = false := by
      rw [Option.isSome_eq_false_iff]
      exact hlive
    rw [hnone]

end Definitions

/-- `inserted` are the links that `set_dossiers` has inserted, whether or not its transaction has
committed, with the call; the last first. -/
structure RuleBook where
  rules : Definitions AgentRule.key
  dossiers : Definitions DossierDef.key
  links : Links
  now : Time
  inserted : List (LinkCall × Nat × Nat)

inductive BookCmd where
  | link (c : LinkCmd)
  | fetchRule (key : String)
  | dossierId (key : String)
  | dossiersOf (rule : Nat)
  | rulesOf (dossier : Nat)
  | insertRule (record : AgentRule)
  | patchRule (key : String) (name body : Option String)
  | markRules (keys : List String)
  | insertDossier (record : DossierDef)
  | patchDossier (key : String) (name description : Option String)
  | markDossiers (keys : List String)

abbrev BookReply : BookCmd → Type
  | .link c => LinkReply c
  | .fetchRule _ => Option (ListedRow AgentRule)
  | .dossierId _ => Option Nat
  | .dossiersOf _ => List (ListedRow DossierDef)
  | .rulesOf _ => List (ListedRow AgentRule)
  | .insertRule _ => Bool
  | .patchRule _ _ _ => Bool
  | .markRules _ => Nat
  | .insertDossier _ => Bool
  | .patchDossier _ _ _ => Bool
  | .markDossiers _ => Nat

abbrev BookProg (α : Type) := Prog BookReply LinkError α

namespace RuleBook

def catalog (s : RuleBook) : Catalog := ⟨s.rules.keyed, s.dossiers.keyed⟩

/-- A committed row of `agent_rule_dossier`. -/
def linked (s : RuleBook) (rule dossier : Nat) : Bool := (s.links.table.view none (rule, dossier)).isSome

/-- The `JOIN` over the links of a dossier, newest rules first. -/
def rulesOf (s : RuleBook) (dossier : Nat) : List (ListedRow AgentRule) :=
  newestFirst ListedRow.createdAt ListedRow.id
    (s.rules.rows.filter fun row => row.deletedAt.isNone && s.linked row.id dossier)

def dossiersOf (s : RuleBook) (rule : Nat) : List (ListedRow DossierDef) :=
  newestFirst ListedRow.createdAt ListedRow.id
    (s.dossiers.rows.filter fun row => row.deletedAt.isNone && s.linked rule row.id)

def logged (s : RuleBook) : LinkCmd → List (LinkCall × Nat × Nat)
  | .insert call rule dossier =>
    if (s.links.table.view (some call.session) (rule, dossier)).isSome then s.inserted
    else (call, rule, dossier) :: s.inserted
  | _ => s.inserted

def patchedRule (name body : Option String) (record : AgentRule) : AgentRule :=
  { record with name := name.getD record.name, body := body.getD record.body }

def patchedDossier (name description : Option String) (record : DossierDef) : DossierDef :=
  { record with name := name.getD record.name, description := description.or record.description }

def meaning : (c : BookCmd) → RuleBook → Except LinkError (BookReply c) × RuleBook
  | .link c, s => ((Links.meaning s.catalog c s.links).1,
    { s with links := (Links.meaning s.catalog c s.links).2, inserted := s.logged c })
  | .fetchRule key, s => (.ok (s.rules.find key), s)
  | .dossierId key, s => (.ok ((s.dossiers.find key).map ListedRow.id), s)
  | .dossiersOf rule, s => (.ok (s.dossiersOf rule), s)
  | .rulesOf dossier, s => (.ok (s.rulesOf dossier), s)
  | .insertRule record, s =>
    (.ok (Definitions.insert s.now record s.rules).1,
      { s with rules := (Definitions.insert s.now record s.rules).2 })
  | .patchRule key name body, s =>
    (.ok (Definitions.patch key (patchedRule name body) (fun _ => rfl) s.rules).1,
      { s with rules := (Definitions.patch key (patchedRule name body) (fun _ => rfl) s.rules).2 })
  | .markRules keys, s =>
    (.ok (Definitions.mark s.now keys s.rules).1,
      { s with rules := (Definitions.mark s.now keys s.rules).2 })
  | .insertDossier record, s =>
    (.ok (Definitions.insert s.now record s.dossiers).1,
      { s with dossiers := (Definitions.insert s.now record s.dossiers).2 })
  | .patchDossier key name description, s =>
    (.ok (Definitions.patch key (patchedDossier name description) (fun _ => rfl) s.dossiers).1,
      { s with dossiers :=
          (Definitions.patch key (patchedDossier name description) (fun _ => rfl) s.dossiers).2 })
  | .markDossiers keys, s =>
    (.ok (Definitions.mark s.now keys s.dossiers).1,
      { s with dossiers := (Definitions.mark s.now keys s.dossiers).2 })

def look (q : BookCmd) (s : RuleBook) : Except LinkError (BookReply q) := (meaning q s).1

/-- A statement of its own may be chosen to end a deadlock as well. -/
def admits : BookCmd → RuleBook → Fate LinkError → Bool
  | .link c, s, fate => c.admits s.links fate
  | _, _, .done => true
  | _, _, .lost .deadlockDetected => true
  | _, _, _ => false

end RuleBook

section Services

namespace AgentRuleService

def getRule (key : String) : BookProg (ListedRow AgentRule) := do
  match ← perform (BookCmd.fetchRule key) with
  | some rule => return rule
  | none => throw (.notFound "agent_rule" key)

/-- `DuplicateKey` is the violation of the index that it is raised from. -/
def createRule (record : AgentRule) : BookProg Unit := do
  if ← perform (BookCmd.insertRule record) then return () else throw .uniqueViolation

def updateRule (key : String) (name body : Option String) : BookProg Unit := do
  if ← perform (BookCmd.patchRule key name body) then return ()
  else throw (.notFound "agent_rule" key)

def deleteRules (keys : List String) : BookProg Nat :=
  if keys = [] then return 0 else perform (BookCmd.markRules keys)

def dossiersForRule (ruleKey : String) : BookProg (List (ListedRow DossierDef)) := do
  match ← perform (BookCmd.fetchRule ruleKey) with
  | none => throw (.notFound "agent_rule" ruleKey)
  | some rule => perform (BookCmd.dossiersOf rule.id)

def rulesForDossier (dossierKey : String) : BookProg (List (ListedRow AgentRule)) := do
  match ← perform (BookCmd.dossierId dossierKey) with
  | none => throw (.notFound "dossier_def" dossierKey)
  | some dossier => perform (BookCmd.rulesOf dossier)

end AgentRuleService

/-! `DossierDefService` over the same store. -/

namespace RuleBook.Dossiers

def createDossier (record : DossierDef) : BookProg Unit := do
  if ← perform (BookCmd.insertDossier record) then return () else throw .uniqueViolation

def updateDossier (key : String) (name description : Option String) : BookProg Unit := do
  if ← perform (BookCmd.patchDossier key name description) then return ()
  else throw (.notFound "dossier_def" key)

def deleteDossiers (keys : List String) : BookProg Nat :=
  if keys = [] then return 0 else perform (BookCmd.markDossiers keys)

end RuleBook.Dossiers

/-- An answer `{"ok": False, "error": ...}`, or the rules. -/
inductive RulesAnswer where
  | failed (error : String)
  | rules (rules : List AgentRule)

/-- The tool `list_rules`; `str` is the text of an error. -/
def listRulesTool (str : LinkError → String) (dossierKey : String) : BookProg RulesAnswer :=
  tryCatch (do return .rules ((← AgentRuleService.rulesForDossier dossierKey).map ListedRow.record))
    fun e => return .failed ("could not load rules: " ++ str e)

inductive BookCall where
  | createRule (record : AgentRule)
  | updateRule (key : String) (name body : Option String)
  | deleteRules (keys : List String)
  | createDossier (record : DossierDef)
  | updateDossier (key : String) (name description : Option String)
  | deleteDossiers (keys : List String)

def BookCall.run : BookCall → BookProg Unit
  | createRule record => AgentRuleService.createRule record
  | updateRule key name body => AgentRuleService.updateRule key name body
  | deleteRules keys => do
    let _ ← AgentRuleService.deleteRules keys
    return ()
  | createDossier record => RuleBook.Dossiers.createDossier record
  | updateDossier key name description => RuleBook.Dossiers.updateDossier key name description
  | deleteDossiers keys => do
    let _ ← RuleBook.Dossiers.deleteDossiers keys
    return ()

end Services

inductive BookEvent where
  | setDossiers (request : LinkRequest)
  | call (call : BookCall)
  | tick (duration : Time)

def inBook {α : Type} (p : LinkProg α) : BookProg α := p.expand fun c => perform (BookCmd.link c)

def RuleBook.setDossiers (s : RuleBook) (request : LinkRequest) :
    RuleBook × List (Thread BookReply LinkError (Option LinkCall)) :=
  let call := ⟨s.links.nextSession, request.ruleKey, request.dossierKeys⟩
  ({ s with links := { s.links with nextSession := s.links.nextSession + 1 } },
    [⟨some call, inBook (answerCall call)⟩])

/-- A thread of `set_dossiers` is tagged with its call. -/
def ruleBook : System BookReply LinkError RuleBook (Option LinkCall) BookEvent where
  meaning := RuleBook.meaning
  admits := RuleBook.admits
  env := fun e s => match e with
    | .setDossiers request => some (s.setDossiers request)
    | .call call => some (s, [⟨none, call.run⟩])
    | .tick duration => some ({ s with now := s.now + duration }, [])
  exit := fun _ _ => []
  death := fun tag s => match tag with
    | some call => { s with links := s.links.leave call (s.links.table.rollback call.session) }
    | none => s

end Doci
