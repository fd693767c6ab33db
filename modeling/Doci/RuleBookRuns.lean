import Doci.Readers
import Doci.RuleBook

/-! Every link between a rule and a dossier was asked for under the keys of both, and a key that is
given again starts without the links that it had. -/

namespace Doci

open Coroutine ReadCommitted

namespace RuleBook

/-- The call named the rule and the dossier. -/
structure Named (s : RuleBook) (call : LinkCall) (rule dossier : Nat) : Prop where
  rule : ∃ row ∈ s.rules.rows, row.id = rule ∧ row.record.key = call.ruleKey
  dossier : ∃ row ∈ s.dossiers.rows, row.id = dossier ∧ row.record.key ∈ call.dossierKeys

/-- There is a version of the link, committed or not. -/
def Linked (s : RuleBook) (rule dossier : Nat) : Prop :=
  ∃ tuple, (s.links.table.slot (rule, dossier)).Has tuple

structure Sound (s : RuleBook) : Prop where
  named : ∀ call rule dossier, (call, rule, dossier) ∈ s.inserted → s.Named call rule dossier
  asked : ∀ rule dossier, s.Linked rule dossier → ∃ call, (call, rule, dossier) ∈ s.inserted

structure Later (s t : RuleBook) : Prop where
  rules : SoftKeys.Table.Later s.rules t.rules
  dossiers : SoftKeys.Table.Later s.dossiers t.dossiers
  inserted : ∀ entry ∈ s.inserted, entry ∈ t.inserted

/-- An `INSERT` of a link fits when its call named both rows. -/
def Fits (s : RuleBook) : BookCmd → Prop
  | .link (.insert call rule dossier) => s.Named call rule dossier
  | _ => True

variable {s t u : RuleBook} {call : LinkCall} {rule dossier : Nat}

theorem Later.refl (s : RuleBook) : s.Later s := ⟨.refl _, .refl _, fun _ h => h⟩

theorem Later.trans (h : s.Later t) (h' : t.Later u) : s.Later u :=
  ⟨h.rules.trans h'.rules, h.dossiers.trans h'.dossiers, fun e he => h'.inserted e (h.inserted e he)⟩

theorem Named.later (h : s.Named call rule dossier) (hlater : s.Later t) : t.Named call rule dossier := by
  obtain ⟨⟨r, hr, rfl, hrule⟩, ⟨d, hd, rfl, hdossier⟩⟩ := h
  obtain ⟨r', hr', hrid, hrkey⟩ := hlater.rules.kept r hr
  obtain ⟨d', hd', hdid, hdkey⟩ := hlater.dossiers.kept d hd
  exact ⟨⟨r', hr', hrid, hrkey.trans hrule⟩, ⟨d', hd', hdid, by rwa [show d'.record.key = _ from hdkey]⟩⟩

section Step

/-- Only an `INSERT` adds a version of a link. -/
theorem linked_links (catalog : Catalog) (c : LinkCmd) (links : Links) {key : Nat × Nat} {tuple : Nat}
    (h : ((Links.meaning catalog c links).2.table.slot key).Has tuple) :
    (links.table.slot key).Has tuple ∨
      ∃ call, c = .insert call key.1 key.2 ∧ (links.table.view (some call.session) key).isNone := by
  cases c with
  | deleteRow call rule dossier old =>
    rcases Table.has_rewrite h with h | ⟨v, _, hv⟩
    · exact .inl h
    · rw [Option.ite_none_right_eq_some] at hv
      cases hv.2
  | insert call rule dossier =>
    simp only [Links.meaning] at h
    split at h
    · exact .inl h
    · next hnone =>
      rcases Table.has_insert h with h | ⟨rfl, _⟩
      · exact .inl h
      · refine .inr ⟨call, rfl, ?_⟩
        rwa [Bool.not_eq_true, Option.isSome_eq_false_iff] at hnone
  | commit call => exact .inl (Slot.Has.commit (Table.slot_commit links.table call.session key ▸ h))
  | rollback call => exact .inl (Slot.Has.rollback (Table.slot_rollback links.table call.session key ▸ h))
  | _ => exact .inl h

theorem logged_cases (s : RuleBook) (c : LinkCmd) :
    s.logged c = s.inserted ∨ ∃ call rule dossier, c = .insert call rule dossier ∧
      s.logged c = (call, rule, dossier) :: s.inserted := by
  cases c with
  | insert call rule dossier =>
    simp only [logged]
    split
    · exact .inl rfl
    · exact .inr ⟨call, rule, dossier, rfl, rfl⟩
  | _ => exact .inl rfl

theorem later_link (s : RuleBook) (c : LinkCmd) : s.Later (meaning (.link c) s).2 := by
  refine ⟨.refl _, .refl _, fun entry hentry => ?_⟩
  change entry ∈ s.logged c
  rcases logged_cases s c with heq | ⟨_, _, _, _, heq⟩
  · rwa [heq]
  · rw [heq]
    exact List.mem_cons_of_mem _ hentry

theorem Sound.link (h : s.Sound) {c : LinkCmd} (hfits : s.Fits (.link c)) :
    (meaning (.link c) s).2.Sound := by
  have hlater := later_link s c
  constructor
  · intro call rule dossier hentry
    rcases logged_cases s c with heq | ⟨call', rule', dossier', rfl, heq⟩
    · exact (h.named call rule dossier (heq ▸ hentry)).later hlater
    · have hmem : (call, rule, dossier) ∈ (call', rule', dossier') :: s.inserted := heq ▸ hentry
      rcases List.mem_cons.mp hmem with hsame | hmem
      · obtain ⟨rfl, hrest⟩ := Prod.mk.inj hsame
        obtain ⟨rfl, rfl⟩ := Prod.mk.inj hrest
        exact Named.later hfits hlater
      · exact (h.named call rule dossier hmem).later hlater
  · rintro rule dossier ⟨tuple, htuple⟩
    rcases linked_links s.catalog c s.links htuple with hold | ⟨call, rfl, hnone⟩
    · obtain ⟨call, hcall⟩ := h.asked rule dossier ⟨tuple, hold⟩
      exact ⟨call, hlater.inserted _ hcall⟩
    · have hview : ¬ (s.links.table.view (some call.session) (rule, dossier)).isSome := by
        rw [Option.isNone_iff_eq_none.mp hnone]
        exact Bool.false_ne_true
      refine ⟨call, ?_⟩
      change (call, rule, dossier) ∈ s.logged (.insert call rule dossier)
      rw [logged, if_neg hview]
      exact List.mem_cons_self ..

/-- Definitions go on, the links and their log stay. -/
theorem Sound.defined (h : s.Sound) {rules : Definitions AgentRule.key}
    {dossiers : Definitions DossierDef.key} (hrules : SoftKeys.Table.Later s.rules rules)
    (hdossiers : SoftKeys.Table.Later s.dossiers dossiers) :
    RuleBook.Sound { s with rules := rules, dossiers := dossiers } ∧
      s.Later { s with rules := rules, dossiers := dossiers } := by
  have hlater : s.Later { s with rules := rules, dossiers := dossiers } :=
    ⟨hrules, hdossiers, fun _ h => h⟩
  exact ⟨⟨fun call rule dossier hentry => (h.named call rule dossier hentry).later hlater, h.asked⟩, hlater⟩

theorem later_aside (s : RuleBook) (links : Links) (now : Time) :
    s.Later { s with links := links, now := now } := ⟨.refl _, .refl _, fun _ h => h⟩

/-- A session is given out, or time passes. -/
theorem Sound.aside (h : s.Sound) (links : Links) (now : Time) (htable : links.table = s.links.table) :
    RuleBook.Sound { s with links := links, now := now } := by
  refine ⟨fun call rule dossier hentry => (h.named call rule dossier hentry).later (later_aside s _ _), ?_⟩
  rintro rule dossier ⟨tuple, htuple⟩
  exact h.asked rule dossier ⟨tuple, htable ▸ htuple⟩

theorem Sound.step (h : s.Sound) {c : BookCmd} (hfits : s.Fits c) :
    (meaning c s).2.Sound ∧ s.Later (meaning c s).2 := by
  cases c with
  | link c => exact ⟨h.link hfits, later_link s c⟩
  | insertRule record => exact h.defined (Definitions.later_insert _ _ _) (.refl _)
  | patchRule key name body => exact h.defined (Definitions.later_patch _ _ _ _) (.refl _)
  | markRules keys => exact h.defined (Definitions.later_mark _ _ _) (.refl _)
  | insertDossier record => exact h.defined (.refl _) (Definitions.later_insert _ _ _)
  | patchDossier key name description => exact h.defined (.refl _) (Definitions.later_patch _ _ _ _)
  | markDossiers keys => exact h.defined (.refl _) (Definitions.later_mark _ _ _)
  | _ => exact ⟨h, .refl s⟩

end Step

end RuleBook

section Contract

def bookContract : Contract BookReply LinkError RuleBook where
  meaning := RuleBook.meaning
  inv := RuleBook.Sound
  rely := RuleBook.Later
  guar := RuleBook.Later
  fate := fun _ _ _ => True
  rely_refl := RuleBook.Later.refl
  rely_trans := RuleBook.Later.trans

/-- The program keeps the book sound, and its answer tells `A`. -/
def Enters {α : Type} (A : α → RuleBook → Prop) (p : BookProg α) (s : RuleBook) : Prop :=
  Keeps bookContract (Ends A fun _ => True) p s

variable {s : RuleBook} {α β : Type} {A : α → RuleBook → Prop} {B : β → RuleBook → Prop}

theorem enters_perform {c : BookCmd} {A : BookReply c → RuleBook → Prop}
    (hfits : ∀ t, s.Later t → t.Fits c)
    (htells : ∀ t reply, (RuleBook.meaning c t).1 = .ok reply → A reply (RuleBook.meaning c t).2)
    (hstable : ∀ reply t u, A reply t → t.Later u → A reply u) : Enters A (perform c) s := by
  apply Keeps.perform
  intro t hlater hinv fate _
  obtain ⟨hsound, hgrown⟩ := hinv.step (hfits t hlater)
  cases fate with
  | lost e => exact ⟨hinv, RuleBook.Later.refl t, fun _ _ _ => trivial⟩
  | late e => exact ⟨hsound, hgrown, fun _ _ _ => trivial⟩
  | done =>
    refine ⟨hsound, hgrown, fun u hu _ => Ends.intro (fun reply hreply => ?_) fun _ _ => trivial⟩
    exact hstable reply _ u (htells t reply hreply) hu

/-- Commands that fit in every state. -/
theorem enters_uses {p : BookProg α} (huses : p.Uses fun c => ∀ t : RuleBook, t.Fits c) :
    Enters (fun _ _ => True) p s := by
  have hkeeps : Keeps bookContract (fun _ _ => True) p s := by
    refine Keeps.of_uses (A := fun _ => True) huses (fun _ _ _ _ _ => trivial) ?_ trivial
    intro c t fate hfits hinv _ _
    obtain ⟨hsound, hgrown⟩ := RuleBook.Sound.step hinv (hfits t)
    cases fate with
    | lost e => exact ⟨hinv, RuleBook.Later.refl t, trivial⟩
    | late e => exact ⟨hsound, hgrown, trivial⟩
    | done => exact ⟨hsound, hgrown, trivial⟩
  exact hkeeps.weaken fun _ _ _ _ => Ends.intro (fun _ _ => trivial) fun _ _ => trivial

theorem Enters.bind {p : BookProg α} {next : α → BookProg β} (h : Enters A p s) (hinv : s.Sound)
    (hnext : ∀ value t, t.Sound → s.Later t → A value t → Enters B (next value) t) :
    Enters B (p.bind next) s := by
  have halong : Keeps bookContract (fun r t => Ends A (fun _ => True) r t ∧ s.Later t) p s :=
    Keeps.along h (RuleBook.Later.refl s) (fun _ _ => RuleBook.Later.trans)
      fun _ _ => RuleBook.Later.trans
  exact Keeps.bind halong hinv (fun value t hinv hA => hnext value t hinv hA.2 hA.1)
    fun _ _ _ _ => trivial

theorem enters_ret {value : α} (h : ∀ t, s.Later t → A value t) : Enters A (.ret value) s :=
  fun t hlater _ => h t hlater

theorem enters_throw (e : LinkError) : Enters A (.throw e) s := fun _ _ _ => trivial

theorem enters_command {c : LinkCmd} (hfits : ∀ t : RuleBook, t.Fits (.link c)) :
    Enters (fun _ _ => True) (inBook (perform c)) s := by
  rw [inBook, Prog.expand_perform]
  exact enters_uses (uses_perform hfits)

end Contract

section Calls

variable {s : RuleBook} {call : LinkCall}

/-- A row of the rule's key. -/
theorem enters_fetchRule (ruleKey : String) :
    Enters (fun found t => ∀ row, found = some row → ∃ r ∈ t.rules.rows, r.id = row.id ∧
      r.record.key = ruleKey) (perform (BookCmd.link (.fetchRule ruleKey))) s := by
  apply enters_perform
  · exact fun _ _ => trivial
  · intro t found hfound row hrow
    obtain rfl := Except.ok.inj hfound
    have hmem : row ∈ t.rules.keyed.select [ruleKey] := List.mem_of_head? hrow
    obtain ⟨r, hr, _, hkey, hid, _⟩ := Definitions.mem_select_keyed.mp hmem
    exact ⟨r, hr, hid.symm, List.mem_singleton.mp hkey⟩
  · intro found t u h hlater row hrow
    obtain ⟨r, hr, hid, hkey⟩ := h row hrow
    obtain ⟨r', hr', hid', hkey'⟩ := hlater.rules.kept r hr
    exact ⟨r', hr', hid'.trans hid, hkey'.trans hkey⟩

theorem enters_dossierIds (wanted : List String) (hinv : s.Sound) :
    Enters (fun ids t => ∀ id ∈ ids, ∃ row ∈ t.dossiers.rows, row.id = id ∧ row.record.key ∈ wanted)
      (inBook (dossierIds wanted)) s := by
  have hlater : ∀ (ids : List Nat) (t u : RuleBook),
      (∀ id ∈ ids, ∃ row ∈ t.dossiers.rows, row.id = id ∧ row.record.key ∈ wanted) → t.Later u →
      ∀ id ∈ ids, ∃ row ∈ u.dossiers.rows, row.id = id ∧ row.record.key ∈ wanted := by
    intro ids t u h hlater id hid
    obtain ⟨row, hrow, hsame, hkey⟩ := h id hid
    obtain ⟨row', hrow', hid', hkey'⟩ := hlater.dossiers.kept row hrow
    exact ⟨row', hrow', hid'.trans hsame, by rwa [show row'.record.key = _ from hkey']⟩
  unfold dossierIds
  by_cases hnil : wanted = []
  · rw [if_pos hnil]
    exact enters_ret fun _ _ _ hid => absurd hid List.not_mem_nil
  · rw [if_neg hnil, bind_eq, inBook, Prog.expand_bind, Prog.expand_perform]
    have hrows : Enters (fun rows t => (rows.map KeyedRow.key).Nodup ∧ ∀ row ∈ rows,
        ∃ r ∈ t.dossiers.rows, r.id = row.id ∧ r.record.key = row.key ∧ row.key ∈ wanted)
        (perform (BookCmd.link (.fetchDossiers wanted))) s := by
      apply enters_perform
      · exact fun _ _ => trivial
      · intro t rows hreply
        obtain rfl := Except.ok.inj hreply
        refine ⟨select_keys_nodup _ _, fun row hrow => ?_⟩
        obtain ⟨r, hr, _, hkey, hid, hsame, _⟩ := Definitions.mem_select_keyed.mp hrow
        exact ⟨r, hr, hid.symm, hsame.symm, hsame ▸ hkey⟩
      · rintro rows t u ⟨hnodup, h⟩ hgrown
        refine ⟨hnodup, fun row hrow => ?_⟩
        obtain ⟨r, hr, hid, hkey, hwanted⟩ := h row hrow
        obtain ⟨r', hr', hid', hkey'⟩ := hgrown.dossiers.kept r hr
        exact ⟨r', hr', hid'.trans hid, hkey'.trans hkey, hwanted⟩
    apply hrows.bind hinv
    rintro rows t hinv _ ⟨hnodup, h⟩
    split
    · exact enters_throw _
    · apply enters_ret
      intro u hgrown
      refine hlater _ t u (fun id hid => ?_) hgrown
      obtain ⟨key, _, hfound⟩ := List.mem_filterMap.mp hid
      obtain ⟨row, hrow, _, rfl⟩ := (found_iff hnodup).mp hfound
      obtain ⟨r, hr, hsame, hkey, hwanted⟩ := h row hrow
      exact ⟨r, hr, hsame, hkey ▸ hwanted⟩

theorem enters_deleteRows (rule : Nat) (rows : List (Nat × Nat)) (hinv : s.Sound) :
    Enters (fun _ _ => True) (inBook (deleteRows call rule rows)) s := by
  induction rows generalizing s with
  | nil => exact enters_ret fun _ _ => trivial
  | cons row rows ih =>
    rw [deleteRows, bind_eq, inBook, Prog.expand_bind]
    have hdelete : Enters (fun _ _ => True) (inBook (perform (.deleteRow call rule row.1 row.2))) s :=
      enters_command fun _ => trivial
    exact hdelete.bind hinv fun _ t hinv _ _ => ih hinv

theorem enters_insertLinks (rule : Nat) (ids : List Nat) (hinv : s.Sound)
    (hnamed : ∀ id ∈ ids, s.Named call rule id) :
    Enters (fun _ _ => True) (inBook (insertLinks call rule ids)) s := by
  induction ids generalizing s with
  | nil => exact enters_ret fun _ _ => trivial
  | cons id ids ih =>
    rw [insertLinks, bind_eq, inBook, Prog.expand_bind, Prog.expand_perform]
    have hinsert : Enters (fun _ _ => True) (perform (BookCmd.link (.insert call rule id))) s := by
      apply enters_perform
      · exact fun t hlater => (hnamed id List.mem_cons_self).later hlater
      · exact fun _ _ _ => trivial
      · exact fun _ _ _ _ _ => trivial
    exact hinsert.bind hinv fun _ t hinv hlater _ =>
      ih hinv fun id' hid => (hnamed id' (List.mem_cons_of_mem _ hid)).later hlater

theorem enters_transaction {β : Type} {body : LinkProg β} (hinv : s.Sound)
    (hbody : Enters (fun _ _ => True) (inBook body) s) :
    Enters (fun _ _ => True) (inBook (linkTransaction call body)) s := by
  rw [linkTransaction, bind_eq, inBook, Prog.expand_bind, tryCatch_eq, Prog.expand_tryCatch]
  have htry : Enters (fun _ _ => True) ((inBook body).tryCatch fun e =>
      inBook ((perform (.rollback call)).bind fun _ => .throw e)) s := by
    apply Keeps.orElse (E := fun _ => True) hbody hinv
    intro e t hinv _
    have hrollback : Enters (fun _ _ => True) (inBook (perform (.rollback call))) t :=
      enters_command fun _ => trivial
    rw [inBook, Prog.expand_bind]
    exact hrollback.bind hinv fun _ _ _ _ _ => enters_throw e
  apply htry.bind hinv
  intro value t hinv _ _
  have hcommit : Enters (fun _ _ => True) (inBook (perform (.commit call))) t :=
    enters_command fun _ => trivial
  rw [bind_eq, Prog.expand_bind]
  exact hcommit.bind hinv fun _ _ _ _ _ => enters_ret fun _ _ => trivial

theorem enters_setDossiers (call : LinkCall) (hinv : s.Sound) :
    Enters (fun _ _ => True) (inBook (setDossiers call)) s := by
  rw [setDossiers, bind_eq, inBook, Prog.expand_bind]
  refine Enters.bind (enters_transaction hinv ?_) hinv fun _ _ _ _ _ => enters_ret fun _ _ => trivial
  rw [bind_eq, inBook, Prog.expand_bind, Prog.expand_perform]
  apply (enters_fetchRule call.ruleKey).bind hinv
  intro found t hinv _ hfound
  cases found with
  | none => exact enters_throw _
  | some rule =>
    obtain ⟨r, hr, hrid, hrkey⟩ := hfound rule rfl
    simp only [bind_eq, Prog.expand_bind]
    apply (enters_dossierIds _ hinv).bind hinv
    intro ids u hinv hlater hids
    have hstart : Enters (fun _ _ => True) (inBook (perform (.startDelete call rule.id))) u :=
      enters_command fun _ => trivial
    apply hstart.bind hinv
    intro rows v hinv hlater' _
    apply (enters_deleteRows rule.id rows hinv).bind hinv
    intro _ w hinv hlater'' _
    refine (enters_insertLinks rule.id ids hinv fun id hid => ?_).bind hinv
      fun _ _ _ _ _ => enters_ret fun _ _ => trivial
    obtain ⟨d, hd, hdid, hdkey⟩ := hids id hid
    have hnamed : u.Named call rule.id id := by
      obtain ⟨r', hr', hid', hkey'⟩ := hlater.rules.kept r hr
      exact ⟨⟨r', hr', hid'.trans hrid, hkey'.trans hrkey⟩,
        ⟨d, hd, hdid, List.mem_eraseDups.mp hdkey⟩⟩
    exact hnamed.later (hlater'.trans hlater'')

theorem enters_answerCall (call : LinkCall) (hinv : s.Sound) :
    Keeps bookContract (fun _ _ => True) (inBook (answerCall call)) s := by
  rw [answerCall, inBook, Prog.expand_settle]
  apply Keeps.settle (enters_setDossiers call hinv) hinv
  intro r t _ _
  have hanswer : Enters (fun _ _ => True) (inBook (perform (.answer call r))) t :=
    enters_command fun _ => trivial
  exact hanswer.weaken fun _ _ _ _ => trivial

theorem uses_call (call : BookCall) : call.run.Uses fun c => ∀ t : RuleBook, t.Fits c := by
  have hif : ∀ (done : Bool) (e : LinkError),
      (if done = true then Prog.ret () else Prog.throw e : BookProg Unit).Uses
        fun c => ∀ t : RuleBook, t.Fits c := fun _ _ => .ite trivial trivial
  cases call with
  | createRule record => exact (uses_perform fun _ => trivial).bind fun done => hif done _
  | updateRule key name body => exact (uses_perform fun _ => trivial).bind fun done => hif done _
  | deleteRules keys =>
    have huses : (AgentRuleService.deleteRules keys).Uses fun c => ∀ t : RuleBook, t.Fits c :=
      .ite trivial (uses_perform fun _ => trivial)
    exact huses.bind fun _ => trivial
  | createDossier record => exact (uses_perform fun _ => trivial).bind fun done => hif done _
  | updateDossier key name description =>
    exact (uses_perform fun _ => trivial).bind fun done => hif done _
  | deleteDossiers keys =>
    have huses : (RuleBook.Dossiers.deleteDossiers keys).Uses fun c => ∀ t : RuleBook, t.Fits c :=
      .ite trivial (uses_perform fun _ => trivial)
    exact huses.bind fun _ => trivial

end Calls

section Runs

theorem RuleBook.Sound.event {s t : RuleBook} {e : BookEvent}
    {new : List (Thread BookReply LinkError (Option LinkCall))} (h : s.Sound)
    (henv : ruleBook.env e s = some (t, new)) : t.Sound := by
  cases e with
  | setDossiers request =>
    obtain ⟨rfl, _⟩ := Prod.mk.inj (Option.some.inj henv)
    exact h.aside { s.links with nextSession := s.links.nextSession + 1 } s.now rfl
  | call call =>
    obtain ⟨rfl, _⟩ := Prod.mk.inj (Option.some.inj henv)
    exact h
  | tick duration =>
    obtain ⟨rfl, _⟩ := Prod.mk.inj (Option.some.inj henv)
    exact h.aside s.links (s.now + duration) rfl

theorem later_event {s t : RuleBook} {e : BookEvent}
    {new : List (Thread BookReply LinkError (Option LinkCall))}
    (henv : ruleBook.env e s = some (t, new)) : s.Later t := by
  cases e with
  | setDossiers request =>
    obtain ⟨rfl, _⟩ := Prod.mk.inj (Option.some.inj henv)
    exact RuleBook.later_aside s _ _
  | call call =>
    obtain ⟨rfl, _⟩ := Prod.mk.inj (Option.some.inj henv)
    exact RuleBook.Later.refl s
  | tick duration =>
    obtain ⟨rfl, _⟩ := Prod.mk.inj (Option.some.inj henv)
    exact RuleBook.later_aside s _ _

theorem later_death (tag : Option LinkCall) (s : RuleBook) : s.Later (ruleBook.death tag s) := by
  cases tag with
  | none => exact RuleBook.Later.refl s
  | some call => exact RuleBook.later_link s (.rollback call)

abbrev BookMoves := Config BookReply LinkError RuleBook (Option LinkCall) →
  Move LinkError BookEvent → Prop

def bookDiscipline (ok : BookMoves) : Discipline ruleBook ok where
  inv := RuleBook.Sound
  contract := fun _ => bookContract
  post := fun _ _ _ => True
  apart := fun _ _ => True
  meaning_eq := fun _ => rfl
  inv_eq := fun _ => rfl
  apart_symm := fun _ => trivial
  others := fun _ _ _ h => h
  fates := fun _ _ _ _ _ => trivial
  exit_keeps := fun _ _ _ h => absurd h List.not_mem_nil
  exit_apart := fun _ h => absurd h List.not_mem_nil
  exit_pairwise := List.Pairwise.nil
  death_inv := fun {c i t} _ _ hinv => by
    cases htag : t.tag with
    | none => simpa [ruleBook, htag] using hinv
    | some call => exact (hinv.step (c := .link (.rollback call)) trivial).1
  death_rely := fun _ _ _ _ => later_death _ _
  env_inv := fun _ h hinv => hinv.event h
  env_rely := fun _ h _ _ _ => later_event h
  env_keeps := fun {c e s new} _ h hinv t ht => by
    have hsound := hinv.event h
    cases e with
    | setDossiers request =>
      obtain ⟨rfl, rfl⟩ := Prod.mk.inj (Option.some.inj h)
      obtain rfl := List.mem_singleton.mp ht
      exact enters_answerCall _ hsound
    | call call =>
      obtain ⟨rfl, rfl⟩ := Prod.mk.inj (Option.some.inj h)
      obtain rfl := List.mem_singleton.mp ht
      exact (enters_uses (uses_call call)).weaken fun _ _ _ _ => trivial
    | tick duration =>
      obtain ⟨rfl, rfl⟩ := Prod.mk.inj (Option.some.inj h)
      exact absurd ht List.not_mem_nil
  env_apart := fun _ _ _ => ⟨List.pairwise_of_forall fun _ _ => trivial, fun _ _ _ _ => trivial⟩

variable {ok : BookMoves} {start : RuleBook}
  {c d m : Config BookReply LinkError RuleBook (Option LinkCall)}

theorem book_safe (hstart : start.Sound) (reach : Reach ruleBook ok ⟨start, []⟩ c) :
    (bookDiscipline ok).Safe c :=
  reach.safe (bookDiscipline ok) ⟨hstart, fun _ h => absurd h List.not_mem_nil, List.Pairwise.nil⟩

theorem book_later (hsafe : (bookDiscipline ok).Safe c) (later : Reach ruleBook ok c d) :
    d.shared.Sound ∧ c.shared.Later d.shared := by
  induction later with
  | start => exact ⟨hsafe.inv, RuleBook.Later.refl _⟩
  | step hreach hok h ih =>
    have hmiddle := hreach.safe (bookDiscipline ok) hsafe
    refine ⟨(hmiddle.step hok h).inv, ih.2.trans ?_⟩
    exact hmiddle.step_rel hok h RuleBook.Later.refl (fun _ _ hguar => hguar) later_death
      fun _ henv => later_event henv

/-- No link yet, whichever rules and dossiers there are. -/
structure RuleBook.Unlinked (s : RuleBook) : Prop where
  links : ∀ rule dossier, ¬ s.Linked rule dossier
  inserted : s.inserted = []

theorem RuleBook.Unlinked.sound (h : start.Unlinked) : start.Sound where
  named := fun _ _ _ hentry => absurd (h.inserted ▸ hentry) List.not_mem_nil
  asked := fun rule dossier hlinked => absurd hlinked (h.links rule dossier)

/-- Every link, committed or not, was inserted by a call that named the rule and the dossier. -/
theorem links_asked_for (hstart : start.Unlinked) (reach : Reach ruleBook ok ⟨start, []⟩ c)
    {rule dossier : Nat} (hlinked : c.shared.Linked rule dossier) :
    ∃ call, (call, rule, dossier) ∈ c.shared.inserted ∧ c.shared.Named call rule dossier := by
  have hsound := (book_safe hstart.sound reach).inv
  obtain ⟨call, hcall⟩ := hsound.asked rule dossier hlinked
  exact ⟨call, hcall, hsound.named call rule dossier hcall⟩

/-- A link to a dossier that came later was inserted later. -/
theorem new_link (hsafe : (bookDiscipline ok).Safe c) (later : Reach ruleBook ok c d)
    {rule dossier : Nat} (hnew : c.shared.dossiers.next ≤ dossier) (hlinked : d.shared.Linked rule dossier) :
    ∃ call, (call, rule, dossier) ∈ d.shared.inserted ∧ (call, rule, dossier) ∉ c.shared.inserted ∧
      d.shared.Named call rule dossier := by
  have hsound := (book_later hsafe later).1
  obtain ⟨call, hcall⟩ := hsound.asked rule dossier hlinked
  refine ⟨call, hcall, fun hold => ?_, hsound.named call rule dossier hcall⟩
  obtain ⟨row, hrow, rfl, _⟩ := (hsafe.inv.named call rule dossier hold).dossier
  exact absurd (c.shared.dossiers.below row hrow) (Nat.not_lt_of_le hnew)

section Listing

theorem mem_rulesOf {s : RuleBook} {dossier : Nat} {row : ListedRow AgentRule} :
    row ∈ s.rulesOf dossier ↔
      row ∈ s.rules.rows ∧ row.deletedAt.isNone = true ∧ s.linked row.id dossier = true := by
  rw [RuleBook.rulesOf, (Paging.newestFirst_perm _).mem_iff, List.mem_filter, Bool.and_eq_true]

theorem linked_of_listed {s : RuleBook} {rule dossier : Nat} (h : s.linked rule dossier = true) :
    s.Linked rule dossier := by
  rw [RuleBook.linked, Table.view_none, Option.isSome_iff_exists] at h
  obtain ⟨tuple, htuple⟩ := h
  exact ⟨tuple, .inl htuple⟩

variable {str : LinkError → String} {key : String} {looks : List (BookCmd × RuleBook)}

/-- The dossier is looked up in one state and its rules in a later one. -/
theorem read_rulesForDossier {result : Except LinkError (List (ListedRow AgentRule))}
    (hread : (AgentRuleService.rulesForDossier key).Within ruleBook ok RuleBook.look m looks d result) :
    (∃ e, Reach ruleBook ok m e ∧ e.shared.dossiers.find key = none ∧
      result = .error (.notFound "dossier_def" key)) ∨
    ∃ e f dossier, Reach ruleBook ok m e ∧ Reach ruleBook ok e f ∧ Reach ruleBook ok f d ∧
      e.shared.dossiers.find key = some dossier ∧ result = .ok (f.shared.rulesOf dossier.id) := by
  obtain ⟨e, id, rest, hreach, hid, hnext⟩ := Prog.Within.of_look hread fun s => ⟨_, rfl⟩
  obtain rfl := Except.ok.inj hid
  cases hfound : e.shared.dossiers.find key with
  | none =>
    rw [hfound] at hnext
    exact .inl ⟨e, hreach, hfound, hnext.of_throw⟩
  | some dossier =>
    rw [hfound] at hnext
    cases hnext with
    | @await _ f _ _ _ _ _ hreach' hend =>
      exact .inr ⟨e, f, dossier, hreach, hreach', hend.reach, hfound, hend.of_ret⟩

variable {result : Except LinkError RulesAnswer}

theorem read_rules (hread : (listRulesTool str key).Within ruleBook ok RuleBook.look m looks d result) :
    result = .ok (.failed ("could not load rules: " ++ str (.notFound "dossier_def" key))) ∨
    ∃ e f dossier, Reach ruleBook ok m e ∧ Reach ruleBook ok e f ∧ Reach ruleBook ok f d ∧
      e.shared.dossiers.find key = some dossier ∧
      result = .ok (.rules ((f.shared.rulesOf dossier.id).map ListedRow.record)) := by
  obtain ⟨first, n, middle, second, hfirst, hsecond, rfl⟩ := Prog.Within.of_settle hread
  rcases Prog.Within.of_bind hfirst with ⟨_, l, rules, _, hrules, hret⟩ | ⟨error, hrules, rfl⟩
  · obtain rfl := hret.of_ret
    rcases read_rulesForDossier hrules with ⟨_, _, _, heq⟩ | ⟨e, f, dossier, he, hf, hl, hfound, heq⟩
    · cases heq
    · obtain rfl := Except.ok.inj heq
      have hend : Reach ruleBook ok f d := (hl.trans hret.reach).trans hsecond.reach
      exact .inr ⟨e, f, dossier, he, hf, hend, hfound, hsecond.of_ret⟩
  · rcases read_rulesForDossier hrules with ⟨_, _, _, heq⟩ | ⟨_, _, _, _, _, _, _, heq⟩
    · obtain rfl := Except.error.inj heq
      exact .inl hsecond.of_ret
    · cases heq

/-- The tool in a state that stays. -/
theorem listed_rules {dossier : ListedRow DossierDef}
    (hfound : m.shared.dossiers.find key = some dossier) :
    ∃ looks, (listRulesTool str key).Within ruleBook ok RuleBook.look m looks m
      (.ok (.rules ((m.shared.rulesOf dossier.id).map ListedRow.record))) := by
  have hlook : RuleBook.look (.dossierId key) m.shared = .ok (some dossier.id) := by
    rw [RuleBook.look, RuleBook.meaning, hfound]
    rfl
  refine ⟨[(.dossierId key, m.shared), (.rulesOf dossier.id, m.shared)], .await .start ?_⟩
  rw [hlook]
  exact .await .start (.ret m _)

end Listing

end Runs

section Example

def emptyBook : RuleBook where
  rules := .empty _
  dossiers := .empty _
  links := { table := .empty }
  now := 0
  inserted := []

theorem emptyBook_unlinked : emptyBook.Unlinked := by
  refine ⟨fun rule dossier hlinked => ?_, rfl⟩
  obtain ⟨tuple, htuple | ⟨_, htuple⟩⟩ := hlinked
  · cases htuple
  · cases htuple

def bookCall (e : BookEvent) (awaits : Nat) : List (Move LinkError BookEvent) :=
  .env e :: List.replicate awaits (.run 0 .done) ++ [.exit 0]

/-- A rule is linked to a dossier, and the dossier deleted. -/
def linkedOnce : List (Move LinkError BookEvent) :=
  bookCall (.call (.createRule ⟨"vat", "VAT", "Check the rate."⟩)) 1 ++
    bookCall (.call (.createDossier ⟨"claims", "Claims", none⟩)) 1 ++
    bookCall (.setDossiers ⟨"vat", ["claims"]⟩) 6 ++ bookCall (.call (.deleteDossiers ["claims"])) 1

/-- The dossier's key is given again and linked again. -/
def linkedAgain : List (Move LinkError BookEvent) :=
  bookCall (.call (.createDossier ⟨"claims", "New claims", none⟩)) 1 ++
    bookCall (.setDossiers ⟨"vat", ["claims"]⟩) 7

theorem link_asked_once : ∃ c, Reach ruleBook (fun _ _ => True) ⟨emptyBook, []⟩ c ∧
    c.shared.Linked 0 0 ∧
    ∃ call, (call, 0, 0) ∈ c.shared.inserted ∧ c.shared.Named call 0 0 := by
  have hrun : (ruleBook.exec linkedOnce ⟨emptyBook, []⟩).any
      (fun c => c.shared.linked 0 0) = true := by decide +kernel
  obtain ⟨c, hc, hlinked⟩ := (Option.any_eq_true _ _).mp hrun
  have reach := Reach.start.exec (fun _ _ => trivial) hc
  exact ⟨c, reach, linked_of_listed hlinked,
    links_asked_for emptyBook_unlinked reach (linked_of_listed hlinked)⟩

end Example

end Doci
