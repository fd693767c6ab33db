import Doci.RuleLinks
import Mathlib.Data.Finset.Card
import Mathlib.Data.Finset.Dedup

/-! The links of a rule are those of the last call that committed, when no call begins its `DELETE`
between the `DELETE` and the end of another on the same rule. -/

namespace Doci

open Coroutine ReadCommitted

section Keys

variable {catalog : Catalog} {table : KeyedTable} {rows : List KeyedRow} {keys : List String}
  {key : String} {id dossier : Nat}

def Catalog.ruleId (catalog : Catalog) (ruleKey : String) : Option Nat :=
  (catalog.rules.select [ruleKey]).head?.map KeyedRow.id

def Catalog.Wanted (catalog : Catalog) (keys : List String) (dossier : Nat) : Prop :=
  ∃ row ∈ catalog.dossiers.select keys, row.id = dossier

theorem nodup_eraseDups (keys : List String) : keys.eraseDups.Nodup := by
  induction hn : keys.length using Nat.strongRecOn generalizing keys with
  | _ n ih =>
    cases keys with
    | nil => simp
    | cons key keys =>
      have hlt : (keys.filter fun b => !b == key).length < n := by
        have hle := List.length_filter_le (fun b => !b == key) keys
        simp only [List.length_cons] at hn
        omega
      rw [List.eraseDups_cons, List.nodup_cons]
      refine ⟨?_, ih _ hlt _ rfl⟩
      simp

theorem length_eraseDups (keys : List String) : keys.eraseDups.length = keys.toFinset.card := by
  rw [← List.toFinset_card_of_nodup (nodup_eraseDups keys)]
  congr 1
  ext key
  simp

theorem select_keys_nodup (table : KeyedTable) (keys : List String) :
    ((table.select keys).map KeyedRow.key).Nodup :=
  table.keys.sublist (List.filter_sublist.map _)

theorem mem_select {row : KeyedRow} :
    row ∈ table.select keys ↔ row ∈ table.rows ∧ row.deleted = false ∧ row.key ∈ keys := by
  simp only [KeyedTable.select, List.mem_filter, Bool.not_eq_true', decide_eq_true_eq, and_assoc]

theorem select_id_inj {row row' : KeyedRow} (h : row ∈ table.select keys)
    (h' : row' ∈ table.select keys) (hid : row.id = row'.id) : row = row' :=
  List.inj_on_of_nodup_map table.ids (mem_select.mp h).1 (mem_select.mp h').1 hid

theorem foldl_found {known : String → Option Nat} (hnodup : (rows.map KeyedRow.key).Nodup) :
    rows.foldl (fun (ids : String → Option Nat) row =>
        Function.update ids row.key (some row.id)) known key = some id ↔
      (∃ row ∈ rows, row.key = key ∧ row.id = id) ∨
        key ∉ rows.map KeyedRow.key ∧ known key = some id := by
  induction rows generalizing known with
  | nil => simp
  | cons row rows ih =>
    obtain ⟨hnot, hrest⟩ := List.nodup_cons.mp hnodup
    rw [List.foldl_cons, ih hrest]
    by_cases hkey : row.key = key
    · subst hkey
      have hnone : ¬ ∃ row' ∈ rows, row'.key = row.key ∧ row'.id = id := by
        rintro ⟨row', hrow', heq, _⟩
        exact hnot (heq ▸ List.mem_map_of_mem hrow')
      simp only [hnone, false_or, hnot, not_false_eq_true, true_and, Function.update_self,
        Option.some.injEq, List.map_cons, List.mem_cons, not_true_eq_false, false_and, or_false,
        exists_eq_or_imp]
    · simp only [Function.update_of_ne (Ne.symm hkey), List.mem_cons, exists_eq_or_imp, hkey,
        false_and, false_or, List.map_cons, Ne.symm hkey]

theorem found_iff (hnodup : (rows.map KeyedRow.key).Nodup) :
    found rows key = some id ↔ ∃ row ∈ rows, row.key = key ∧ row.id = id := by
  simp [found, foldl_found hnodup]

/-- The ids that `dossierIds` returns. -/
structure Catalog.Resolved (catalog : Catalog) (keys : List String) (ids : List Nat) : Prop where
  nodup : ids.Nodup
  count : ids.length = keys.toFinset.card
  mem : ∀ dossier, dossier ∈ ids ↔ catalog.Wanted keys dossier

theorem resolved_found
    (hall : ∀ key ∈ keys.eraseDups,
      found (catalog.dossiers.select keys.eraseDups) key ≠ none) :
    catalog.Resolved keys
      (keys.eraseDups.filterMap (found (catalog.dossiers.select keys.eraseDups))) := by
  have hselect : catalog.dossiers.select keys.eraseDups = catalog.dossiers.select keys := by
    simp [KeyedTable.select]
  rw [hselect] at hall ⊢
  have hfound := fun key id => @found_iff (catalog.dossiers.select keys) key id
    (select_keys_nodup catalog.dossiers keys)
  refine ⟨?_, ?_, fun dossier => ?_⟩
  · refine (nodup_eraseDups keys).filterMap fun key key' id hkey hkey' => ?_
    obtain ⟨row, hrow, rfl, hid⟩ := (hfound key id).mp hkey
    obtain ⟨row', hrow', rfl, hid'⟩ := (hfound key' id).mp hkey'
    rw [select_id_inj hrow hrow' (hid.trans hid'.symm)]
  · rw [← length_eraseDups]
    refine List.filterMap_length_eq_length.mpr fun key hkey => ?_
    exact Option.isSome_iff_ne_none.mpr (hall key hkey)
  · constructor
    · intro hmem
      obtain ⟨key, _, hkey⟩ := List.mem_filterMap.mp hmem
      obtain ⟨row, hrow, _, hid⟩ := (hfound key dossier).mp hkey
      exact ⟨row, hrow, hid⟩
    · rintro ⟨row, hrow, hid⟩
      refine List.mem_filterMap.mpr ⟨row.key, ?_, (hfound row.key dossier).mpr ⟨row, hrow, rfl, hid⟩⟩
      exact List.mem_eraseDups.mpr (mem_select.mp hrow).2.2

end Keys

section Sound

variable (catalog : Catalog) (initial : Nat → Nat → Prop)

/-- The links that calls leave which run one after another, the last one given first. -/
def Catalog.linksAfter : List LinkCall → Nat → Nat → Prop
  | [], rule, dossier => initial rule dossier
  | call :: earlier, rule, dossier =>
    if catalog.ruleId call.ruleKey = some rule then catalog.Wanted call.dossierKeys dossier
    else linksAfter earlier rule dossier

def Links.Linked (s : Links) (rule dossier : Nat) : Prop :=
  (s.table.slot (rule, dossier)).committed.isSome

/-- A call has replaced the links and got their number, or has changed nothing and got
`NotFound`. -/
def Links.Answered (s : Links) (call : LinkCall) (result : Except LinkError Nat) : Prop :=
  call ∈ s.committed ∧ result = .ok call.dossierKeys.toFinset.card ∨
    call ∉ s.committed ∧ ∃ table key, result = .error (.notFound table key)

structure Links.Sound (s : Links) : Prop where
  linked : ∀ rule dossier, s.Linked rule dossier ↔ catalog.linksAfter initial s.committed rule dossier
  answered : ∀ e ∈ s.answers, s.Answered e.1 e.2
  locked : ∀ k session v, (s.table.slot k).dirty = some (session, v) →
    ∃ call, (call, k.1) ∈ s.inside ∧ call.session = session
  oneRule : ∀ e ∈ s.inside, ∀ e' ∈ s.inside, e.2 = e'.2 → e = e'
  oneSession : ∀ e ∈ s.inside, ∀ e' ∈ s.inside, e.1.session = e'.1.session → e = e'
  fresh : (∀ e ∈ s.inside, e.1.session < s.nextSession) ∧
    (∀ call ∈ s.committed, call.session < s.nextSession) ∧
    ∀ e ∈ s.answers, e.1.session < s.nextSession

structure Links.Same (session : Nat) (s t : Links) : Prop where
  inside : ∀ e, e.1.session = session → (e ∈ t.inside ↔ e ∈ s.inside)
  committed : ∀ call, call.session = session → (call ∈ t.committed ↔ call ∈ s.committed)
  answers : ∀ e, e.1.session = session → (e ∈ t.answers ↔ e ∈ s.answers)
  slots : ∀ e ∈ s.inside, e.1.session = session → ∀ dossier,
    t.table.slot (e.2, dossier) = s.table.slot (e.2, dossier)
  nextSession : s.nextSession ≤ t.nextSession

/-- A `DELETE` begins while no other call on the rule is inside. -/
def LinkCmd.alone (s : Links) : LinkCmd → Bool
  | .startDelete _ rule => s.inside.all fun e => e.2 ≠ rule
  | _ => true

theorem Links.Same.refl (session : Nat) (s : Links) : s.Same session s :=
  ⟨fun _ _ => Iff.rfl, fun _ _ => Iff.rfl, fun _ _ => Iff.rfl, fun _ _ _ _ => rfl, Nat.le_refl _⟩

theorem Links.Same.trans {session : Nat} {s t u : Links} (h : s.Same session t)
    (h' : t.Same session u) : s.Same session u where
  inside e he := (h'.inside e he).trans (h.inside e he)
  committed call hcall := (h'.committed call hcall).trans (h.committed call hcall)
  answers e he := (h'.answers e he).trans (h.answers e he)
  slots e hmem he dossier :=
    (h'.slots e ((h.inside e he).mpr hmem) he dossier).trans (h.slots e hmem he dossier)
  nextSession := Nat.le_trans h.nextSession h'.nextSession

def Links.Guards (session : Nat) (s t : Links) : Prop :=
  ∀ other, other ≠ session → s.Same other t

/-- A call relies on the others to leave the links of its rule alone once it is inside. -/
def linksContract (call : LinkCall) : Contract LinkReply LinkError Links where
  meaning := Links.meaning catalog
  inv := Links.Sound catalog initial
  rely := Links.Same call.session
  guar := Links.Guards call.session
  fate c s fate := c.alone s = true ∧ c.admits s fate = true
  rely_refl := Links.Same.refl call.session
  rely_trans := Links.Same.trans

end Sound

section Phases

variable {catalog : Catalog} {initial : Nat → Nat → Prop} {call : LinkCall} {rule : Nat}
  {s t : Links}

/-- The call has begun no `DELETE`, or was rolled back. -/
structure Links.Outside (call : LinkCall) (s : Links) : Prop where
  started : call.session < s.nextSession
  inside : ∀ e ∈ s.inside, e.1.session ≠ call.session
  committed : ∀ other ∈ s.committed, other.session ≠ call.session
  answers : ∀ e ∈ s.answers, e.1.session ≠ call.session

/-- The call is between its `DELETE` and its end, and sees links as `V` says. -/
structure Links.Replacing (call : LinkCall) (rule : Nat) (V : Nat → Option Nat → Prop)
    (s : Links) : Prop where
  inside : (call, rule) ∈ s.inside
  committed : ∀ other ∈ s.committed, other.session ≠ call.session
  answers : ∀ e ∈ s.answers, e.1.session ≠ call.session
  view : ∀ dossier, V dossier (s.table.view (some call.session) (rule, dossier))

structure Links.Replaced (call : LinkCall) (s : Links) : Prop where
  inside : ∀ e ∈ s.inside, e.1.session ≠ call.session
  committed : call ∈ s.committed
  answers : ∀ e ∈ s.answers, e.1.session ≠ call.session

theorem Links.Outside.stable (h : s.Outside call) (hsame : s.Same call.session t) :
    t.Outside call where
  started := Nat.lt_of_lt_of_le h.started hsame.nextSession
  inside e he hs := h.inside e ((hsame.inside e hs).mp he) hs
  committed other ho hs := h.committed other ((hsame.committed other hs).mp ho) hs
  answers e he hs := h.answers e ((hsame.answers e hs).mp he) hs

theorem Links.Replacing.stable {V : Nat → Option Nat → Prop} (h : s.Replacing call rule V)
    (hsame : s.Same call.session t) : t.Replacing call rule V where
  inside := (hsame.inside (call, rule) rfl).mpr h.inside
  committed other ho hs := h.committed other ((hsame.committed other hs).mp ho) hs
  answers e he hs := h.answers e ((hsame.answers e hs).mp he) hs
  view dossier := by
    rw [Table.view, hsame.slots (call, rule) h.inside rfl dossier]
    exact h.view dossier

theorem Links.Replaced.stable (h : s.Replaced call) (hsame : s.Same call.session t) :
    t.Replaced call where
  inside e he hs := h.inside e ((hsame.inside e hs).mp he) hs
  committed := (hsame.committed call rfl).mpr h.committed
  answers e he hs := h.answers e ((hsame.answers e hs).mp he) hs

theorem Links.Sound.free (h : s.Sound catalog initial) (hinside : (call, rule) ∈ s.inside)
    (dossier : Nat) : (s.table.slot (rule, dossier)).free (some call.session) = true := by
  refine Slot.free_iff.mpr fun session v hdirty => ?_
  obtain ⟨other, hother, rfl⟩ := h.locked _ session v hdirty
  obtain ⟨rfl, _⟩ := Prod.mk.inj (h.oneRule _ hother _ hinside rfl)
  rfl

end Phases

section Steps

variable {catalog : Catalog} {initial : Nat → Nat → Prop} {call : LinkCall} {rule : Nat}
  {s : Links} {table : Table (Nat × Nat) Nat Nat}

theorem Links.Sound.enter (h : s.Sound catalog initial) (hout : s.Outside call)
    (halone : ∀ e ∈ s.inside, e.2 ≠ rule) :
    Links.Sound catalog initial { s with inside := (call, rule) :: s.inside } ∧
      s.Guards call.session { s with inside := (call, rule) :: s.inside } := by
  refine ⟨⟨h.linked, h.answered, fun k session v hdirty => ?_, ?_, ?_, ?_, h.fresh.2⟩,
    fun other hne => ⟨fun e he => ?_, fun _ _ => Iff.rfl, fun _ _ => Iff.rfl, fun _ _ _ _ => rfl,
      Nat.le_refl _⟩⟩
  · obtain ⟨other, hother, hs⟩ := h.locked k session v hdirty
    exact ⟨other, List.mem_cons_of_mem _ hother, hs⟩
  · intro e he e' he' hrule
    rcases List.mem_cons.mp he with rfl | he <;> rcases List.mem_cons.mp he' with rfl | he'
    · rfl
    · exact absurd hrule.symm (halone e' he')
    · exact absurd hrule (halone e he)
    · exact h.oneRule e he e' he' hrule
  · intro e he e' he' hs
    rcases List.mem_cons.mp he with rfl | he <;> rcases List.mem_cons.mp he' with rfl | he'
    · rfl
    · exact absurd hs.symm (hout.inside e' he')
    · exact absurd hs (hout.inside e he)
    · exact h.oneSession e he e' he' hs
  · intro e he
    rcases List.mem_cons.mp he with rfl | he
    · exact hout.started
    · exact h.fresh.1 e he
  · refine ⟨fun hmem => (List.mem_cons.mp hmem).resolve_left ?_, List.mem_cons_of_mem _⟩
    rintro rfl
    exact hne he.symm

theorem Links.Sound.write (h : s.Sound catalog initial) (hinside : (call, rule) ∈ s.inside)
    (hother : ∀ k, k.1 ≠ rule → table.slot k = s.table.slot k)
    (hown : ∀ dossier, table.slot (rule, dossier) = s.table.slot (rule, dossier) ∨
      ∃ v, table.slot (rule, dossier) =
        (s.table.slot (rule, dossier)).write (some call.session) v) (nextTuple : Nat) :
    Links.Sound catalog initial { s with table := table, nextTuple := nextTuple } ∧
      s.Guards call.session { s with table := table, nextTuple := nextTuple } := by
  have hcommitted : ∀ k, (table.slot k).committed = (s.table.slot k).committed := by
    rintro ⟨r, dossier⟩
    by_cases hr : r = rule
    · subst hr
      rcases hown dossier with hslot | ⟨v, hslot⟩
      · rw [hslot]
      · rw [hslot]
        rfl
    · rw [hother _ hr]
  refine ⟨⟨fun r dossier => ?_, h.answered, ?_, h.oneRule, h.oneSession, h.fresh⟩,
    fun other hne => ⟨fun _ _ => Iff.rfl, fun _ _ => Iff.rfl, fun _ _ => Iff.rfl,
      fun e he hs dossier => ?_, Nat.le_refl _⟩⟩
  · rw [Links.Linked, hcommitted]
    exact h.linked r dossier
  · rintro ⟨r, dossier⟩ session v hdirty
    by_cases hr : r = rule
    · subst hr
      rcases hown dossier with hslot | ⟨w, hslot⟩
      · exact h.locked _ session v (hslot ▸ hdirty)
      · rw [hslot] at hdirty
        obtain ⟨rfl, _⟩ := Prod.mk.inj (Option.some.inj hdirty)
        exact ⟨call, hinside, rfl⟩
    · exact h.locked _ session v (hother (r, dossier) hr ▸ hdirty)
  · refine hother _ fun hr => hne ?_
    obtain rfl := h.oneRule e he _ hinside hr
    exact hs.symm

theorem Links.Sound.leave {committed : List LinkCall} (h : s.Sound catalog initial)
    (hcommitted : committed = s.committed ∨ committed = call :: s.committed ∧
      call.session < s.nextSession ∧ ∀ e ∈ s.answers, e.1.session ≠ call.session)
    (hlocks : ∀ k session v, (table.slot k).dirty = some (session, v) →
      (s.table.slot k).dirty = some (session, v) ∧ session ≠ call.session)
    (hslots : ∀ k, (∀ v, (s.table.slot k).dirty ≠ some (call.session, v)) →
      table.slot k = s.table.slot k)
    (hlinked : ∀ rule dossier, (table.slot (rule, dossier)).committed.isSome ↔
      catalog.linksAfter initial committed rule dossier) :
    Links.Sound catalog initial { s.leave call table with committed := committed } ∧
      s.Guards call.session { s.leave call table with committed := committed } := by
  have hmem : ∀ other ∈ committed, other ∈ s.committed ∨ other = call ∧
      call.session < s.nextSession ∧ ∀ e ∈ s.answers, e.1.session ≠ call.session := by
    intro other hother
    rcases hcommitted with rfl | ⟨rfl, hnew⟩
    · exact .inl hother
    · exact (List.mem_cons.mp hother).symm.imp_right fun heq => ⟨heq, hnew⟩
  have hsub : s.committed ⊆ committed := by
    rcases hcommitted with rfl | ⟨rfl, _⟩
    · exact fun _ hc => hc
    · exact List.subset_cons_of_subset _ fun _ hc => hc
  have hinside : ∀ e ∈ (s.leave call table).inside, e ∈ s.inside :=
    fun e he => (List.mem_filter.mp he).1
  refine ⟨⟨hlinked, fun e he => ?_, fun k session v hdirty => ?_, ?_, ?_, ?_, ?_, h.fresh.2.2⟩,
    fun other hne => ⟨fun e he => ?_, fun c hc => ?_, fun _ _ => Iff.rfl, fun e he hs dossier => ?_,
      Nat.le_refl _⟩⟩
  · rcases h.answered e he with ⟨hc, hresult⟩ | ⟨hc, hresult⟩
    · exact .inl ⟨hsub hc, hresult⟩
    · refine .inr ⟨fun hmem' => ?_, hresult⟩
      rcases hmem _ hmem' with hmem' | ⟨heq, _, hanswers⟩
      · exact hc hmem'
      · exact hanswers e he (heq ▸ rfl)
  · obtain ⟨hold, hne⟩ := hlocks k session v hdirty
    obtain ⟨other, hother, hs⟩ := h.locked k session v hold
    refine ⟨other, List.mem_filter.mpr ⟨hother, decide_eq_true fun heq => hne ?_⟩, hs⟩
    exact hs ▸ congrArg LinkCall.session heq
  · exact fun e he e' he' hr => h.oneRule e (hinside e he) e' (hinside e' he') hr
  · exact fun e he e' he' hs => h.oneSession e (hinside e he) e' (hinside e' he') hs
  · exact fun e he => h.fresh.1 e (hinside e he)
  · intro other hother
    rcases hmem other hother with hother | ⟨rfl, hstarted, _⟩
    · exact h.fresh.2.1 other hother
    · exact hstarted
  · refine ⟨hinside e, fun hmem => List.mem_filter.mpr ⟨hmem, decide_eq_true ?_⟩⟩
    rintro rfl
    exact hne he.symm
  · refine ⟨fun hmem' => (hmem c hmem').resolve_right ?_, fun hmem' => hsub hmem'⟩
    rintro ⟨rfl, _⟩
    exact hne hc.symm
  · refine hslots _ fun v hdirty => hne ?_
    obtain ⟨owner, howner, hos⟩ := h.locked _ _ v hdirty
    obtain ⟨rfl, _⟩ := Prod.mk.inj (h.oneRule _ howner _ he rfl)
    exact hs.symm.trans hos

theorem Links.Sound.rollback (h : s.Sound catalog initial) (call : LinkCall) :
    (s.leave call (s.table.rollback call.session)).Sound catalog initial ∧
      s.Guards call.session (s.leave call (s.table.rollback call.session)) := by
  refine @Links.Sound.leave catalog initial call s (s.table.rollback call.session) s.committed h
    (.inl rfl) (fun k session v hdirty => ?_) (fun k hfree => ?_)
    fun rule dossier => ?_
  · rw [Table.slot_rollback] at hdirty
    exact Slot.dirty_rollback.mp hdirty
  · obtain ⟨v, hdirty, _⟩ | ⟨_, hslot⟩ := Slot.rollback_cases call.session (s.table.slot k)
    · exact absurd hdirty (hfree v)
    · rw [Table.slot_rollback, hslot]
  · rw [Table.slot_rollback, Slot.committed_rollback]
    exact h.linked rule dossier

theorem Links.Sound.commit {V : Nat → Option Nat → Prop} (h : s.Sound catalog initial)
    (hcall : s.Replacing call rule V) (hrule : catalog.ruleId call.ruleKey = some rule)
    (hV : ∀ dossier v, V dossier v → (v.isSome ↔ catalog.Wanted call.dossierKeys dossier)) :
    Links.Sound catalog initial { s.leave call (s.table.commit call.session) with
      committed := call :: s.committed } ∧
    s.Guards call.session { s.leave call (s.table.commit call.session) with
      committed := call :: s.committed } := by
  have hslot : ∀ k, (∀ v, (s.table.slot k).dirty ≠ some (call.session, v)) →
      (s.table.commit call.session).slot k = s.table.slot k := by
    intro k hfree
    rw [Table.slot_commit]
    obtain ⟨v, hdirty, _⟩ | ⟨_, hsame⟩ := Slot.commit_cases call.session (s.table.slot k)
    · exact absurd hdirty (hfree v)
    · exact hsame
  refine @Links.Sound.leave catalog initial call s (s.table.commit call.session)
    (call :: s.committed) h (.inr ⟨rfl, h.fresh.1 _ hcall.inside, hcall.answers⟩)
    (fun k session v hdirty => ?_) hslot fun r dossier => ?_
  · rw [Table.slot_commit] at hdirty
    exact Slot.dirty_commit.mp hdirty
  · by_cases hr : r = rule
    · subst hr
      rw [Table.slot_commit, Slot.committed_commit, Catalog.linksAfter, if_pos hrule]
      exact hV dossier _ (hcall.view dossier)
    · have hfree : ∀ v, (s.table.slot (r, dossier)).dirty ≠ some (call.session, v) := by
        intro v hdirty
        obtain ⟨other, hother, hs⟩ := h.locked _ _ v hdirty
        exact hr (Prod.mk.inj (h.oneSession _ hother _ hcall.inside hs)).2
      have hskip : catalog.ruleId call.ruleKey ≠ some r := by
        rw [hrule]
        exact fun heq => hr (Option.some.inj heq).symm
      rw [hslot _ hfree, Catalog.linksAfter, if_neg hskip]
      exact h.linked r dossier

theorem Links.Sound.answer {result : Except LinkError Nat} (h : s.Sound catalog initial)
    (hstarted : call.session < s.nextSession) (hanswered : s.Answered call result) :
    Links.Sound catalog initial { s with answers := (call, result) :: s.answers } ∧
      s.Guards call.session { s with answers := (call, result) :: s.answers } := by
  refine ⟨⟨h.linked, fun e he => ?_, h.locked, h.oneRule, h.oneSession, h.fresh.1, h.fresh.2.1,
    fun e he => ?_⟩, fun other hne => ⟨fun _ _ => Iff.rfl, fun _ _ => Iff.rfl, fun e he => ?_,
      fun _ _ _ _ => rfl, Nat.le_refl _⟩⟩
  · rcases List.mem_cons.mp he with rfl | he
    · exact hanswered
    · exact h.answered e he
  · rcases List.mem_cons.mp he with rfl | he
    · exact hstarted
    · exact h.fresh.2.2 e he
  · refine ⟨fun hmem => (List.mem_cons.mp hmem).resolve_left ?_, List.mem_cons_of_mem _⟩
    rintro rfl
    exact hne he.symm

end Steps

section Calls

variable {catalog : Catalog} {initial : Nat → Nat → Prop} {call : LinkCall} {rule : Nat}
  {s : Links} {α β : Type} {A : α → Links → Prop} {B : β → Links → Prop} {E : Links → Prop}

/-- A result with `A`, or `NotFound` with `E`. -/
def Reports (A : α → Links → Prop) (E : Links → Prop) : Except LinkError α → Links → Prop
  | .ok value, s => A value s
  | .error e, s => (∃ table key, e = .notFound table key) ∧ E s

theorem keeps_next {p : LinkProg α} {next : α → LinkProg β}
    (h : Keeps (linksContract catalog initial call) (Reports A E) p s)
    (hinv : s.Sound catalog initial)
    (hnext : ∀ value t, t.Sound catalog initial → A value t →
      Keeps (linksContract catalog initial call) (Reports B E) (next value) t) :
    Keeps (linksContract catalog initial call) (Reports B E) (p.bind next) s :=
  h.bind hinv hnext fun _ _ _ herr => herr

theorem keeps_cmd {c : LinkCmd} {A : Links → Prop} {B : LinkReply c → Links → Prop} (hA : A s)
    (hbefore : ∀ s t, A s → s.Same call.session t → A t)
    (hafter : ∀ reply s t, B reply s → s.Same call.session t → B reply t)
    (hstep : ∀ t, t.Sound catalog initial → A t → c.alone t = true → c.blocked t = false ∧
      ((Links.meaning catalog c t).2.Sound catalog initial ∧
        t.Guards call.session (Links.meaning catalog c t).2) ∧
      ∃ reply, (Links.meaning catalog c t).1 = .ok reply ∧
        B reply (Links.meaning catalog c t).2) :
    Keeps (linksContract catalog initial call) (Reports B E) (perform c) s := by
  refine Keeps.perform fun t hrely hinv fate hfate => ?_
  obtain ⟨hfree, hkept, reply, hreply, hB⟩ := hstep t hinv (hbefore s t hA hrely) hfate.1
  have hdone : fate = .done := by
    have hadmits := hfate.2
    cases fate with
    | done => rfl
    | lost e => cases e <;> simp [LinkCmd.admits, hfree] at hadmits
    | late e => simp [LinkCmd.admits] at hadmits
  subst hdone
  refine ⟨hkept.1, hkept.2, fun u hu _ => ?_⟩
  have hreports : Reports B E (Links.meaning catalog c t).1 u := by
    rw [hreply]
    exact hafter reply _ u hB hu
  exact hreports

theorem keeps_dossierIds (hinv : s.Sound catalog initial) (h : s.Outside call) :
    Keeps (linksContract catalog initial call)
      (Reports (fun ids t => t.Outside call ∧ catalog.Resolved call.dossierKeys ids)
        (Links.Outside call)) (dossierIds call.dossierKeys.eraseDups) s := by
  simp only [dossierIds]
  refine Keeps.ite (fun hnil => ?_) fun _ => ?_
  · have hkeys : call.dossierKeys = [] := by
      refine List.eq_nil_iff_forall_not_mem.mpr fun key hkey => ?_
      exact List.not_mem_nil (hnil ▸ List.mem_eraseDups.mpr hkey)
    have hresolved := @resolved_found catalog call.dossierKeys (by simp [hnil])
    rw [hnil, List.filterMap_nil] at hresolved
    exact fun t hrely _ => ⟨h.stable hrely, hresolved⟩
  · refine keeps_next (A := fun rows t => t.Outside call ∧
      rows = catalog.dossiers.select call.dossierKeys.eraseDups) ?_ hinv ?_
    · refine keeps_cmd h (fun _ _ h hsame => h.stable hsame)
        (fun _ _ _ h hsame => ⟨h.1.stable hsame, h.2⟩) fun t hsound h _ => ?_
      exact ⟨rfl, ⟨hsound, fun _ _ => Links.Same.refl _ t⟩, _, rfl, h, rfl⟩
    · rintro rows t hinv ⟨h, rfl⟩
      split
      · exact fun u hrely _ => ⟨⟨_, _, rfl⟩, h.stable hrely⟩
      · next hmissing =>
        refine fun u hrely _ => ⟨h.stable hrely, resolved_found fun key hkey hnone => ?_⟩
        exact List.not_mem_nil (hmissing ▸ List.mem_filter.mpr ⟨hkey, by simp [hnone]⟩)

/-- The links that the call still sees are those of the snapshot's rest. -/
def Remaining (rows : List (Nat × Nat)) (dossier : Nat) (v : Option Nat) : Prop :=
  ∀ tuple, v = some tuple → (dossier, tuple) ∈ rows

def Inserted (ids : List Nat) (dossier : Nat) (v : Option Nat) : Prop :=
  v.isSome ↔ dossier ∈ ids

theorem keeps_startDelete (h : s.Outside call) :
    Keeps (linksContract catalog initial call)
      (Reports (fun rows => Links.Replacing call rule (Remaining rows)) E)
      (perform (LinkCmd.startDelete call rule)) s := by
  refine keeps_cmd h (fun _ _ h hsame => h.stable hsame) (fun _ _ _ h hsame => h.stable hsame)
    fun t hsound h halone => ?_
  have hother : ∀ e ∈ t.inside, e.2 ≠ rule :=
    fun e he => of_decide_eq_true (List.all_eq_true.mp halone e he)
  refine ⟨rfl, hsound.enter h hother, _, rfl, ?_⟩
  refine ⟨List.mem_cons_self, h.committed, h.answers, fun dossier tuple hview => ?_⟩
  refine List.mem_map.mpr ⟨((rule, dossier), tuple), List.mem_filter.mpr ⟨?_, ?_⟩, rfl⟩
  · exact Table.mem_rows.mpr hview
  · simp

theorem keeps_deleteRow {dossier tuple : Nat} {rows : List (Nat × Nat)}
    (h : s.Replacing call rule (Remaining ((dossier, tuple) :: rows))) :
    Keeps (linksContract catalog initial call)
      (Reports (fun _ => Links.Replacing call rule (Remaining rows)) E)
      (perform (.deleteRow call rule dossier tuple)) s := by
  refine keeps_cmd h (fun _ _ h hsame => h.stable hsame) (fun _ _ _ h hsame => h.stable hsame)
    fun t hsound h _ => ?_
  have hfree := hsound.free h.inside dossier
  have hslot : ∀ k, (Links.meaning catalog (.deleteRow call rule dossier tuple) t).2.table.slot k =
      if k = (rule, dossier) ∧ (t.table.slot k).view (some call.session) = some tuple then
        (t.table.slot k).write (some call.session) none else t.table.slot k := by
    intro k
    simp only [Links.meaning, Table.slot_rewrite]
    by_cases hcond : k = (rule, dossier) ∧ (t.table.slot k).view (some call.session) = some tuple
    · simp [hcond.1, hcond.1 ▸ hcond.2]
    · rw [if_neg hcond]
      cases hview : (t.table.slot k).view (some call.session) with
      | none => rfl
      | some v =>
        have hv : ¬ (k = (rule, dossier) ∧ v = tuple) :=
          fun heq => hcond ⟨heq.1, heq.2 ▸ hview⟩
        rw [Option.bind_some, if_neg hv]
  refine ⟨?_, hsound.write h.inside (fun k hk => ?_) (fun d => ?_) t.nextTuple, (), rfl,
    h.inside, h.committed, h.answers, fun d v hview => ?_⟩
  · simp [LinkCmd.blocked, hfree]
  · refine (hslot k).trans (if_neg fun hk' => hk ?_)
    rw [hk'.1]
  · have hd := hslot (rule, d)
    split_ifs at hd with hcond
    · exact .inr ⟨none, hd⟩
    · exact .inl hd
  · rw [Table.view, hslot (rule, d)] at hview
    split_ifs at hview with hcond
    · rw [Slot.view_write] at hview
      cases hview
    · refine (List.mem_cons.mp (h.view d v hview)).resolve_left fun heq => hcond ?_
      obtain ⟨rfl, rfl⟩ := Prod.mk.inj heq
      exact ⟨rfl, hview⟩

theorem keeps_deleteRows {rows : List (Nat × Nat)} (hinv : s.Sound catalog initial)
    (h : s.Replacing call rule (Remaining rows)) :
    Keeps (linksContract catalog initial call)
      (Reports (fun _ => Links.Replacing call rule (Remaining [])) E)
      (deleteRows call rule rows) s := by
  induction rows generalizing s with
  | nil => exact fun t hrely _ => h.stable hrely
  | cons row rows ih =>
    exact keeps_next (keeps_deleteRow h) hinv fun _ t hinv h => ih hinv h

theorem keeps_insert {dossier : Nat} {ids : List Nat} (hnot : dossier ∉ ids)
    (h : s.Replacing call rule (Inserted ids)) :
    Keeps (linksContract catalog initial call)
      (Reports (fun _ => Links.Replacing call rule (Inserted (dossier :: ids))) E)
      (perform (.insert call rule dossier)) s := by
  refine keeps_cmd h (fun _ _ h hsame => h.stable hsame) (fun _ _ _ h hsame => h.stable hsame)
    fun t hsound h _ => ?_
  have hfree := hsound.free h.inside dossier
  have hnone : ¬ (t.table.view (some call.session) (rule, dossier)).isSome = true :=
    fun hsome => hnot ((h.view dossier).mp hsome)
  have hmeaning : Links.meaning catalog (.insert call rule dossier) t =
      (.ok (), { t with
        table := t.table.insert (some call.session) (rule, dossier) t.nextTuple
        nextTuple := t.nextTuple + 1 }) := if_neg hnone
  rw [hmeaning]
  refine ⟨?_, hsound.write h.inside (fun k hk => ?_) (fun d => ?_) (t.nextTuple + 1), (), rfl,
    h.inside, h.committed, h.answers, fun d => ?_⟩
  · simp [LinkCmd.blocked, hfree]
  · refine (Table.slot_insert ..).trans (if_neg fun hk' => hk ?_)
    rw [hk']
  · by_cases hd : d = dossier
    · subst hd
      exact .inr ⟨_, if_pos rfl⟩
    · exact .inl (if_neg fun heq => hd (Prod.mk.inj heq).2)
  · by_cases hd : d = dossier
    · subst hd
      simp [Inserted, Table.view, Slot.view_write]
    · have hview := h.view d
      simpa [Inserted, Table.view, hd] using hview

theorem keeps_insertLinks {ids done : List Nat} (hinv : s.Sound catalog initial)
    (hnodup : (ids.reverse ++ done).Nodup) (h : s.Replacing call rule (Inserted done)) :
    Keeps (linksContract catalog initial call)
      (Reports (fun _ => Links.Replacing call rule (Inserted (ids.reverse ++ done))) E)
      (insertLinks call rule ids) s := by
  induction ids generalizing s done with
  | nil => exact fun t hrely _ => h.stable hrely
  | cons dossier ids ih =>
    rw [List.reverse_cons, List.append_assoc] at hnodup ⊢
    have hnot : dossier ∉ done :=
      (List.nodup_cons.mp (List.nodup_append.mp hnodup).2.1).1
    exact keeps_next (keeps_insert hnot h) hinv fun _ t hinv h => ih hinv hnodup h

theorem keeps_replace (hinv : s.Sound catalog initial) (h : s.Outside call) :
    Keeps (linksContract catalog initial call)
      (Reports (fun ids t => catalog.Resolved call.dossierKeys ids ∧ ∃ rule,
        catalog.ruleId call.ruleKey = some rule ∧
          t.Replacing call rule (Inserted ids.reverse)) (Links.Outside call))
      (do match ← perform (LinkCmd.fetchRule call.ruleKey) with
          | none => throw (.notFound "agent_rule" call.ruleKey)
          | some rule =>
            let ids ← dossierIds call.dossierKeys.eraseDups
            let rows ← perform (LinkCmd.startDelete call rule.id)
            deleteRows call rule.id rows
            insertLinks call rule.id ids
            return ids) s := by
  refine keeps_next (A := fun row t => t.Outside call ∧
    row = (catalog.rules.select [call.ruleKey]).head?) ?_ hinv ?_
  · refine keeps_cmd h (fun _ _ h hsame => h.stable hsame)
      (fun _ _ _ h hsame => ⟨h.1.stable hsame, h.2⟩) fun t hsound h _ => ?_
    exact ⟨rfl, ⟨hsound, fun _ _ => Links.Same.refl _ t⟩, _, rfl, h, rfl⟩
  · rintro row t hinv ⟨h, hrow⟩
    cases row with
    | none => exact fun u hrely _ => ⟨⟨_, _, rfl⟩, h.stable hrely⟩
    | some row =>
      have hrule : catalog.ruleId call.ruleKey = some row.id := by
        rw [Catalog.ruleId, ← hrow, Option.map_some]
      refine keeps_next (keeps_dossierIds hinv h) hinv fun ids t hinv hids => ?_
      obtain ⟨h, hids⟩ := hids
      have hnodup : (ids.reverse ++ []).Nodup := by
        rw [List.append_nil]
        exact List.nodup_reverse.mpr hids.nodup
      refine keeps_next (keeps_startDelete h) hinv fun rows t hinv h => ?_
      refine keeps_next (keeps_deleteRows hinv h) hinv fun _ t hinv h => ?_
      have hnone : t.Replacing call row.id (Inserted []) := by
        refine ⟨h.inside, h.committed, h.answers, fun dossier => ?_⟩
        have hview := h.view dossier
        cases hv : t.table.view (some call.session) (row.id, dossier) with
        | none => simp [Inserted]
        | some tuple => exact absurd (hview tuple hv) List.not_mem_nil
      refine keeps_next (keeps_insertLinks hinv hnodup hnone) hinv fun _ t hinv h => ?_
      rw [List.append_nil] at h
      exact fun u hrely _ => ⟨hids, row.id, hrule, h.stable hrely⟩

theorem keeps_setDossiers (hinv : s.Sound catalog initial) (h : s.Outside call) :
    Keeps (linksContract catalog initial call)
      (Reports (fun n t => t.Replaced call ∧ n = call.dossierKeys.toFinset.card)
        (Links.Outside call)) (setDossiers call) s := by
  refine keeps_next (A := fun ids t => t.Replaced call ∧
    ids.length = call.dossierKeys.toFinset.card) ?_ hinv fun ids t _ h => ?_
  · refine keeps_next ((keeps_replace hinv h).tryCatch hinv (fun _ _ _ hok => hok) ?_) hinv ?_
    · rintro e t hinv ⟨he, h⟩
      have hroll : Keeps (linksContract catalog initial call)
          (Reports (fun _ => Links.Outside call) fun _ => False)
          (perform (LinkCmd.rollback call)) t := by
        refine keeps_cmd h (fun _ _ h hsame => h.stable hsame)
          (fun _ _ _ h hsame => h.stable hsame) fun t hsound h _ => ?_
        refine ⟨rfl, hsound.rollback call, (), rfl, h.started, fun e he => ?_,
          h.committed, h.answers⟩
        exact h.inside e (List.mem_filter.mp he).1
      refine hroll.bind hinv (fun _ t _ h u hrely _ => ⟨he, Links.Outside.stable h hrely⟩) ?_
      exact fun _ _ _ herr => herr.2.elim
    · rintro ids t hinv ⟨hids, rule, hrule, h⟩
      refine keeps_next (A := fun _ t => t.Replaced call) ?_ hinv fun _ t _ h u hrely _ =>
        ⟨h.stable hrely, hids.count⟩
      refine keeps_cmd h (fun _ _ h hsame => h.stable hsame) (fun _ _ _ h hsame => h.stable hsame)
        fun t hsound h _ => ⟨rfl, hsound.commit h hrule fun dossier v hv => ?_, (), rfl, ?_,
          List.mem_cons_self, h.answers⟩
      · exact hv.trans (List.mem_reverse.trans (hids.mem dossier))
      · intro e he hs
        obtain ⟨he, hne⟩ := List.mem_filter.mp he
        obtain rfl := hsound.oneSession e he _ h.inside hs
        exact of_decide_eq_true hne rfl
  · exact fun u hrely _ => ⟨h.1.stable hrely, h.2⟩

theorem keeps_answerCall (hinv : s.Sound catalog initial) (h : s.Outside call) :
    Keeps (linksContract catalog initial call)
      (Reports (fun _ t => ∃ e ∈ t.answers, e.1 = call) fun _ => False) (answerCall call) s := by
  have hanswer : ∀ {t : Links} {result : Except LinkError Nat} {A : Links → Prop},
      t.Sound catalog initial → A t → (∀ s t, A s → s.Same call.session t → A t) →
      (∀ t, A t → call.session < t.nextSession ∧ t.Answered call result) →
      Keeps (linksContract catalog initial call)
        (Reports (fun _ t => ∃ e ∈ t.answers, e.1 = call) fun _ => False)
        (perform (LinkCmd.answer call result)) t := by
    intro t result A hinv hA hstable himp
    refine keeps_cmd hA hstable (fun _ s t hmem hsame => ?_) fun t hsound hA _ => ?_
    · obtain ⟨e, he, rfl⟩ := hmem
      exact ⟨e, (hsame.answers e rfl).mpr he, rfl⟩
    · obtain ⟨hstarted, hanswered⟩ := himp t hA
      exact ⟨rfl, hsound.answer hstarted hanswered, (), rfl, _, List.mem_cons_self, rfl⟩
  refine (keeps_setDossiers hinv h).settle hinv fun result t hinv hmid => ?_
  have hnow := hmid t (Links.Same.refl _ t) hinv
  cases result with
  | ok n =>
    obtain ⟨h, rfl⟩ := hnow
    refine hanswer (A := fun t => t.Replaced call ∧ call.session < t.nextSession) hinv
      ⟨h, hinv.fresh.2.1 _ h.committed⟩ (fun _ _ h hsame => ⟨h.1.stable hsame,
        Nat.lt_of_lt_of_le h.2 hsame.nextSession⟩) fun t h => ⟨h.2, .inl ⟨h.1.committed, rfl⟩⟩
  | error e =>
    obtain ⟨he, h⟩ := hnow
    exact hanswer hinv h (fun _ _ h hsame => h.stable hsame) fun t h =>
      ⟨h.started, .inr ⟨fun hmem => h.committed _ hmem rfl,
        he.imp fun _ he => he.imp fun _ he => congrArg Except.error he⟩⟩

end Calls

section Runs

variable {catalog : Catalog} {initial : Nat → Nat → Prop}
  {c : Config LinkReply LinkError Links LinkCall}

/-- No `DELETE` begins while another call on the rule is between its `DELETE` and its end. -/
def orderly (c : Config LinkReply LinkError Links LinkCall) : Move LinkError LinkRequest → Bool
  | .run i _ =>
    match (c.threads[i]?).map Thread.prog with
    | some (.await cmd _) => cmd.alone c.shared
    | _ => true
  | _ => true

theorem orderly_alone {i : Nat} {fate : Fate LinkError} {t : Thread LinkReply LinkError LinkCall}
    {cmd : LinkCmd} {rest : Except LinkError (LinkReply cmd) → LinkProg Unit}
    (h : orderly c (.run i fate) = true) (hi : c.threads[i]? = some t)
    (hprog : t.prog = .await cmd rest) : cmd.alone c.shared = true := by
  simpa only [orderly, hi, Option.map_some, hprog] using h

def AllNumbered (c : Config LinkReply LinkError Links LinkCall) : Prop :=
  ∀ t ∈ c.threads, t.tag.session < c.shared.nextSession

theorem meaning_nextSession (catalog : Catalog) (cmd : LinkCmd) (s : Links) :
    (Links.meaning catalog cmd s).2.nextSession = s.nextSession := by
  cases cmd with
  | insert call rule dossier =>
    simp only [Links.meaning]
    split <;> rfl
  | _ => rfl

theorem allNumbered_reach {ok : Config LinkReply LinkError Links LinkCall →
      Move LinkError LinkRequest → Prop} {start : Config LinkReply LinkError Links LinkCall}
    (reach : Reach (ruleLinks catalog) ok start c) (h : AllNumbered start) : AllNumbered c := by
  refine reach.tags (K := fun (call : LinkCall) (s : Links) => call.session < s.nextSession) h
    (fun call cmd s hcall => ?_) (fun _ _ _ _ => nofun) (fun _ _ _ hcall => hcall)
    fun r s s' new henv => ?_
  · exact (meaning_nextSession catalog cmd s).symm ▸ hcall
  · obtain ⟨rfl, rfl⟩ := Prod.mk.inj (Option.some.inj henv)
    exact ⟨fun _ hcall => Nat.lt_succ_of_lt hcall, by simp⟩

theorem Links.Sound.request {s : Links} (h : s.Sound catalog initial) :
    Links.Sound catalog initial { s with nextSession := s.nextSession + 1 } :=
  ⟨h.linked, h.answered, h.locked, h.oneRule, h.oneSession,
    fun e he => Nat.lt_succ_of_lt (h.fresh.1 e he),
    fun call hcall => Nat.lt_succ_of_lt (h.fresh.2.1 call hcall),
    fun e he => Nat.lt_succ_of_lt (h.fresh.2.2 e he)⟩

def linksDiscipline (catalog : Catalog) (initial : Nat → Nat → Prop) :
    Discipline (ruleLinks catalog) (fun c move => orderly c move = true ∧ AllNumbered c) where
  inv := Links.Sound catalog initial
  contract := linksContract catalog initial
  post call := Reports (fun _ t => ∃ e ∈ t.answers, e.1 = call) fun _ => False
  apart a b := a.session ≠ b.session
  meaning_eq _ := rfl
  inv_eq _ := rfl
  apart_symm h := h.symm
  others h _ _ hguar := hguar _ h.symm
  fates hok hi hprog hadmits _ := ⟨orderly_alone hok.1 hi hprog, hadmits⟩
  exit_keeps _ _ _ ht := nomatch ht
  exit_apart _ ht := nomatch ht
  exit_pairwise := List.Pairwise.nil
  death_inv _ _ hinv := (hinv.rollback _).1
  death_rely _ _ hinv hapart := (hinv.rollback _).2 _ hapart.symm
  env_inv := by
    intro c e s new _ henv hinv
    obtain ⟨rfl, _⟩ := Prod.mk.inj (Option.some.inj henv)
    exact hinv.request
  env_rely := by
    intro c e s new _ henv _ t _
    obtain ⟨rfl, _⟩ := Prod.mk.inj (Option.some.inj henv)
    exact ⟨fun _ _ => Iff.rfl, fun _ _ => Iff.rfl, fun _ _ => Iff.rfl, fun _ _ _ _ => rfl,
      Nat.le_succ _⟩
  env_keeps := by
    intro c e s new _ henv hinv t ht
    obtain ⟨rfl, rfl⟩ := Prod.mk.inj (Option.some.inj henv)
    obtain rfl := List.mem_singleton.mp ht
    refine keeps_answerCall hinv.request ⟨Nat.lt_succ_self _, fun e he => ?_, fun c hc => ?_,
      fun e he => ?_⟩
    · exact Nat.ne_of_lt (hinv.fresh.1 e he)
    · exact Nat.ne_of_lt (hinv.fresh.2.1 c hc)
    · exact Nat.ne_of_lt (hinv.fresh.2.2 e he)
  env_apart := by
    intro c e s new hok henv _
    obtain ⟨rfl, rfl⟩ := Prod.mk.inj (Option.some.inj henv)
    refine ⟨List.pairwise_singleton _ _, fun t ht u hu => ?_⟩
    obtain rfl := List.mem_singleton.mp hu
    exact Nat.ne_of_lt (hok.2 t ht)

/-- In a database without locks, each call that answers has replaced the links and got their
number, or has changed nothing and got `NotFound`; and the links are those that the calls which
committed leave one after another. -/
theorem replaced_in_turn {links : Table (Nat × Nat) Nat Nat}
    (hidle : ∀ k, (links.slot k).dirty = none)
    (reach : Reach (ruleLinks catalog) (fun c move => orderly c move = true)
      ⟨{ table := links }, []⟩ c) :
    (∀ t ∈ c.threads, ∀ result, t.ended = some result → ∃ e ∈ c.shared.answers, e.1 = t.tag) ∧
    (∀ e ∈ c.shared.answers, c.shared.Answered e.1 e.2) ∧
    ∀ rule dossier, c.shared.Linked rule dossier ↔
      catalog.linksAfter (fun rule dossier => (links.slot (rule, dossier)).committed.isSome)
        c.shared.committed rule dossier := by
  have hreach := reach.strengthen fun _ h => allNumbered_reach h fun _ ht => (nomatch ht)
  have hsafe := hreach.safe (linksDiscipline catalog _)
    ⟨⟨fun _ _ => Iff.rfl, nofun, fun k session v hdirty => ?_, nofun, nofun, nofun, nofun, nofun⟩,
      fun _ ht => (nomatch ht), List.Pairwise.nil⟩
  · refine ⟨fun t ht result hended => ?_, hsafe.inv.answered, hsafe.inv.linked⟩
    obtain ⟨i, hi⟩ := List.getElem?_of_mem ht
    have hpost := hsafe.ended hi hended
    cases result with
    | ok value => exact hpost
    | error e => exact hpost.2.elim
  · rw [hidle k] at hdirty
    cases hdirty

end Runs

section Example

def oneRule : Catalog where
  rules := ⟨[⟨0, "rule", false⟩], by decide, by decide⟩
  dossiers := ⟨[⟨0, "a", false⟩, ⟨1, "b", false⟩], by decide, by decide⟩

def callAwaits (i n : Nat) : List (Move LinkError LinkRequest) := List.replicate n (.run i .done)

def twoRequests : List (Move LinkError LinkRequest) :=
  [.env ⟨"rule", ["a"]⟩, .env ⟨"rule", ["b", "b"]⟩]

def firstCall : LinkCall := ⟨0, "rule", ["a"]⟩

def secondCall : LinkCall := ⟨1, "rule", ["b", "b"]⟩

def oneAfterAnother : List (Move LinkError LinkRequest) := twoRequests ++ callAwaits 0 6 ++ callAwaits 1 7

/-- The first call's `DELETE` comes before the second call, its `INSERT` after it. -/
def entwined : List (Move LinkError LinkRequest) :=
  twoRequests ++ callAwaits 0 3 ++ callAwaits 1 6 ++ callAwaits 0 3

theorem replaced_in_turn_two : ∃ c,
    Reach (ruleLinks oneRule) (fun c move => orderly c move = true)
      ⟨{ table := Table.empty }, []⟩ c ∧
    c.shared.committed = [secondCall, firstCall] ∧
    (∀ e ∈ c.shared.answers, c.shared.Answered e.1 e.2) ∧
    ∀ dossier, c.shared.Linked 0 dossier ↔ oneRule.Wanted ["b", "b"] dossier := by
  have hrun : ((ruleLinks oneRule).execWhen orderly oneAfterAnother
      ⟨{ table := Table.empty }, []⟩).any (fun c =>
        c.shared.committed = [secondCall, firstCall]) = true := by
    decide +kernel
  obtain ⟨c, hc, hcommitted⟩ := (Option.any_eq_true _ _).mp hrun
  have hcommitted := of_decide_eq_true hcommitted
  have reach := Reach.start.execWhen (fun _ _ _ h => h) hc
  have hmain := replaced_in_turn (fun _ => rfl) reach
  refine ⟨c, reach, hcommitted, hmain.2.1, fun dossier => ?_⟩
  rw [hmain.2.2, hcommitted, Catalog.linksAfter, if_pos (by decide +kernel)]
  rfl

/-- Both calls are answered with one link, and the rule has two. -/
theorem entwined_links : ∃ c,
    Reach (ruleLinks oneRule) (fun _ _ => True) ⟨{ table := Table.empty }, []⟩ c ∧
    (∀ t ∈ c.threads, t.ended.isSome) ∧
    c.shared.answers = [(firstCall, .ok 1), (secondCall, .ok 1)] ∧
    ∀ e ∈ c.shared.answers,
      ¬ ∀ dossier, c.shared.Linked 0 dossier ↔ oneRule.Wanted e.1.dossierKeys dossier := by
  have hrun : ((ruleLinks oneRule).exec entwined ⟨{ table := Table.empty }, []⟩).any (fun c =>
      c.threads.all (fun t => t.ended.isSome) &&
      c.shared.answers = [(firstCall, .ok 1), (secondCall, .ok 1)] &&
      (c.shared.table.slot (0, 0)).committed.isSome &&
      (c.shared.table.slot (0, 1)).committed.isSome) = true := by
    decide +kernel
  obtain ⟨c, hc, hrest⟩ := (Option.any_eq_true _ _).mp hrun
  simp only [Bool.and_eq_true, List.all_eq_true] at hrest
  obtain ⟨⟨⟨hended, hanswers⟩, ha⟩, hb⟩ := hrest
  have hanswers := of_decide_eq_true hanswers
  have hnot : ¬ oneRule.Wanted ["a"] 1 ∧ ¬ oneRule.Wanted ["b", "b"] 0 := by
    constructor <;> simp [Catalog.Wanted, KeyedTable.select, oneRule]
  refine ⟨c, Reach.start.exec (fun _ _ => trivial) hc, hended, hanswers, fun e he hall => ?_⟩
  rw [hanswers] at he
  rcases List.mem_cons.mp he with rfl | he
  · exact hnot.1 ((hall 1).mp hb)
  · obtain rfl := List.mem_singleton.mp he
    exact hnot.2 ((hall 0).mp ha)

end Example

end Doci
