import Doci.ReadCommitted
import Mathlib.Algebra.GroupWithZero.Nat

/-! Rows that sessions mark in their transactions, each of them once: a row that is marked is no
longer live, and only live rows are marked. -/

namespace ReadCommitted

section Marking

variable {K S V T : Type}

/-- How far it has come with a row that was `old`: nobody has marked it, a session has and has not
committed, or it is marked for good. -/
def Marking (live : V → Prop) (mark : T → V → V) (old : Option V) (slot : Slot S V) : Prop :=
  slot = { committed := old } ∨
    (∃ v t n, old = some v ∧ live v ∧
      slot = { committed := some v, dirty := some (t, some (mark n v)) }) ∨
    ∃ v n, old = some v ∧ live v ∧ slot = { committed := some (mark n v) }

variable {live : V → Prop} {mark : T → V → V} {old : Option V} {slot : Slot S V}

theorem Marking.committed (h : Marking live mark old slot) :
    slot.committed = old ∨
      ∃ v n, old = some v ∧ live v ∧ slot = { committed := some (mark n v) } := by
  rcases h with rfl | ⟨v, t, n, rfl, _, rfl⟩ | hended
  · exact .inl rfl
  · exact .inl rfl
  · exact .inr hended

theorem Marking.dirty (h : Marking live mark old slot) {t : S} {w : Option V}
    (hw : slot.dirty = some (t, w)) :
    ∃ v n, old = some v ∧ live v ∧ slot.committed = some v ∧ w = some (mark n v) := by
  rcases h with rfl | ⟨v, t', n, rfl, hlive, rfl⟩ | ⟨v, n, _, _, rfl⟩
  · exact nomatch hw
  · obtain ⟨_, rfl⟩ := Prod.mk.inj (Option.some.inj hw)
    exact ⟨v, n, rfl, hlive, rfl, rfl⟩
  · exact nomatch hw

theorem Marking.committed_of_dirty (h : Marking live mark old slot) {t : S} {w : Option V}
    (hw : slot.dirty = some (t, w)) : slot.committed = old := by
  obtain ⟨v, _, rfl, _, hv, _⟩ := h.dirty hw
  exact hv

theorem Marking.of_unlocked (h : old = slot.committed) (hdirty : slot.dirty = none) :
    Marking live mark old slot := by
  refine .inl ?_
  cases slot
  simp_all

variable [DecidableEq S]

theorem Marking.commit (h : Marking live mark old slot) (a : S) :
    Marking live mark old (slot.commit a) := by
  obtain ⟨w, hw, hnew⟩ | ⟨_, hsame⟩ := Slot.commit_cases a slot
  · obtain ⟨v, n, hold, hlive, _, rfl⟩ := h.dirty hw
    exact .inr (.inr ⟨v, n, hold, hlive, hnew⟩)
  · rwa [hsame]

theorem Marking.rollback (h : Marking live mark old slot) (a : S) :
    Marking live mark old (slot.rollback a) := by
  obtain ⟨w, hw, hnew⟩ | ⟨_, hsame⟩ := Slot.rollback_cases a slot
  · exact .inl (by rw [hnew, h.committed_of_dirty hw])
  · rwa [hsame]

theorem Slot.committed_commit_of_not_dirty {a : S} (h : ∀ w, slot.dirty ≠ some (a, w)) :
    slot.commit a = slot := by
  obtain ⟨w, hw, _⟩ | ⟨_, hsame⟩ := Slot.commit_cases a slot
  · exact absurd hw (h w)
  · exact hsame

variable [DecidableEq K] {table : Table K S V} {olds : K → Option V} {a : S} {n : T}
  {sel : K → V → Bool}

/-- An update that marks the live rows that `sel` selects either passes a row by or finds it as it
was at the beginning. -/
theorem Table.mark_cases (h : ∀ k, Marking live mark (olds k) (table.slot k))
    (hmark : ∀ n v, ¬ live (mark n v)) (hsel : ∀ k v, sel k v = true → live v)
    (hfree : table.freeWhere (some a) sel = true) (k : K) :
    (table.rewrite (some a) fun k v =>
        if sel k v then some (some (mark n v)) else none).slot k = table.slot k ∧
      (∀ v, (table.slot k).view (some a) = some v → sel k v = false) ∨
    ∃ v, table.slot k = { committed := some v } ∧ olds k = some v ∧ sel k v = true ∧
      (table.rewrite (some a) fun k v =>
        if sel k v then some (some (mark n v)) else none).slot k =
        { committed := some v, dirty := some (a, some (mark n v)) } := by
  have hp : ∀ k v, ((fun k v => if sel k v then some (some (mark n v)) else none :
      K → V → Option (Option V)) k v).isSome = true → sel k v = true := by
    intro k v hsome
    by_contra hnot
    simp [hnot] at hsome
  rcases Table.rewrite_cases hfree hp k with hsame | ⟨v, w, hview, hw, hlock, hwrite⟩
  · by_cases hpassed : ∀ v, (table.slot k).view (some a) = some v → sel k v = false
    · exact .inl ⟨hsame, hpassed⟩
    · simp only [not_forall, Bool.not_eq_false] at hpassed
      obtain ⟨v, hview, hv⟩ := hpassed
      exfalso
      rw [Table.slot_rewrite, hview, Option.bind_some, if_pos hv] at hsame
      have hdirty : (table.slot k).dirty = some (a, some (mark n v)) :=
        (congrArg Slot.dirty hsame).symm
      have hview' : (table.slot k).view (some a) = some (mark n v) := by
        simp [Slot.view, hdirty]
      have hsame' : v = mark n v := Option.some.inj (hview.symm.trans hview')
      exact hmark n v (hsame' ▸ hsel k v hv)
  · obtain ⟨hv, rfl⟩ : sel k v = true ∧ w = some (mark n v) := by
      by_cases hv : sel k v = true
      · simp only [hv, if_true, Option.some.injEq] at hw
        exact ⟨hv, hw.symm⟩
      · simp [hv] at hw
    have hlive := hsel k v hv
    rcases h k with hslot | ⟨v', t, n', hold, _, hslot⟩ | ⟨v', n', _, _, hslot⟩
    · have hold : olds k = some v := by simpa [hslot, Slot.view] using hview
      refine .inr ⟨v, ?_, hold, hv, ?_⟩
      · rw [hslot, hold]
      · rw [hwrite, hslot, hold]
        rfl
    · rw [hslot] at hlock hview
      have hmine : some a = some t := Slot.free_iff.mp hlock t _ rfl
      simp only [Slot.view, hmine, if_true, Option.some.injEq] at hview
      exact absurd (hview ▸ hlive) (hmark n' v')
    · have hview : mark n' v' = v := by simpa [hslot, Slot.view] using hview
      exact absurd (hview ▸ hlive) (hmark n' v')

end Marking

section Counts

variable {α : Type}

/-- There are `n` things of which `P` holds. -/
def Counts (n : Nat) (P : α → Prop) : Prop :=
  ∃ l : List α, l.Nodup ∧ l.length = n ∧ ∀ x, x ∈ l ↔ P x

theorem Counts.congr {n : Nat} {P Q : α → Prop} (h : Counts n P) (hPQ : ∀ x, P x ↔ Q x) :
    Counts n Q := by
  obtain ⟨l, hnodup, hlength, hmem⟩ := h
  exact ⟨l, hnodup, hlength, fun x => (hmem x).trans (hPQ x)⟩

theorem Counts.zero {P : α → Prop} (h : ∀ x, ¬ P x) : Counts 0 P :=
  ⟨[], List.nodup_nil, rfl, fun x => ⟨fun hx => (nomatch hx), fun hx => absurd hx (h x)⟩⟩

/-- Things that one at most has counted, all together. -/
theorem Counts.sum {ι : Type} {owner : α → Option ι} {answers : List (ι × Nat)}
    (hnodup : (answers.map Prod.fst).Nodup)
    (h : ∀ i n, (i, n) ∈ answers → Counts n fun x => owner x = some i) :
    Counts (answers.map Prod.snd).sum fun x => ∃ i n, (i, n) ∈ answers ∧ owner x = some i := by
  induction answers with
  | nil => exact Counts.zero fun x => by simp
  | cons answer answers ih =>
    obtain ⟨i, n⟩ := answer
    rw [List.map_cons, List.nodup_cons] at hnodup
    obtain ⟨l, hl, hlength, hmem⟩ := h i n List.mem_cons_self
    obtain ⟨l', hl', hlength', hmem'⟩ := ih hnodup.2 fun j m hj => h j m (List.mem_cons_of_mem _ hj)
    refine ⟨l ++ l', List.nodup_append.mpr ⟨hl, hl', fun x hx y hy hxy => ?_⟩, ?_, fun x => ?_⟩
    · obtain ⟨j, m, hj, howner⟩ := (hmem' y).mp hy
      have hsame : i = j := Option.some.inj (((hmem x).mp hx).symm.trans (hxy ▸ howner))
      exact hnodup.1 (List.mem_map.mpr ⟨(j, m), hj, hsame.symm⟩)
    · rw [List.length_append, hlength, hlength', List.map_cons, List.sum_cons]
    · rw [List.mem_append, hmem, hmem']
      constructor
      · rintro (howner | ⟨j, m, hj, howner⟩)
        · exact ⟨i, n, List.mem_cons_self, howner⟩
        · exact ⟨j, m, List.mem_cons_of_mem _ hj, howner⟩
      · rintro ⟨j, m, hj, howner⟩
        rcases List.mem_cons.mp hj with heq | hj
        · exact .inl ((Prod.mk.inj heq).1 ▸ howner)
        · exact .inr ⟨j, m, hj, howner⟩

variable {K S V : Type}

/-- The number of rows that an update finds. -/
theorem Table.counts_filter (table : Table K S V) [DecidableEq S] (session : Option S)
    (sel : K → V → Bool) :
    Counts ((table.rows session).filter fun r => sel r.1 r.2).length
      fun k => ∃ v, table.view session k = some v ∧ sel k v = true := by
  refine ⟨((table.rows session).filter fun r => sel r.1 r.2).map Prod.fst, ?_, ?_, fun k => ?_⟩
  · exact (table.rows_nodup session).sublist (List.filter_sublist.map Prod.fst)
  · rw [List.length_map]
  · simp only [List.mem_map, List.mem_filter, Prod.exists, exists_and_right, exists_eq_right,
      Table.mem_rows]

end Counts

end ReadCommitted
