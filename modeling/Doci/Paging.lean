import Mathlib.Data.List.Sort
import Mathlib.Order.Lattice
import Mathlib.Tactic.Linarith

/-! Pages of an ordered query: one row more than the page holds is fetched, and a reader
follows the pages by their own limits. -/

namespace Paging

variable {α β : Type*}

structure Page (α : Type*) where
  items : List α
  limit : ℤ
  offset : ℤ
  hasMore : Bool

def Page.map (f : α → β) (p : Page α) : Page β := { p with items := p.items.map f }

/-- `LIMIT limit OFFSET offset`. -/
def window (rows : List α) (limit offset : ℤ) : List α :=
  (rows.drop offset.toNat).take limit.toNat

/-- The page whose query fetched one row more. -/
def pageOf (fetched : List α) (limit offset : ℤ) : Page α :=
  { items := fetched.take limit.toNat, limit, offset, hasMore := decide (limit < fetched.length) }

def page (rows : List α) (limit offset : ℤ) : Page α :=
  pageOf (window rows (limit + 1) offset) limit offset

/-- The pages up to the first one that has no more, each at the offset past the last one's limit. -/
def follow (fetch : ℤ → Page α) : ℕ → ℤ → Option (List (Page α))
  | 0, _ => none
  | fuel + 1, offset =>
    let p := fetch offset
    if p.hasMore then (follow fetch fuel (offset + p.limit)).map (p :: ·) else some [p]

variable {rows : List α} {limit offset : ℤ}

theorem page_items :
    (page rows limit offset).items = (rows.drop offset.toNat).take limit.toNat := by
  rw [page, pageOf, window, List.take_take, min_eq_left (Int.toNat_le_toNat (by omega))]

/-- There are more exactly when rows remain behind the page. -/
theorem page_hasMore (hlimit : 0 ≤ limit) (hoffset : 0 ≤ offset) :
    (page rows limit offset).hasMore = true ↔ offset + limit < rows.length := by
  simp only [page, pageOf, window, decide_eq_true_eq, List.length_take, List.length_drop]
  omega

/-- Followed from an offset, the pages hold the rows from there on, each once. -/
theorem follow_page {fetch : ℤ → Page α} (hlimit : 1 ≤ limit)
    (hfetch : ∀ offset, 0 ≤ offset → fetch offset = page rows limit offset) {fuel : ℕ}
    (hoffset : 0 ≤ offset) (hfuel : rows.length - offset.toNat < fuel) :
    ∃ pages, follow fetch fuel offset = some pages ∧
      pages.flatMap Page.items = rows.drop offset.toNat := by
  induction fuel generalizing offset with
  | zero => omega
  | succ fuel ih =>
    have hmore : (page rows limit offset).hasMore = true ↔ offset + limit < rows.length :=
      page_hasMore (by omega) hoffset
    by_cases hrest : offset + limit < rows.length
    · obtain ⟨pages, hfollow, hitems⟩ := ih (by omega : 0 ≤ offset + limit) (by omega)
      refine ⟨page rows limit offset :: pages, ?_, ?_⟩
      · rw [follow, hfetch offset hoffset, if_pos (hmore.mpr hrest)]
        exact congrArg (Option.map _) hfollow
      · rw [List.flatMap_cons, hitems, page_items, Int.toNat_add hoffset (by omega),
          ← List.drop_drop, List.take_append_drop]
    · refine ⟨[page rows limit offset], ?_, ?_⟩
      · rw [follow, hfetch offset hoffset, if_neg fun h => hrest (hmore.mp h)]
      · rw [List.flatMap_singleton, page_items, List.take_of_length_le]
        rw [List.length_drop]
        omega

section Order

variable {κ τ : Type*} [LinearOrder κ] [LinearOrder τ]

/-- Before another row: newer, or as new with the smaller id. -/
def Newer (stamp : α → τ) (id : α → κ) (a b : α) : Prop :=
  stamp b < stamp a ∨ stamp a = stamp b ∧ id a < id b

/-- `ORDER BY stamp DESC, id`. -/
def newestFirst (stamp : α → τ) (id : α → κ) (rows : List α) : List α :=
  rows.mergeSort fun a b => decide (stamp b < stamp a ∨ stamp a = stamp b ∧ id a ≤ id b)

variable {stamp : α → τ} {id : α → κ}

theorem newestFirst_perm (rows : List α) : (newestFirst stamp id rows).Perm rows :=
  List.mergeSort_perm rows _

/-- On rows of different ids the order has no ties. -/
theorem newestFirst_pairwise (hids : (rows.map id).Nodup) :
    (newestFirst stamp id rows).Pairwise (Newer stamp id) := by
  have hsorted : (newestFirst stamp id rows).Pairwise fun a b =>
      decide (stamp b < stamp a ∨ stamp a = stamp b ∧ id a ≤ id b) = true := List.pairwise_mergeSort
    (fun a b c hab hbc => by
      simp only [decide_eq_true_eq] at hab hbc ⊢
      rcases hab with hab | ⟨hab, hid⟩ <;> rcases hbc with hbc | ⟨hbc, hid'⟩
      · exact .inl (hbc.trans hab)
      · exact .inl (hbc ▸ hab)
      · exact .inl (hab ▸ hbc)
      · exact .inr ⟨hab.trans hbc, hid.trans hid'⟩)
    (fun a b => by
      simp only [Bool.or_eq_true, decide_eq_true_eq]
      rcases lt_trichotomy (stamp a) (stamp b) with h | h | h
      · exact .inr (.inl h)
      · exact (le_total (id a) (id b)).imp (fun hid => .inr ⟨h, hid⟩) fun hid => .inr ⟨h.symm, hid⟩
      · exact .inl (.inl h)) rows
  have hnodup : (newestFirst stamp id rows).Pairwise fun a b => id a ≠ id b :=
    List.pairwise_map.mp (((newestFirst_perm rows).map id).nodup_iff.mpr hids)
  refine (List.Pairwise.and hsorted hnodup).imp fun {a b} h => ?_
  obtain ⟨hle, hne⟩ := h
  rw [decide_eq_true_eq] at hle
  exact hle.imp_right fun h => ⟨h.1, lt_of_le_of_ne h.2 hne⟩

variable {row : α → β} {live : List β} {stamp : β → τ} {id : β → κ}

/-- Following the pages ends with every live row once, in their order, and a page says
whether rows remain. -/
def Enumerates (fetch : ℤ → Page α) (row : α → β) (stamp : β → τ) (id : β → κ) (live : List β) : Prop :=
  (∃ fuel pages, follow fetch fuel 0 = some pages ∧
      ((pages.flatMap Page.items).map row).Perm live ∧
      ((pages.flatMap Page.items).map row).Pairwise (Newer stamp id)) ∧
    ∀ offset, 0 ≤ offset →
      ((fetch offset).hasMore = true ↔ offset + (fetch offset).limit < live.length)

theorem enumerates_page {fetch : ℤ → Page α} (hlimit : 1 ≤ limit)
    (hrows : (rows.map row).Perm live) (hids : (live.map id).Nodup)
    (hfetch : ∀ offset, 0 ≤ offset →
      fetch offset = page (newestFirst (stamp ∘ row) (id ∘ row) rows) limit offset) :
    Enumerates fetch row stamp id live := by
  have hperm : ((newestFirst (stamp ∘ row) (id ∘ row) rows).map row).Perm live :=
    ((newestFirst_perm rows).map row).trans hrows
  have hordered : (newestFirst (stamp ∘ row) (id ∘ row) rows).Pairwise
      (Newer (stamp ∘ row) (id ∘ row)) := by
    refine newestFirst_pairwise ?_
    rw [← List.map_map]
    exact (hrows.map id).nodup_iff.mpr hids
  refine ⟨?_, fun offset hoffset => ?_⟩
  · obtain ⟨pages, hfollow, hitems⟩ := follow_page hlimit hfetch (le_refl 0) (Nat.lt_succ_self _)
    rw [Int.toNat_zero, List.drop_zero] at hitems
    exact ⟨_, pages, hfollow, hitems ▸ hperm, hitems ▸ List.pairwise_map.mpr hordered⟩
  · rw [hfetch offset hoffset, page_hasMore (by omega) hoffset, ← hperm.length_eq, List.length_map]
    rfl

end Order

end Paging
