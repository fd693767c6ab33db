import Mathlib.Data.List.Nodup
import Mathlib.Data.List.Sublists

/-! Tables with soft deletion. A row keeps its id and its key for good, and no row comes back to life;
a key is held by one live row at a time, so that it can be given again after a deletion. -/

namespace SoftKeys

variable {ρ κ : Type}

/-- What the table reads of a row. -/
structure Columns (ρ κ : Type) where
  id : ρ → Nat
  key : ρ → κ
  live : ρ → Bool

structure Table (col : Columns ρ κ) where
  rows : List ρ
  next : Nat
  below : ∀ row ∈ rows, col.id row < next
  ids : (rows.map col.id).Nodup
  keys : ((rows.filter col.live).map col.key).Nodup

variable {col : Columns ρ κ}

namespace Table

def empty (col : Columns ρ κ) : Table col where
  rows := []
  next := 0
  below := fun _ h => absurd h List.not_mem_nil
  ids := List.nodup_nil
  keys := List.nodup_nil

theorem same_row {t : Table col} {row row' : ρ} (h : row ∈ t.rows) (h' : row' ∈ t.rows)
    (hid : col.id row = col.id row') : row = row' :=
  List.inj_on_of_nodup_map t.ids h h' hid

theorem same_key {t : Table col} {row row' : ρ} (h : row ∈ t.rows) (h' : row' ∈ t.rows)
    (hlive : col.live row = true) (hlive' : col.live row' = true) (hkey : col.key row = col.key row') :
    row = row' :=
  List.inj_on_of_nodup_map t.keys (List.mem_filter.mpr ⟨h, hlive⟩) (List.mem_filter.mpr ⟨h', hlive'⟩) hkey

section Find

variable [DecidableEq κ]

/-- The live row with the key. -/
def find (t : Table col) (key : κ) : Option ρ :=
  t.rows.find? fun row => col.live row && decide (col.key row = key)

theorem find_eq_some {t : Table col} {key : κ} {row : ρ} :
    t.find key = some row ↔ row ∈ t.rows ∧ col.live row = true ∧ col.key row = key := by
  constructor
  · intro h
    have hrow := List.find?_some h
    rw [Bool.and_eq_true, decide_eq_true_eq] at hrow
    exact ⟨List.mem_of_find?_eq_some h, hrow⟩
  · rintro ⟨hmem, hlive, rfl⟩
    have hsome : (t.find (col.key row)).isSome := by
      rw [find, List.find?_isSome]
      exact ⟨row, hmem, by simp [hlive]⟩
    obtain ⟨found, hfound⟩ := Option.isSome_iff_exists.mp hsome
    have hboth := List.find?_some hfound
    rw [Bool.and_eq_true, decide_eq_true_eq] at hboth
    rw [hfound, same_key (List.mem_of_find?_eq_some hfound) hmem hboth.1 hlive hboth.2]

theorem find_eq_none {t : Table col} {key : κ} :
    t.find key = none ↔ ∀ row ∈ t.rows, col.live row = true → col.key row ≠ key := by
  rw [Option.eq_none_iff_forall_ne_some]
  constructor
  · exact fun h row hrow hlive hkey => h row (find_eq_some.mpr ⟨hrow, hlive, hkey⟩)
  · intro h row hrow
    obtain ⟨hmem, hlive, hkey⟩ := find_eq_some.mp hrow
    exact h row hmem hlive hkey

/-- A new row takes the next id, and a key that no live row holds. -/
def insert (t : Table col) (row : ρ) (hid : col.id row = t.next) (hfree : t.find (col.key row) = none) :
    Table col where
  rows := row :: t.rows
  next := t.next + 1
  below := by
    intro other hother
    rcases List.mem_cons.mp hother with rfl | hother
    · omega
    · exact (t.below other hother).trans (Nat.lt_succ_self _)
  ids := by
    refine List.nodup_cons.mpr ⟨fun hmem => ?_, t.ids⟩
    obtain ⟨other, hother, hsame⟩ := List.mem_map.mp hmem
    exact (t.below other hother).ne (hsame.trans hid)
  keys := by
    rw [List.filter_cons]
    split
    · refine List.nodup_cons.mpr ⟨fun hmem => ?_, t.keys⟩
      obtain ⟨other, hother, hsame⟩ := List.mem_map.mp hmem
      obtain ⟨hother, hlive⟩ := List.mem_filter.mp hother
      exact find_eq_none.mp hfree other hother hlive hsame
    · exact t.keys

end Find

/-- Rows are changed in place, but for their ids and keys; a deleted row stays deleted. -/
structure Keeping (col : Columns ρ κ) (f : ρ → ρ) : Prop where
  id : ∀ row, col.id (f row) = col.id row
  key : ∀ row, col.key (f row) = col.key row
  live : ∀ row, col.live (f row) = true → col.live row = true

def rewrite (t : Table col) (f : ρ → ρ) (hf : Keeping col f) : Table col where
  rows := t.rows.map f
  next := t.next
  below := by
    intro row hrow
    obtain ⟨old, hold, rfl⟩ := List.mem_map.mp hrow
    rw [hf.id]
    exact t.below old hold
  ids := by
    rw [List.map_map, show col.id ∘ f = col.id from funext hf.id]
    exact t.ids
  keys := by
    rw [List.filter_map, List.map_map, show col.key ∘ f = col.key from funext hf.key]
    exact t.keys.sublist ((List.monotone_filter_right _ fun row h => hf.live row h).map _)

/-- How a table goes on: no row is lost, and none that was deleted or had another key is a live one. -/
structure Later (t u : Table col) : Prop where
  kept : ∀ row ∈ t.rows, ∃ row' ∈ u.rows, col.id row' = col.id row ∧ col.key row' = col.key row
  known : ∀ row' ∈ u.rows, col.id row' < t.next → ∃ row ∈ t.rows, col.id row = col.id row' ∧
    col.key row = col.key row' ∧ (col.live row' = true → col.live row = true)
  next : t.next ≤ u.next

theorem Later.refl (t : Table col) : Later t t :=
  ⟨fun row h => ⟨row, h, rfl, rfl⟩, fun row h _ => ⟨row, h, rfl, rfl, fun hlive => hlive⟩, le_rfl⟩

theorem Later.trans {t u v : Table col} (h : Later t u) (h' : Later u v) : Later t v := by
  refine ⟨fun row hrow => ?_, fun row hrow hlt => ?_, h.next.trans h'.next⟩
  · obtain ⟨middle, hmiddle, hid, hkey⟩ := h.kept row hrow
    obtain ⟨last, hlast, hid', hkey'⟩ := h'.kept middle hmiddle
    exact ⟨last, hlast, hid'.trans hid, hkey'.trans hkey⟩
  · obtain ⟨middle, hmiddle, hid, hkey, hlive⟩ := h'.known row hrow (hlt.trans_le h.next)
    obtain ⟨first, hfirst, hid', hkey', hlive'⟩ := h.known middle hmiddle (hid ▸ hlt)
    exact ⟨first, hfirst, hid'.trans hid, hkey'.trans hkey, fun h => hlive' (hlive h)⟩

theorem later_rewrite (t : Table col) {f : ρ → ρ} (hf : Keeping col f) : Later t (t.rewrite f hf) := by
  refine ⟨fun row hrow => ⟨f row, List.mem_map_of_mem hrow, hf.id row, hf.key row⟩, fun row hrow _ => ?_,
    le_rfl⟩
  obtain ⟨old, hold, rfl⟩ := List.mem_map.mp hrow
  exact ⟨old, hold, (hf.id old).symm, (hf.key old).symm, hf.live old⟩

section Keys

variable [DecidableEq κ] {t u : Table col} {key : κ} {row : ρ}

theorem later_insert (t : Table col) (row : ρ) (hid : col.id row = t.next)
    (hfree : t.find (col.key row) = none) : Later t (t.insert row hid hfree) := by
  refine ⟨fun row h => ⟨row, List.mem_cons_of_mem _ h, rfl, rfl⟩, fun other hother hlt => ?_,
    Nat.le_succ _⟩
  rcases List.mem_cons.mp hother with rfl | hother
  · omega
  · exact ⟨other, hother, rfl, rfl, fun h => h⟩

/-- A key that was free is held by a new row. -/
theorem Later.reused (h : Later t u) (hfree : t.find key = none) (hfound : u.find key = some row) :
    t.next ≤ col.id row := by
  obtain ⟨hmem, hlive, hkey⟩ := find_eq_some.mp hfound
  by_contra hlt
  obtain ⟨old, hold, _, hkey', hlive'⟩ := h.known row hmem (Nat.lt_of_not_le hlt)
  exact find_eq_none.mp hfree old hold (hlive' hlive) (hkey'.trans hkey)

/-- A live row that was there before held its key then. -/
theorem Later.held (h : Later t u) (hfound : u.find key = some row) (hlt : col.id row < t.next) :
    ∃ old, t.find key = some old ∧ col.id old = col.id row := by
  obtain ⟨hmem, hlive, hkey⟩ := find_eq_some.mp hfound
  obtain ⟨old, hold, hid, hkey', hlive'⟩ := h.known row hmem hlt
  exact ⟨old, find_eq_some.mpr ⟨hold, hlive' hlive, hkey'.trans hkey⟩, hid⟩

end Keys

end Table

end SoftKeys
