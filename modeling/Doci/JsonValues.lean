import Mathlib.Data.List.Basic
import Mathlib.Data.Rat.Defs
import Mathlib.Tactic.Common

/-! JSON values, and dictionaries as lists of entries of which the first with a key counts. -/

namespace Doci

inductive Json where
  | null
  | bool (b : Bool)
  | int (n : Int)
  | real (q : ℚ)
  | str (s : String)
  | arr (items : List Json)
  | obj (entries : List (String × Json))

abbrev Dict (K : Type := String) (V : Type := Json) := List (K × V)

/-- What `if value` tests. -/
def Json.truthy : Json → Bool
  | null => false
  | bool b => b
  | int n => n ≠ 0
  | real q => q ≠ 0
  | str s => s ≠ ""
  | arr items => !items.isEmpty
  | obj entries => !entries.isEmpty

namespace Dict

variable {K V : Type} [DecidableEq K]

def get (d : Dict K V) (k : K) : Option V := d.lookup k

def set (d : Dict K V) (k : K) (v : V) : Dict K V := (k, v) :: d

def remove (d : Dict K V) (k : K) : Dict K V := d.filter fun e => e.1 ≠ k

/-- `d.update(e)`. -/
def update (d e : Dict K V) : Dict K V := e ++ d

variable {d e : Dict K V} {k k' : K} {v : V}

@[simp] theorem get_nil : get ([] : Dict K V) k = none := rfl

@[simp] theorem get_set_self : (set d k v).get k = some v := by
  simp [get, set]

theorem get_set_of_ne (h : k' ≠ k) : (set d k v).get k' = d.get k' := by
  have hne : (k' == k) = false := by simpa using h
  simp [get, set, List.lookup_cons, hne]

@[simp] theorem get_remove_self : (remove d k).get k = none := by
  rw [get, remove, List.lookup_eq_none_iff]
  intro e he
  have hne : e.1 ≠ k := by simpa using (List.mem_filter.mp he).2
  exact bne_iff_ne.mpr hne.symm

theorem get_remove_of_ne (h : k' ≠ k) : (remove d k).get k' = d.get k' := by
  induction d with
  | nil => rfl
  | cons e d ih =>
    simp only [get, remove] at ih ⊢
    by_cases he : e.1 = k
    · have hne : (k' == e.1) = false := by simpa [he] using h
      rw [List.filter_cons_of_neg (by simpa using he), ih]
      obtain ⟨key, value⟩ := e
      simp only [List.lookup_cons, hne]
    · rw [List.filter_cons_of_pos (by simpa using he)]
      obtain ⟨key, value⟩ := e
      simp only [List.lookup_cons, ih]

/-- The values of a dictionary one by one. -/
theorem get_map {W : Type} (f : V → W) :
    get (d.map fun e => (e.1, f e.2)) k = (d.get k).map f := by
  induction d with
  | nil => rfl
  | cons e d ih =>
    obtain ⟨key, value⟩ := e
    simp only [get, List.map_cons, List.lookup_cons] at ih ⊢
    cases k == key
    · exact ih
    · rfl

theorem get_update : (update d e).get k = (e.get k).or (d.get k) := by
  simp only [get, update, List.lookup_append]

end Dict

end Doci
