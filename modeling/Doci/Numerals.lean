import Mathlib.Data.List.Basic
import Mathlib.Data.Rat.Defs
import Mathlib.Tactic.Ring

/-! Decimal digits in groups that are set off by points and commas. -/

namespace Numerals

abbrev Digit := Fin 10

def digitChar (d : Digit) : Char := Char.ofNat (48 + d)

def digit? (c : Char) : Option Digit :=
  if h : 48 ≤ c.toNat ∧ c.toNat ≤ 57 then some ⟨c.toNat - 48, by omega⟩ else none

theorem digit?_digitChar (d : Digit) : digit? (digitChar d) = some d := by
  revert d
  decide

def value (digits : List Digit) : ℕ := digits.foldl (fun n d => 10 * n + d.val) 0

theorem value_foldl (digits : List Digit) (n : ℕ) :
    digits.foldl (fun n d => 10 * n + d.val) n = n * 10 ^ digits.length + value digits := by
  induction digits generalizing n with
  | nil => simp [value]
  | cons d digits ih =>
    have hd := ih (10 * 0 + d.val)
    simp only [List.foldl_cons, List.length_cons, value, ih (10 * n + d.val)] at hd ⊢
    rw [hd]
    ring

theorem value_append (g h : List Digit) : value (g ++ h) = value g * 10 ^ h.length + value h := by
  rw [value, List.foldl_append, value_foldl]
  rfl

inductive Mark where
  | point | comma
  deriving DecidableEq

namespace Mark

def char : Mark → Char
  | point => '.'
  | comma => ','

def other : Mark → Mark
  | point => comma
  | comma => point

theorem ne_iff {a b : Mark} : a ≠ b ↔ a = b.other := by
  cases a <;> cases b <;> decide

theorem char_inj {a b : Mark} : a.char = b.char ↔ a = b := by
  cases a <;> cases b <;> decide

end Mark

theorem digitChar_ne_mark (d : Digit) (m : Mark) : digitChar d ≠ m.char := by
  revert d
  cases m <;> decide

abbrev Groups := List (Mark × List Digit)

def digitChars (digits : List Digit) : List Char := digits.map digitChar

theorem length_digitChars (digits : List Digit) : (digitChars digits).length = digits.length :=
  List.length_map _

theorem mem_digitChars {c : Char} {digits : List Digit} :
    c ∈ digitChars digits ↔ ∃ d ∈ digits, digitChar d = c := List.mem_map

def spell (first : List Digit) (rest : Groups) : List Char :=
  digitChars first ++ rest.flatMap fun g => g.1.char :: digitChars g.2

@[simp] theorem spell_nil (first : List Digit) : spell first [] = digitChars first := by
  simp [spell]

theorem spell_cons (first : List Digit) (g : Mark × List Digit) (rest : Groups) :
    spell first (g :: rest) = digitChars first ++ g.1.char :: spell g.2 rest := by
  simp [spell]

theorem spell_append (first : List Digit) (rest rest' : Groups) :
    spell first (rest ++ rest') = spell first rest ++ rest'.flatMap fun g => g.1.char :: digitChars g.2 := by
  simp [spell]

theorem mark_not_mem_digitChars (m : Mark) (digits : List Digit) : m.char ∉ digitChars digits := by
  simp only [digitChars, List.mem_map, not_exists, not_and]
  exact fun d _ => digitChar_ne_mark d m

theorem mark_mem_spell {m : Mark} {first : List Digit} {rest : Groups} :
    m.char ∈ spell first rest ↔ m ∈ rest.map Prod.fst := by
  induction rest generalizing first with
  | nil => simpa using mark_not_mem_digitChars m first
  | cons g rest ih =>
    rw [spell_cons, List.mem_append, List.mem_cons, ih, List.map_cons, List.mem_cons, Mark.char_inj]
    simp [mark_not_mem_digitChars]

def digitsOf (first : List Digit) (rest : Groups) : List Digit := first ++ rest.flatMap Prod.snd

theorem mapM_digit? (digits : List Digit) : (digitChars digits).mapM digit? = some digits := by
  induction digits with
  | nil => rfl
  | cons d digits ih =>
    have hcons : digitChars (d :: digits) = digitChar d :: digitChars digits := rfl
    simp [hcons, digit?_digitChar, ih]

/-- The marks `m` taken out. -/
def merge (m : Mark) : List Digit → Groups → List Digit × Groups
  | first, [] => (first, [])
  | first, (k, g) :: rest =>
    if k = m then merge m (first ++ g) rest
    else (first, (k, (merge m g rest).1) :: (merge m g rest).2)

theorem filter_digitChars (m : Mark) (digits : List Digit) :
    (digitChars digits).filter (· ≠ m.char) = digitChars digits := by
  rw [List.filter_eq_self]
  intro c hc
  have hne : c ≠ m.char := fun heq => mark_not_mem_digitChars m digits (heq ▸ hc)
  simpa using hne

theorem digitChars_append (g h : List Digit) : digitChars (g ++ h) = digitChars g ++ digitChars h :=
  List.map_append

theorem filter_spell (m : Mark) (first : List Digit) (rest : Groups) :
    (spell first rest).filter (· ≠ m.char) = spell (merge m first rest).1 (merge m first rest).2 := by
  induction rest generalizing first with
  | nil => simpa [merge] using filter_digitChars m first
  | cons g rest ih =>
    obtain ⟨k, g⟩ := g
    rw [spell_cons, List.filter_append, filter_digitChars]
    by_cases hk : k = m
    · have hmerge : merge m first ((k, g) :: rest) = merge m (first ++ g) rest := if_pos hk
      have hspell : ∀ rest : Groups, spell (first ++ g) rest = digitChars first ++ spell g rest := by
        intro rest
        simp [spell, digitChars_append]
      rw [hmerge, ← ih (first ++ g), hspell, List.filter_append, filter_digitChars]
      simp [hk]
    · have hmerge : merge m first ((k, g) :: rest) =
          (first, (k, (merge m g rest).1) :: (merge m g rest).2) := if_neg hk
      have hchar : k.char ≠ m.char := fun heq => hk (Mark.char_inj.mp heq)
      rw [hmerge, spell_cons, ← ih g]
      simp [hchar]

theorem merge_append_other {m : Mark} (first : List Digit) {rest : Groups} (g : List Digit)
    (h : ∀ k ∈ rest.map Prod.fst, k = m) :
    merge m first (rest ++ [(m.other, g)]) = (digitsOf first rest, [(m.other, g)]) := by
  induction rest generalizing first with
  | nil =>
    have hne : m.other ≠ m := by cases m <;> decide
    simp [merge, hne, digitsOf]
  | cons a rest ih =>
    obtain ⟨k, a⟩ := a
    obtain rfl : k = m := h k (by simp)
    have htail : ∀ j ∈ rest.map Prod.fst, j = k := fun j hj => h j (by simp [hj])
    simp only [List.cons_append, merge, if_true, ih _ htail]
    simp [digitsOf]

theorem merge_all {m : Mark} {first : List Digit} {rest : Groups}
    (h : ∀ k ∈ rest.map Prod.fst, k = m) : merge m first rest = (digitsOf first rest, []) := by
  induction rest generalizing first with
  | nil => simp [merge, digitsOf]
  | cons a rest ih =>
    obtain ⟨k, a⟩ := a
    obtain rfl : k = m := h k (by simp)
    have htail : ∀ j ∈ rest.map Prod.fst, j = k := fun j hj => h j (by simp [hj])
    simp only [merge, if_true, ih htail]
    simp [digitsOf]

theorem length_merge (m : Mark) (first : List Digit) (rest : Groups) :
    (merge m first rest).2.map Prod.fst = (rest.map Prod.fst).filter (· ≠ m) := by
  induction rest generalizing first with
  | nil => rfl
  | cons a rest ih =>
    obtain ⟨k, a⟩ := a
    by_cases hk : k = m
    · simp [merge, hk, ih]
    · simp [merge, hk, ih]

theorem splitOn_spell {m : Mark} {first : List Digit} {rest : Groups}
    (h : ∀ k ∈ rest.map Prod.fst, k = m) :
    (spell first rest).splitOn m.char = digitChars first :: rest.map fun g => digitChars g.2 := by
  induction rest generalizing first with
  | nil => simpa using List.splitOn_eq_singleton (mark_not_mem_digitChars m first)
  | cons a rest ih =>
    obtain ⟨k, a⟩ := a
    obtain rfl : k = m := h k (by simp)
    have htail : ∀ j ∈ rest.map Prod.fst, j = k := fun j hj => h j (by simp [hj])
    rw [spell_cons, List.splitOn_append_cons_self_of_not_mem (mark_not_mem_digitChars k first),
      ih htail]
    rfl

theorem mem_middle {α : Type*} {P : α → Prop} {l r pre mid post : List α} {c : α}
    (h : l ++ c :: r = pre ++ (mid ++ post)) (hpre : ∀ x ∈ pre, ¬ P x) (hpost : ∀ x ∈ post, ¬ P x)
    (hl : ∃ x ∈ l, P x) (hr : ∃ x ∈ r, P x) : c ∈ mid := by
  obtain ⟨x, hx, hleft⟩ := hl
  obtain ⟨y, hy, hright⟩ := hr
  rw [List.append_eq_append_iff] at h
  rcases h with ⟨z, rfl, _⟩ | ⟨z, _, h⟩
  · exact absurd hleft (hpre x (List.mem_append_left z hx))
  rw [List.append_eq_append_iff] at h
  rcases h with ⟨w, _, rfl⟩ | ⟨w, rfl, h⟩
  · exact absurd hright (hpost y (by simp [hy]))
  · cases w with
    | nil =>
      have hafter : post = c :: r := h.symm
      exact absurd hright (hpost y (by simp [hafter, hy]))
    | cons d w =>
      obtain ⟨rfl, _⟩ := List.cons.inj h
      simp

end Numerals
