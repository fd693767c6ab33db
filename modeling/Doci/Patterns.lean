import Mathlib.Data.List.Basic
import Mathlib.Data.List.TakeWhile

/-! Sequences of classes of characters, found in a text from the left by greedy backtracking. -/

namespace Patterns

variable {α : Type*}

inductive Piece (α : Type*) where
  | boundary
  | run (set : α → Bool) (lo : ℕ) (hi : Option ℕ) (group : Bool)

/-- A word character on exactly one side. -/
def isBoundary (word : α → Bool) (prev next : Option α) : Bool := prev.any word != next.any word

/-- The lengths that a run may have, the longest first. -/
def runLengths (set : α → Bool) (lo : ℕ) (hi : Option ℕ) (s : List α) : List ℕ :=
  let n := (s.takeWhile set).length
  ((List.range (hi.elim n (min n) + 1)).filter fun k => lo ≤ k).reverse

/-- The groups of the first match at this place; `prev` is the character before it. -/
def matchAt (word : α → Bool) : List (Piece α) → Option α → List α → Option (List (List α))
  | [], _, _ => some []
  | .boundary :: ps, prev, s =>
    if isBoundary word prev s.head? then matchAt word ps prev s else none
  | .run set lo hi group :: ps, prev, s =>
    (runLengths set lo hi s).findSome? fun n =>
      (matchAt word ps ((s.take n).getLast?.or prev) (s.drop n)).map fun groups =>
        if group then s.take n :: groups else groups

def search (word : α → Bool) (ps : List (Piece α)) : Option α → List α → Option (List (List α))
  | prev, [] => matchAt word ps prev []
  | prev, c :: s =>
    match matchAt word ps prev (c :: s) with
    | some groups => some groups
    | none => search word ps (some c) s

def literal [DecidableEq α] (w : List α) : List (Piece α) :=
  w.map fun c => .run (· = c) 1 (some 1) false

def Fits (word : α → Bool) : List (Piece α) → Option α → List α → Prop
  | [], _, _ => True
  | .boundary :: ps, prev, s => isBoundary word prev s.head? = true ∧ Fits word ps prev s
  | .run set lo hi _ :: ps, prev, s => ∃ r t, s = r ++ t ∧ (∀ c ∈ r, set c = true) ∧
      lo ≤ r.length ∧ (∀ h ∈ hi, r.length ≤ h) ∧ Fits word ps (r.getLast?.or prev) t

variable {word set : α → Bool} {ps : List (Piece α)} {prev : Option α} {r s t pre : List α}
  {lo : ℕ} {hi : Option ℕ} {group : Bool} {groups : List (List α)}

theorem mem_runLengths {n : ℕ} : n ∈ runLengths set lo hi s ↔
    lo ≤ n ∧ n ≤ (s.takeWhile set).length ∧ ∀ h ∈ hi, n ≤ h := by
  cases hi with
  | none =>
    simp only [runLengths, Option.elim_none, List.mem_reverse, List.mem_filter, List.mem_range,
      decide_eq_true_eq, Option.not_mem_none, false_imp_iff, implies_true, and_true]
    omega
  | some h =>
    simp only [runLengths, Option.elim_some, List.mem_reverse, List.mem_filter, List.mem_range,
      decide_eq_true_eq, Option.mem_def, Option.some.injEq, forall_eq']
    omega

theorem take_of_le_takeWhile {n : ℕ} (h : n ≤ (s.takeWhile set).length) :
    ∀ c ∈ s.take n, set c = true := by
  have htake : s.take n <+: s.takeWhile set := by
    have hlen : (s.take n).length ≤ (s.takeWhile set).length := by
      rw [List.length_take]
      omega
    exact List.prefix_of_prefix_length_le (List.take_prefix n s) (List.takeWhile_prefix set) hlen
  exact fun c hc => List.mem_takeWhile_imp (htake.subset hc)

theorem fits_of_matchAt (h : matchAt word ps prev s = some groups) : Fits word ps prev s := by
  induction ps generalizing prev s groups with
  | nil => trivial
  | cons p ps ih =>
    cases p with
    | boundary =>
      rw [matchAt] at h
      split_ifs at h with hb
      exact ⟨hb, ih h⟩
    | run set lo hi group =>
      obtain ⟨n, hn, hmatch⟩ := List.exists_of_findSome?_eq_some h
      obtain ⟨rest, hrest, _⟩ := Option.map_eq_some_iff.mp hmatch
      obtain ⟨hlo, hlen, hhi⟩ := mem_runLengths.mp hn
      have hle : n ≤ s.length := Nat.le_trans hlen (List.takeWhile_prefix set).length_le
      have hlength : (s.take n).length = n := List.length_take_of_le hle
      refine ⟨s.take n, s.drop n, (List.take_append_drop n s).symm, take_of_le_takeWhile hlen, ?_, ?_,
        ih hrest⟩
      · rwa [hlength]
      · rwa [hlength]

theorem matchAt_run (hr : ∀ c ∈ r, set c = true) (hlo : lo ≤ r.length)
    (hend : hi = some r.length ∨ (∀ h ∈ hi, r.length ≤ h) ∧ ∀ c ∈ t.head?, set c = false)
    (h : matchAt word ps (r.getLast?.or prev) t = some groups) :
    matchAt word (.run set lo hi group :: ps) prev (r ++ t) =
      some (if group then r :: groups else groups) := by
  have htake : (r ++ t).takeWhile set = r ++ t.takeWhile set := by
    rw [List.takeWhile_append_of_pos hr]
  have hlongest : hi.elim ((r ++ t).takeWhile set).length (min ((r ++ t).takeWhile set).length) =
      r.length := by
    rw [htake, List.length_append]
    rcases hend with rfl | ⟨hhi, hhead⟩
    · simp
    · have hnil : t.takeWhile set = [] := by
        cases t with
        | nil => rfl
        | cons c t => exact List.takeWhile_cons_of_neg (by simp [hhead c rfl])
      rw [hnil]
      cases hi with
      | none => rfl
      | some k => simpa using Nat.min_eq_left (hhi k rfl)
  have hfirst : ∃ rest, runLengths set lo hi (r ++ t) = r.length :: rest := by
    rw [runLengths, hlongest, List.range_succ, List.filter_append, List.reverse_append]
    simp [hlo]
  obtain ⟨rest, hrest⟩ := hfirst
  rw [matchAt, hrest, List.findSome?_cons_of_isSome]
  · simp [h]
  · simp [h]

theorem matchAt_literal [DecidableEq α] {w : List α} (h : ∀ prev, matchAt word ps prev t = some groups) :
    ∀ prev, matchAt word (literal w ++ ps) prev (w ++ t) = some groups := by
  induction w with
  | nil => exact h
  | cons c w ih =>
    intro prev
    have hrun : ∀ x ∈ [c], decide (x = c) = true := by simp
    exact matchAt_run (r := [c]) hrun (Nat.le_refl 1) (.inl rfl) (ih _)

theorem Fits.exists_mem (h : Fits word ps prev s) (hp : .run set lo hi group ∈ ps) (hlo : 1 ≤ lo) :
    ∃ c ∈ s, set c = true := by
  induction ps generalizing prev s with
  | nil => cases hp
  | cons p ps ih =>
    rcases List.mem_cons.mp hp with rfl | htail
    · obtain ⟨r, t, rfl, hr, hlen, _, _⟩ := h
      obtain ⟨c, hc⟩ := List.exists_mem_of_length_pos (Nat.lt_of_lt_of_le hlo hlen)
      exact ⟨c, List.mem_append_left t hc, hr c hc⟩
    · cases p with
      | boundary => exact ih h.2 htail
      | run _ _ _ _ =>
        obtain ⟨r, t, rfl, _, _, _, hfits⟩ := h
        obtain ⟨c, hc, hset⟩ := ih hfits htail
        exact ⟨c, List.mem_append_right r hc, hset⟩

theorem search_of_matchAt (h : matchAt word ps prev s = some groups) :
    search word ps prev s = some groups := by
  cases s with
  | nil => exact h
  | cons c s => rw [search, h]

theorem exists_matchAt_of_search (h : search word ps prev s = some groups) :
    ∃ l t p, s = l ++ t ∧ matchAt word ps p t = some groups := by
  induction s generalizing prev with
  | nil => exact ⟨[], [], prev, rfl, h⟩
  | cons c s ih =>
    rw [search] at h
    cases hmatch : matchAt word ps prev (c :: s) with
    | some found =>
      rw [hmatch] at h
      exact ⟨[], c :: s, prev, rfl, hmatch.trans h⟩
    | none =>
      rw [hmatch] at h
      obtain ⟨l, t, p, rfl, hfound⟩ := ih h
      exact ⟨c :: l, t, p, rfl, hfound⟩

theorem search_append (h : ∀ l c r p, pre = l ++ c :: r → matchAt word ps p (c :: (r ++ s)) = none) :
    search word ps prev (pre ++ s) = search word ps (pre.getLast?.or prev) s := by
  induction pre generalizing prev with
  | nil => rfl
  | cons c pre ih =>
    have hhead := h [] c pre prev rfl
    have htail : search word ps (some c) (pre ++ s) = search word ps (pre.getLast?.or (some c)) s :=
      ih fun l d r p heq => h (c :: l) d r p (by rw [heq]; rfl)
    rw [List.cons_append, search, hhead]
    refine htail.trans ?_
    cases pre with
    | nil => rfl
    | cons d pre =>
      rw [List.getLast?_cons_cons]
      cases hlast : (d :: pre).getLast? with
      | none => simp at hlast
      | some x => rfl

end Patterns
