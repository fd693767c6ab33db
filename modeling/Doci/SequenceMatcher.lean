import Mathlib.Data.List.Basic
import Mathlib.Data.Rat.Defs
import Mathlib.Tactic.Linarith
import Mathlib.Tactic.FieldSimp
import Mathlib.Tactic.NormNum
import Mathlib.Tactic.Ring

/-! Matching of sequences by longest common blocks, taken out one after the other. -/

namespace SequenceMatcher

variable {α β : Type*}

structure Block where
  i : ℕ
  j : ℕ
  size : ℕ
  deriving DecidableEq

/-- The first element at which `f` is largest. -/
def firstMax (f : β → ℕ) : List β → Option β
  | [] => none
  | x :: l =>
    match firstMax f l with
    | some y => if f x < f y then some y else some x
    | none => some x

variable [DecidableEq α]

/-- How many elements the sequences have in common from their start, up to a popular one. -/
def run (popular : α → Bool) : List α → List α → ℕ
  | x :: xs, y :: ys => if x = y ∧ popular x = false then run popular xs ys + 1 else 0
  | _, _ => 0

def unpopular : α → Bool := fun _ => false

/-- Where a block may start: earliest in `a`, then earliest in `b`. -/
def starts (a b : List α) : List (ℕ × ℕ) :=
  (List.range a.length).flatMap fun i => (List.range b.length).map fun j => (i, j)

def runAt (popular : α → Bool) (a b : List α) (p : ℕ × ℕ) : ℕ :=
  run popular (a.drop p.1) (b.drop p.2)

def best (popular : α → Bool) (a b : List α) : Block :=
  match firstMax (runAt popular a b) (starts a b) with
  | some p => if runAt popular a b p = 0 then ⟨0, 0, 0⟩ else ⟨p.1, p.2, runAt popular a b p⟩
  | none => ⟨0, 0, 0⟩

/-- `find_longest_match`: the longest block, extended on both sides. -/
def findLongestMatch (popular : α → Bool) (a b : List α) : Block :=
  let m := best popular a b
  let left := run unpopular (a.take m.i).reverse (b.take m.j).reverse
  let right := run unpopular (a.drop (m.i + m.size)) (b.drop (m.j + m.size))
  ⟨m.i - left, m.j - left, left + m.size + right⟩

/-- The elements in all blocks: the longest one, and those on its two sides. -/
def matchedWithin (popular : α → Bool) : ℕ → List α → List α → ℕ
  | 0, _, _ => 0
  | fuel + 1, a, b =>
    let m := findLongestMatch popular a b
    if m.size = 0 then 0
    else m.size +
      (if 0 < m.i ∧ 0 < m.j then matchedWithin popular fuel (a.take m.i) (b.take m.j) else 0) +
      (if m.i + m.size < a.length ∧ m.j + m.size < b.length then
        matchedWithin popular fuel (a.drop (m.i + m.size)) (b.drop (m.j + m.size)) else 0)

def matched (popular : α → Bool) (a b : List α) : ℕ := matchedWithin popular a.length a b

/-- The elements that a long `b` repeats too often. -/
def popularIn (b : List α) (x : α) : Bool := 200 ≤ b.length && b.length / 100 + 1 < b.count x

def ratio (a b : List α) : ℚ :=
  if a.length + b.length = 0 then 1
  else 2 * matched (popularIn b) a b / (a.length + b.length : ℕ)

section FirstMax

variable {f : β → ℕ} {l : List β} {m : β}

omit [DecidableEq α] in
theorem firstMax_eq_none : firstMax f l = none ↔ l = [] := by
  cases l with
  | nil => simp [firstMax]
  | cons x l =>
    rw [firstMax]
    split
    · split_ifs <;> simp
    · simp

omit [DecidableEq α] in
theorem firstMax_spec (h : firstMax f l = some m) : ∃ l₁ l₂, l = l₁ ++ m :: l₂ ∧
    (∀ x ∈ l₁, f x < f m) ∧ ∀ x ∈ l₂, f x ≤ f m := by
  induction l generalizing m with
  | nil => cases h
  | cons x l ih =>
    rw [firstMax] at h
    cases hrest : firstMax f l with
    | none =>
      rw [hrest] at h
      obtain rfl := Option.some.inj h
      exact ⟨[], l, rfl, by simp, by simp [firstMax_eq_none.mp hrest]⟩
    | some y =>
      obtain ⟨l₁, l₂, rfl, hbefore, hafter⟩ := ih hrest
      rw [hrest] at h
      by_cases hlt : f x < f y
      · simp only [hlt, if_true] at h
        obtain rfl := Option.some.inj h
        refine ⟨x :: l₁, l₂, rfl, ?_, hafter⟩
        intro z hz
        rcases List.mem_cons.mp hz with rfl | hz
        · exact hlt
        · exact hbefore z hz
      · simp only [hlt, if_false] at h
        obtain rfl := Option.some.inj h
        have hle : f y ≤ f x := not_lt.mp hlt
        refine ⟨[], l₁ ++ y :: l₂, rfl, by simp, ?_⟩
        intro z hz
        rcases List.mem_append.mp hz with hz | hz
        · exact (hbefore z hz).le.trans hle
        · rcases List.mem_cons.mp hz with rfl | hz
          · exact hle
          · exact (hafter z hz).trans hle

end FirstMax

section Run

variable {popular : α → Bool} {x y : List α}

theorem run_comm (popular : α → Bool) (x y : List α) : run popular x y = run popular y x := by
  induction x generalizing y with
  | nil => cases y <;> rfl
  | cons c x ih =>
    cases y with
    | nil => rfl
    | cons d y =>
      simp only [run, ih]
      by_cases hcd : c = d
      · subst hcd
        rfl
      · rw [if_neg fun h => hcd h.1, if_neg fun h => hcd h.1.symm]

theorem run_split (popular : α → Bool) (x y : List α) :
    ∃ w x' y', x = w ++ x' ∧ y = w ++ y' ∧ w.length = run popular x y := by
  induction x generalizing y with
  | nil => exact ⟨[], [], y, rfl, rfl, by simp [run]⟩
  | cons c x ih =>
    cases y with
    | nil => exact ⟨[], c :: x, [], rfl, rfl, rfl⟩
    | cons d y =>
      by_cases hcd : c = d ∧ popular c = false
      · obtain ⟨rfl, hpopular⟩ := hcd
        obtain ⟨w, x', y', hx, hy, hlen⟩ := ih y
        exact ⟨c :: w, x', y', by rw [hx]; rfl, by rw [hy]; rfl, by simp [run, hpopular, hlen]⟩
      · exact ⟨[], c :: x, d :: y, rfl, rfl, by simp [run, hcd]⟩

theorem run_self (x : List α) : run unpopular x x = x.length := by
  induction x with
  | nil => rfl
  | cons c x ih => simp [run, unpopular, ih]

theorem run_le_self : run popular x y ≤ run popular x x := by
  induction x generalizing y with
  | nil => simp [run]
  | cons c x ih =>
    cases y with
    | nil => exact Nat.zero_le _
    | cons d y =>
      by_cases hcd : c = d ∧ popular c = false
      · obtain ⟨rfl, hpopular⟩ := hcd
        have hle : run popular x y ≤ run popular x x := ih
        simpa [run, hpopular] using hle
      · simp [run, hcd]

theorem run_drop (x y : List α) :
    run unpopular (x.drop (run unpopular x y)) (y.drop (run unpopular x y)) = 0 := by
  induction x generalizing y with
  | nil => simp [run]
  | cons c x ih =>
    cases y with
    | nil => simp [run]
    | cons d y =>
      by_cases hcd : c = d
      · subst hcd
        simpa [run, unpopular] using ih y
      · simp [run, hcd]

end Run

section Blocks

variable {popular : α → Bool} {a b : List α} {p : ℕ × ℕ} {m : Block}

omit [DecidableEq α] in
theorem mem_starts : p ∈ starts a b ↔ p.1 < a.length ∧ p.2 < b.length := by
  obtain ⟨i, j⟩ := p
  simp [starts]

omit [DecidableEq α] in
theorem starts_pairwise (a b : List α) :
    (starts a b).Pairwise fun p q => p.1 < q.1 ∨ p.1 = q.1 ∧ p.2 < q.2 := by
  rw [starts, List.pairwise_flatMap]
  refine ⟨fun i _ => ?_, ?_⟩
  · rw [List.pairwise_map]
    exact List.pairwise_lt_range.imp fun hlt => .inr ⟨rfl, hlt⟩
  · refine List.pairwise_lt_range.imp fun hlt p hp q hq => ?_
    obtain ⟨_, _, rfl⟩ := List.mem_map.mp hp
    obtain ⟨_, _, rfl⟩ := List.mem_map.mp hq
    exact .inl hlt

theorem best_cases (popular : α → Bool) (a b : List α) :
    best popular a b = ⟨0, 0, 0⟩ ∧ (∀ p ∈ starts a b, runAt popular a b p = 0) ∨
    ∃ p ∈ starts a b, best popular a b = ⟨p.1, p.2, runAt popular a b p⟩ ∧
      runAt popular a b p ≠ 0 ∧ (∀ q ∈ starts a b, runAt popular a b q ≤ runAt popular a b p) ∧
      ∀ q ∈ starts a b, runAt popular a b q = runAt popular a b p → p.1 ≤ q.1 ∧
        (p.1 = q.1 → p.2 ≤ q.2) := by
  unfold best
  cases hmax : firstMax (runAt popular a b) (starts a b) with
  | none => exact .inl ⟨rfl, by simp [firstMax_eq_none.mp hmax]⟩
  | some p =>
    obtain ⟨l₁, l₂, hl, hbefore, hafter⟩ := firstMax_spec hmax
    have hlargest : ∀ q ∈ starts a b, runAt popular a b q ≤ runAt popular a b p := by
      intro q hq
      rw [hl, List.mem_append, List.mem_cons] at hq
      rcases hq with hq | rfl | hq
      · exact (hbefore q hq).le
      · exact le_rfl
      · exact hafter q hq
    by_cases hzero : runAt popular a b p = 0
    · refine .inl ⟨by simp [hzero], fun q hq => ?_⟩
      have hle := hlargest q hq
      omega
    · refine .inr ⟨p, by simp [hl], by simp [hzero], hzero, hlargest, fun q hq hsame => ?_⟩
      have hsorted := starts_pairwise a b
      rw [hl, List.pairwise_append, List.pairwise_cons] at hsorted
      rw [hl, List.mem_append, List.mem_cons] at hq
      rcases hq with hq | rfl | hq
      · have hlt := hbefore q hq
        omega
      · exact ⟨le_rfl, fun _ => le_rfl⟩
      · have hlt := hsorted.2.1.1 q hq
        omega

def Splits (a b : List α) (m : Block) : Prop :=
  ∃ a₁ a₂ b₁ b₂ w, a = a₁ ++ (w ++ a₂) ∧ b = b₁ ++ (w ++ b₂) ∧ a₁.length = m.i ∧
    b₁.length = m.j ∧ w.length = m.size

theorem best_splits (popular : α → Bool) (a b : List α) : Splits a b (best popular a b) := by
  rcases best_cases popular a b with ⟨hbest, _⟩ | ⟨p, hp, hbest, _, _, _⟩
  · rw [hbest]
    exact ⟨[], a, [], b, [], rfl, rfl, rfl, rfl, rfl⟩
  · rw [hbest]
    obtain ⟨hi, hj⟩ := mem_starts.mp hp
    obtain ⟨w, x, y, hx, hy, hlen⟩ := run_split popular (a.drop p.1) (b.drop p.2)
    exact ⟨a.take p.1, x, b.take p.2, y, w, by rw [← hx, List.take_append_drop],
      by rw [← hy, List.take_append_drop], List.length_take_of_le hi.le, List.length_take_of_le hj.le,
      hlen⟩

theorem findLongestMatch_splits (popular : α → Bool) (a b : List α) :
    Splits a b (findLongestMatch popular a b) := by
  obtain ⟨a₁, a₂, b₁, b₂, w, ha, hb, hi, hj, hsize⟩ := best_splits popular a b
  obtain ⟨u, x, y, hx, hy, hu⟩ := run_split unpopular a₁.reverse b₁.reverse
  obtain ⟨v, x', y', rfl, rfl, hv⟩ := run_split unpopular a₂ b₂
  obtain rfl : a₁ = x.reverse ++ u.reverse := by rw [← List.reverse_append, ← hx, List.reverse_reverse]
  obtain rfl : b₁ = y.reverse ++ u.reverse := by rw [← List.reverse_append, ← hy, List.reverse_reverse]
  have htake : a.take (best popular a b).i = x.reverse ++ u.reverse ∧
      b.take (best popular a b).j = y.reverse ++ u.reverse := by
    rw [← hi, ← hj, ha, hb]
    exact ⟨List.take_left, List.take_left⟩
  have hdrop : a.drop ((best popular a b).i + (best popular a b).size) = v ++ x' ∧
      b.drop ((best popular a b).j + (best popular a b).size) = v ++ y' := by
    rw [← List.drop_drop, ← List.drop_drop, ← hi, ← hj, ← hsize, ha, hb, List.drop_left,
      List.drop_left, List.drop_left, List.drop_left]
    exact ⟨rfl, rfl⟩
  have hleft : run unpopular (a.take (best popular a b).i).reverse
      (b.take (best popular a b).j).reverse = u.length := by rw [htake.1, htake.2, hu]
  have hright : run unpopular (a.drop ((best popular a b).i + (best popular a b).size))
      (b.drop ((best popular a b).j + (best popular a b).size)) = v.length := by
    rw [hdrop.1, hdrop.2, hv]
  refine ⟨x.reverse, x', y.reverse, y', u.reverse ++ (w ++ v), ?_, ?_, ?_, ?_, ?_⟩
  · rw [ha]
    simp
  · rw [hb]
    simp
  · rw [findLongestMatch, hleft, ← hi]
    simp
  · rw [findLongestMatch, hleft, ← hj]
    simp
  · rw [findLongestMatch, hleft, hright, ← hsize]
    simp [Nat.add_assoc]

end Blocks

section Matched

variable {popular : α → Bool} {a b : List α} {n k : ℕ}

theorem matchedWithin_step {a₁ a₂ b₁ b₂ w : List α} (ha : a = a₁ ++ (w ++ a₂))
    (hb : b = b₁ ++ (w ++ b₂)) (hi : a₁.length = (findLongestMatch popular a b).i)
    (hj : b₁.length = (findLongestMatch popular a b).j)
    (hsize : w.length = (findLongestMatch popular a b).size) (hne : w ≠ []) :
    matchedWithin popular (n + 1) a b = w.length +
      (if a₁ ≠ [] ∧ b₁ ≠ [] then matchedWithin popular n a₁ b₁ else 0) +
      (if a₂ ≠ [] ∧ b₂ ≠ [] then matchedWithin popular n a₂ b₂ else 0) := by
  have hpos : w.length ≠ 0 := fun hzero => hne (List.length_eq_zero_iff.mp hzero)
  have htake : a.take a₁.length = a₁ ∧ b.take b₁.length = b₁ := by
    rw [ha, hb]
    exact ⟨List.take_left, List.take_left⟩
  have hdrop : a.drop (a₁.length + w.length) = a₂ ∧ b.drop (b₁.length + w.length) = b₂ := by
    rw [ha, hb, ← List.drop_drop, ← List.drop_drop]
    simp
  have hrest : a₁.length + w.length < a.length ∧ b₁.length + w.length < b.length ↔
      a₂ ≠ [] ∧ b₂ ≠ [] := by
    rw [ha, hb]
    simp [List.length_pos_iff, ← Nat.add_assoc]
  have hfront : 0 < a₁.length ∧ 0 < b₁.length ↔ a₁ ≠ [] ∧ b₁ ≠ [] := by simp [List.length_pos_iff]
  simp only [matchedWithin, ← hi, ← hj, ← hsize, if_neg hpos, htake, hdrop, hrest, hfront]

theorem matchedWithin_cases (popular : α → Bool) (n : ℕ) (a b : List α) :
    matchedWithin popular (n + 1) a b = 0 ∨ ∃ a₁ a₂ b₁ b₂ w, w ≠ [] ∧ a = a₁ ++ (w ++ a₂) ∧
      b = b₁ ++ (w ++ b₂) ∧ a₁.length = (findLongestMatch popular a b).i ∧
      b₁.length = (findLongestMatch popular a b).j ∧
      w.length = (findLongestMatch popular a b).size ∧
      matchedWithin popular (n + 1) a b = w.length +
        (if a₁ ≠ [] ∧ b₁ ≠ [] then matchedWithin popular n a₁ b₁ else 0) +
        (if a₂ ≠ [] ∧ b₂ ≠ [] then matchedWithin popular n a₂ b₂ else 0) := by
  obtain ⟨a₁, a₂, b₁, b₂, w, ha, hb, hi, hj, hsize⟩ := findLongestMatch_splits popular a b
  by_cases hne : w = []
  · left
    have hzero : (findLongestMatch popular a b).size = 0 := by rw [← hsize, hne]; rfl
    simp [matchedWithin, hzero]
  · exact .inr ⟨a₁, a₂, b₁, b₂, w, hne, ha, hb, hi, hj, hsize,
      matchedWithin_step ha hb hi hj hsize hne⟩

theorem matchedWithin_le (popular : α → Bool) (n : ℕ) (a b : List α) :
    matchedWithin popular n a b ≤ a.length ∧ matchedWithin popular n a b ≤ b.length := by
  induction n generalizing a b with
  | zero => exact ⟨Nat.zero_le _, Nat.zero_le _⟩
  | succ n ih =>
    rcases matchedWithin_cases popular n a b with hzero | ⟨a₁, a₂, b₁, b₂, w, _, ha, hb, _, _, _, hstep⟩
    · omega
    · have hleft := ih a₁ b₁
      have hright := ih a₂ b₂
      have hla : a.length = a₁.length + (w.length + a₂.length) := by simp [ha]
      have hlb : b.length = b₁.length + (w.length + b₂.length) := by simp [hb]
      rw [hstep]
      split_ifs <;> omega

theorem matchedWithin_fuel (hn : a.length ≤ n) (hk : a.length ≤ k) :
    matchedWithin popular n a b = matchedWithin popular k a b := by
  have hempty : ∀ n, matchedWithin popular n ([] : List α) b = 0 := fun n =>
    Nat.le_zero.mp (matchedWithin_le popular n [] b).1
  induction n generalizing a b k with
  | zero =>
    obtain rfl : a = [] := List.length_eq_zero_iff.mp (Nat.le_zero.mp hn)
    rw [hempty, hempty]
  | succ n ih =>
    cases k with
    | zero =>
      obtain rfl : a = [] := List.length_eq_zero_iff.mp (Nat.le_zero.mp hk)
      rw [hempty, hempty]
    | succ k =>
      obtain ⟨a₁, a₂, b₁, b₂, w, ha, hb, hi, hj, hsize⟩ := findLongestMatch_splits popular a b
      by_cases hne : w = []
      · have hzero : (findLongestMatch popular a b).size = 0 := by rw [← hsize, hne]; rfl
        simp [matchedWithin, hzero]
      · have hpos := List.length_pos_of_ne_nil hne
        have hla : a.length = a₁.length + (w.length + a₂.length) := by simp [ha]
        have hnil : ∀ b' : List α, ∀ n, matchedWithin popular n ([] : List α) b' = 0 := fun b' n =>
          Nat.le_zero.mp (matchedWithin_le popular n [] b').1
        have hleft : matchedWithin popular n a₁ b₁ = matchedWithin popular k a₁ b₁ :=
          ih (by omega) (by omega) (hnil b₁)
        have hright : matchedWithin popular n a₂ b₂ = matchedWithin popular k a₂ b₂ :=
          ih (by omega) (by omega) (hnil b₂)
        rw [matchedWithin_step ha hb hi hj hsize hne, matchedWithin_step ha hb hi hj hsize hne, hleft,
          hright]

theorem eq_of_matchedWithin (ha : matchedWithin popular n a b = a.length)
    (hb : matchedWithin popular n a b = b.length) : a = b := by
  induction n generalizing a b with
  | zero =>
    obtain rfl : a = [] := List.length_eq_zero_iff.mp ha.symm
    exact (List.length_eq_zero_iff.mp hb.symm).symm
  | succ n ih =>
    rcases matchedWithin_cases popular n a b with hzero |
      ⟨a₁, a₂, b₁, b₂, w, _, hsplit, hsplit', _, _, _, hstep⟩
    · obtain rfl : a = [] := List.length_eq_zero_iff.mp (ha.symm.trans hzero)
      exact (List.length_eq_zero_iff.mp (hb.symm.trans hzero)).symm
    · have hleft := matchedWithin_le popular n a₁ b₁
      have hright := matchedWithin_le popular n a₂ b₂
      have hla : a.length = a₁.length + (w.length + a₂.length) := by simp [hsplit]
      have hlb : b.length = b₁.length + (w.length + b₂.length) := by simp [hsplit']
      have hpart : ∀ x y : List α,
          (if x ≠ [] ∧ y ≠ [] then matchedWithin popular n x y else 0) = x.length →
          (if x ≠ [] ∧ y ≠ [] then matchedWithin popular n x y else 0) = y.length → x = y := by
        intro x y hx hy
        split_ifs at hx hy with hne
        · exact ih hx hy
        · rw [List.length_eq_zero_iff.mp hx.symm, List.length_eq_zero_iff.mp hy.symm]
      have hle : ∀ x y : List α,
          (if x ≠ [] ∧ y ≠ [] then matchedWithin popular n x y else 0) ≤ x.length ∧
          (if x ≠ [] ∧ y ≠ [] then matchedWithin popular n x y else 0) ≤ y.length := by
        intro x y
        have hxy := matchedWithin_le popular n x y
        split_ifs <;> omega
      have hle₁ := hle a₁ b₁
      have hle₂ := hle a₂ b₂
      have hfront : a₁ = b₁ := hpart a₁ b₁ (by omega) (by omega)
      have hback : a₂ = b₂ := hpart a₂ b₂ (by omega) (by omega)
      rw [hsplit, hsplit', hfront, hback]

theorem findLongestMatch_self (popular : α → Bool) (a : List α) :
    findLongestMatch popular a a = ⟨0, 0, a.length⟩ := by
  have hdiagonal : (best popular a a).i = (best popular a a).j ∧
      (best popular a a).i + (best popular a a).size ≤ a.length := by
    refine ⟨?_, ?_⟩
    · rcases best_cases popular a a with ⟨hbest, _⟩ | ⟨p, hp, hbest, _, hlargest, hfirst⟩
      · rw [hbest]
      · obtain ⟨hi, hj⟩ := mem_starts.mp hp
        have hrow : runAt popular a a (p.1, p.1) = runAt popular a a p :=
          le_antisymm (hlargest _ (mem_starts.mpr ⟨hi, hi⟩)) run_le_self
        have hcolumn : runAt popular a a (p.2, p.2) = runAt popular a a p := by
          refine le_antisymm (hlargest _ (mem_starts.mpr ⟨hj, hj⟩)) ?_
          rw [runAt, run_comm]
          exact run_le_self
        have hle := (hfirst (p.2, p.2) (mem_starts.mpr ⟨hj, hj⟩) hcolumn).1
        have hle' := (hfirst (p.1, p.1) (mem_starts.mpr ⟨hi, hi⟩) hrow).2 rfl
        rw [hbest]
        exact le_antisymm hle hle'
    · obtain ⟨a₁, a₂, _, _, w, ha, _, hi, _, hsize⟩ := best_splits popular a a
      have hlen := congrArg List.length ha
      simp only [List.length_append] at hlen
      omega
  obtain ⟨hsame, hle⟩ := hdiagonal
  have hleft : (a.take (best popular a a).i).reverse.length = (best popular a a).i := by
    rw [List.length_reverse, List.length_take_of_le (by omega)]
  rw [findLongestMatch, ← hsame, run_self, run_self, hleft, List.length_drop]
  simp only [Block.mk.injEq]
  omega

theorem matched_self (popular : α → Bool) (a : List α) : matched popular a a = a.length := by
  cases a with
  | nil => rfl
  | cons c a =>
    rw [matched, List.length_cons, matchedWithin, findLongestMatch_self]
    simp

theorem ratio_eq_one_iff (a b : List α) : ratio a b = 1 ↔ a = b := by
  unfold ratio
  by_cases hempty : a.length + b.length = 0
  · have ha : a = [] := List.length_eq_zero_iff.mp (by omega)
    have hb : b = [] := List.length_eq_zero_iff.mp (by omega)
    simp [ha, hb]
  · have hne : ((a.length + b.length : ℕ) : ℚ) ≠ 0 := Nat.cast_ne_zero.mpr hempty
    rw [if_neg hempty, div_eq_one_iff_eq hne]
    constructor
    · intro h
      have hsum : 2 * matched (popularIn b) a b = a.length + b.length := by exact_mod_cast h
      have hle := matchedWithin_le (popularIn b) a.length a b
      rw [matched] at hsum
      have hwhole : matchedWithin (popularIn b) a.length a b = a.length := by omega
      exact eq_of_matchedWithin hwhole (by omega)
    · rintro rfl
      rw [matched_self]
      push_cast
      ring

end Matched

/-- At every step of the recursion one longest block alone can be taken. -/
def UntiedWithin : ℕ → List α → List α → Prop
  | 0, _, _ => True
  | n + 1, a, b =>
    let m := best unpopular a b
    m.size = 0 ∨
      (∀ p ∈ starts a b, runAt unpopular a b p = m.size → p = (m.i, m.j)) ∧
        UntiedWithin n (a.take m.i) (b.take m.j) ∧
        UntiedWithin n (a.drop (m.i + m.size)) (b.drop (m.j + m.size))

instance decidableUntied : ∀ (n : ℕ) (a b : List α), Decidable (UntiedWithin n a b)
  | 0, _, _ => .isTrue trivial
  | n + 1, a, b =>
    let m := best unpopular a b
    haveI := decidableUntied n (a.take m.i) (b.take m.j)
    haveI := decidableUntied n (a.drop (m.i + m.size)) (b.drop (m.j + m.size))
    inferInstanceAs (Decidable (_ ∨ _ ∧ _ ∧ _))

structure Untied (a b : List α) : Prop where
  within : UntiedWithin (a.length + b.length) a b

instance (a b : List α) : Decidable (Untied a b) :=
  decidable_of_iff (UntiedWithin (a.length + b.length) a b) ⟨Untied.mk, Untied.within⟩

section Symmetry

variable {a b : List α} {n : ℕ}

theorem run_left_zero {i j : ℕ} (hi : i ≤ a.length) (hj : j ≤ b.length)
    (h : ∀ q ∈ starts a b, runAt unpopular a b q ≤ runAt unpopular a b (i, j)) :
    run unpopular (a.take i).reverse (b.take j).reverse = 0 := by
  cases i with
  | zero => simp [run]
  | succ i =>
    cases j with
    | zero =>
      rw [run_comm]
      simp [run]
    | succ j =>
      have hlarger := h (i, j) (mem_starts.mpr ⟨hi, hj⟩)
      have ha : a.drop i = a[i] :: a.drop (i + 1) := List.drop_eq_getElem_cons hi
      have hb : b.drop j = b[j] :: b.drop (j + 1) := List.drop_eq_getElem_cons hj
      by_cases heq : a[i] = b[j]
      · simp only [runAt, ha, hb, run, heq, unpopular, and_self, if_true] at hlarger
        omega
      · have hfront : (a.take (i + 1)).reverse = a[i] :: (a.take i).reverse := by
          rw [List.take_succ_eq_append_getElem hi, List.reverse_append]
          rfl
        have hfront' : (b.take (j + 1)).reverse = b[j] :: (b.take j).reverse := by
          rw [List.take_succ_eq_append_getElem hj, List.reverse_append]
          rfl
        rw [hfront, hfront']
        exact if_neg fun hsame => heq hsame.1

theorem findLongestMatch_unpopular (a b : List α) :
    findLongestMatch unpopular a b = best unpopular a b := by
  rcases best_cases unpopular a b with ⟨hbest, hzero⟩ | ⟨p, hp, hbest, _, hlargest, _⟩
  · have hnone : run unpopular a b = 0 := by
      cases ha : a with
      | nil => rfl
      | cons c a' =>
        cases hb : b with
        | nil => rfl
        | cons d b' =>
          have hfirst := hzero (0, 0) (mem_starts.mpr (by simp [ha, hb]))
          rw [← ha, ← hb]
          exact hfirst
    rw [findLongestMatch, hbest]
    simp [hnone, run]
  · obtain ⟨hi, hj⟩ := mem_starts.mp hp
    have hleft := run_left_zero hi.le hj.le hlargest
    have hright := run_drop (a.drop p.1) (b.drop p.2)
    rw [List.drop_drop, List.drop_drop] at hright
    rw [findLongestMatch, hbest]
    simp only [hleft, runAt, hright, Nat.sub_zero, Nat.zero_add, Nat.add_zero]

theorem runAt_swap (p : ℕ × ℕ) : runAt unpopular b a (p.2, p.1) = runAt unpopular a b p :=
  run_comm _ _ _

theorem best_swap (h : ∀ p ∈ starts a b, runAt unpopular a b p = (best unpopular a b).size →
    p = ((best unpopular a b).i, (best unpopular a b).j)) (hsize : (best unpopular a b).size ≠ 0) :
    best unpopular b a =
      ⟨(best unpopular a b).j, (best unpopular a b).i, (best unpopular a b).size⟩ := by
  rcases best_cases unpopular a b with ⟨hbest, _⟩ | ⟨p, hp, hbest, hne, hlargest, _⟩
  · simp [hbest] at hsize
  · have hswap : ∀ q : ℕ × ℕ, q ∈ starts b a → (q.2, q.1) ∈ starts a b := fun q hq =>
      mem_starts.mpr (mem_starts.mp hq).symm
    have hp' : (p.2, p.1) ∈ starts b a := mem_starts.mpr (mem_starts.mp hp).symm
    have hback := runAt_swap (a := a) (b := b) p
    rcases best_cases unpopular b a with ⟨_, hzero⟩ | ⟨q, hq, hbest', _, hlargest', _⟩
    · rw [hzero _ hp'] at hback
      exact absurd hback.symm hne
    · have hforth := runAt_swap (a := b) (b := a) q
      have hsame : runAt unpopular a b (q.2, q.1) = runAt unpopular a b p := by
        have hle := hlargest _ (hswap q hq)
        have hle' := hlargest' _ hp'
        omega
      have hq' := h _ (hswap q hq) (by rw [hsame, hbest])
      rw [hbest] at hq'
      obtain ⟨hi, hj⟩ := Prod.mk.inj hq'
      rw [hbest', hbest, ← hforth, hsame]
      simp only [hi, hj]

theorem best_swap_zero (h : (best unpopular a b).size = 0) : (best unpopular b a).size = 0 := by
  rcases best_cases unpopular a b with ⟨_, hzero⟩ | ⟨p, _, hbest, hne, _⟩
  · rcases best_cases unpopular b a with ⟨hbest', _⟩ | ⟨q, hq, hbest', hne', _⟩
    · rw [hbest']
    · have hback := hzero (q.2, q.1) (mem_starts.mpr (mem_starts.mp hq).symm)
      rw [runAt_swap (a := b) (b := a) q] at hback
      exact absurd hback hne'
  · rw [hbest] at h
    exact absurd h hne

theorem matchedWithin_swap (h : UntiedWithin n a b) :
    matchedWithin unpopular n a b = matchedWithin unpopular n b a := by
  induction n generalizing a b with
  | zero => rfl
  | succ n ih =>
    simp only [matchedWithin, findLongestMatch_unpopular]
    rcases h with hzero | ⟨hunique, hfront, hback⟩
    · rw [if_pos hzero, if_pos (best_swap_zero hzero)]
    · by_cases hzero : (best unpopular a b).size = 0
      · rw [if_pos hzero, if_pos (best_swap_zero hzero)]
      · rw [best_swap hunique hzero, if_neg hzero, if_neg hzero, ih hfront, ih hback]
        simp only [and_comm]

end Symmetry

theorem ratio_comm {a b : List α} (h : Untied a b) (ha : a.length < 200) (hb : b.length < 200) :
    ratio a b = ratio b a := by
  have hshort : ∀ c : List α, c.length < 200 → popularIn c = unpopular := by
    intro c hc
    funext x
    simp [popularIn, unpopular, Nat.not_le.mpr hc]
  have hmatched : matched unpopular a b = matched unpopular b a := by
    rw [matched, matched, matchedWithin_fuel (le_refl _) (Nat.le_add_right a.length b.length),
      matchedWithin_swap h.within]
    exact matchedWithin_fuel (Nat.le_add_left _ _) (le_refl _)
  rw [ratio, ratio, hshort a ha, hshort b hb, hmatched, Nat.add_comm]

end SequenceMatcher
