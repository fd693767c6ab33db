import Doci.Money

/-! Amounts written in either convention, and that `to_money` reads them back. -/

namespace Doci

open Numerals

def decimalDigits (n : ℕ) : List Digit :=
  if n < 10 then [Fin.ofNat 10 n] else decimalDigits (n / 10) ++ [Fin.ofNat 10 n]

def threeDigits (n : ℕ) : List Digit := [Fin.ofNat 10 (n / 100), Fin.ofNat 10 (n / 10), Fin.ofNat 10 n]

/-- The digits before the first separator, and the groups of three behind it. -/
def thousands (sep : Mark) (n : ℕ) : List Digit × Groups :=
  if n < 1000 then (decimalDigits n, [])
  else ((thousands sep (n / 1000)).1, (thousands sep (n / 1000)).2 ++ [(sep, threeDigits n)])

def integerPart (sep : Mark) (grouped : Bool) (n : ℕ) : List Digit × Groups :=
  if grouped then thousands sep n else (decimalDigits n, [])

/-- `n.d` with the decimal separator `mark`; no decimals are written without it. -/
def amountGroups (mark : Mark) (grouped : Bool) (n : ℕ) (decimals : List Digit) :
    List Digit × Groups :=
  ((integerPart mark.other grouped n).1, (integerPart mark.other grouped n).2 ++
    if decimals = [] then [] else [(mark, decimals)])

def renderAmount (mark : Mark) (grouped : Bool) (n : ℕ) (decimals : List Digit) : List Char :=
  spell (amountGroups mark grouped n decimals).1 (amountGroups mark grouped n decimals).2

/-- The number `n.d`. -/
def decimalValue (n : ℕ) (decimals : List Digit) : ℚ := n + (value decimals : ℚ) / 10 ^ decimals.length

section Formats

variable {n : ℕ} {sep mark : Mark} {grouped : Bool} {decimals : List Digit} {s pre post : List Char}

theorem value_ofNat (n : ℕ) : value [Fin.ofNat 10 n] = n % 10 := by simp [value, Fin.ofNat]

theorem value_decimalDigits (n : ℕ) : value (decimalDigits n) = n := by
  induction n using Nat.strongRecOn with
  | ind n ih =>
    rw [decimalDigits]
    by_cases hn : n < 10
    · rw [if_pos hn, value_ofNat]
      omega
    · have hdiv := ih (n / 10) (by omega)
      rw [if_neg hn, value_append, hdiv, value_ofNat, List.length_singleton]
      omega

theorem decimalDigits_ne_nil (n : ℕ) : decimalDigits n ≠ [] := by
  rw [decimalDigits]
  split_ifs <;> simp

theorem lt_length_decimalDigits (n k : ℕ) : k < (decimalDigits n).length ↔ k = 0 ∨ 10 ^ k ≤ n := by
  induction n using Nat.strongRecOn generalizing k with
  | ind n ih =>
    rw [decimalDigits]
    cases k with
    | zero => split_ifs <;> simp
    | succ k =>
      have hpos : 0 < 10 ^ k := by positivity
      by_cases hn : n < 10
      · rw [if_pos hn, List.length_singleton]
        omega
      · have hdiv := ih (n / 10) (by omega) k
        rw [if_neg hn, List.length_append, List.length_singleton]
        have hpow : 10 ^ (k + 1) ≤ n ↔ 10 ^ k ≤ n / 10 := by
          rw [pow_succ]
          omega
        have hzero : 10 ^ 0 ≤ n / 10 := by
          rw [pow_zero]
          omega
        rw [Nat.add_lt_add_iff_right, hdiv, hpow]
        constructor
        · rintro (rfl | hk)
          · exact .inr hzero
          · exact .inr hk
        · rintro (hk | hk)
          · omega
          · exact .inr hk

theorem length_decimalDigits_le : (decimalDigits n).length ≤ 3 ↔ n < 1000 := by
  have h := lt_length_decimalDigits n 3
  norm_num at h
  omega

theorem value_threeDigits (n : ℕ) : value (threeDigits n) = n % 1000 := by
  simp only [value, threeDigits, Fin.ofNat, List.foldl_cons, List.foldl_nil]
  omega

theorem thousands_spec (sep : Mark) (n : ℕ) :
    ((thousands sep n).1.length ≤ 3 ∧ (thousands sep n).1 ≠ []) ∧
      (∀ g ∈ (thousands sep n).2, g.1 = sep ∧ g.2.length = 3) ∧
      ((thousands sep n).2 = [] ↔ n < 1000) ∧
      value (digitsOf (thousands sep n).1 (thousands sep n).2) = n := by
  induction n using Nat.strongRecOn with
  | ind n ih =>
    rw [thousands]
    by_cases hn : n < 1000
    · rw [if_pos hn]
      refine ⟨⟨length_decimalDigits_le.mpr hn, decimalDigits_ne_nil n⟩, nofun, by simp [hn], ?_⟩
      simp [digitsOf, value_decimalDigits]
    · obtain ⟨hfirst, hgroups, _, hvalue⟩ := ih (n / 1000) (by omega)
      rw [if_neg hn]
      refine ⟨hfirst, fun g hg => ?_, by simp [hn], ?_⟩
      · rcases List.mem_append.mp hg with hg | hg
        · exact hgroups g hg
        · obtain rfl := List.mem_singleton.mp hg
          exact ⟨rfl, rfl⟩
      · rw [digitsOf_concat, value_append, hvalue, value_threeDigits]
        simp only [threeDigits, List.length_cons, List.length_nil]
        omega

theorem value_integerPart :
    value (digitsOf (integerPart sep grouped n).1 (integerPart sep grouped n).2) = n := by
  unfold integerPart
  split_ifs
  · exact (thousands_spec sep n).2.2.2
  · simp [digitsOf, value_decimalDigits]

theorem integerPart_ne_nil : (integerPart sep grouped n).1 ≠ [] := by
  unfold integerPart
  split_ifs
  · exact (thousands_spec sep n).1.2
  · exact decimalDigits_ne_nil n

theorem pointAt_amountGroups (h : ¬ (n < 1000 ∧ decimals.length = 3)) :
    PointAt (amountGroups mark grouped n decimals).1 (amountGroups mark grouped n decimals).2
      decimals.length := by
  unfold amountGroups integerPart
  obtain ⟨hfirst, hgroups, hnil, _⟩ := thousands_spec mark.other n
  have hmarks : ∀ k ∈ (thousands mark.other n).2.map Prod.fst, k = mark.other := by
    intro k hk
    obtain ⟨g, hg, rfl⟩ := List.mem_map.mp hk
    exact (hgroups g hg).1
  by_cases hd : decimals = []
  · subst hd
    simp only [if_true, List.append_nil, List.length_nil]
    cases grouped with
    | false => exact .plain
    | true =>
      by_cases hn : n < 1000
      · have hrest := hnil.mpr hn
        simp only [if_true, hrest]
        exact .plain
      · exact .grouped mark.other (mt hnil.mp hn) hmarks hfirst.1 fun g hg => (hgroups g hg).2
  · simp only [hd, if_false]
    cases grouped with
    | false =>
      refine .single mark decimals fun hthree => h ⟨?_, hthree.2⟩
      exact length_decimalDigits_le.mp hthree.1
    | true =>
      by_cases hn : n < 1000
      · have hrest := hnil.mpr hn
        simp only [if_true, hrest, List.nil_append]
        exact .single mark decimals fun hthree => h ⟨hn, hthree.2⟩
      · exact .mixed mark decimals (mt hnil.mp hn) hmarks

theorem value_amountGroups :
    (value (digitsOf (amountGroups mark grouped n decimals).1 (amountGroups mark grouped n decimals).2) :
      ℚ) / 10 ^ decimals.length = decimalValue n decimals := by
  have hvalue : value (digitsOf (amountGroups mark grouped n decimals).1
      (amountGroups mark grouped n decimals).2) = n * 10 ^ decimals.length + value decimals := by
    unfold amountGroups
    by_cases hd : decimals = []
    · subst hd
      simp only [if_true, List.append_nil, value_integerPart]
      simp [value]
    · simp only [hd, if_false]
      rw [digitsOf_concat, value_append, value_integerPart]
  have hpow : (10 : ℚ) ^ decimals.length ≠ 0 := by positivity
  rw [hvalue, decimalValue]
  push_cast
  field_simp

theorem filter_outside (h : ∀ c ∈ s, isMoneyChar c = false) : s.filter isMoneyChar = [] := by
  simpa [List.filter_eq_nil_iff] using h

/-- An amount reads back whatever text stands around it. -/
theorem toMoney_renderAmount (mark : Mark) (grouped : Bool) (n : ℕ) (decimals : List Digit)
    (pre post : List Char) (hpre : ∀ c ∈ pre, isMoneyChar c = false)
    (hpost : ∀ c ∈ post, isMoneyChar c = false) (hshape : ¬ (n < 1000 ∧ decimals.length = 3)) :
    toMoney (.text (String.ofList (pre ++ renderAmount mark grouped n decimals ++ post))) =
      .ok (some (if startsNegative (pre ++ renderAmount mark grouped n decimals ++ post) then
        -decimalValue n decimals else decimalValue n decimals)) := by
  have hfilter : (pre ++ renderAmount mark grouped n decimals ++ post).filter isMoneyChar =
      renderAmount mark grouped n decimals := by
    rw [List.filter_append, List.filter_append, filter_outside hpre, filter_outside hpost,
      renderAmount, filter_spelled]
    simp
  have hdigits : digitsOf (amountGroups mark grouped n decimals).1
      (amountGroups mark grouped n decimals).2 ≠ [] := by
    simp [digitsOf, amountGroups, integerPart_ne_nil]
  have hread : floatOf (separatorsRead (renderAmount mark grouped n decimals)) =
      some (decimalValue n decimals) :=
    read_spell.mpr ⟨hdigits, _, pointAt_amountGroups hshape, value_amountGroups.symm⟩
  have hne : renderAmount mark grouped n decimals ≠ [] := by
    intro hnil
    have hfirst : (amountGroups mark grouped n decimals).1 = [] := by
      rw [renderAmount, spell, List.append_eq_nil_iff] at hnil
      exact List.map_eq_nil_iff.mp hnil.1
    exact integerPart_ne_nil hfirst
  rw [toMoney, String.toList_ofList, textToMoney_eq, hfilter, if_neg hne, hread]
  rfl

theorem toMoney_dong : toMoney (.text "(1.200,50 đ)") = .ok (some (-decimalValue 1200 [5, 0])) := by
  have hrender : renderAmount .comma true 1200 [5, 0] = ['1', '.', '2', '0', '0', ',', '5', '0'] := by
    simp [renderAmount, amountGroups, integerPart, thousands, decimalDigits]
    decide
  have hneg : startsNegative (['('] ++ renderAmount .comma true 1200 [5, 0] ++ [' ', 'đ', ')']) =
      true := by
    rw [hrender]
    decide +kernel
  have hpre : ∀ c ∈ ['('], isMoneyChar c = false := by
    intro c hc
    obtain rfl := List.mem_singleton.mp hc
    rfl
  have hpost : ∀ c ∈ [' ', 'đ', ')'], isMoneyChar c = false := by
    intro c hc
    simp only [List.mem_cons, List.not_mem_nil, or_false] at hc
    rcases hc with rfl | rfl | rfl
    · rfl
    · rfl
    · rfl
  have h := toMoney_renderAmount .comma true 1200 [5, 0] ['('] [' ', 'đ', ')'] hpre hpost (by decide)
  rwa [if_pos hneg, hrender] at h

end Formats

end Doci
