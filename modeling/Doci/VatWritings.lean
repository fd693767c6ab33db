import Doci.Vat

/-! The arguments of `check_vat` in either convention. -/

namespace Doci

open Numerals Binary64

structure Writing where
  mark : Mark
  grouped : Bool
  pre : List Char
  post : List Char
  pre_plain : ∀ c ∈ pre, isMoneyChar c = false
  post_plain : ∀ c ∈ post, isMoneyChar c = false

namespace Writing

def chars (w : Writing) (n : ℕ) (decimals : List Digit) : List Char :=
  w.pre ++ renderAmount w.mark w.grouped n decimals ++ w.post

def text (w : Writing) (n : ℕ) (decimals : List Digit) : ToolValue ℚ :=
  .text (String.ofList (w.chars n decimals))

def negative (w : Writing) (n : ℕ) (decimals : List Digit) : Bool := startsNegative (w.chars n decimals)

end Writing

def Writing.bare (mark : Mark) : Writing := ⟨mark, false, [], [], by simp, by simp⟩

def rateText (mark : Mark) (percent : Bool) (n : ℕ) (decimals : List Digit) : String :=
  String.ofList (renderAmount mark false n decimals ++ if percent then ['%'] else [])

def SameReading :
    Except String (Except String (VatCheck ℚ)) → Except String (Except String (VatCheck ℚ)) → Prop
  | .ok (.ok a), .ok (.ok b) => a.rate = b.rate ∧ a.rateValid = b.rateValid ∧ a.expected = b.expected ∧
      a.isMatch = b.isMatch
  | _, _ => False

section Writings

variable {n : ℕ} {decimals : List Digit} {mark : Mark} {percent : Bool} {first : List Digit}
  {rest : Groups}

theorem filter_isRateChar : (spell first rest).filter isRateChar =
    (spell first rest).filter (· ≠ Mark.comma.char) := by
  refine List.filter_congr fun c hc => ?_
  have hmoney : isMoneyChar c = true := List.of_mem_filter (filter_spelled first rest ▸ hc)
  by_cases hcomma : c = ','
  · subst hcomma
    rfl
  · have hne : c ≠ Mark.comma.char := hcomma
    simpa [isMoneyChar, isRateChar, hcomma, hne] using hmoney

theorem rateOf_rateText : rateOf (rateText mark percent n decimals) =
    some (if mark = .comma then decimalValue n decimals * 10 ^ decimals.length
      else decimalValue n decimals) := by
  have hpercent : (if percent then ['%'] else []).filter isRateChar = [] := by
    cases percent <;> decide
  have hdigits : (value (decimalDigits n ++ decimals) : ℚ) =
      decimalValue n decimals * 10 ^ decimals.length := by
    rw [value_append, value_decimalDigits, decimalValue]
    push_cast
    field_simp
  have hread : floatOf ((renderAmount mark false n decimals).filter isRateChar) =
      some (if mark = .comma then decimalValue n decimals * 10 ^ decimals.length
        else decimalValue n decimals) := by
    rw [renderAmount, filter_isRateChar, filter_spell]
    by_cases hnil : decimals = []
    · subst hnil
      have hwhole : amountGroups mark false n [] = (decimalDigits n, []) := rfl
      have hdecimal : decimalValue n [] = n := by simp [decimalValue, value]
      have hone : (if mark = .comma then decimalValue n [] * 10 ^ ([] : List Digit).length
          else decimalValue n []) = n := by simp [hdecimal]
      have hmerge : merge .comma (decimalDigits n) [] = (decimalDigits n, []) := rfl
      rw [hwhole, hmerge, hone, floatOf_spell (by simp), value_decimalDigits]
      simp [digitsOf, decimalDigits_ne_nil]
    · have hgroups : amountGroups mark false n decimals = (decimalDigits n, [(mark, decimals)]) := by
        simp [amountGroups, integerPart, hnil]
      rw [hgroups]
      cases mark with
      | comma =>
        have hmerge : merge .comma (decimalDigits n) [(.comma, decimals)] =
            (decimalDigits n ++ decimals, []) := rfl
        rw [hmerge, if_pos rfl, ← hdigits, floatOf_spell (by simp)]
        simp [digitsOf, decimalDigits_ne_nil]
      | point =>
        have hmerge : merge .comma (decimalDigits n) [(.point, decimals)] =
            (decimalDigits n, [(.point, decimals)]) := rfl
        rw [hmerge, if_neg (by decide), floatOf_spell (by simp)]
        refine ⟨by simp [digitsOf, decimalDigits_ne_nil], .inr ⟨decimals, rfl, ?_⟩⟩
        rw [hdigits]
        field_simp
  rw [rateOf, rateText, String.toList_ofList, List.filter_append, hpercent, List.append_nil, hread]
  rfl

theorem toMoney_text (w : Writing) (h : ¬ (n < 1000 ∧ decimals.length = 3)) :
    toMoney (w.text n decimals) =
      .ok (some (if w.negative n decimals then -decimalValue n decimals else decimalValue n decimals)) :=
  toMoney_renderAmount w.mark w.grouped n decimals w.pre w.post w.pre_plain w.post_plain h

theorem scaled_eq_iff : decimalValue n decimals = decimalValue n decimals * 10 ^ decimals.length ↔
    decimals = [] ∨ decimalValue n decimals = 0 := by
  have hpow : (10 : ℚ) ^ decimals.length = 1 ↔ decimals = [] := by
    rw [pow_eq_one_iff_cases]
    norm_num
  rw [eq_comm, mul_right_eq_self₀, hpow]

end Writings

end Doci
