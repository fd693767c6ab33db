import Doci.Characters
import Doci.SequenceMatcher

/-! `fuzzy_match_name`. -/

namespace Doci

open Numerals SequenceMatcher

/-- The tables of `unicodedata` as well. -/
structure NameData extends CharData where
  decompose : Char → List Char
  combining : Char → ℕ
  decompose_ascii : ∀ c, c.toNat < 128 → decompose c = [c]
  combining_ascii : ∀ c, c.toNat < 128 → combining c = 0
  decompose_vietnamese : ∀ l ∈ vietnamese, l.1 ≠ 'đ' →
    (decompose l.1).filter (combining · = 0) = [l.2.2] ∧
      (decompose l.2.1).filter (combining · = 0) = [l.2.2.toUpper]
  decompose_dong : (decompose 'đ' = ['đ'] ∧ combining 'đ' = 0) ∧ decompose 'Đ' = ['Đ'] ∧ combining 'Đ' = 0
  space_alnum : ∀ c, isSpace c = true → alnum c = false
  sigma_alnum : alnum 'σ' = true ∧ alnum 'ς' = true

/-- A character that `[^a-z0-9 ]` does not match. -/
def isNameChar (c : Char) : Bool := ('a' ≤ c && c ≤ 'z') || ('0' ≤ c && c ≤ '9') || c == ' '

def nameChar (c : Char) : Char := if isNameChar c then c else ' '

/-- `re.sub(r"\s+", " ", s)`. -/
def squeeze : List Char → List Char
  | [] => []
  | c :: s =>
    if isSpace c then if s.head?.any isSpace then squeeze s else ' ' :: squeeze s
    else c :: squeeze s

def roundHalfEven (q : ℚ) : ℤ :=
  if q - ⌊q⌋ < 1 / 2 then ⌊q⌋
  else if 1 / 2 < q - ⌊q⌋ then ⌊q⌋ + 1
  else if ⌊q⌋ % 2 = 0 then ⌊q⌋ else ⌊q⌋ + 1

structure NameMatch where
  score : ℚ
  isMatch : Bool
  threshold : ℚ
  deriving DecidableEq

namespace NameData

variable (data : NameData)

/-- A mark goes behind those of a smaller class. -/
def insertMark (c : Char) : List Char → List Char
  | [] => [c]
  | d :: s =>
    if data.combining d ≠ 0 ∧ data.combining d < data.combining c then d :: insertMark c s
    else c :: d :: s

def canonicalOrder : List Char → List Char
  | [] => []
  | c :: s =>
    if data.combining c = 0 then c :: canonicalOrder s else data.insertMark c (canonicalOrder s)

/-- `unicodedata.normalize("NFKD", s)`. -/
def nfkd (s : List Char) : List Char := data.canonicalOrder (s.flatMap data.decompose)

def norm (s : List Char) : List Char :=
  let s := (data.nfkd s).filter (data.combining · = 0)
  strip (squeeze ((data.lowerText [] s []).map nameChar))

def exactSimilarity (a b : String) : ℚ := ratio (data.norm a.toList) (data.norm b.toList) * 100

/-- The exact score to one decimal, half to even. Python rounds the score's float, which may lie on the
other side of a tie. -/
def similarity (a b : String) : ℚ := roundHalfEven (data.exactSimilarity a b * 10) / 10

def fuzzyMatchName (repr : String → String) (a b : String) (threshold : ℚ) : Except String NameMatch :=
  if strip a.toList = [] ∨ strip b.toList = [] then
    .error ("need two non-empty names; got a=" ++ repr a ++ ", b=" ++ repr b ++ ".")
  else .ok ⟨data.similarity a b, threshold ≤ data.similarity a b, threshold⟩

end NameData

section Squeeze

variable {s t u v : List Char} {c : Char}

theorem squeeze_cons_of_not (h : isSpace c = false) : squeeze (c :: s) = c :: squeeze s := by
  simp [squeeze, h]

theorem head_squeeze (s : List Char) : (squeeze s).head?.any isSpace = s.head?.any isSpace := by
  induction s with
  | nil => rfl
  | cons c s ih =>
    have hspace : isSpace ' ' = true := by decide
    by_cases hc : isSpace c = true
    · by_cases hs : s.head?.any isSpace = true
      · simp only [squeeze, hc, hs, if_true, ih]
        simp [hc]
      · simp [squeeze, hc, hs, hspace]
    · simp [squeeze, hc]

theorem squeeze_squeeze_right (u v : List Char) : squeeze (u ++ squeeze v) = squeeze (u ++ v) := by
  induction u with
  | nil =>
    induction v with
    | nil => rfl
    | cons c v ih =>
      have hspace : isSpace ' ' = true := by decide
      have hv : squeeze (squeeze v) = squeeze v := ih
      by_cases hc : isSpace c = true
      · by_cases hhead : v.head?.any isSpace = true
        · simp [squeeze, hc, hhead, hv]
        · have hhead' : (squeeze v).head?.any isSpace = false := by
            rw [head_squeeze]
            simpa using hhead
          simp [squeeze, hc, hhead, hhead', hspace, hv]
      · simp [squeeze, hc, hv]
  | cons c u ih =>
    have hhead : (u ++ squeeze v).head?.any isSpace = (u ++ v).head?.any isSpace := by
      cases u with
      | nil => exact head_squeeze v
      | cons d u => rfl
    simp only [List.cons_append, squeeze, ih, hhead]

theorem squeeze_squeeze_left (u v : List Char) : squeeze (squeeze u ++ v) = squeeze (u ++ v) := by
  induction u with
  | nil => rfl
  | cons c u ih =>
    have hspace : isSpace ' ' = true := by decide
    by_cases hc : isSpace c = true
    · by_cases hhead : u.head?.any isSpace = true
      · have hhead' : (u ++ v).head?.any isSpace = true := by
          cases u with
          | nil => simp at hhead
          | cons d u => exact hhead
        simp only [List.cons_append, squeeze, hc, hhead, hhead', if_true, ih]
      · have hhead' : (squeeze u ++ v).head?.any isSpace = (u ++ v).head?.any isSpace := by
          cases u with
          | nil => rfl
          | cons d u =>
            have hd : isSpace d = false := by simpa using hhead
            simp [squeeze, hd]
        have hfirst : squeeze (c :: u) = ' ' :: squeeze u := by simp [squeeze, hc, hhead]
        rw [hfirst, List.cons_append, List.cons_append]
        simp only [squeeze, hc, hspace, if_true, hhead', ih]
    · simp only [Bool.not_eq_true] at hc
      rw [squeeze_cons_of_not hc, List.cons_append, List.cons_append, squeeze_cons_of_not hc, ih,
        squeeze_cons_of_not hc]

theorem squeeze_congr (h : squeeze s = squeeze t) (h' : squeeze u = squeeze v) :
    squeeze (s ++ u) = squeeze (t ++ v) := by
  rw [← squeeze_squeeze_left, ← squeeze_squeeze_right, h, h', squeeze_squeeze_right,
    squeeze_squeeze_left]

theorem squeeze_concat (hc : isSpace c = false) : squeeze (s ++ [c]) = squeeze s ++ [c] := by
  induction s with
  | nil => simp [squeeze, hc]
  | cons d s ih =>
    have hhead : (s ++ [c]).head?.any isSpace = s.head?.any isSpace := by
      cases s with
      | nil => simp [hc]
      | cons e s => rfl
    simp only [List.cons_append, squeeze, ih, hhead]
    split_ifs <;> rfl

end Squeeze

end Doci
