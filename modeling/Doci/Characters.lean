import Doci.Money

/-! `str.lower` over the tables of Unicode. -/

namespace Doci

open Numerals

/-- The accented letters of Vietnamese: lower case, upper case, letter without diacritics. -/
def vietnamese : List (Char × Char × Char) :=
  [('á', 'Á', 'a'), ('à', 'À', 'a'), ('ả', 'Ả', 'a'), ('ã', 'Ã', 'a'), ('ạ', 'Ạ', 'a'),
    ('ă', 'Ă', 'a'), ('ắ', 'Ắ', 'a'), ('ằ', 'Ằ', 'a'), ('ẳ', 'Ẳ', 'a'), ('ẵ', 'Ẵ', 'a'),
    ('ặ', 'Ặ', 'a'), ('â', 'Â', 'a'), ('ấ', 'Ấ', 'a'), ('ầ', 'Ầ', 'a'), ('ẩ', 'Ẩ', 'a'),
    ('ẫ', 'Ẫ', 'a'), ('ậ', 'Ậ', 'a'), ('é', 'É', 'e'), ('è', 'È', 'e'), ('ẻ', 'Ẻ', 'e'),
    ('ẽ', 'Ẽ', 'e'), ('ẹ', 'Ẹ', 'e'), ('ê', 'Ê', 'e'), ('ế', 'Ế', 'e'), ('ề', 'Ề', 'e'),
    ('ể', 'Ể', 'e'), ('ễ', 'Ễ', 'e'), ('ệ', 'Ệ', 'e'), ('í', 'Í', 'i'), ('ì', 'Ì', 'i'),
    ('ỉ', 'Ỉ', 'i'), ('ĩ', 'Ĩ', 'i'), ('ị', 'Ị', 'i'), ('ó', 'Ó', 'o'), ('ò', 'Ò', 'o'),
    ('ỏ', 'Ỏ', 'o'), ('õ', 'Õ', 'o'), ('ọ', 'Ọ', 'o'), ('ô', 'Ô', 'o'), ('ố', 'Ố', 'o'),
    ('ồ', 'Ồ', 'o'), ('ổ', 'Ổ', 'o'), ('ỗ', 'Ỗ', 'o'), ('ộ', 'Ộ', 'o'), ('ơ', 'Ơ', 'o'),
    ('ớ', 'Ớ', 'o'), ('ờ', 'Ờ', 'o'), ('ở', 'Ở', 'o'), ('ỡ', 'Ỡ', 'o'), ('ợ', 'Ợ', 'o'),
    ('ú', 'Ú', 'u'), ('ù', 'Ù', 'u'), ('ủ', 'Ủ', 'u'), ('ũ', 'Ũ', 'u'), ('ụ', 'Ụ', 'u'),
    ('ư', 'Ư', 'u'), ('ứ', 'Ứ', 'u'), ('ừ', 'Ừ', 'u'), ('ử', 'Ử', 'u'), ('ữ', 'Ữ', 'u'),
    ('ự', 'Ự', 'u'), ('ý', 'Ý', 'y'), ('ỳ', 'Ỳ', 'y'), ('ỷ', 'Ỷ', 'y'), ('ỹ', 'Ỹ', 'y'),
    ('ỵ', 'Ỵ', 'y'), ('đ', 'Đ', 'd')]

/-- The tables that the methods of `str` and the classes of `re` read. -/
structure CharData where
  decimal : Char → Option Digit
  alnum : Char → Bool
  lower : Char → List Char
  cased : Char → Bool
  caseIgnorable : Char → Bool
  decimal_ascii : ∀ c, c.toNat < 128 → decimal c = digit? c
  alnum_ascii : ∀ c, c.toNat < 128 → alnum c = c.isAlphanum
  lower_ascii : ∀ c, c.toNat < 128 → lower c = [c.toLower]
  lower_vietnamese : ∀ l ∈ vietnamese, lower l.1 = [l.1] ∧ lower l.2.1 = [l.1]
  lower_decimal : ∀ c, decimal c ≠ none → lower c = [c]
  lower_other : ∀ c, decimal c = none → ∀ x ∈ lower c, decimal x = none
  lower_space : ∀ c, isSpace c = true → lower c = [c]
  lower_mark : ∀ c, alnum c = false → c ≠ '_' → lower c ≠ [] ∧ ∀ x ∈ lower c, alnum x = false ∧ x ≠ '_'
  space_decimal : ∀ c, isSpace c = true → decimal c = none
  sigma : alnum 'Σ' = true ∧ decimal 'Σ' = none ∧ decimal 'σ' = none ∧ decimal 'ς' = none

namespace CharData

variable (data : CharData)

/-- The class `\w`. -/
def word (c : Char) : Bool := data.alnum c || c == '_'

def finalSigma (before after : List Char) : Bool :=
  (before.find? fun c => !data.caseIgnorable c).any data.cased &&
    !(after.find? fun c => !data.caseIgnorable c).any data.cased

def lowerAt (before : List Char) (c : Char) (after : List Char) : List Char :=
  if c = 'Σ' then [if data.finalSigma before after then 'ς' else 'σ'] else data.lower c

/-- `str.lower` of a part of a text; the text before it is reversed. -/
def lowerText (before : List Char) : List Char → List Char → List Char
  | [], _ => []
  | c :: s, after => data.lowerAt before c (s ++ after) ++ lowerText (c :: before) s after

variable {data} {before after s t : List Char} {c : Char}

theorem lowerText_append : data.lowerText before (s ++ t) after =
    data.lowerText before s (t ++ after) ++ data.lowerText (s.reverse ++ before) t after := by
  induction s generalizing before with
  | nil => rfl
  | cons c s ih => simp [lowerText, ih]

theorem mem_lowerText {x : Char} (h : x ∈ data.lowerText before s after) :
    ∃ l c r, s = l ++ c :: r ∧ x ∈ data.lowerAt (l.reverse ++ before) c (r ++ after) := by
  induction s generalizing before with
  | nil => cases h
  | cons c s ih =>
    rcases List.mem_append.mp h with h | h
    · exact ⟨[], c, s, rfl, h⟩
    · obtain ⟨l, d, r, rfl, hx⟩ := ih h
      exact ⟨c :: l, d, r, rfl, by simpa using hx⟩

theorem decimal_lowerAt (h : data.decimal c = none) : ∀ x ∈ data.lowerAt before c after, data.decimal x = none := by
  obtain ⟨_, _, hsmall, hfinal⟩ := data.sigma
  intro x hx
  unfold lowerAt at hx
  split_ifs at hx with hsigma hcontext
  · rw [List.mem_singleton.mp hx]
    exact hfinal
  · rw [List.mem_singleton.mp hx]
    exact hsmall
  · exact data.lower_other c h x hx

theorem decimal_lowerText (before after : List Char) (h : ∀ c ∈ s, data.decimal c = none) :
    ∀ x ∈ data.lowerText before s after, data.decimal x = none := by
  intro x hx
  obtain ⟨l, c, r, rfl, hc⟩ := mem_lowerText hx
  exact decimal_lowerAt (h c (by simp)) x hc

theorem word_lowerAt (before after : List Char) (h : data.word c = false) : data.lowerAt before c after ≠ [] ∧
    ∀ x ∈ data.lowerAt before c after, data.word x = false := by
  obtain ⟨halnum, hunder⟩ : data.alnum c = false ∧ c ≠ '_' := by simpa [word] using h
  have hsigma : c ≠ 'Σ' := by
    rintro rfl
    rw [data.sigma.1] at halnum
    cases halnum
  obtain ⟨hne, hlower⟩ := data.lower_mark c halnum hunder
  rw [lowerAt, if_neg hsigma]
  exact ⟨hne, fun x hx => by simp [word, hlower x hx]⟩

theorem last_lowerText (h : ∀ c ∈ s.getLast?, data.word c = false) :
    ∀ x ∈ (data.lowerText before s after).getLast?, data.word x = false := by
  rcases List.eq_nil_or_concat' s with rfl | ⟨init, c, rfl⟩
  · simp [lowerText]
  · obtain ⟨hne, hword⟩ := word_lowerAt (init.reverse ++ before) after (h c (by simp))
    intro x hx
    have hlast : data.lowerText (init.reverse ++ before) [c] after =
        data.lowerAt (init.reverse ++ before) c after := by simp [lowerText]
    rw [lowerText_append, hlast, List.getLast?_append_of_ne_nil _ hne] at hx
    exact hword x (List.mem_of_getLast? hx)

theorem head_lowerText (h : ∀ c ∈ s.head?, data.word c = false) :
    ∀ x ∈ (data.lowerText before s after).head?, data.word x = false := by
  cases s with
  | nil => simp [lowerText]
  | cons c s =>
    obtain ⟨hne, hword⟩ := word_lowerAt before (s ++ after) (h c rfl)
    intro x hx
    rw [lowerText, List.head?_append_of_ne_nil _ hne] at hx
    exact hword x (List.mem_of_head? hx)

theorem lowerText_eq (h : List.Forall₂ (fun c l => c ≠ 'Σ' ∧ data.lower c = [l]) s t) :
    data.lowerText before s after = t := by
  induction h generalizing before with
  | nil => rfl
  | cons hc _ ih => rw [lowerText, ih, lowerAt, if_neg hc.1, hc.2, List.singleton_append]

end CharData

section Plain

/-- The letters of the tables that `plainData` knows. -/
def vietnameseLetter (c : Char) : Bool := vietnamese.any fun l => l.1 == c || l.2.1 == c

def sigmas : List Char := ['Σ', 'σ', 'ς']

def plainLower (c : Char) : List Char :=
  if c.toNat < 128 then [c.toLower]
  else match vietnamese.find? fun l => l.2.1 == c with
    | some l => [l.1]
    | none => [c]

theorem toLower_ascii {c : Char} (hc : c.toNat < 128) : c.toLower = c ∨ isSpace c = false ∧
    digit? c = none ∧ digit? c.toLower = none ∧ c.isAlphanum = true := by
  have hall : ∀ n : Fin 128, (Char.ofNat n).toLower = Char.ofNat n ∨ isSpace (Char.ofNat n) = false ∧
      digit? (Char.ofNat n) = none ∧ digit? (Char.ofNat n).toLower = none ∧
        (Char.ofNat n).isAlphanum = true := by
    decide +kernel
  have hchar := hall ⟨c.toNat, hc⟩
  rwa [Char.ofNat_toNat] at hchar

theorem vietnamese_letters : ∀ l ∈ vietnamese, (128 ≤ l.1.toNat ∧ isSpace l.1 = false) ∧
    128 ≤ l.2.1.toNat ∧ isSpace l.2.1 = false := by
  decide +kernel

theorem digit?_eq_none {c : Char} (h : 128 ≤ c.toNat) : digit? c = none := dif_neg (by omega)

theorem plainLower_cases (c : Char) : plainLower c = [c] ∨ isSpace c = false ∧ digit? c = none ∧
    (∀ x ∈ plainLower c, digit? x = none) ∧ (c.isAlphanum || c ∈ sigmas || vietnameseLetter c) = true := by
  unfold plainLower
  split_ifs with hc
  · rcases toLower_ascii hc with hsame | ⟨hspace, hdigit, hlower, halnum⟩
    · rw [hsame]
      exact .inl rfl
    · exact .inr ⟨hspace, hdigit, by simpa using hlower, by simp [halnum]⟩
  · cases hfind : vietnamese.find? fun l => l.2.1 == c with
    | none => exact .inl rfl
    | some l =>
      obtain rfl : l.2.1 = c := by simpa using List.find?_some hfind
      have hmem := List.mem_of_find?_eq_some hfind
      obtain ⟨⟨hsmall, _⟩, hcapital, hspace⟩ := vietnamese_letters l hmem
      have hletter : vietnameseLetter l.2.1 = true := List.any_eq_true.mpr ⟨l, hmem, by simp⟩
      exact .inr ⟨hspace, digit?_eq_none hcapital, by simpa using digit?_eq_none hsmall,
        by simp [hletter]⟩

theorem plain_mark (c : Char) (hc : (c.isAlphanum || c ∈ sigmas || vietnameseLetter c) = false)
    (hunder : c ≠ '_') : plainLower c ≠ [] ∧ ∀ x ∈ plainLower c,
      (x.isAlphanum || x ∈ sigmas || vietnameseLetter x) = false ∧ x ≠ '_' := by
  rcases plainLower_cases c with hsame | ⟨_, _, _, halnum⟩
  · simp only [hsame, List.mem_singleton, forall_eq]
    exact ⟨List.cons_ne_nil _ _, hc, hunder⟩
  · rw [hc] at halnum
    cases halnum

theorem plain_sigma : ('Σ'.isAlphanum || 'Σ' ∈ sigmas || vietnameseLetter 'Σ') = true ∧
    digit? 'Σ' = none ∧ digit? 'σ' = none ∧ digit? 'ς' = none := by
  decide +kernel

def plainData : CharData where
  decimal := digit?
  alnum c := c.isAlphanum || c ∈ sigmas || vietnameseLetter c
  lower := plainLower
  cased _ := false
  caseIgnorable _ := false
  decimal_ascii _ _ := rfl
  alnum_ascii c hc := by
    have hsigma : c ∉ sigmas := by
      intro hmem
      simp only [sigmas, List.mem_cons, List.not_mem_nil, or_false] at hmem
      rcases hmem with rfl | rfl | rfl
      · exact absurd hc (by decide)
      · exact absurd hc (by decide)
      · exact absurd hc (by decide)
    have hletter : vietnameseLetter c = false := by
      rw [vietnameseLetter, List.any_eq_false]
      intro l hl
      obtain ⟨⟨hsmall, _⟩, hcapital, _⟩ := vietnamese_letters l hl
      have hne : l.1 ≠ c ∧ l.2.1 ≠ c := by
        refine ⟨?_, ?_⟩
        · rintro rfl
          omega
        · rintro rfl
          omega
      simp [hne]
    simp [hsigma, hletter]
  lower_ascii c hc := if_pos hc
  lower_vietnamese := by decide +kernel
  lower_decimal c hc := by
    rcases plainLower_cases c with hsame | ⟨_, hnone, _⟩
    · exact hsame
    · exact absurd hnone hc
  lower_other c hc := by
    rcases plainLower_cases c with hsame | ⟨_, _, hlower, _⟩
    · simpa [hsame] using hc
    · exact hlower
  lower_space c hc := by
    rcases plainLower_cases c with hsame | ⟨hspace, _⟩
    · exact hsame
    · rw [hc] at hspace
      cases hspace
  lower_mark := plain_mark
  space_decimal c hc := by
    have hmoney := isMoneyChar_of_isSpace hc
    simp only [isMoneyChar, Bool.or_eq_false_iff] at hmoney
    simpa using hmoney.1.1
  sigma := plain_sigma

end Plain

end Doci
