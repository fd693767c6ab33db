import Doci.Money

/-! The one amount of a text, and when it is what `to_money` returns. -/

namespace Doci

open Numerals Binary64

/-- No decimal separator: no separators at all, or those of thousands. -/
def Whole (first : List Digit) (rest : Groups) : Prop :=
  rest = [] ∨ first.length ≤ 3 ∧ (∀ g ∈ rest, g.2.length = 3) ∧
    ∃ m ∈ [Mark.point, .comma], ∀ k ∈ rest.map Prod.fst, k = m

instance (first : List Digit) (rest : Groups) : Decidable (Whole first rest) :=
  inferInstanceAs (Decidable (_ ∨ _))

/-- Thousands grouped by one separator, decimals behind the other. -/
def WellFormed (first : List Digit) (rest : Groups) : Prop :=
  Whole first rest ∨ ∃ init m g, rest = init ++ [(m, g)] ∧ Whole first init ∧
    ∀ k ∈ init.map Prod.fst, k = m.other

def lastGroup (rest : Groups) : List Digit := (rest.getLast?.map Prod.snd).getD []

def decimalPlaces (first : List Digit) (rest : Groups) : ℕ :=
  if Whole first rest then 0 else (lastGroup rest).length

/-- A text in which all digits belong to one amount. -/
structure OneAmount (s : List Char) where
  before : List Char
  first : List Digit
  rest : Groups
  after : List Char
  text : s = before ++ spell first rest ++ after
  first_ne : first ≠ []
  groups_ne : ∀ g ∈ rest, g.2 ≠ []
  before_plain : ∀ c ∈ before, digit? c = none
  after_plain : ∀ c ∈ after, digit? c = none

def isParenthesis (c : Char) : Bool := c == '(' || c == ')'

def mark? (c : Char) : Option Mark :=
  if c = '.' then some .point else if c = ',' then some .comma else none

def marks (s : List Char) : List Mark := s.filterMap mark?

/-- A minus sign stands in the text: U+2212, or a '-' that is no hyphen. A hyphen comes directly
after a letter and before a letter or a blank, as in "VAT-inclusive". -/
def hasMinus (letter : Char → Bool) (afterLetter : Bool) : List Char → Bool
  | [] => false
  | c :: s =>
    c == '−' || (c == '-' && !(afterLetter && s.head?.any fun d => letter d || isSpace d)) ||
      hasMinus letter (letter c) s

namespace OneAmount

variable {s : List Char}

/-- A minus sign precedes the amount, or parentheses enclose it; `letter` is `str.isalpha`. -/
def Negative (a : OneAmount s) (letter : Char → Bool) : Prop :=
  hasMinus letter false a.before = true ∨ a.before.reverse.find? isParenthesis = some '(' ∧
    a.after.find? isParenthesis = some ')'

instance (a : OneAmount s) (letter : Char → Bool) : Decidable (a.Negative letter) :=
  inferInstanceAs (Decidable (_ ∨ _))

def digits (a : OneAmount s) : List Digit := digitsOf a.first a.rest

def magnitude (a : OneAmount s) : ℚ := value a.digits / 10 ^ decimalPlaces a.first a.rest

def denotes (a : OneAmount s) (letter : Char → Bool) : ℚ :=
  if a.Negative letter then -a.magnitude else a.magnitude

/-- The points and commas around the amount leave its decimal separator where it is. -/
def PointKept (a : OneAmount s) : Prop :=
  if marks a.after = [] then
    marks a.before = [] ∨ ¬ Whole a.first a.rest ∨
      ∃ k, marks a.before = [k] ∧ a.first.length = 3 ∧ ∀ m ∈ a.rest.map Prod.fst, m = k
  else Whole a.first a.rest

def SignKept (a : OneAmount s) (letter : Char → Bool) : Prop :=
  startsNegative s = true ↔ a.Negative letter

end OneAmount

section Marks

variable {s : List Char} {first : List Digit} {rest : Groups} {e : ℕ}

theorem filter_marks (h : ∀ c ∈ s, digit? c = none) :
    s.filter isMoneyChar = (marks s).map Mark.char := by
  induction s with
  | nil => rfl
  | cons c s ih =>
    have hc : digit? c = none := h c List.mem_cons_self
    have htail := ih fun x hx => h x (List.mem_cons_of_mem c hx)
    by_cases hpoint : c = '.'
    · subst hpoint
      have hmark : mark? '.' = some .point := rfl
      simp [marks, isMoneyChar, hmark, Mark.char, htail]
    · by_cases hcomma : c = ','
      · subst hcomma
        have hmark : mark? ',' = some .comma := rfl
        simp [marks, isMoneyChar, hmark, Mark.char, htail]
      · have hmark : mark? c = none := by simp [mark?, hpoint, hcomma]
        simp [marks, isMoneyChar, hc, hpoint, hcomma, hmark, htail]

theorem PointAt.eq_decimalPlaces (h : PointAt first rest e) : e = decimalPlaces first rest := by
  cases h with
  | plain => exact (if_pos (Or.inl rfl)).symm
  | grouped m hne hmarks hfirst hgroups =>
    have hm : m ∈ [Mark.point, .comma] := by cases m <;> decide
    exact (if_pos (Or.inr ⟨hfirst, hgroups, m, hm, hmarks⟩)).symm
  | single m g hnot =>
    have hwhole : ¬ Whole first [(m, g)] := by
      rintro (hnil | ⟨hfirst, hgroups, _⟩)
      · exact absurd hnil (List.cons_ne_nil _ _)
      · exact hnot ⟨hfirst, hgroups _ (List.mem_singleton_self _)⟩
    exact (if_neg hwhole).symm
  | @mixed init m g hne hmarks =>
    have hwhole : ¬ Whole first (init ++ [(m, g)]) := by
      rintro (hnil | ⟨_, _, k, _, hk⟩)
      · simp at hnil
      · exact one_not_mixed hk hne hmarks
    rw [decimalPlaces, if_neg hwhole]
    simp [lastGroup]

end Marks

def leadIn : List Mark → List Digit → Groups → List Digit × Groups
  | [], first, rest => (first, rest)
  | m :: ms, first, rest => ([], (m, (leadIn ms first rest).1) :: (leadIn ms first rest).2)

section LeadIn

variable {ms : List Mark} {first : List Digit} {rest : Groups} {s : List Char} {v : ℚ}

theorem spell_leadIn : spell (leadIn ms first rest).1 (leadIn ms first rest).2 =
    ms.map Mark.char ++ spell first rest := by
  induction ms with
  | nil => rfl
  | cons m ms ih =>
    rw [leadIn, spell_cons, ih]
    rfl

theorem digitsOf_leadIn : digitsOf (leadIn ms first rest).1 (leadIn ms first rest).2 =
    digitsOf first rest := by
  induction ms with
  | nil => rfl
  | cons m ms ih =>
    rw [← ih]
    simp [leadIn, digitsOf]

theorem marks_leadIn (ms : List Mark) (first : List Digit) (rest : Groups) :
    (leadIn ms first rest).2.map Prod.fst = ms ++ rest.map Prod.fst := by
  induction ms with
  | nil => rfl
  | cons m ms ih => simp [leadIn, ih]

theorem leadIn_append (more : Groups) : leadIn ms first (rest ++ more) =
    ((leadIn ms first rest).1, (leadIn ms first rest).2 ++ more) := by
  induction ms with
  | nil => rfl
  | cons m ms ih => simp [leadIn, ih]

theorem mem_leadIn {g : Mark × List Digit} (h : g ∈ rest) : g ∈ (leadIn ms first rest).2 := by
  induction ms with
  | nil => exact h
  | cons m ms ih => exact List.mem_cons_of_mem _ ih

theorem first_mem_leadIn (first : List Digit) (rest : Groups) (h : ms ≠ []) : ∃ m, (m, first) ∈ (leadIn ms first rest).2 := by
  induction ms with
  | nil => exact absurd rfl h
  | cons m ms ih =>
    by_cases hms : ms = []
    · subst hms
      exact ⟨m, List.mem_cons_self⟩
    · obtain ⟨k, hk⟩ := ih hms
      exact ⟨k, List.mem_cons_of_mem _ hk⟩

theorem lastGroup_leadIn (h : ms ≠ []) :
    lastGroup (leadIn ms first rest).2 = if rest = [] then first else lastGroup rest := by
  by_cases hrest : rest = []
  · subst hrest
    rw [if_pos rfl]
    induction ms with
    | nil => exact absurd rfl h
    | cons m ms ih =>
      by_cases hms : ms = []
      · subst hms
        rfl
      · obtain ⟨k, hk⟩ := first_mem_leadIn first [] hms
        have hne : (leadIn ms first []).2 ≠ [] := List.ne_nil_of_mem hk
        have htail := ih hms
        rw [lastGroup] at htail ⊢
        rw [leadIn, List.getLast?_cons_of_ne_nil hne, htail]
  · obtain ⟨init, g, rfl⟩ := List.eq_nil_or_concat' rest |>.resolve_left hrest
    rw [if_neg hrest, leadIn_append]
    simp [lastGroup]

theorem whole_leadIn (hw : Whole first rest) (h : ms ≠ []) :
    Whole (leadIn ms first rest).1 (leadIn ms first rest).2 ↔
      ∃ k, ms = [k] ∧ first.length = 3 ∧ ∀ m ∈ rest.map Prod.fst, m = k := by
  have hmarks := marks_leadIn ms first rest
  match ms, h with
  | [k], _ =>
    have hlead : leadIn [k] first rest = ([], (k, first) :: rest) := rfl
    rw [hlead]
    constructor
    · rintro (hnil | ⟨_, hgroups, m, _, hm⟩)
      · exact absurd hnil (List.cons_ne_nil _ _)
      · obtain rfl : k = m := hm k (by simp)
        exact ⟨k, rfl, hgroups _ List.mem_cons_self, fun j hj => hm j (List.mem_cons_of_mem _ hj)⟩
    · rintro ⟨j, hj, hfirst, hm⟩
      obtain rfl := List.singleton_inj.mp hj
      have hk : k ∈ [Mark.point, .comma] := by cases k <;> decide
      refine .inr ⟨Nat.zero_le 3, ?_, k, hk, ?_⟩
      · intro g hg
        rcases List.mem_cons.mp hg with rfl | hg
        · exact hfirst
        · rcases hw with rfl | ⟨_, hgroups, _⟩
          · cases hg
          · exact hgroups g hg
      · intro m hmem
        rcases List.mem_cons.mp hmem with rfl | hmem
        · rfl
        · exact hm m hmem
  | k :: j :: ms, _ =>
    constructor
    · rintro (hnil | ⟨_, hgroups, _⟩)
      · exact absurd hnil (List.cons_ne_nil _ _)
      · have hempty := hgroups (k, []) List.mem_cons_self
        simp at hempty
    · rintro ⟨_, hone, _⟩
      simp at hone

theorem not_whole_leadIn (hw : ¬ Whole first rest) (h : ms ≠ []) :
    ¬ Whole (leadIn ms first rest).1 (leadIn ms first rest).2 := by
  rintro (hnil | ⟨_, hgroups, m, hm, hmarks⟩)
  · obtain ⟨k, hk⟩ := first_mem_leadIn first rest h
    simp [hnil] at hk
  · obtain ⟨k, hk⟩ := first_mem_leadIn first rest h
    have hfirst : first.length = 3 := hgroups _ hk
    rw [marks_leadIn] at hmarks
    exact hw (.inr ⟨hfirst.le, fun g hg => hgroups g (mem_leadIn hg), m, hm,
      fun j hj => hmarks j (List.mem_append_right _ hj)⟩)

theorem decimalPlaces_leadIn (hfirst : first ≠ []) (hgroups : ∀ g ∈ rest, g.2 ≠ []) (h : ms ≠ []) :
    decimalPlaces (leadIn ms first rest).1 (leadIn ms first rest).2 = decimalPlaces first rest ↔
      ¬ Whole first rest ∨
        ∃ k, ms = [k] ∧ first.length = 3 ∧ ∀ m ∈ rest.map Prod.fst, m = k := by
  by_cases hw : Whole first rest
  · have hlast : lastGroup (leadIn ms first rest).2 ≠ [] := by
      rw [lastGroup_leadIn h]
      split_ifs with hrest
      · exact hfirst
      · obtain ⟨init, g, rfl⟩ := List.eq_nil_or_concat' rest |>.resolve_left hrest
        simpa [lastGroup] using hgroups g (by simp)
    have hpos : (lastGroup (leadIn ms first rest).2).length ≠ 0 :=
      fun hzero => hlast (List.length_eq_zero_iff.mp hzero)
    rw [decimalPlaces, decimalPlaces, if_pos hw, ← whole_leadIn hw h]
    split_ifs with hlead
    · simp [hlead]
    · simp [hw, hlead, hpos]
  · have hrest : rest ≠ [] := fun hnil => hw (.inl hnil)
    rw [decimalPlaces, decimalPlaces, if_neg hw, if_neg (not_whole_leadIn hw h), lastGroup_leadIn h,
      if_neg hrest]
    simp [hw]

theorem decimalPlaces_concat_nil (m : Mark) : decimalPlaces first (rest ++ [(m, [])]) = 0 := by
  unfold decimalPlaces
  split_ifs
  · rfl
  · simp [lastGroup]

theorem spell_concat_marks (first : List Digit) (rest : Groups) (ms : List Mark) :
    spell first (rest ++ ms.map fun m => (m, [])) = spell first rest ++ ms.map Mark.char := by
  rw [spell_append, List.flatMap_map]
  simp [digitChars, List.map_eq_flatMap]

theorem digitsOf_concat_marks (first : List Digit) (rest : Groups) (ms : List Mark) :
    digitsOf first (rest ++ ms.map fun m => (m, [])) = digitsOf first rest := by
  simp [digitsOf, List.flatMap_map]

end LeadIn

namespace OneAmount

variable {s : List Char} {letter : Char → Bool}

def around (a : OneAmount s) : List Digit × Groups :=
  leadIn (marks a.before) a.first (a.rest ++ (marks a.after).map fun m => (m, []))

theorem filter_text (a : OneAmount s) : s.filter isMoneyChar = spell a.around.1 a.around.2 := by
  conv_lhs => rw [a.text]
  rw [List.filter_append, List.filter_append, filter_marks a.before_plain,
    filter_marks a.after_plain, filter_spelled, around, spell_leadIn, spell_concat_marks,
    List.append_assoc]

theorem digitsOf_around (a : OneAmount s) : digitsOf a.around.1 a.around.2 = a.digits := by
  rw [around, digitsOf_leadIn, digitsOf_concat_marks]
  rfl

theorem pointKept_iff (a : OneAmount s) :
    decimalPlaces a.around.1 a.around.2 = decimalPlaces a.first a.rest ↔ a.PointKept := by
  unfold PointKept around
  by_cases hafter : marks a.after = []
  · rw [if_pos hafter, hafter, List.map_nil, List.append_nil]
    by_cases hbefore : marks a.before = []
    · simp [hbefore, leadIn]
    · rw [decimalPlaces_leadIn a.first_ne a.groups_ne hbefore]
      simp [hbefore]
  · obtain ⟨init, m, hconcat⟩ := List.eq_nil_or_concat' (marks a.after) |>.resolve_left hafter
    have hplaces : ∀ ms, decimalPlaces
        (leadIn ms a.first (a.rest ++ (marks a.after).map fun m => (m, []))).1
        (leadIn ms a.first (a.rest ++ (marks a.after).map fun m => (m, []))).2 = 0 := by
      intro ms
      rw [hconcat, List.map_append, ← List.append_assoc, leadIn_append]
      exact decimalPlaces_concat_nil m
    have hlast : ¬ Whole a.first a.rest → decimalPlaces a.first a.rest ≠ 0 := by
      intro hw hzero
      have hne : a.rest ≠ [] := fun hnil => hw (.inl hnil)
      obtain ⟨init, g, hrest⟩ := List.eq_nil_or_concat' a.rest |>.resolve_left hne
      have hg : g.2 ≠ [] := a.groups_ne g (by simp [hrest])
      rw [decimalPlaces, if_neg hw, hrest] at hzero
      simp [lastGroup, hg] at hzero
    rw [if_neg hafter, hplaces]
    constructor
    · intro hzero
      by_contra hw
      exact hlast hw hzero.symm
    · intro hw
      exact (if_pos hw).symm

/-- The number that the code reads in the text, before `float` rounds it. -/
def reading (a : OneAmount s) : ℚ :=
  if startsNegative s then -((value a.digits : ℚ) / 10 ^ decimalPlaces a.around.1 a.around.2)
  else (value a.digits : ℚ) / 10 ^ decimalPlaces a.around.1 a.around.2

theorem eq_of_textToMoney {v : Double} (a : OneAmount s) (h : textToMoney s = some v) :
    v = Double.round a.reading := by
  rw [textToMoney_eq] at h
  by_cases hnil : s.filter isMoneyChar = []
  · rw [if_pos hnil] at h
    cases h
  rw [if_neg hnil] at h
  obtain ⟨w, hw, hv⟩ := Option.map_eq_some_iff.mp h
  rw [a.filter_text, read_spell, a.digitsOf_around] at hw
  obtain ⟨_, e, he, rfl⟩ := hw
  rw [← hv, he.eq_decimalPlaces, reading]
  by_cases hneg : startsNegative s = true
  · rw [if_pos hneg, Double.round_neg, hneg]
    rfl
  · rw [if_neg hneg, Bool.eq_false_iff.mpr hneg]
    rfl

theorem pos_of_value_ne {ds : List Digit} (h : value ds ≠ 0) (e : ℕ) : 0 < (value ds : ℚ) / 10 ^ e := by
  have hvalue : (0 : ℚ) < value ds := by exact_mod_cast Nat.pos_of_ne_zero h
  positivity

theorem reading_eq_iff (a : OneAmount s) :
    a.reading = a.denotes letter ↔ value a.digits = 0 ∨ a.PointKept ∧ a.SignKept letter := by
  rw [← a.pointKept_iff, SignKept, reading, denotes, magnitude]
  by_cases hzero : value a.digits = 0
  · simp [hzero]
  · have hpos := pos_of_value_ne hzero
    have hinj : ∀ e f : ℕ, (value a.digits : ℚ) / 10 ^ e = (value a.digits : ℚ) / 10 ^ f ↔ e = f := by
      intro e f
      constructor
      · intro heq
        have hvalue : (value a.digits : ℚ) ≠ 0 := Nat.cast_ne_zero.mpr hzero
        have hpow : ∀ e : ℕ, (10 : ℚ) ^ e ≠ 0 := fun e => by positivity
        rw [div_eq_div_iff (hpow e) (hpow f), mul_right_inj' hvalue] at heq
        exact (pow_right_injective₀ (by norm_num) (by norm_num) heq).symm
      · rintro rfl
        rfl
    have hcross : ∀ e f : ℕ, (value a.digits : ℚ) / 10 ^ e ≠ -((value a.digits : ℚ) / 10 ^ f) :=
      fun e f => ((neg_lt_zero.mpr (hpos f)).trans (hpos e)).ne'
    by_cases hcodeneg : startsNegative s = true
    · by_cases hneg : a.Negative letter
      · simp [hcodeneg, hneg, hinj, hzero]
      · simp [hcodeneg, hneg, (hcross _ _).symm, hzero]
    · by_cases hneg : a.Negative letter
      · simp [hcodeneg, hneg, hcross, hzero]
      · simp [hcodeneg, hneg, hinj, hzero]

theorem tenfold {ds : List Digit} {e f : ℕ} (hlt : e < f) :
    10 * ((value ds : ℚ) / 10 ^ f) ≤ (value ds : ℚ) / 10 ^ e := by
  have hpow : (10 : ℚ) * 10 ^ e ≤ 10 ^ f := by
    rw [← pow_succ']
    exact pow_le_pow_right₀ (by norm_num) hlt
  have he : (0 : ℚ) < 10 ^ e := by positivity
  have hf : (0 : ℚ) < 10 ^ f := by positivity
  rw [mul_div_assoc', div_le_div_iff₀ hf he]
  have hvalue : (0 : ℚ) ≤ value ds := Nat.cast_nonneg _
  nlinarith

/-- Rounding does not bring a wrong reading to the amount. -/
theorem reading_eq_of_nearest (a : OneAmount s) (h : nearest a.reading = a.denotes letter) :
    a.reading = a.denotes letter := by
  by_cases hzero : value a.digits = 0
  · exact a.reading_eq_iff.mpr (.inl hzero)
  have hpos := pos_of_value_ne hzero
  have hne : nearest a.reading ≠ 0 := by
    rw [h, denotes, magnitude]
    split_ifs
    · exact neg_ne_zero.mpr (hpos _).ne'
    · exact (hpos _).ne'
  have hnear := abs_nearest_sub_le hne
  rw [h, reading, denotes, magnitude] at hnear
  rw [reading, denotes, magnitude]
  have hcode := hpos (decimalPlaces a.around.1 a.around.2)
  have hamount := hpos (decimalPlaces a.first a.rest)
  -- of one sign the two are equal or one is ten times the other
  have hclose : |(value a.digits : ℚ) / 10 ^ decimalPlaces a.first a.rest -
      (value a.digits : ℚ) / 10 ^ decimalPlaces a.around.1 a.around.2| ≤
        (value a.digits : ℚ) / 10 ^ decimalPlaces a.first a.rest / 2 →
      (value a.digits : ℚ) / 10 ^ decimalPlaces a.around.1 a.around.2 =
        (value a.digits : ℚ) / 10 ^ decimalPlaces a.first a.rest := by
    intro hle
    obtain ⟨hlow, hhigh⟩ := abs_le.mp hle
    rcases lt_trichotomy (decimalPlaces a.around.1 a.around.2) (decimalPlaces a.first a.rest) with
      hlt | heq | hgt
    · have hten := @tenfold a.digits _ _ hlt
      linarith
    · rw [heq]
    · have hten := @tenfold a.digits _ _ hgt
      linarith
  by_cases hcodeneg : startsNegative s = true
  · by_cases hneg : a.Negative letter
    · rw [if_pos hcodeneg, if_pos hneg, neg_sub_neg, abs_sub_comm, abs_neg, abs_of_pos hamount] at hnear
      rw [if_pos hcodeneg, if_pos hneg, hclose hnear]
    · rw [if_pos hcodeneg, if_neg hneg, abs_of_pos hamount, sub_neg_eq_add,
        abs_of_pos (add_pos hamount hcode)] at hnear
      linarith
  · by_cases hneg : a.Negative letter
    · rw [if_neg hcodeneg, if_pos hneg, abs_neg, abs_of_pos hamount, ← neg_add', abs_neg,
        abs_of_pos (add_pos hamount hcode)] at hnear
      linarith
    · rw [if_neg hcodeneg, if_neg hneg, abs_of_pos hamount] at hnear
      rw [if_neg hcodeneg, if_neg hneg, hclose hnear]

theorem value_eq_iff {v : Double} (a : OneAmount s) (h : textToMoney s = some v) :
    v.value? = some (a.denotes letter) ↔
      value a.digits = 0 ∨ a.PointKept ∧ a.SignKept letter ∧ IsDouble (a.denotes letter) := by
  rw [a.eq_of_textToMoney h]
  constructor
  · intro hvalue
    cases hround : Double.round a.reading with
    | finite q hq =>
      rw [hround] at hvalue
      obtain rfl : q = a.denotes letter := Option.some.inj hvalue
      have hnearest := Double.round_eq_finite hround
      rcases a.reading_eq_iff.mp (a.reading_eq_of_nearest hnearest) with hzero | ⟨hpoint, hsign⟩
      · exact .inl hzero
      · exact .inr ⟨hpoint, hsign, hq⟩
    | inf negative =>
      rw [hround] at hvalue
      cases hvalue
    | nan =>
      rw [hround] at hvalue
      cases hvalue
  · intro hkept
    have hdouble : IsDouble (a.denotes letter) := by
      rcases hkept with hzero | ⟨_, _, hdouble⟩
      · have hdenotes : a.denotes letter = 0 := by simp [denotes, magnitude, hzero]
        rw [hdenotes]
        exact isDouble_zero
      · exact hdouble
    have hreading : a.reading = a.denotes letter :=
      a.reading_eq_iff.mpr (hkept.imp_right fun h => ⟨h.1, h.2.1⟩)
    rw [hreading, Double.round_of_isDouble hdouble]
    rfl

theorem not_split {l r : List Char} {c : Char} (a : OneAmount (l ++ c :: r))
    (hc : isMoneyChar c = false) (hl : ∃ d ∈ l, digit? d ≠ none) (hr : ∃ d ∈ r, digit? d ≠ none) :
    False := by
  have htext : l ++ c :: r = a.before ++ (spell a.first a.rest ++ a.after) := by
    rw [← List.append_assoc]
    exact a.text
  have hmem := mem_middle htext (fun x hx hne => hne (a.before_plain x hx))
    (fun x hx hne => hne (a.after_plain x hx)) hl hr
  have hmoney := List.of_mem_filter (filter_spelled a.first a.rest ▸ hmem)
  exact absurd hmoney (by simp [hc])

end OneAmount

/-- Between two numbers of the format the even one is returned. -/
example : toMoney (.text "9007199254740993") = .ok (some (Double.round 9007199254740992)) := by
  decide +kernel

def digitsIn (s : String) : List Digit := s.toList.filterMap digit?

/-- `27,540,000.50` behind its first group. -/
def inclusiveGroups : Groups :=
  [(.comma, digitsIn "540"), (.comma, digitsIn "000"), (.point, digitsIn "50")]

theorem text_inclusive : "VAT-inclusive: 27,540,000.50 đ".toList =
    "VAT-inclusive: ".toList ++ spell (digitsIn "27") inclusiveGroups ++ [' ', 'đ'] := by
  decide +kernel

theorem first_inclusive : digitsIn "27" ≠ [] := by
  decide +kernel

theorem groups_inclusive : ∀ g ∈ inclusiveGroups, g.2 ≠ [] := by
  decide +kernel

theorem before_inclusive : ∀ c ∈ "VAT-inclusive: ".toList, digit? c = none := by
  simp [digit?]

theorem after_inclusive : ∀ c ∈ [' ', 'đ'], digit? c = none := by
  simp [digit?]

def inclusive : OneAmount "VAT-inclusive: 27,540,000.50 đ".toList :=
  ⟨"VAT-inclusive: ".toList, digitsIn "27", inclusiveGroups, [' ', 'đ'], text_inclusive,
    first_inclusive, groups_inclusive, before_inclusive, after_inclusive⟩

end Doci
