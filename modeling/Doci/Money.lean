import Mathlib
import Doci.Binary64
import Doci.Numerals

/-! `to_money`, over any type of floats: the exact number that a text is read as goes through `float`. -/

namespace Doci

open Numerals Binary64

/-- The characters that `str.strip` removes. -/
def isSpace (c : Char) : Bool :=
  let n := c.toNat
  (9 ≤ n && n ≤ 13) || (28 ≤ n && n ≤ 32) || n == 0x85 || n == 0xa0 || n == 0x1680 ||
    (0x2000 ≤ n && n ≤ 0x200a) || n == 0x2028 || n == 0x2029 || n == 0x202f || n == 0x205f ||
    n == 0x3000

def strip (s : List Char) : List Char :=
  ((s.dropWhile isSpace).reverse.dropWhile isSpace).reverse

/-- `text` is what `str` makes of any other value. -/
inductive ToolValue (α : Type) where
  | none
  | int (n : ℤ)
  | float (x : α)
  | text (s : String)

/-- A character that `[^0-9.,]` does not match. -/
def isMoneyChar (c : Char) : Bool := (digit? c).isSome || c == '.' || c == ','

/-- `str.rfind` of one character. -/
def rfind (c : Char) (s : List Char) : Int :=
  if c ∈ s then (s.length : Int) - 1 - s.reverse.idxOf c else -1

/-- At most three digits, then groups of three. -/
def thousandsGrouping (parts : List (List Char)) : Bool :=
  1 < parts.length && (parts.headD []).length ≤ 3 && parts.tail.all fun p => p.length = 3

/-- The separators brought to the form that `float` reads. -/
def separatorsRead (s : List Char) : List Char :=
  if ',' ∈ s ∧ '.' ∈ s then
    if rfind ',' s > rfind '.' s then
      (s.filter (· ≠ '.')).map fun c => if c = ',' then '.' else c
    else s.filter (· ≠ ',')
  else if ',' ∈ s then
    if thousandsGrouping (s.splitOn ',') then s.filter (· ≠ ',')
    else s.map fun c => if c = ',' then '.' else c
  else if '.' ∈ s then
    if thousandsGrouping (s.splitOn '.') then s.filter (· ≠ '.') else s
  else s

/-- Digits before and after the point, at least one of them. -/
def decimalNumber (whole fraction : List Char) : Option ℚ := do
  let digits ← (whole ++ fraction).mapM digit?
  if digits = [] then none else some (value digits / 10 ^ fraction.length)

/-- The number that `float` reads in a text of digits and points. -/
def floatOf (s : List Char) : Option ℚ :=
  match s.splitOn '.' with
  | [whole] => decimalNumber whole []
  | [whole, fraction] => decimalNumber whole fraction
  | _ => none

def startsNegative (s : List Char) : Bool :=
  (strip s).head? = some '-' || (strip s).head? = some '('

section Floats

variable {α : Type} [FloatOps α]

def signed (negative : Bool) (q : ℚ) : α :=
  let f : α := FloatOps.ofRat q
  if negative then FloatOps.neg f else f

def textToMoney (text : List Char) : Option α :=
  let s := (strip text).filter isMoneyChar
  if s = [] then none
  else (floatOf (separatorsRead s)).map (signed (startsNegative text))

/-- An `OverflowError` is raised. -/
def toMoney : ToolValue α → Except String (Option α)
  | .none => .ok none
  | .int n =>
    match (FloatOps.ofInt n : Option α) with
    | some x => .ok (some x)
    | none => .error "int too large to convert to float"
  | .float x => .ok (some x)
  | .text s => .ok (textToMoney s.toList)

/-- The reply of `parse_money`. -/
def parseMoney (repr : String → String) (v : String) : Except String α :=
  match textToMoney v.toList with
  | none => .error ("could not parse " ++ repr v ++
      " as money. Pass the numeric amount, e.g. 27540000 or '27,540,000 VNĐ'.")
  | some n => .ok n

example : toMoney (.text "27,540,000 VNĐ") = .ok (some (27540000 : ℚ)) := by decide +kernel

end Floats

theorem isMoneyChar_of_isSpace {c : Char} (h : isSpace c = true) : isMoneyChar c = false := by
  have hpoint : '.'.toNat = 46 := rfl
  have hcomma : ','.toNat = 44 := rfl
  simp only [isSpace, Bool.or_eq_true, Bool.and_eq_true, decide_eq_true_eq, beq_iff_eq] at h
  have hdigit : digit? c = none := dif_neg (by omega)
  have hne : c ≠ '.' ∧ c ≠ ',' := by
    refine ⟨?_, ?_⟩
    · rintro rfl
      omega
    · rintro rfl
      omega
  simp [isMoneyChar, hdigit, hne]

theorem filter_dropWhile (s : List Char) :
    (s.dropWhile isSpace).filter isMoneyChar = s.filter isMoneyChar := by
  induction s with
  | nil => rfl
  | cons c s ih =>
    by_cases hc : isSpace c = true
    · rw [List.dropWhile_cons_of_pos hc, ih, List.filter_cons_of_neg (by simp [isMoneyChar_of_isSpace hc])]
    · rw [List.dropWhile_cons_of_neg hc]

theorem filter_strip (s : List Char) : (strip s).filter isMoneyChar = s.filter isMoneyChar := by
  rw [strip, List.filter_reverse, filter_dropWhile, List.filter_reverse, List.reverse_reverse,
    filter_dropWhile]

theorem textToMoney_eq {α : Type} [FloatOps α] (s : List Char) : (textToMoney s : Option α) =
    if s.filter isMoneyChar = [] then none
    else (floatOf (separatorsRead (s.filter isMoneyChar))).map (signed (startsNegative s)) := by
  rw [textToMoney, filter_strip]

theorem filter_spelled (first : List Digit) (rest : Groups) :
    (spell first rest).filter isMoneyChar = spell first rest := by
  have hdigit : ∀ d, isMoneyChar (digitChar d) = true := by simp [isMoneyChar, digit?_digitChar]
  have hmark : ∀ m : Mark, isMoneyChar m.char = true := fun m => by cases m <;> decide
  rw [List.filter_eq_self]
  intro c hc
  simp only [spell, List.mem_append, digitChars, List.mem_map, List.mem_flatMap, List.mem_cons] at hc
  rcases hc with ⟨d, _, rfl⟩ | ⟨g, _, rfl | ⟨d, _, rfl⟩⟩
  · exact hdigit d
  · exact hmark g.1
  · exact hdigit d

section Reading

/-- Where the point stands that the code infers: the number of digits behind it. -/
inductive PointAt (first : List Digit) : Groups → ℕ → Prop
  | plain : PointAt first [] 0
  | grouped {rest : Groups} (m : Mark) (hne : rest ≠ []) (hmarks : ∀ k ∈ rest.map Prod.fst, k = m)
    (hfirst : first.length ≤ 3) (hgroups : ∀ g ∈ rest, g.2.length = 3) : PointAt first rest 0
  | single (m : Mark) (g : List Digit) (h : ¬ (first.length ≤ 3 ∧ g.length = 3)) :
    PointAt first [(m, g)] g.length
  | mixed {init : Groups} (m : Mark) (g : List Digit) (hne : init ≠ [])
    (hmarks : ∀ k ∈ init.map Prod.fst, k = m.other) : PointAt first (init ++ [(m, g)]) g.length

variable {first : List Digit} {rest init : Groups} {m : Mark} {g : List Digit} {v : ℚ}

theorem decimalNumber_digitChars (whole fraction : List Digit) :
    decimalNumber (digitChars whole) (digitChars fraction) =
      if whole ++ fraction = [] then none
      else some ((value (whole ++ fraction) : ℚ) / 10 ^ fraction.length) := by
  rw [decimalNumber, ← digitChars_append, mapM_digit?, length_digitChars]
  rfl

theorem floatOf_spell (h : ∀ k ∈ rest.map Prod.fst, k = .point) :
    floatOf (spell first rest) = some v ↔ digitsOf first rest ≠ [] ∧
      (rest = [] ∧ v = value first ∨
        ∃ g, rest = [(.point, g)] ∧ v = (value (first ++ g) : ℚ) / 10 ^ g.length) := by
  unfold floatOf
  rw [show '.' = Mark.point.char from rfl, splitOn_spell h]
  match rest, h with
  | [], _ =>
    have hnil : decimalNumber (digitChars first) [] =
        if first ++ [] = [] then none else some ((value (first ++ []) : ℚ) / 10 ^ 0) :=
      decimalNumber_digitChars first []
    simp only [List.map_nil, hnil, List.append_nil, pow_zero, div_one]
    by_cases hfirst : first = []
    · simp [hfirst, digitsOf]
    · simp [hfirst, digitsOf, eq_comm]
  | [(k, g)], h =>
    obtain rfl : k = .point := h k (by simp)
    simp only [List.map_cons, List.map_nil, decimalNumber_digitChars]
    by_cases hdigits : first ++ g = []
    · simp [hdigits, digitsOf]
    · simp only [hdigits, if_false, Option.some.injEq]
      simp [digitsOf, eq_comm, hdigits]
  | _ :: _ :: _, _ => simp

theorem rfind_last (x : List Char) {y : List Char} {a : Char} (h : a ∉ y) :
    rfind a (x ++ a :: y) = x.length := by
  have hidx : (x ++ a :: y).reverse.idxOf a = y.length := by
    have hnot : a ∉ y.reverse := by simpa using h
    simp [List.idxOf_append, hnot]
  rw [rfind, if_pos (by simp), hidx]
  simp
  omega

theorem rfind_lt {x z : List Char} {b : Char} (h : b ∉ z) : rfind b (x ++ z) < x.length := by
  unfold rfind
  split_ifs
  · have hnot : b ∉ z.reverse := by simpa using h
    have hidx : z.length ≤ (x ++ z).reverse.idxOf b := by
      simp [List.idxOf_append, hnot]
    rw [List.length_append]
    omega
  · omega

theorem rfind_spell (first : List Digit) (init : Groups) (m : Mark) (g : List Digit) :
     rfind m.other.char (spell first (init ++ [(m, g)])) <
    rfind m.char (spell first (init ++ [(m, g)])) := by
  have hspell : spell first (init ++ [(m, g)]) = spell first init ++ m.char :: digitChars g := by
    simp [spell_append]
  have hother : m.other.char ∉ m.char :: digitChars g := by
    have hne : m.other.char ≠ m.char := by cases m <;> decide
    simp [hne, mark_not_mem_digitChars]
  rw [hspell, rfind_last _ (mark_not_mem_digitChars m g)]
  exact rfind_lt hother

def pointed (rest : Groups) : Groups := rest.map fun g => (.point, g.2)

theorem marks_pointed (rest : Groups) : ∀ k ∈ (pointed rest).map Prod.fst, k = .point := by
  intro k hk
  simp only [pointed, List.map_map, List.mem_map, Function.comp_apply] at hk
  obtain ⟨_, _, rfl⟩ := hk
  rfl

theorem digitsOf_pointed : digitsOf first (pointed rest) = digitsOf first rest := by
  simp [digitsOf, pointed, List.flatMap_map]

theorem spell_pointed (h : ∀ k ∈ rest.map Prod.fst, k = .point) :
    spell first (pointed rest) = spell first rest := by
  have heq : pointed rest = rest := by
    conv_rhs => rw [← List.map_id rest]
    apply List.map_congr_left
    rintro ⟨k, g⟩ hg
    rw [h k (List.mem_map_of_mem (f := Prod.fst) hg)]
    rfl
  rw [heq]

theorem map_spell : (spell first rest).map (fun c => if c = ',' then '.' else c) =
    spell first (pointed rest) := by
  have hdigits : ∀ g, (digitChars g).map (fun c => if c = ',' then '.' else c) = digitChars g := by
    intro g
    simp only [digitChars, List.map_map]
    exact List.map_congr_left fun d _ => if_neg (digitChar_ne_mark d .comma)
  induction rest generalizing first with
  | nil => simpa [pointed] using hdigits first
  | cons a rest ih =>
    obtain ⟨k, g⟩ := a
    rw [spell_cons, List.map_append, hdigits, List.map_cons, ih]
    have hchar : (if k.char = ',' then '.' else k.char) = Mark.point.char := by cases k <;> decide
    rw [hchar, ← spell_cons first (Mark.point, g)]
    rfl

theorem thousandsGrouping_spell (first : List Digit) (h : ∀ k ∈ rest.map Prod.fst, k = m) (hne : rest ≠ []) :
    thousandsGrouping ((spell first rest).splitOn m.char) = true ↔
      first.length ≤ 3 ∧ ∀ g ∈ rest, g.2.length = 3 := by
  have hpos : 0 < rest.length := List.length_pos_of_ne_nil hne
  rw [splitOn_spell h]
  simp [thousandsGrouping, length_digitChars, hpos]

theorem separatorsRead_one (h : ∀ k ∈ rest.map Prod.fst, k = m) (hne : rest ≠ []) :
    separatorsRead (spell first rest) =
      if thousandsGrouping ((spell first rest).splitOn m.char) then digitChars (digitsOf first rest)
      else spell first (pointed rest) := by
  have hfilter : (spell first rest).filter (· ≠ m.char) = digitChars (digitsOf first rest) := by
    rw [filter_spell, merge_all h, spell_nil]
  obtain ⟨a, rest, rfl⟩ := List.exists_cons_of_ne_nil hne
  have hmem : m.char ∈ spell first (a :: rest) := by
    rw [mark_mem_spell, ← h a.1 (by simp)]
    simp
  have hother : m.other.char ∉ spell first (a :: rest) := by
    rw [mark_mem_spell]
    intro hk
    cases m <;> cases h _ hk
  unfold separatorsRead
  cases m with
  | comma =>
    have hpoint : '.' ∉ spell first (a :: rest) := hother
    have hcomma : ',' ∈ spell first (a :: rest) := hmem
    have hfilter : (spell first (a :: rest)).filter (· ≠ ',') = _ := hfilter
    rw [if_neg (fun hboth => hpoint hboth.2), if_pos hcomma, map_spell, hfilter]
    rfl
  | point =>
    have hpoint : '.' ∈ spell first (a :: rest) := hmem
    have hcomma : ',' ∉ spell first (a :: rest) := hother
    have hfilter : (spell first (a :: rest)).filter (· ≠ '.') = _ := hfilter
    rw [if_neg (fun hboth => hcomma hboth.1), if_neg hcomma, if_pos hpoint, spell_pointed h, hfilter]
    rfl

theorem separatorsRead_both (h : m.other ∈ init.map Prod.fst) :
    separatorsRead (spell first (init ++ [(m, g)])) =
      spell (merge m.other first (init ++ [(m, g)])).1
        (pointed (merge m.other first (init ++ [(m, g)])).2) := by
  have hmem : m.char ∈ spell first (init ++ [(m, g)]) := by simp [mark_mem_spell]
  have hother : m.other.char ∈ spell first (init ++ [(m, g)]) := by
    rw [mark_mem_spell, List.map_append]
    exact List.mem_append_left _ h
  have hlast := rfind_spell first init m g
  have hfilter := filter_spell m.other first (init ++ [(m, g)])
  unfold separatorsRead
  cases m with
  | comma =>
    have hlast : rfind ',' (spell first (init ++ [(.comma, g)])) >
        rfind '.' (spell first (init ++ [(.comma, g)])) := hlast
    rw [if_pos ⟨hmem, hother⟩, if_pos hlast, ← map_spell, ← hfilter]
    rfl
  | point =>
    have hlast : ¬ rfind ',' (spell first (init ++ [(.point, g)])) >
        rfind '.' (spell first (init ++ [(.point, g)])) := not_lt.mpr hlast.le
    rw [if_pos ⟨hother, hmem⟩, if_neg hlast, spell_pointed, ← hfilter]
    · rfl
    · rw [length_merge]
      intro k hk
      have hne : k ≠ Mark.point.other := by simpa using (List.mem_filter.mp hk).2
      exact Mark.ne_iff.mp hne

theorem digitsOf_concat : digitsOf first (init ++ [(m, g)]) = digitsOf first init ++ g := by
  simp [digitsOf]

theorem marks_cases (hne : rest ≠ []) : (∃ m, ∀ k ∈ rest.map Prod.fst, k = m) ∨
    ∃ init m g, rest = init ++ [(m, g)] ∧ m.other ∈ init.map Prod.fst := by
  obtain ⟨init, ⟨m, g⟩, rfl⟩ := List.eq_nil_or_concat' rest |>.resolve_left hne
  by_cases h : m.other ∈ init.map Prod.fst
  · exact .inr ⟨init, m, g, rfl, h⟩
  · refine .inl ⟨m, fun k hk => ?_⟩
    by_contra hkm
    obtain rfl : k = m.other := Mark.ne_iff.mp hkm
    rw [List.map_append, List.mem_append] at hk
    rcases hk with hk | hk
    · exact h hk
    · cases m <;> simp [Mark.other] at hk

theorem one_not_mixed {k : Mark} (h : ∀ j ∈ (init ++ [(k, g)]).map Prod.fst, j = m) (hinit : init ≠ [])
    (hmarks : ∀ j ∈ init.map Prod.fst, j = k.other) : False := by
  obtain ⟨a, init, rfl⟩ := List.exists_cons_of_ne_nil hinit
  have hlast : k = m := h k (by simp)
  have hhead : a.1 = k.other := hmarks a.1 (by simp)
  have hhead' : a.1 = m := h a.1 (by simp)
  subst hlast
  cases k <;> simp [hhead', Mark.other] at hhead

theorem read_plain : floatOf (separatorsRead (spell first [])) = some v ↔
    digitsOf first [] ≠ [] ∧ ∃ e, PointAt first [] e ∧ v = (value (digitsOf first []) : ℚ) / 10 ^ e := by
  have hsame : separatorsRead (spell first []) = spell first [] := by
    have hnot : ∀ m : Mark, m.char ∉ spell first [] := fun m => by simp only [mark_mem_spell]; simp
    have hcomma : ',' ∉ spell first [] := hnot .comma
    have hpoint : '.' ∉ spell first [] := hnot .point
    rw [separatorsRead, if_neg (fun hboth => hcomma hboth.1), if_neg hcomma, if_neg hpoint]
  have hpoint : ∀ e, PointAt first [] e ↔ e = 0 := by
    intro e
    constructor
    · intro h
      generalize hrest : ([] : Groups) = rest at h
      cases h with
      | plain => rfl
      | grouped _ _ _ _ _ => rfl
      | single m g _ => simp at hrest
      | mixed m g _ _ => simp at hrest
    · rintro rfl
      exact .plain
  rw [hsame, floatOf_spell (by simp)]
  simp [hpoint, digitsOf]

theorem read_one (h : ∀ k ∈ rest.map Prod.fst, k = m) (hne : rest ≠ []) :
    floatOf (separatorsRead (spell first rest)) = some v ↔
      digitsOf first rest ≠ [] ∧
        ∃ e, PointAt first rest e ∧ v = (value (digitsOf first rest) : ℚ) / 10 ^ e := by
  have hgrouping := thousandsGrouping_spell first h hne
  rw [separatorsRead_one h hne]
  by_cases hgrouped : first.length ≤ 3 ∧ ∀ g ∈ rest, g.2.length = 3
  · rw [if_pos (hgrouping.mpr hgrouped)]
    have hpoint : ∀ e, PointAt first rest e ↔ e = 0 := by
      intro e
      constructor
      · intro hp
        cases hp with
        | plain => rfl
        | grouped _ _ _ _ _ => rfl
        | single k g hnot => exact absurd ⟨hgrouped.1, hgrouped.2 _ (List.mem_singleton_self _)⟩ hnot
        | mixed k g hinit hmarks => exact (one_not_mixed h hinit hmarks).elim
      · rintro rfl
        exact .grouped m hne h hgrouped.1 hgrouped.2
    have hspell : digitChars (digitsOf first rest) = spell (digitsOf first rest) [] := by simp
    rw [hspell, floatOf_spell (by simp)]
    simp [hpoint, digitsOf]
  · rw [if_neg (mt hgrouping.mp hgrouped), floatOf_spell (marks_pointed rest), digitsOf_pointed]
    refine and_congr_right fun _ => ⟨?_, ?_⟩
    · rintro (⟨hnil, _⟩ | ⟨g, hone, rfl⟩)
      · exact absurd (List.map_eq_nil_iff.mp hnil) hne
      · obtain ⟨⟨k, g'⟩, rfl, hg⟩ := List.map_eq_singleton_iff.mp hone
        obtain rfl : g' = g := (Prod.mk.inj hg).2
        refine ⟨_, .single k g' fun hthree => hgrouped ⟨hthree.1, by simpa using hthree.2⟩, ?_⟩
        simp [digitsOf]
    · rintro ⟨e, hp, rfl⟩
      cases hp with
      | plain => exact absurd rfl hne
      | grouped _ _ _ hfirst hgroups => exact absurd ⟨hfirst, hgroups⟩ hgrouped
      | single k g _ => exact .inr ⟨g, rfl, by simp [digitsOf]⟩
      | mixed k g hinit hmarks => exact (one_not_mixed h hinit hmarks).elim

theorem read_both (h : m.other ∈ init.map Prod.fst) :
    floatOf (separatorsRead (spell first (init ++ [(m, g)]))) = some v ↔
      digitsOf first (init ++ [(m, g)]) ≠ [] ∧ ∃ e, PointAt first (init ++ [(m, g)]) e ∧
        v = (value (digitsOf first (init ++ [(m, g)])) : ℚ) / 10 ^ e := by
  have hinit : init ≠ [] := by
    rintro rfl
    simp at h
  have hback : m.other.other = m := by cases m <;> rfl
  rw [separatorsRead_both h]
  by_cases hall : ∀ k ∈ init.map Prod.fst, k = m.other
  · have hmerge := merge_append_other first g hall
    rw [hback] at hmerge
    have hpoint : ∀ e, PointAt first (init ++ [(m, g)]) e ↔ e = g.length := by
      intro e
      constructor
      · intro hp
        generalize hrest : init ++ [(m, g)] = rest at hp
        cases hp with
        | plain => simp at hrest
        | grouped k _ hk _ _ => exact (one_not_mixed (hrest ▸ hk) hinit hall).elim
        | single k g' _ =>
          have hlen := congrArg List.length hrest
          simp [hinit] at hlen
        | mixed k g' _ _ =>
          obtain ⟨_, hlast⟩ := List.append_inj' hrest rfl
          obtain ⟨_, rfl⟩ := Prod.mk.inj (List.singleton_inj.mp hlast)
          rfl
      · rintro rfl
        exact .mixed m g hinit hall
    rw [hmerge, floatOf_spell (marks_pointed _), digitsOf_pointed, digitsOf_concat]
    simp [hpoint, pointed, digitsOf]
  · have hleft : ¬ ∃ e, PointAt first (init ++ [(m, g)]) e := by
      rintro ⟨e, hp⟩
      generalize hrest : init ++ [(m, g)] = rest at hp
      cases hp with
      | plain => simp at hrest
      | grouped k _ hk _ _ =>
        have hlast : m = k := hk m (by simp [← hrest])
        have hother : m.other = k := hk m.other (by
          rw [← hrest, List.map_append]
          exact List.mem_append_left _ h)
        rw [← hlast] at hother
        cases m <;> cases hother
      | single k g' _ =>
        have hlen := congrArg List.length hrest
        simp [hinit] at hlen
      | mixed k g' _ hk =>
        obtain ⟨rfl, hlast⟩ := List.append_inj' hrest rfl
        obtain ⟨rfl, _⟩ := Prod.mk.inj (List.singleton_inj.mp hlast)
        exact hall hk
    have hmarks := length_merge m.other first (init ++ [(m, g)])
    have hlong : 1 < (pointed (merge m.other first (init ++ [(m, g)])).2).length := by
      have hlen := congrArg List.length hmarks
      obtain ⟨k, hk, hkm⟩ : ∃ k ∈ init.map Prod.fst, k ≠ m.other := by simpa using hall
      have hpos : 0 < ((init.map Prod.fst).filter (· ≠ m.other)).length :=
        List.length_pos_of_mem (List.mem_filter.mpr ⟨hk, by simpa using hkm⟩)
      have hne : m ≠ m.other := by cases m <;> decide
      simp only [List.length_map, List.map_append, List.filter_append, List.length_append,
        List.map_cons, List.map_nil] at hlen
      simp [pointed, hlen, hne]
      simpa using hpos
    rw [floatOf_spell (marks_pointed _)]
    constructor
    · rintro ⟨_, hnil | ⟨g', hone, _⟩⟩
      · simp [hnil.1] at hlong
      · simp [hone] at hlong
    · rintro ⟨_, e, hp, _⟩
      exact absurd ⟨e, hp⟩ hleft

theorem read_spell : floatOf (separatorsRead (spell first rest)) = some v ↔
    digitsOf first rest ≠ [] ∧
      ∃ e, PointAt first rest e ∧ v = (value (digitsOf first rest) : ℚ) / 10 ^ e := by
  by_cases hne : rest = []
  · subst hne
    exact read_plain
  · rcases marks_cases hne with ⟨m, h⟩ | ⟨init, m, g, rfl, h⟩
    · exact read_one h hne
    · exact read_both h

end Reading

end Doci
