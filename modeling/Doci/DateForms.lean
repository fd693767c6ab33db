import Doci.Dates

/-! The written forms of a date, and that `to_date` reads them back. -/

namespace Doci

open Numerals Patterns

inductive Separator where
  | slash | hyphen | dot

def Separator.char : Separator → Char
  | slash => '/'
  | hyphen => '-'
  | dot => '.'

abbrev Gap := {s : List Char // ∀ c ∈ s, isSpace c = true}

def letterCases : List (Char × Char) :=
  [('t', 'T'), ('h', 'H'), ('á', 'Á'), ('n', 'N'), ('g', 'G'), ('ă', 'Ă'), ('m', 'M')]

abbrev AnyCase (w : List Char) :=
  {s : List Char // List.Forall₂ (fun c l => (c = l ∨ (l, c) ∈ letterCases) ∧ l ∈ letterCases.map Prod.fst) s w}

def thang : List Char := ['t', 'h', 'á', 'n', 'g']

def nam : List Char := ['n', 'ă', 'm']

def shortNumber (zero : Bool) (n : ℕ) : List Digit := if zero then padded 2 n else decimalDigits n

inductive DateForm where
  | words (zeroDay zeroMonth : Bool) (month : AnyCase thang) (year : AnyCase nam) (a b c d : Gap)
  | dayFirst (zeroDay zeroMonth : Bool) (a b : Separator)
  | yearFirst (zeroMonth zeroDay : Bool) (a b : Separator)

namespace DateForm

def render (date : CalendarDate) : DateForm → List Char
  | words zd zm month year a b c d =>
    digitChars (shortNumber zd date.day) ++ (a.1 ++ (month.1 ++ (b.1 ++
      (digitChars (shortNumber zm date.month) ++ (c.1 ++ (year.1 ++ (d.1 ++
        digitChars (padded 4 date.year))))))))
  | dayFirst zd zm a b =>
    digitChars (shortNumber zd date.day) ++ a.char :: (digitChars (shortNumber zm date.month) ++
      b.char :: digitChars (padded 4 date.year))
  | yearFirst zm zd a b =>
    digitChars (padded 4 date.year) ++ a.char :: (digitChars (shortNumber zm date.month) ++
      b.char :: digitChars (shortNumber zd date.day))

def numeric : DateForm → Bool
  | words .. => false
  | _ => true

end DateForm

section Numbers

variable {n : ℕ} {zero : Bool} {data : CharData}

theorem digitChar_ascii (d : Digit) : (digitChar d).toNat < 128 := by
  revert d
  decide

theorem decimal_digitChar (d : Digit) : data.decimal (digitChar d) = some d := by
  rw [data.decimal_ascii _ (digitChar_ascii d), digit?_digitChar]

theorem value_shortNumber (h : n < 100) : value (shortNumber zero n) = n := by
  unfold shortNumber
  split_ifs
  · exact value_padded_of_lt h
  · exact value_decimalDigits n

theorem length_shortNumber (zero : Bool) (h : n < 100) :
    1 ≤ (shortNumber zero n).length ∧ (shortNumber zero n).length ≤ 2 := by
  unfold shortNumber
  split_ifs
  · rw [length_padded]
    omega
  · have hshort := lt_length_decimalDigits n 2
    have hpos := List.length_pos_of_ne_nil (decimalDigits_ne_nil n)
    omega

theorem intGroup_digitChars {groups : List (List Char)} {i : ℕ} {g : List Digit}
    (h : groups.getD (i - 1) [] = digitChars g) : intGroup data groups i = value g := by
  have hsome : (data.decimal ∘ digitChar) = some := funext decimal_digitChar
  rw [intGroup, h, digitChars, List.filterMap_map, hsome, List.filterMap_some]

end Numbers

section Matching

variable {data : CharData} {ps : List (Piece Char)} {g : List Digit} {s t : List Char} {lo hi : ℕ}
  {groups : List (List Char)} {c : Char} {p : Option Char}

theorem word_digitChar (d : Digit) : data.word (digitChar d) = true := by
  have halnum : (digitChar d).isAlphanum = true := by
    revert d
    decide
  simp [CharData.word, data.alnum_ascii _ (digitChar_ascii d), halnum]

theorem separator_ascii (a : Separator) : a.char.toNat < 128 := by cases a <;> decide

theorem decimal_separator (a : Separator) : data.decimal a.char = none := by
  rw [data.decimal_ascii _ (separator_ascii a)]
  cases a <;> rfl

theorem matchAt_digits (hne : g ≠ []) (hlo : lo ≤ g.length)
    (hend : hi = g.length ∨ g.length ≤ hi ∧ ∀ c ∈ t.head?, data.decimal c = none)
    (h : ∀ p : Option Char, p.any data.word = true → matchAt data.word ps p t = some groups) :
    matchAt data.word (digitPiece data lo hi :: ps) p (digitChars g ++ t) =
      some (digitChars g :: groups) := by
  have hlength := length_digitChars g
  have hdigits : ∀ c ∈ digitChars g, (data.decimal c).isSome = true := by
    intro c hc
    obtain ⟨d, _, rfl⟩ := mem_digitChars.mp hc
    rw [decimal_digitChar, Option.isSome_some]
  obtain ⟨init, d, rfl⟩ := List.eq_nil_or_concat' g |>.resolve_left hne
  have hlast : ((digitChars (init ++ [d])).getLast?.or p).any data.word = true := by
    simp [digitChars, word_digitChar]
  refine matchAt_run hdigits (by rwa [hlength]) ?_ (h _ hlast)
  rcases hend with rfl | ⟨hhi, hhead⟩
  · exact .inl (by rw [hlength])
  · refine .inr ⟨fun k hk => ?_, fun c hc => by rw [hhead c hc, Option.isSome_none]⟩
    obtain rfl : hi = k := Option.some.inj hk
    rwa [hlength]

theorem matchAt_spaces (hs : ∀ c ∈ s, isSpace c = true) (hhead : ∀ c ∈ t.head?, isSpace c = false)
    (h : ∀ p, matchAt data.word ps p t = some groups) :
    matchAt data.word (spacePiece :: ps) p (s ++ t) = some groups :=
  matchAt_run hs (Nat.zero_le _) (.inr ⟨by simp, hhead⟩) (h _)

theorem matchAt_separator (a : Separator) (h : ∀ p, matchAt data.word ps p t = some groups) :
    matchAt data.word (separatorPiece :: ps) p (a.char :: t) = some groups := by
  have hset : ∀ c ∈ [a.char], isSeparator c = true := by
    intro c hc
    rw [List.mem_singleton.mp hc]
    cases a <;> rfl
  exact matchAt_run (r := [a.char]) hset (Nat.le_refl 1) (.inl rfl) (h _)

theorem matchAt_boundary_end (hp : p.any data.word = true) (ht : ∀ c ∈ t.head?, data.word c = false) :
    matchAt data.word [.boundary] p t = some [] := by
  have hnext : t.head?.any data.word = false := by
    cases t with
    | nil => rfl
    | cons c t => exact ht c rfl
  rw [matchAt, isBoundary, hp, hnext]
  rfl

theorem matchAt_boundary_start (hne : g ≠ []) (hp : ∀ c ∈ p, data.word c = false)
    (h : matchAt data.word ps p (digitChars g ++ t) = some groups) :
    matchAt data.word (.boundary :: ps) p (digitChars g ++ t) = some groups := by
  obtain ⟨d, g, rfl⟩ := List.exists_cons_of_ne_nil hne
  have hprev : p.any data.word = false := by
    cases p with
    | none => rfl
    | some c => exact hp c rfl
  have hnext : (digitChars (d :: g) ++ t).head?.any data.word = true := by
    simp [digitChars, word_digitChar]
  rw [matchAt, isBoundary, hprev, hnext, h]
  rfl

theorem decimal_of_fits (h : Fits data.word (digitPiece data lo hi :: ps) p (c :: t)) (hlo : 1 ≤ lo) :
    data.decimal c ≠ none := by
  obtain ⟨r, t', heq, hr, hlen, _, _⟩ := h
  cases r with
  | nil =>
    have hzero : lo ≤ 0 := hlen
    omega
  | cons d r =>
    obtain ⟨rfl, _⟩ := List.cons.inj heq
    have hsome := hr c List.mem_cons_self
    intro hnone
    simp [hnone] at hsome

theorem search_words_append (hs : ∀ c ∈ s, data.decimal c = none) :
    search data.word (wordsPattern data) p (s ++ t) =
      search data.word (wordsPattern data) (s.getLast?.or p) t := by
  refine search_append fun l c r p heq => ?_
  by_contra hmatch
  obtain ⟨groups, hgroups⟩ := Option.ne_none_iff_exists'.mp hmatch
  exact decimal_of_fits (fits_of_matchAt hgroups) (Nat.le_refl 1) (hs c (by simp [heq]))

theorem search_numeric_append (hlo : 1 ≤ lo) (hs : ∀ c ∈ s, data.decimal c = none) :
    search data.word (.boundary :: digitPiece data lo hi :: ps) p (s ++ t) =
      search data.word (.boundary :: digitPiece data lo hi :: ps) (s.getLast?.or p) t := by
  refine search_append fun l c r p heq => ?_
  by_contra hmatch
  obtain ⟨groups, hgroups⟩ := Option.ne_none_iff_exists'.mp hmatch
  exact decimal_of_fits (fits_of_matchAt hgroups).2 hlo (hs c (by simp [heq]))

theorem matchAt_words (data : CharData) (p : Option Char) (t : List Char) {day month year : List Digit} {a b c d thang' nam' : List Char}
    (hday : 1 ≤ day.length ∧ day.length ≤ 2) (hmonth : 1 ≤ month.length ∧ month.length ≤ 2)
    (hyear : year.length = 4) (ha : ∀ x ∈ a, isSpace x = true) (hb : ∀ x ∈ b, isSpace x = true)
    (hc : ∀ x ∈ c, isSpace x = true) (hd : ∀ x ∈ d, isSpace x = true)
    (hthang : thang' = thang) (hnam : nam' = nam) :
    matchAt data.word (wordsPattern data) p (digitChars day ++ (a ++ (thang' ++ (b ++
      (digitChars month ++ (c ++ (nam' ++ (d ++ (digitChars year ++ t))))))))) =
      some [digitChars day, digitChars month, digitChars year] := by
  subst hthang hnam
  have hdigit : ∀ {g : List Digit} {x : List Char}, g ≠ [] →
      ∀ c ∈ (digitChars g ++ x).head?, isSpace c = false := by
    intro g x hg c hc
    obtain ⟨e, g, rfl⟩ := List.exists_cons_of_ne_nil hg
    rw [← Option.some.inj hc]
    clear hc hg
    revert e
    decide
  have hthang : ∀ x, ∀ c ∈ (thang ++ x).head?, isSpace c = false := by
    intro x c hc
    rw [← Option.some.inj hc]
    rfl
  have hnam : ∀ x, ∀ c ∈ (nam ++ x).head?, isSpace c = false := by
    intro x c hc
    rw [← Option.some.inj hc]
    rfl
  have hletter : ∀ {s x : List Char} {l : Char}, (∀ x ∈ s, isSpace x = true) →
      data.decimal l = none → ∀ c ∈ (s ++ l :: x).head?, data.decimal c = none := by
    intro s x l hs hl c hc
    cases s with
    | nil =>
      obtain rfl : l = c := Option.some.inj hc
      exact hl
    | cons e s =>
      obtain rfl : e = c := Option.some.inj hc
      exact data.space_decimal e (hs e List.mem_cons_self)
  have ht : data.decimal 't' = none := data.decimal_ascii 't' (by decide)
  have hn : data.decimal 'n' = none := data.decimal_ascii 'n' (by decide)
  have hne : ∀ {g : List Digit}, 1 ≤ g.length → g ≠ [] := by
    rintro g hg rfl
    simp at hg
  have hyearne : year ≠ [] := hne (by omega)
  have hmonthne : month ≠ [] := hne hmonth.1
  refine matchAt_digits (hne hday.1) hday.1 (.inr ⟨hday.2, hletter ha ht⟩) fun p _ => ?_
  refine matchAt_spaces ha (hthang _) fun p => ?_
  refine matchAt_literal (fun p => ?_) p
  refine matchAt_spaces hb (hdigit hmonthne) fun p => ?_
  refine matchAt_digits hmonthne hmonth.1 (.inr ⟨hmonth.2, hletter hc hn⟩) fun p _ => ?_
  refine matchAt_spaces hc (hnam _) fun p => ?_
  refine matchAt_literal (fun p => ?_) p
  refine matchAt_spaces hd (hdigit hyearne) fun p => ?_
  exact matchAt_digits hyearne hyear.ge (.inl hyear.symm) fun p _ => rfl

theorem matchAt_yearFirst (p : Option Char) (t : List Char) {day month year : List Digit} (a b : Separator)
    (hday : 1 ≤ day.length ∧ day.length ≤ 2) (hmonth : 1 ≤ month.length ∧ month.length ≤ 2)
    (hyear : year.length = 4) (hp : ∀ c ∈ p, data.word c = false)
    (ht : ∀ c ∈ t.head?, data.word c = false ∧ data.decimal c = none) :
    matchAt data.word (yearFirstPattern data) p (digitChars year ++ (a.char :: (digitChars month ++
      (b.char :: (digitChars day ++ t))))) =
      some [digitChars year, digitChars month, digitChars day] := by
  have hne : ∀ {g : List Digit}, 1 ≤ g.length → g ≠ [] := by
    rintro g hg rfl
    simp at hg
  have hyearne : year ≠ [] := hne (by omega)
  have hend : ∀ x, ∀ c ∈ (b.char :: x).head?, data.decimal c = none := by
    intro x c hc
    rw [← Option.some.inj hc]
    exact decimal_separator b
  refine matchAt_boundary_start hyearne hp ?_
  refine matchAt_digits hyearne hyear.ge (.inl hyear.symm) fun p _ => ?_
  refine matchAt_separator a (fun p => ?_)
  refine matchAt_digits (hne hmonth.1) hmonth.1 (.inr ⟨hmonth.2, hend _⟩) fun p _ => ?_
  refine matchAt_separator b (fun p => ?_)
  exact matchAt_digits (hne hday.1) hday.1 (.inr ⟨hday.2, fun c hc => (ht c hc).2⟩)
    fun p hlast => matchAt_boundary_end hlast fun c hc => (ht c hc).1

theorem matchAt_dayFirst (p : Option Char) (t : List Char) {day month year : List Digit} (a b : Separator)
    (hday : 1 ≤ day.length ∧ day.length ≤ 2) (hmonth : 1 ≤ month.length ∧ month.length ≤ 2)
    (hyear : year.length = 4) (hp : ∀ c ∈ p, data.word c = false)
    (ht : ∀ c ∈ t.head?, data.word c = false) :
    matchAt data.word (dayFirstPattern data) p (digitChars day ++ (a.char :: (digitChars month ++
      (b.char :: (digitChars year ++ t))))) =
      some [digitChars day, digitChars month, digitChars year] := by
  have hne : ∀ {g : List Digit}, 1 ≤ g.length → g ≠ [] := by
    rintro g hg rfl
    simp at hg
  have hend : ∀ (a : Separator) x, ∀ c ∈ (a.char :: x).head?, data.decimal c = none := by
    intro a x c hc
    rw [← Option.some.inj hc]
    exact decimal_separator a
  refine matchAt_boundary_start (hne hday.1) hp ?_
  refine matchAt_digits (hne hday.1) hday.1 (.inr ⟨hday.2, hend a _⟩) fun p _ => ?_
  refine matchAt_separator a (fun p => ?_)
  refine matchAt_digits (hne hmonth.1) hmonth.1 (.inr ⟨hmonth.2, hend b _⟩) fun p _ => ?_
  refine matchAt_separator b (fun p => ?_)
  exact matchAt_digits (hne (by omega)) hyear.ge (.inl hyear.symm)
    fun p hlast => matchAt_boundary_end hlast ht

theorem search_words_none {pre mid post : List Char} (hpre : ∀ c ∈ pre, data.decimal c = none)
    (hpost : ∀ c ∈ post, data.decimal c = none) (hmid : 't' ∉ mid) :
    search data.word (wordsPattern data) p (pre ++ (mid ++ post)) = none := by
  by_contra hsome
  obtain ⟨groups, hsearch⟩ := Option.ne_none_iff_exists'.mp hsome
  obtain ⟨l, t, q, htext, hmatch⟩ := exists_matchAt_of_search hsearch
  obtain ⟨day, t, rfl, hday, hlen, _, a, t, rfl, _, _, _, x, t, rfl, hx, hone, _, hfits⟩ :=
    fits_of_matchAt hmatch
  obtain ⟨d, hd⟩ := List.exists_mem_of_length_pos hlen
  have hdigit : ∃ c ∈ t, data.decimal c ≠ none := by
    obtain ⟨c, hc, hset⟩ := hfits.exists_mem (show digitPiece data 4 4 ∈ _ by simp [literal]) (by omega)
    exact ⟨c, hc, Option.isSome_iff_ne_none.mp hset⟩
  obtain ⟨y, x, rfl⟩ := List.exists_cons_of_length_pos hone
  have hy : y = 't' := by simpa using hx y List.mem_cons_self
  have hsplit : (l ++ (day ++ a)) ++ y :: (x ++ t) = pre ++ (mid ++ post) := by
    rw [htext]
    simp
  have hmem := mem_middle (P := fun c => data.decimal c ≠ none) hsplit (fun c hc hne => hne (hpre c hc))
    (fun c hc hne => hne (hpost c hc)) ⟨d, by simp [hd], Option.isSome_iff_ne_none.mp (hday d hd)⟩
    (by
      obtain ⟨c, hc, hne⟩ := hdigit
      exact ⟨c, List.mem_append_right x hc, hne⟩)
  exact hmid (hy ▸ hmem)

theorem shape_of_yearFirst (h : matchAt data.word (yearFirstPattern data) p s = some groups) :
    ∃ year c d t, s = year ++ c :: d :: t ∧ year.length = 4 ∧
      (∀ x ∈ year, data.decimal x ≠ none) ∧ data.decimal d ≠ none := by
  obtain ⟨_, year, t, rfl, hyear, hlo, hhi, x, t, rfl, _, hx, hone, month, t, rfl, hmonth, hlen, _⟩ :=
    fits_of_matchAt h
  obtain ⟨c, x, rfl⟩ := List.exists_cons_of_length_pos hx
  obtain rfl : x = [] := by
    have hle := hone 1 rfl
    simpa using hle
  obtain ⟨d, month, rfl⟩ := List.exists_cons_of_length_pos hlen
  have hfour := hhi 4 rfl
  exact ⟨year, c, d, month ++ t, by simp, by omega,
    fun x hx => Option.isSome_iff_ne_none.mp (hyear x hx),
    Option.isSome_iff_ne_none.mp (hmonth d List.mem_cons_self)⟩

theorem yearFirst_short {r : List Char} (hr : r.length < 4) (hc : data.decimal c = none) :
    matchAt data.word (yearFirstPattern data) p (r ++ c :: s) = none := by
  by_contra hsome
  obtain ⟨groups, hmatch⟩ := Option.ne_none_iff_exists'.mp hsome
  obtain ⟨year, x, d, t, htext, hyear, hdigits, _⟩ := shape_of_yearFirst hmatch
  rw [List.append_eq_append_iff] at htext
  rcases htext with ⟨y, rfl, htail⟩ | ⟨y, rfl, _⟩
  · cases y with
    | nil =>
      rw [List.append_nil] at hyear
      omega
    | cons z y =>
      obtain ⟨rfl, _⟩ := List.cons.inj htail
      exact hdigits c (by simp) hc
  · rw [List.length_append] at hr
    omega

theorem yearFirst_last {r : List Char} (hr : r.length ≤ 4) (hs : ∀ c ∈ s, data.decimal c = none) :
    matchAt data.word (yearFirstPattern data) p (r ++ s) = none := by
  by_contra hsome
  obtain ⟨groups, hmatch⟩ := Option.ne_none_iff_exists'.mp hsome
  obtain ⟨year, x, d, t, htext, hyear, _, hd⟩ := shape_of_yearFirst hmatch
  have hsplit : r ++ s = (year ++ [x]) ++ d :: t := by simp [htext]
  rw [List.append_eq_append_iff] at hsplit
  rcases hsplit with ⟨y, _, rfl⟩ | ⟨y, rfl, _⟩
  · exact hd (hs d (by simp))
  · simp only [List.length_append, List.length_singleton] at hr
    omega

theorem search_yearFirst_none {pre post day month year : List Char} {a b : Char}
    (hpre : ∀ c ∈ pre, data.decimal c = none) (hpost : ∀ c ∈ post, data.decimal c = none)
    (ha : data.decimal a = none) (hb : data.decimal b = none) (hday : day.length ≤ 2)
    (hmonth : month.length ≤ 2) (hyear : year.length = 4) :
    search data.word (yearFirstPattern data) p
      (pre ++ (day ++ a :: (month ++ b :: (year ++ post)))) = none := by
  have hshort : ∀ {r s : List Char} {c : Char} {p}, r.length ≤ 2 → data.decimal c = none →
      search data.word (yearFirstPattern data) p (r ++ c :: s) =
        search data.word (yearFirstPattern data) (r.getLast?.or p) (c :: s) := by
    intro r s c p hr hc
    refine search_append fun l d r' q heq => ?_
    have hlen := congrArg List.length heq
    simp only [List.length_append, List.length_cons] at hlen
    exact yearFirst_short (r := d :: r') (by simp only [List.length_cons]; omega) hc
  have hskip : ∀ {s : List Char} {c : Char} {p}, data.decimal c = none →
      search data.word (yearFirstPattern data) p (c :: s) =
        search data.word (yearFirstPattern data) (some c) s := by
    intro s c p hc
    exact search_numeric_append (s := [c]) (by omega) (by simpa using hc)
  rw [show yearFirstPattern data = .boundary :: digitPiece data 4 4 :: _ from rfl,
    search_numeric_append (by omega) hpre]
  refine (hshort hday ha).trans ((hskip ha).trans ((hshort hmonth hb).trans ((hskip hb).trans ?_)))
  have hyears : search data.word (yearFirstPattern data) (some b) (year ++ post ++ []) =
      search data.word (yearFirstPattern data) ((year ++ post).getLast?.or (some b)) [] :=
    search_append fun l c r q heq => by
      rw [List.append_nil]
      have hdrop : c :: r = (year ++ post).drop l.length := by simp [heq]
      rw [hdrop, List.drop_append]
      refine yearFirst_last ?_ fun x hx => hpost x (List.mem_of_mem_drop hx)
      rw [List.length_drop]
      omega
  rw [List.append_nil] at hyears
  rw [hyears]
  exact yearFirst_last (r := []) (by simp) (by simp)

end Matching

section Lowering

variable {data : CharData} {s s' t t' : List Char}

/-- A text whose lower case does not depend on what stands around it. -/
def Lowers (data : CharData) (s t : List Char) : Prop :=
  ∀ before after, data.lowerText before s after = t

theorem Lowers.append (h : Lowers data s t) (h' : Lowers data s' t') :
    Lowers data (s ++ s') (t ++ t') := by
  intro before after
  rw [CharData.lowerText_append, h, h']

theorem lowers_self (h : ∀ c ∈ s, c ≠ 'Σ' ∧ data.lower c = [c]) : Lowers data s s := by
  intro before after
  exact CharData.lowerText_eq (List.forall₂_same.mpr h)

theorem lowers_digits (g : List Digit) : Lowers data (digitChars g) (digitChars g) := by
  refine lowers_self fun c hc => ?_
  have hsigma : ∀ d : Digit, digitChar d ≠ 'Σ' := by decide
  obtain ⟨d, _, rfl⟩ := mem_digitChars.mp hc
  exact ⟨hsigma d, data.lower_decimal _ (by simp [decimal_digitChar])⟩

theorem lowers_gap (g : Gap) : Lowers data g.1 g.1 := by
  refine lowers_self fun c hc => ⟨?_, data.lower_space c (g.2 c hc)⟩
  rintro rfl
  exact absurd (g.2 _ hc) (by decide)

theorem lowers_separator (a : Separator) : Lowers data [a.char] [a.char] := by
  refine lowers_self fun c hc => ?_
  obtain rfl := List.mem_singleton.mp hc
  rw [data.lower_ascii _ (separator_ascii a)]
  cases a <;> decide

theorem lower_letterCases : ∀ p ∈ letterCases,
    (p.1 ≠ 'Σ' ∧ data.lower p.1 = [p.1]) ∧ p.2 ≠ 'Σ' ∧ data.lower p.2 = [p.1] := by
  have hascii : ∀ l u : Char, l.toNat < 128 → u.toNat < 128 → l.toLower = l → u.toLower = l →
      data.lower l = [l] ∧ data.lower u = [l] := by
    intro l u hl hu hll hul
    rw [data.lower_ascii l hl, data.lower_ascii u hu, hll, hul]
    exact ⟨rfl, rfl⟩
  have hacute := data.lower_vietnamese ('á', 'Á', 'a') (by decide)
  have hbreve := data.lower_vietnamese ('ă', 'Ă', 'a') (by decide)
  have ht := hascii 't' 'T' (by decide) (by decide) (by decide) (by decide)
  have hh := hascii 'h' 'H' (by decide) (by decide) (by decide) (by decide)
  have hn := hascii 'n' 'N' (by decide) (by decide) (by decide) (by decide)
  have hg := hascii 'g' 'G' (by decide) (by decide) (by decide) (by decide)
  have hm := hascii 'm' 'M' (by decide) (by decide) (by decide) (by decide)
  simp only [letterCases, List.forall_mem_cons]
  refine ⟨?_, ?_, ?_, ?_, ?_, ?_, ?_, by simp⟩
  · exact ⟨⟨by decide, ht.1⟩, by decide, ht.2⟩
  · exact ⟨⟨by decide, hh.1⟩, by decide, hh.2⟩
  · exact ⟨⟨by decide, hacute.1⟩, by decide, hacute.2⟩
  · exact ⟨⟨by decide, hn.1⟩, by decide, hn.2⟩
  · exact ⟨⟨by decide, hg.1⟩, by decide, hg.2⟩
  · exact ⟨⟨by decide, hbreve.1⟩, by decide, hbreve.2⟩
  · exact ⟨⟨by decide, hm.1⟩, by decide, hm.2⟩

theorem lowers_anyCase {w : List Char} (a : AnyCase w) : Lowers data a.1 w := by
  intro before after
  refine CharData.lowerText_eq (a.2.imp fun c l hcl => ?_)
  obtain ⟨hc, hl⟩ := hcl
  rcases hc with rfl | hc
  · obtain ⟨p, hp, rfl⟩ := List.mem_map.mp hl
    exact (lower_letterCases p hp).1
  · exact (lower_letterCases (l, c) hc).2

theorem strip_middle {pre mid post : List Char} (hne : mid ≠ [])
    (hhead : ∀ c ∈ mid.head?, isSpace c = false) (hlast : ∀ c ∈ mid.getLast?, isSpace c = false) :
    strip (pre ++ (mid ++ post)) = pre.dropWhile isSpace ++ (mid ++
      (post.reverse.dropWhile isSpace).reverse) := by
  have hdrop : ∀ (x y z : List Char), y ≠ [] → (∀ c ∈ y.head?, isSpace c = false) →
      (x ++ (y ++ z)).dropWhile isSpace = x.dropWhile isSpace ++ (y ++ z) := by
    intro x y z hy hyhead
    obtain ⟨c, y, rfl⟩ := List.exists_cons_of_ne_nil hy
    have hc : isSpace c = false := hyhead c rfl
    rw [List.dropWhile_append]
    split_ifs with hx
    · rw [List.isEmpty_iff.mp hx, List.nil_append, List.cons_append,
        List.dropWhile_cons_of_neg (by simp [hc])]
    · rfl
  rw [strip, hdrop _ _ _ hne hhead]
  have hback := hdrop post.reverse mid.reverse (pre.dropWhile isSpace).reverse (by simpa using hne)
    (by simpa using hlast)
  rw [List.reverse_append, List.reverse_append, List.append_assoc, hback]
  simp

end Lowering

namespace DateForm

def lowered (date : CalendarDate) : DateForm → List Char
  | words zd zm _ _ a b c d =>
    digitChars (shortNumber zd date.day) ++ (a.1 ++ (thang ++ (b.1 ++
      (digitChars (shortNumber zm date.month) ++ (c.1 ++ (nam ++ (d.1 ++
        digitChars (padded 4 date.year))))))))
  | form => form.render date

variable {data : CharData} {date : CalendarDate} {form : DateForm} {pre post : List Char}

theorem lowers_render : Lowers data (form.render date) (form.lowered date) := by
  cases form with
  | words zd zm month year a b c d =>
    exact (lowers_digits _).append ((lowers_gap a).append ((lowers_anyCase month).append
      ((lowers_gap b).append ((lowers_digits _).append ((lowers_gap c).append
        ((lowers_anyCase year).append ((lowers_gap d).append (lowers_digits _))))))))
  | dayFirst zd zm a b =>
    exact (lowers_digits _).append ((lowers_separator a).append ((lowers_digits _).append
      ((lowers_separator b).append (lowers_digits _))))
  | yearFirst zm zd a b =>
    exact (lowers_digits _).append ((lowers_separator a).append ((lowers_digits _).append
      ((lowers_separator b).append (lowers_digits _))))

theorem render_ends (date : CalendarDate) (form : DateForm) : form.render date ≠ [] ∧ (∀ c ∈ (form.render date).head?, isSpace c = false) ∧
    ∀ c ∈ (form.render date).getLast?, isSpace c = false := by
  have hspace : ∀ d : Digit, isSpace (digitChar d) = false := by decide
  have hbetween : ∀ (g h : List Digit) (x : List Char), g ≠ [] → h ≠ [] →
      digitChars g ++ (x ++ digitChars h) ≠ [] ∧
        (∀ c ∈ (digitChars g ++ (x ++ digitChars h)).head?, isSpace c = false) ∧
        ∀ c ∈ (digitChars g ++ (x ++ digitChars h)).getLast?, isSpace c = false := by
    intro g h x hg hh
    obtain ⟨d, g, rfl⟩ := List.exists_cons_of_ne_nil hg
    obtain ⟨init, e, rfl⟩ := List.eq_nil_or_concat' h |>.resolve_left hh
    refine ⟨by simp [digitChars], fun c hc => ?_, fun c hc => ?_⟩
    · rw [← Option.some.inj hc]
      exact hspace d
    · have hlast : (digitChars (d :: g) ++ (x ++ digitChars (init ++ [e]))).getLast? =
          some (digitChar e) := by
        have hconcat : digitChars (d :: g) ++ (x ++ digitChars (init ++ [e])) =
            (digitChars (d :: g) ++ (x ++ digitChars init)) ++ [digitChar e] := by simp [digitChars]
        rw [hconcat, List.getLast?_concat]
      rw [hlast] at hc
      rw [← Option.some.inj hc]
      exact hspace e
  have hshort : ∀ zero n, n < 100 → shortNumber zero n ≠ [] := by
    intro zero n hn hnil
    have hlen := (length_shortNumber zero hn).1
    simp [hnil] at hlen
  have hyear : padded 4 date.year ≠ [] := fun hnil => by
    have hlen := length_padded 4 date.year
    simp [hnil] at hlen
  have hday := fun zero => hshort zero date.day date.day_lt
  cases form with
  | words zd zm month year a b c d =>
    have hends := hbetween (shortNumber zd date.day) (padded 4 date.year) (a.1 ++ (month.1 ++ (b.1 ++
      (digitChars (shortNumber zm date.month) ++ (c.1 ++ (year.1 ++ d.1)))))) (hday zd) hyear
    simpa [render] using hends
  | dayFirst zd zm a b =>
    have hends := hbetween (shortNumber zd date.day) (padded 4 date.year) (a.char ::
      (digitChars (shortNumber zm date.month) ++ [b.char])) (hday zd) hyear
    simpa [render] using hends
  | yearFirst zm zd a b =>
    have hends := hbetween (padded 4 date.year) (shortNumber zd date.day) (a.char ::
      (digitChars (shortNumber zm date.month) ++ [b.char])) hyear (hday zd)
    simpa [render] using hends

theorem letter_not_mem (g h k : List Digit) (a b : Separator) :
    't' ∉ digitChars g ++ a.char :: (digitChars h ++ b.char :: digitChars k) := by
  have hdigit : ∀ d : Digit, digitChar d ≠ 't' := by decide
  have hdigits : ∀ g, 't' ∉ digitChars g := fun g hg => by
    obtain ⟨d, _, heq⟩ := mem_digitChars.mp hg
    exact hdigit d heq
  have hseparator : ∀ a : Separator, 't' ≠ a.char := fun a => by cases a <;> decide
  simp [hdigits, hseparator]

theorem searchDate_lowered (date : CalendarDate) (form : DateForm) (hpre : ∀ c ∈ pre, data.decimal c = none)
    (hpost : ∀ c ∈ post, data.decimal c = none) (hends : form.numeric = true →
      (∀ c ∈ pre.getLast?, data.word c = false) ∧ ∀ c ∈ post.head?, data.word c = false) :
    searchDate data (pre ++ (form.lowered date ++ post)) = some date.isoformat := by
  have hday : date.day < 100 := date.day_lt
  have hmonth : date.month < 100 := by
    have hle := date.month_le
    omega
  have hyear : date.year < 10 ^ 4 := by
    have hle := date.year_le
    omega
  have hread : ∀ (groups : List (List Char)) (y m d : ℕ) (zd zm : Bool),
      groups.getD (y - 1) [] = digitChars (padded 4 date.year) →
      groups.getD (m - 1) [] = digitChars (shortNumber zm date.month) →
      groups.getD (d - 1) [] = digitChars (shortNumber zd date.day) →
      mk (intGroup data groups y) (intGroup data groups m) (intGroup data groups d) =
        some date.isoformat := by
    intro groups y m d zd zm hy hm hd
    rw [intGroup_digitChars hy, intGroup_digitChars hm, intGroup_digitChars hd,
      value_padded_of_lt hyear, value_shortNumber hmonth, value_shortNumber hday]
    exact mk_self date
  cases form with
  | words zd zm month year a b c d =>
    have hmatch := matchAt_words data (pre.getLast?.or none) post
      (length_shortNumber zd hday) (length_shortNumber zm hmonth)
      (length_padded 4 date.year) a.2 b.2 c.2 d.2 rfl rfl
    have hsearch := (search_words_append (p := none) hpre).trans (search_of_matchAt hmatch)
    simp only [lowered, List.append_assoc]
    rw [searchDate, hsearch]
    exact hread _ 3 2 1 zd zm rfl rfl rfl
  | dayFirst zd zm a b =>
    obtain ⟨hleft, hright⟩ := hends rfl
    have hmatch := matchAt_dayFirst (pre.getLast?.or none) post a b
      (length_shortNumber zd hday) (length_shortNumber zm hmonth)
      (length_padded 4 date.year) (by simpa using hleft) hright
    have hwords := search_words_none (p := none) hpre hpost (letter_not_mem
      (shortNumber zd date.day) (shortNumber zm date.month) (padded 4 date.year) a b)
    have hyears := search_yearFirst_none (p := none) hpre hpost (decimal_separator a)
      (decimal_separator b)
      ((length_digitChars (shortNumber zd date.day)).trans_le (length_shortNumber zd hday).2)
      ((length_digitChars (shortNumber zm date.month)).trans_le (length_shortNumber zm hmonth).2)
      ((length_digitChars (padded 4 date.year)).trans (length_padded 4 date.year))
    have hsearch : search data.word (dayFirstPattern data) none _ = _ :=
      (search_numeric_append (p := none) (by omega) hpre).trans (search_of_matchAt hmatch)
    simp only [lowered, render, List.append_assoc, List.cons_append] at hwords ⊢
    rw [searchDate, hwords, hyears, hsearch]
    exact hread _ 3 2 1 zd zm rfl rfl rfl
  | yearFirst zm zd a b =>
    obtain ⟨hleft, hright⟩ := hends rfl
    have hmatch := matchAt_yearFirst (pre.getLast?.or none) post a b
      (length_shortNumber zd hday) (length_shortNumber zm hmonth)
      (length_padded 4 date.year) (by simpa using hleft)
      fun c hc => ⟨hright c hc, hpost c (List.mem_of_mem_head? hc)⟩
    have hwords := search_words_none (p := none) hpre hpost (letter_not_mem
      (padded 4 date.year) (shortNumber zm date.month) (shortNumber zd date.day) a b)
    have hsearch : search data.word (yearFirstPattern data) none _ = _ :=
      (search_numeric_append (p := none) (by omega) hpre).trans (search_of_matchAt hmatch)
    simp only [lowered, render, List.append_assoc, List.cons_append] at hwords ⊢
    rw [searchDate, hwords, hsearch]
    exact hread _ 1 2 3 zd zm rfl rfl rfl

theorem toDate_render (hpre : ∀ c ∈ pre, data.decimal c = none)
    (hpost : ∀ c ∈ post, data.decimal c = none) (hends : form.numeric = true →
      (∀ c ∈ pre.getLast?, data.word c = false) ∧ ∀ c ∈ post.head?, data.word c = false) :
    toDate data (.text (String.ofList (pre ++ form.render date ++ post))) = some date.isoformat := by
  obtain ⟨hne, hhead, hlast⟩ := render_ends date form
  have hback : pre.dropWhile isSpace <:+ pre := List.dropWhile_suffix isSpace
  have hfront : (post.reverse.dropWhile isSpace).reverse <+: post := by
    have hreverse : post.reverse.dropWhile isSpace <:+ post.reverse := List.dropWhile_suffix isSpace
    rwa [← List.reverse_prefix, List.reverse_reverse] at hreverse
  have htrim : (pre.dropWhile isSpace).getLast? = none ∨
      (pre.dropWhile isSpace).getLast? = pre.getLast? := by
    obtain ⟨x, hx⟩ := hback
    cases hdrop : (pre.dropWhile isSpace).getLast? with
    | none => exact .inl rfl
    | some c => exact .inr (by rw [← hx, List.getLast?_append, hdrop]; rfl)
  have htrim' : ∀ c ∈ (post.reverse.dropWhile isSpace).reverse.head?, c ∈ post.head? := by
    intro c hc
    obtain ⟨x, hx⟩ := hfront
    rw [← hx, List.head?_append]
    simp [Option.mem_def.mp hc]
  have hpre' : ∀ c ∈ pre.dropWhile isSpace, data.decimal c = none :=
    fun c hc => hpre c (hback.subset hc)
  have hpost' : ∀ c ∈ (post.reverse.dropWhile isSpace).reverse, data.decimal c = none :=
    fun c hc => hpost c (hfront.subset hc)
  have hends' : form.numeric = true →
      (∀ c ∈ (pre.dropWhile isSpace).getLast?, data.word c = false) ∧
        ∀ c ∈ (post.reverse.dropWhile isSpace).reverse.head?, data.word c = false := by
    intro hnumeric
    obtain ⟨hleft, hright⟩ := hends hnumeric
    refine ⟨fun c hc => ?_, fun c hc => hright c (htrim' c hc)⟩
    rcases htrim with hnone | hsame
    · rw [hnone] at hc
      cases hc
    · exact hleft c (hsame ▸ hc)
  have hlowered : ∃ before after, data.lowerText [] (strip (pre ++ (form.render date ++ post))) [] =
      data.lowerText [] (pre.dropWhile isSpace) after ++ (form.lowered date ++
        data.lowerText before (post.reverse.dropWhile isSpace).reverse []) := by
    rw [strip_middle hne hhead hlast, CharData.lowerText_append, CharData.lowerText_append,
      lowers_render]
    exact ⟨_, _, rfl⟩
  obtain ⟨before, after, hlower⟩ := hlowered
  have hsearch := searchDate_lowered date form
    (CharData.decimal_lowerText [] after hpre')
    (CharData.decimal_lowerText before [] hpost')
    fun hnumeric => ⟨CharData.last_lowerText (hends' hnumeric).1,
      CharData.head_lowerText (hends' hnumeric).2⟩
  have hsome : data.lowerText [] (pre.dropWhile isSpace) after ++ (form.lowered date ++
      data.lowerText before (post.reverse.dropWhile isSpace).reverse []) ≠ [] := by
    intro hnil
    have hmid := (List.append_eq_nil_iff.mp (List.append_eq_nil_iff.mp hnil).2).1
    have hlen : (form.lowered date).length = 0 := by rw [hmid]; rfl
    cases form <;> simp [lowered, render, length_digitChars, length_padded] at hlen
  rw [toDate, String.toList_ofList, List.append_assoc, hlower, if_neg hsome, hsearch]

end DateForm

/-- `to_date` reads every form of every date, and returns nothing but dates. -/
theorem toDate_forms (data : CharData) :
    (∀ (date : CalendarDate) (form : DateForm) (pre post : List Char),
      (∀ c ∈ pre, data.decimal c = none) → (∀ c ∈ post, data.decimal c = none) →
      (form.numeric = true → (∀ c ∈ pre.getLast?, data.word c = false) ∧
        ∀ c ∈ post.head?, data.word c = false) →
      toDate data (.text (String.ofList (pre ++ form.render date ++ post))) = some date.isoformat) ∧
    ∀ (s iso : String), toDate data (.text s) = some iso →
      (∃ date : CalendarDate, iso = date.isoformat) ∧ iso.length = 10 := by
  refine ⟨fun date form pre post hpre hpost hends => DateForm.toDate_render hpre hpost hends,
    fun s iso h => ?_⟩
  obtain ⟨date, rfl⟩ := exists_of_toDate h
  exact ⟨⟨date, rfl⟩, length_isoformat date⟩

theorem toDate_ngay : toDate plainData (.text "Ngày 12 tháng 01 NĂM 2026.") = some "2026-01-12" := by
  let date : CalendarDate := ⟨2026, 1, 12, by omega, by omega, by omega, by omega, by omega, by decide⟩
  let gap : Gap := ⟨[' '], fun c hc => by
    rw [List.mem_singleton.mp hc]
    rfl⟩
  let month : AnyCase thang := ⟨['t', 'h', 'á', 'n', 'g'], by decide⟩
  let year : AnyCase nam := ⟨['N', 'Ă', 'M'], by decide⟩
  have hpre : ∀ c ∈ ['N', 'g', 'à', 'y', ' '], plainData.decimal c = none := by
    intro c hc
    simp only [List.mem_cons, List.not_mem_nil, or_false] at hc
    rcases hc with rfl | rfl | rfl | rfl | rfl
    · rfl
    · rfl
    · rfl
    · rfl
    · rfl
  have hpost : ∀ c ∈ ['.'], plainData.decimal c = none := by
    intro c hc
    rw [List.mem_singleton.mp hc]
    rfl
  have h := (toDate_forms plainData).1 date (.words true true month year gap gap gap gap) _ _ hpre hpost
    fun hnumeric => absurd hnumeric Bool.false_ne_true
  have htext : String.ofList (['N', 'g', 'à', 'y', ' '] ++ DateForm.render date
      (.words true true month year gap gap gap gap) ++ ['.']) = "Ngày 12 tháng 01 NĂM 2026." := by
    decide +kernel
  have hiso : date.isoformat = "2026-01-12" := by
    have hchars : date.isoChars = ['2', '0', '2', '6', '-', '0', '1', '-', '1', '2'] := by decide
    rw [CalendarDate.isoformat, hchars]
  rwa [htext, hiso] at h

end Doci
