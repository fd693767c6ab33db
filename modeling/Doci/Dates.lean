import Doci.Characters
import Doci.Patterns
import Doci.MoneyFormats

/-! `to_date`. -/

namespace Doci

open Numerals Patterns

def isLeap (year : ℕ) : Bool := year % 4 == 0 && (year % 100 != 0 || year % 400 == 0)

def daysInMonth (year month : ℕ) : ℕ :=
  if month = 2 then if isLeap year then 29 else 28
  else if month ∈ [4, 6, 9, 11] then 30 else 31

structure CalendarDate where
  year : ℕ
  month : ℕ
  day : ℕ
  year_pos : 1 ≤ year
  year_le : year ≤ 9999
  month_pos : 1 ≤ month
  month_le : month ≤ 12
  day_pos : 1 ≤ day
  day_le : day ≤ daysInMonth year month

/-- `date(y, m, d)`, with `none` for its `ValueError`. -/
def calendarDate? (y m d : ℕ) : Option CalendarDate :=
  if h : (1 ≤ y ∧ y ≤ 9999) ∧ (1 ≤ m ∧ m ≤ 12) ∧ 1 ≤ d ∧ d ≤ daysInMonth y m then
    some ⟨y, m, d, h.1.1, h.1.2, h.2.1.1, h.2.1.2, h.2.2.1, h.2.2.2⟩
  else none

def padded : ℕ → ℕ → List Digit
  | 0, _ => []
  | k + 1, n => padded k (n / 10) ++ [Fin.ofNat 10 n]

def CalendarDate.isoChars (d : CalendarDate) : List Char :=
  digitChars (padded 4 d.year) ++ '-' :: (digitChars (padded 2 d.month) ++
    '-' :: digitChars (padded 2 d.day))

def CalendarDate.isoformat (d : CalendarDate) : String := String.ofList d.isoChars

def mk (y m d : ℕ) : Option String := (calendarDate? y m d).map CalendarDate.isoformat

/-- What an argument of `to_date` may be. -/
inductive DateValue where
  | none
  | date (d : CalendarDate)
  | text (s : String)

def isSeparator (c : Char) : Bool := c == '/' || c == '-' || c == '.'

section ToDate

variable (data : CharData)

def digitPiece (lo hi : ℕ) : Piece Char := .run (fun c => (data.decimal c).isSome) lo (some hi) true

def spacePiece : Piece Char := .run isSpace 0 none false

def separatorPiece : Piece Char := .run isSeparator 1 (some 1) false

def wordsPattern : List (Piece Char) :=
  digitPiece data 1 2 :: spacePiece :: (literal ['t', 'h', 'á', 'n', 'g'] ++ spacePiece ::
    digitPiece data 1 2 :: spacePiece :: (literal ['n', 'ă', 'm'] ++ [spacePiece, digitPiece data 4 4]))

def yearFirstPattern : List (Piece Char) :=
  [.boundary, digitPiece data 4 4, separatorPiece, digitPiece data 1 2, separatorPiece,
    digitPiece data 1 2, .boundary]

def dayFirstPattern : List (Piece Char) :=
  [.boundary, digitPiece data 1 2, separatorPiece, digitPiece data 1 2, separatorPiece,
    digitPiece data 4 4, .boundary]

/-- `int(m.group(i))`. -/
def intGroup (groups : List (List Char)) (i : ℕ) : ℕ :=
  value ((groups.getD (i - 1) []).filterMap data.decimal)

def searchDate (s : List Char) : Option String :=
  match search data.word (wordsPattern data) none s with
  | some m => mk (intGroup data m 3) (intGroup data m 2) (intGroup data m 1)
  | none =>
    match search data.word (yearFirstPattern data) none s with
    | some m => mk (intGroup data m 1) (intGroup data m 2) (intGroup data m 3)
    | none =>
      match search data.word (dayFirstPattern data) none s with
      | some m => mk (intGroup data m 3) (intGroup data m 2) (intGroup data m 1)
      | none => none

def toDate : DateValue → Option String
  | .none => none
  | .date d => some d.isoformat
  | .text value =>
    let s := data.lowerText [] (strip value.toList) []
    if s = [] then none else searchDate data s

/-- The reply of `parse_date`. -/
def parseDate (repr : DateValue → String) (v : DateValue) : Except String String :=
  match toDate data v with
  | none => .error ("could not parse " ++ repr v ++ " as a date. Pass a date like " ++
      "'12 tháng 01 năm 2026', '12/01/2026', or '2026-01-12'.")
  | some iso => .ok iso

end ToDate

section Calendar

variable {k n : ℕ}

theorem padded_succ (k n : ℕ) : padded (k + 1) n = padded k (n / 10) ++ [Fin.ofNat 10 n] := rfl

theorem length_padded (k n : ℕ) : (padded k n).length = k := by
  induction k generalizing n with
  | zero => rfl
  | succ k ih => simp [padded_succ, ih]

theorem value_padded (k n : ℕ) : value (padded k n) = n % 10 ^ k := by
  induction k generalizing n with
  | zero =>
    rw [pow_zero, Nat.mod_one]
    rfl
  | succ k ih =>
    have hmod : n % 10 ^ (k + 1) = n % 10 + 10 * (n / 10 % 10 ^ k) := by
      rw [pow_succ', Nat.mod_mul]
    rw [padded_succ, value_append, ih, value_ofNat, List.length_singleton, hmod]
    omega

theorem value_padded_of_lt (h : n < 10 ^ k) : value (padded k n) = n := by
  rw [value_padded, Nat.mod_eq_of_lt h]

theorem CalendarDate.day_lt (d : CalendarDate) : d.day < 100 := by
  have hle := d.day_le
  have hdays : daysInMonth d.year d.month ≤ 31 := by
    unfold daysInMonth
    split_ifs <;> omega
  omega

theorem calendarDate?_self (d : CalendarDate) : calendarDate? d.year d.month d.day = some d :=
  dif_pos ⟨⟨d.year_pos, d.year_le⟩, ⟨d.month_pos, d.month_le⟩, d.day_pos, d.day_le⟩

theorem mk_self (d : CalendarDate) : mk d.year d.month d.day = some d.isoformat := by
  rw [mk, calendarDate?_self]
  rfl

theorem exists_of_mk {y m d : ℕ} {iso : String} (h : mk y m d = some iso) :
    ∃ c : CalendarDate, iso = c.isoformat := by
  obtain ⟨c, _, rfl⟩ := Option.map_eq_some_iff.mp h
  exact ⟨c, rfl⟩

theorem length_isoformat (d : CalendarDate) : d.isoformat.length = 10 := by
  rw [CalendarDate.isoformat, String.length_ofList]
  simp [CalendarDate.isoChars, digitChars, length_padded]

theorem exists_of_toDate {data : CharData} {v : DateValue} {iso : String}
    (h : toDate data v = some iso) : ∃ d : CalendarDate, iso = d.isoformat := by
  cases v with
  | none => cases h
  | date d => exact ⟨d, (Option.some.inj h).symm⟩
  | text s =>
    rw [toDate] at h
    split_ifs at h
    unfold searchDate at h
    split at h
    · exact exists_of_mk h
    · split at h
      · exact exists_of_mk h
      · split at h
        · exact exists_of_mk h
        · cases h

end Calendar

end Doci
