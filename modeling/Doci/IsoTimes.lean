import Doci.Dates

/-! `datetime` values, the texts of `isoformat`, and what `fromisoformat` makes of them. -/

namespace Doci

open Numerals

/-- The fields of a `datetime` but for its fold and its zone. -/
structure WallTime where
  date : CalendarDate
  hour : ℕ
  minute : ℕ
  second : ℕ
  microsecond : ℕ
  hour_lt : hour < 24
  minute_lt : minute < 60
  second_lt : second < 60
  microsecond_lt : microsecond < 1000000

/-- What `utcoffset` may give, in microseconds: less than a day. -/
structure UtcOffset where
  micros : ℤ
  lt_day : micros.natAbs < 86400000000
  deriving DecidableEq

/-- A `tzinfo`; its offset may depend on the local time and on the fold. -/
structure Zone where
  offset : WallTime → Bool → Option UtcOffset

def Zone.fixed (o : UtcOffset) : Zone := ⟨fun _ _ => some o⟩

structure DateTime where
  wall : WallTime
  fold : Bool := false
  zone : Option Zone := none

namespace DateTime

def utcoffset (t : DateTime) : Option UtcOffset := t.zone.bind fun zone => zone.offset t.wall t.fold

/-- The zone repeats or skips the local time, so that the other fold has another offset. -/
def Ambiguous (t : DateTime) : Prop := utcoffset { t with fold := !t.fold } ≠ t.utcoffset

/-- With the offset that it has as a fixed zone. -/
def settled (t : DateTime) : DateTime := { wall := t.wall, zone := t.utcoffset.map Zone.fixed }

end DateTime

/-- Days from the first day of year 1. -/
def CalendarDate.ordinal (d : CalendarDate) : ℕ :=
  365 * (d.year - 1) + (d.year - 1) / 4 - (d.year - 1) / 100 + (d.year - 1) / 400 +
    ((List.range d.month).map (daysInMonth d.year)).tail.sum + d.day

def WallTime.micros (w : WallTime) : ℤ :=
  (((w.date.ordinal * 24 + w.hour) * 60 + w.minute) * 60 + w.second) * 1000000 + w.microsecond

/-- `==`: local times are compared under one `tzinfo`, and else the instants, but a time that is
ambiguous equals none of another `tzinfo`. -/
def DateTime.Same (a b : DateTime) : Prop :=
  (a.zone = b.zone ∧ a.wall = b.wall) ∨ (¬ a.Ambiguous ∧ ¬ b.Ambiguous ∧
    match a.utcoffset, b.utcoffset with
    | none, none => a.wall = b.wall
    | some o, some p => a.wall.micros - o.micros = b.wall.micros - p.micros
    | _, _ => False)

section Format

def secondChars (second microsecond : ℕ) : List Char :=
  digitChars (padded 2 second) ++
    if microsecond = 0 then [] else '.' :: digitChars (padded 6 microsecond)

def WallTime.timeChars (w : WallTime) : List Char :=
  digitChars (padded 2 w.hour) ++ ':' :: (digitChars (padded 2 w.minute) ++
    ':' :: secondChars w.second w.microsecond)

/-- `_format_offset`: the seconds stand there only if they are not zero. -/
def UtcOffset.chars (o : UtcOffset) : List Char :=
  let n := o.micros.natAbs
  (if o.micros < 0 then '-' else '+') :: (digitChars (padded 2 (n / 3600000000)) ++
    ':' :: (digitChars (padded 2 (n / 60000000 % 60)) ++
      if n % 60000000 = 0 then [] else ':' :: secondChars (n / 1000000 % 60) (n % 1000000)))

def DateTime.isoChars (t : DateTime) : List Char :=
  t.wall.date.isoChars ++ 'T' :: (t.wall.timeChars ++ (t.utcoffset.map UtcOffset.chars).getD [])

def DateTime.isoformat (t : DateTime) : String := String.ofList t.isoChars

end Format

section Parse

/-- The number that `k` digits at the head make. -/
def takeDigits (k : ℕ) (s : List Char) : Option (ℕ × List Char) :=
  match (s.take k).mapM digit? with
  | some digits => if digits.length = k then some (value digits, s.drop k) else none
  | none => none

structure Clock where
  hour : ℕ
  minute : ℕ := 0
  second : ℕ := 0
  microsecond : ℕ := 0

def Clock.micros (c : Clock) : ℕ :=
  ((c.hour * 60 + c.minute) * 60 + c.second) * 1000000 + c.microsecond

/-- The digits after the point: six count, and fewer are filled up. -/
def isoFraction : List Char → Option (ℕ × List Char)
  | [] => some (0, [])
  | c :: s =>
    if c = '.' ∨ c = ',' then
      let digits := (s.takeWhile fun c => (digit? c).isSome).filterMap digit?
      if digits = [] then none
      else some (value (digits.take 6) * 10 ^ (6 - digits.length), s.drop digits.length)
    else some (0, c :: s)

/-- `HH[:MM[:SS[.ffffff]]]` at the head. -/
def isoClock (s : List Char) : Option (Clock × List Char) :=
  match takeDigits 2 s with
  | none => none
  | some (hour, ':' :: s) =>
    match takeDigits 2 s with
    | none => none
    | some (minute, ':' :: s) =>
      match takeDigits 2 s with
      | none => none
      | some (second, s) => (isoFraction s).map fun f => ({ hour, minute, second, microsecond := f.1 }, f.2)
    | some (minute, s) => some ({ hour, minute }, s)
  | some (hour, s) => some ({ hour }, s)

def utcOffset? (micros : ℤ) : Option UtcOffset :=
  if h : micros.natAbs < 86400000000 then some ⟨micros, h⟩ else none

/-- What follows the time: nothing, `Z`, or an offset. -/
def isoOffset : List Char → Option (Option UtcOffset)
  | [] => some none
  | ['Z'] => (utcOffset? 0).map some
  | c :: s =>
    match isoClock s with
    | some (clock, []) =>
      if c = '+' then (utcOffset? clock.micros).map some
      else if c = '-' then (utcOffset? (-clock.micros)).map some
      else none
    | _ => none

def wallTime? (date : CalendarDate) (c : Clock) : Option WallTime :=
  if h : c.hour < 24 ∧ c.minute < 60 ∧ c.second < 60 ∧ c.microsecond < 1000000 then
    some { date, hour := c.hour, minute := c.minute, second := c.second, microsecond := c.microsecond,
           hour_lt := h.1, minute_lt := h.2.1, second_lt := h.2.2.1, microsecond_lt := h.2.2.2 }
  else none

/-- `YYYY-MM-DD` at the head. -/
def isoDate (s : List Char) : Option (CalendarDate × List Char) :=
  match takeDigits 4 s with
  | some (year, '-' :: s) =>
    match takeDigits 2 s with
    | some (month, '-' :: s) =>
      match takeDigits 2 s with
      | some (day, s) => (calendarDate? year month day).map (·, s)
      | none => none
    | _ => none
  | _ => none

/-- `datetime.fromisoformat`, with `none` for its `ValueError`. The forms without separators and the
week dates, which `isoformat` does not write, are left out. -/
def fromIsoChars (s : List Char) : Option DateTime :=
  match isoDate s with
  | none => none
  | some (date, []) => (wallTime? date { hour := 0 }).map fun wall => { wall }
  | some (date, _ :: s) =>
    match isoClock s with
    | none => none
    | some (clock, rest) =>
      match wallTime? date clock, isoOffset rest with
      | some wall, some offset => some { wall, zone := offset.map Zone.fixed }
      | _, _ => none

def fromIsoformat (s : String) : Option DateTime := fromIsoChars s.toList

end Parse

section Reading

variable {k n : ℕ} {rest : List Char}

def Stops (rest : List Char) : Prop :=
  ∀ c ∈ rest.head?, digit? c = none ∧ c ≠ '.' ∧ c ≠ ',' ∧ c ≠ ':'

theorem stops_nil : Stops [] := by simp [Stops]

theorem takeDigits_padded (h : n < 10 ^ k) : takeDigits k (digitChars (padded k n) ++ rest) = some (n, rest) := by
  have hlen : (digitChars (padded k n)).length = k := by rw [length_digitChars, length_padded]
  have htake : (digitChars (padded k n) ++ rest).take k = digitChars (padded k n) := by
    rw [List.take_append_of_le_length hlen.ge, List.take_of_length_le hlen.le]
  have hdrop : (digitChars (padded k n) ++ rest).drop k = rest := by
    rw [List.drop_append_of_le_length hlen.ge, List.drop_of_length_le hlen.le, List.nil_append]
  simp only [takeDigits, htake, hdrop, mapM_digit?, length_padded, ↓reduceIte, value_padded_of_lt h]

theorem filterMap_digitChars (digits : List Digit) : (digitChars digits).filterMap digit? = digits := by
  induction digits with
  | nil => rfl
  | cons d digits ih =>
    have hcons : digitChars (d :: digits) = digitChar d :: digitChars digits := rfl
    rw [hcons, List.filterMap_cons, digit?_digitChar, ih]

theorem isoFraction_stops (h : Stops rest) : isoFraction rest = some (0, rest) := by
  cases rest with
  | nil => rfl
  | cons c rest =>
    obtain ⟨-, hpoint, hcomma, -⟩ := h c rfl
    simp [isoFraction, hpoint, hcomma]

theorem isoFraction_padded (h : n < 1000000) (hrest : Stops rest) :
    isoFraction ((if n = 0 then [] else '.' :: digitChars (padded 6 n)) ++ rest) = some (n, rest) := by
  by_cases hn : n = 0
  · rw [if_pos hn, List.nil_append, isoFraction_stops hrest, hn]
  · have hlen : (padded 6 n).length = 6 := length_padded 6 n
    have hne : padded 6 n ≠ [] := fun hnil => by simp [hnil] at hlen
    have hall : ∀ c ∈ digitChars (padded 6 n), (digit? c).isSome = true := by
      intro c hc
      obtain ⟨d, -, rfl⟩ := mem_digitChars.mp hc
      rw [digit?_digitChar, Option.isSome_some]
    have hstop : rest.takeWhile (fun c => (digit? c).isSome) = [] := by
      cases rest with
      | nil => rfl
      | cons c rest => rw [List.takeWhile_cons_of_neg (by simp [(hrest c rfl).1])]
    have htake : (digitChars (padded 6 n) ++ rest).takeWhile (fun c => (digit? c).isSome) =
        digitChars (padded 6 n) := by
      rw [List.takeWhile_append_of_pos hall, hstop, List.append_nil]
    have hdrop : (digitChars (padded 6 n) ++ rest).drop 6 = rest := by
      rw [List.drop_append_of_le_length (by rw [length_digitChars, hlen]),
        List.drop_of_length_le (by rw [length_digitChars, hlen]), List.nil_append]
    rw [if_neg hn, List.cons_append]
    simp only [isoFraction, true_or, ↓reduceIte, htake, filterMap_digitChars, hne, hlen, hdrop]
    rw [List.take_of_length_le hlen.le, value_padded_of_lt (by omega)]
    simp

theorem isoClock_minutes {hour minute : ℕ} (hh : hour < 10 ^ 2) (hm : minute < 10 ^ 2) (hrest : Stops rest) :
    isoClock (digitChars (padded 2 hour) ++ ':' :: (digitChars (padded 2 minute) ++ rest)) =
      some ({ hour, minute }, rest) := by
  rw [isoClock, takeDigits_padded hh]
  simp only [takeDigits_padded hm]
  cases rest with
  | nil => rfl
  | cons c rest =>
    have hc : c ≠ ':' := (hrest c rfl).2.2.2
    simp [hc]

theorem isoClock_seconds {hour minute second microsecond : ℕ} (hh : hour < 10 ^ 2) (hm : minute < 10 ^ 2)
    (hs : second < 10 ^ 2) (hf : microsecond < 1000000) (hrest : Stops rest) :
    isoClock (digitChars (padded 2 hour) ++ ':' :: (digitChars (padded 2 minute) ++
      ':' :: (secondChars second microsecond ++ rest))) =
      some ({ hour, minute, second, microsecond }, rest) := by
  rw [isoClock, takeDigits_padded hh]
  simp only [takeDigits_padded hm, secondChars, List.append_assoc, takeDigits_padded hs,
    isoFraction_padded hf hrest, Option.map_some]

theorem isoDate_isoChars (d : CalendarDate) : isoDate (d.isoChars ++ rest) = some (d, rest) := by
  have hyear : d.year < 10 ^ 4 := Nat.lt_succ_of_le d.year_le
  have hmonth : d.month < 10 ^ 2 := lt_of_le_of_lt d.month_le (by decide)
  have hday : d.day < 10 ^ 2 := d.day_lt
  simp only [isoDate, CalendarDate.isoChars, List.append_assoc, List.cons_append,
    takeDigits_padded hyear, takeDigits_padded hmonth, takeDigits_padded hday, calendarDate?_self,
    Option.map_some]

end Reading

section Offsets

variable (o : UtcOffset)

theorem utcOffset?_micros : utcOffset? o.micros = some o := dif_pos o.lt_day

theorem UtcOffset.stops : Stops o.chars := by
  intro c hc
  obtain rfl : (if o.micros < 0 then '-' else '+') = c := by simpa [UtcOffset.chars] using hc
  split_ifs <;> decide

theorem isoClock_offset {n : ℕ} (h : n < 86400000000) :
    ∃ clock : Clock, clock.micros = n ∧
      isoClock (digitChars (padded 2 (n / 3600000000)) ++ ':' :: (digitChars (padded 2 (n / 60000000 % 60)) ++
        if n % 60000000 = 0 then [] else ':' :: secondChars (n / 1000000 % 60) (n % 1000000))) =
        some (clock, []) := by
  have hhour : n / 3600000000 < 10 ^ 2 := by omega
  have hminute : n / 60000000 % 60 < 10 ^ 2 := by omega
  by_cases hsecond : n % 60000000 = 0
  · refine ⟨{ hour := n / 3600000000, minute := n / 60000000 % 60 }, ?_, ?_⟩
    · simp only [Clock.micros]
      omega
    · rw [if_pos hsecond]
      exact isoClock_minutes hhour hminute stops_nil
  · refine ⟨{ hour := n / 3600000000, minute := n / 60000000 % 60, second := n / 1000000 % 60,
              microsecond := n % 1000000 }, ?_, ?_⟩
    · simp only [Clock.micros]
      omega
    · have hread := isoClock_seconds hhour hminute
        (show n / 1000000 % 60 < 10 ^ 2 by omega) (show n % 1000000 < 1000000 by omega) stops_nil
      rwa [if_neg hsecond, ← List.append_nil (secondChars _ _)]

theorem isoOffset_sign {c : Char} {s : List Char} (h : c ≠ 'Z') {clock : Clock}
    (hs : isoClock s = some (clock, [])) : isoOffset (c :: s) =
      if c = '+' then (utcOffset? clock.micros).map some
      else if c = '-' then (utcOffset? (-clock.micros)).map some else none := by
  unfold isoOffset
  split
  · contradiction
  · simp_all
  · rename_i heq
    obtain ⟨rfl, rfl⟩ := List.cons.inj heq
    rw [hs]

theorem isoOffset_chars : isoOffset o.chars = some (some o) := by
  obtain ⟨clock, hmicros, hclock⟩ := isoClock_offset o.lt_day
  have hread := utcOffset?_micros o
  by_cases hneg : o.micros < 0
  · have habs : -(o.micros.natAbs : ℤ) = o.micros := by omega
    simp only [UtcOffset.chars, if_pos hneg]
    rw [isoOffset_sign (by decide) hclock, if_neg (by decide), if_pos rfl, hmicros, habs, hread,
      Option.map_some]
  · have habs : (o.micros.natAbs : ℤ) = o.micros := by omega
    simp only [UtcOffset.chars, if_neg hneg]
    rw [isoOffset_sign (by decide) hclock, if_pos rfl, hmicros, habs, hread, Option.map_some]

end Offsets

section RoundTrip

variable (t : DateTime)

theorem wallTime?_self (w : WallTime) :
    wallTime? w.date { hour := w.hour, minute := w.minute, second := w.second, microsecond := w.microsecond } =
      some w := dif_pos ⟨w.hour_lt, w.minute_lt, w.second_lt, w.microsecond_lt⟩

theorem isoOffset_getD (offset : Option UtcOffset) :
    Stops ((offset.map UtcOffset.chars).getD []) ∧ isoOffset ((offset.map UtcOffset.chars).getD []) = some offset := by
  cases offset with
  | none => exact ⟨stops_nil, rfl⟩
  | some o => exact ⟨o.stops, isoOffset_chars o⟩

/-- A text of `isoformat` reads as the same local time, with the offset as a fixed zone. -/
theorem fromIsoformat_isoformat : fromIsoformat t.isoformat = some t.settled := by
  obtain ⟨hstops, hoffset⟩ := isoOffset_getD t.utcoffset
  have hclock := isoClock_seconds (lt_trans t.wall.hour_lt (by decide)) (lt_trans t.wall.minute_lt (by decide))
    (lt_trans t.wall.second_lt (by decide)) t.wall.microsecond_lt hstops
  rw [fromIsoformat, DateTime.isoformat, String.toList_ofList, DateTime.isoChars, fromIsoChars,
    isoDate_isoChars]
  simp only [WallTime.timeChars, List.append_assoc, List.cons_append, hclock, hoffset, wallTime?_self]
  rfl

theorem utcoffset_fixed (wall : WallTime) (fold : Bool) (offset : Option UtcOffset) :
    DateTime.utcoffset { wall, fold, zone := offset.map Zone.fixed } = offset := by
  cases offset <;> rfl

theorem settled_utcoffset : t.settled.utcoffset = t.utcoffset := utcoffset_fixed _ _ _

theorem settled_not_ambiguous : ¬ t.settled.Ambiguous := by
  intro h
  exact h ((utcoffset_fixed _ _ _).trans (utcoffset_fixed _ _ _).symm)

/-- Read back, a time equals the one that was written unless its zone repeats or skips it. -/
theorem settled_same : t.settled.Same t ↔ ¬ t.Ambiguous := by
  constructor
  · rintro (⟨hzone, -⟩ | ⟨-, h, -⟩)
    · intro h
      have hfixed : ∀ fold, DateTime.utcoffset { t with fold } = t.utcoffset := by
        intro fold
        have hsettled : t.zone = t.utcoffset.map Zone.fixed := hzone.symm
        change (t.zone.bind fun zone => zone.offset t.wall fold) = t.utcoffset
        rw [hsettled]
        exact utcoffset_fixed t.wall fold t.utcoffset
      exact h (hfixed _)
    · exact h
  · intro h
    refine .inr ⟨settled_not_ambiguous t, h, ?_⟩
    rw [settled_utcoffset]
    cases t.utcoffset <;> rfl

end RoundTrip

end Doci
