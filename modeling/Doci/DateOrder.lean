import Doci.Dates

/-! `check_date_order`, and that it reports the order of the calendar. -/

namespace Doci

open Numerals

structure LabelledDate where
  label : Option String
  date : DateValue

structure ParsedDate where
  label : String
  date : String
  deriving DecidableEq

structure DateViolation where
  before : ParsedDate
  after : ParsedDate
  deriving DecidableEq

structure DateOrderReply where
  ordered : Bool
  parsed : List ParsedDate
  unparsed : List String
  violations : List DateViolation
  note : Option String

section CheckDateOrder

variable (data : CharData)

/-- `item.get("label", f"#{i}")`. -/
def LabelledDate.name (item : LabelledDate) (i : ℕ) : String :=
  item.label.getD ("#" ++ toString i)

/-- The loop over the items from number `i` on. -/
def parseItems : ℕ → List LabelledDate → List ParsedDate × List String → List ParsedDate × List String
  | _, [], acc => acc
  | i, item :: items, (parsed, unparsed) =>
    match (toDate data item.date).filter (· ≠ "") with
    | some iso => parseItems (i + 1) items (parsed ++ [⟨item.name i, iso⟩], unparsed)
    | none => parseItems (i + 1) items (parsed, unparsed ++ [item.name i])

def dateViolations (parsed : List ParsedDate) : List DateViolation :=
  (parsed.zip parsed.tail).filterMap fun p =>
    if p.2.date < p.1.date then some ⟨p.1, p.2⟩ else none

def checkDateOrder (dates : List LabelledDate) : DateOrderReply :=
  let lists := parseItems data 0 dates ([], [])
  let violations := dateViolations lists.1
  ⟨violations.isEmpty, lists.1, lists.2, violations,
    if 2 ≤ lists.1.length then none
    else some "fewer than 2 dates parsed; ordering not meaningfully checked"⟩

end CheckDateOrder

def CalendarDate.Before (a b : CalendarDate) : Prop :=
  a.year < b.year ∨ a.year = b.year ∧ (a.month < b.month ∨ a.month = b.month ∧ a.day < b.day)

instance (a b : CalendarDate) : Decidable (a.Before b) := inferInstanceAs (Decidable (_ ∨ _))

theorem CalendarDate.not_before_trans {a b c : CalendarDate} (h : ¬ b.Before a) (h' : ¬ c.Before b) :
    ¬ c.Before a := by
  unfold Before at *
  omega

def InOrder (a b : String × CalendarDate) : Prop := ¬ b.2.Before a.2

instance : Trans InOrder InOrder InOrder := ⟨fun h h' => CalendarDate.not_before_trans h h'⟩

section Strings

theorem append_lt_append {a b c d : List Char} (h : a.length = b.length) :
    a ++ c < b ++ d ↔ a < b ∨ a = b ∧ c < d := by
  induction a generalizing b with
  | nil =>
    obtain rfl : b = [] := List.length_eq_zero_iff.mp h.symm
    simp
  | cons x a ih =>
    obtain ⟨y, b, rfl⟩ : ∃ y b', b = y :: b' := List.exists_cons_of_length_eq_add_one h.symm
    have hlen : a.length = b.length := by simpa using h
    rw [List.cons_append, List.cons_append, List.cons_lt_cons_iff, List.cons_lt_cons_iff, ih hlen,
      List.cons.injEq]
    tauto

theorem value_cons (d : Digit) (g : List Digit) : value (d :: g) = d.val * 10 ^ g.length + value g := by
  have happend := value_append [d] g
  simpa [value] using happend

theorem value_lt (g : List Digit) : value g < 10 ^ g.length := by
  induction g with
  | nil => simp [value]
  | cons d g ih =>
    have hd : d.val * 10 ^ g.length ≤ 9 * 10 ^ g.length := Nat.mul_le_mul_right _ (by omega)
    rw [value_cons, List.length_cons, pow_succ]
    omega

theorem digitChars_lt {g h : List Digit} (hlen : g.length = h.length) :
    digitChars g < digitChars h ↔ value g < value h := by
  have hdigit : ∀ d e : Digit, digitChar d < digitChar e ↔ d < e := by decide
  have heq : ∀ d e : Digit, digitChar d = digitChar e ↔ d = e := by decide
  induction g generalizing h with
  | nil =>
    obtain rfl : h = [] := List.length_eq_zero_iff.mp hlen.symm
    simp [digitChars]
  | cons d g ih =>
    obtain ⟨e, h, rfl⟩ : ∃ e h', h = e :: h' := List.exists_cons_of_length_eq_add_one hlen.symm
    have htail : g.length = h.length := by simpa using hlen
    have hrest : digitChars g < digitChars h ↔ value g < value h := ih htail
    have hg := value_lt g
    have hh := value_lt h
    have hcons : digitChars (d :: g) < digitChars (e :: h) ↔
        digitChar d < digitChar e ∨ digitChar d = digitChar e ∧ digitChars g < digitChars h :=
      List.cons_lt_cons_iff
    rw [hcons, hdigit, heq, hrest, value_cons, value_cons, htail]
    rw [htail] at hg
    rcases lt_trichotomy d e with hlt | rfl | hgt
    · have hle : (d.val + 1) * 10 ^ h.length ≤ e.val * 10 ^ h.length := Nat.mul_le_mul_right _ hlt
      rw [Nat.add_mul] at hle
      simp only [hlt, true_or, true_iff]
      omega
    · simp
    · have hle : (e.val + 1) * 10 ^ h.length ≤ d.val * 10 ^ h.length := Nat.mul_le_mul_right _ hgt
      rw [Nat.add_mul] at hle
      have hnot : ¬ d < e := not_lt.mpr hgt.le
      simp only [hnot, hgt.ne', false_and, or_false, false_iff, not_lt]
      omega

theorem digitChars_inj {g h : List Digit} : digitChars g = digitChars h ↔ g = h := by
  have hinj : Function.Injective digitChar := fun d e heq => by
    have hd := digit?_digitChar d
    rw [heq, digit?_digitChar] at hd
    exact (Option.some.inj hd).symm
  exact (List.map_injective_iff.mpr hinj).eq_iff

theorem padded_lt {k m n : ℕ} (hm : m < 10 ^ k) (hn : n < 10 ^ k) :
    digitChars (padded k m) < digitChars (padded k n) ↔ m < n := by
  rw [digitChars_lt ((length_padded k m).trans (length_padded k n).symm), value_padded_of_lt hm,
    value_padded_of_lt hn]

theorem padded_eq {k m n : ℕ} (hm : m < 10 ^ k) (hn : n < 10 ^ k) :
    digitChars (padded k m) = digitChars (padded k n) ↔ m = n := by
  rw [digitChars_inj]
  constructor
  · intro heq
    rw [← value_padded_of_lt hm, heq, value_padded_of_lt hn]
  · rintro rfl
    rfl

theorem isoformat_lt (a b : CalendarDate) : a.isoformat < b.isoformat ↔ a.Before b := by
  have hyear : ∀ d : CalendarDate, d.year < 10 ^ 4 := fun d => Nat.lt_succ_of_le d.year_le
  have hmonth : ∀ d : CalendarDate, d.month < 10 ^ 2 := fun d => by
    have hle := d.month_le
    omega
  have hday : ∀ d : CalendarDate, d.day < 10 ^ 2 := CalendarDate.day_lt
  have hlen : ∀ k m n, (digitChars (padded k m)).length = (digitChars (padded k n)).length := by
    simp [length_digitChars, length_padded]
  have hdash : ∀ x y : List Char, '-' :: x < '-' :: y ↔ x < y := by simp
  rw [String.lt_iff_toList_lt, CalendarDate.isoformat, CalendarDate.isoformat, String.toList_ofList,
    String.toList_ofList, CalendarDate.isoChars, CalendarDate.isoChars,
    append_lt_append (hlen 4 _ _), hdash, append_lt_append (hlen 2 _ _), hdash,
    padded_lt (hyear a) (hyear b), padded_eq (hyear a) (hyear b), padded_lt (hmonth a) (hmonth b),
    padded_eq (hmonth a) (hmonth b), padded_lt (hday a) (hday b), CalendarDate.Before]

end Strings

section Loop

variable {data : CharData} {items : List LabelledDate}

theorem filter_toDate (v : DateValue) : (toDate data v).filter (· ≠ "") = toDate data v := by
  cases h : toDate data v with
  | none => rfl
  | some iso =>
    obtain ⟨d, rfl⟩ := exists_of_toDate h
    have hne : d.isoformat ≠ "" := by
      intro heq
      have hlen := length_isoformat d
      rw [heq] at hlen
      cases hlen
    simp [hne]

def classifyItem (data : CharData) (item : LabelledDate) (i : ℕ) : (String × CalendarDate) ⊕ String → Prop
  | .inl e => e.1 = item.name i ∧ toDate data item.date = some e.2.isoformat
  | .inr label => label = item.name i ∧ toDate data item.date = none

def ParsedDate.of (e : String × CalendarDate) : ParsedDate := ⟨e.1, e.2.isoformat⟩

theorem parseItems_spec (data : CharData) (items : List LabelledDate) (i : ℕ) (parsed : List ParsedDate) (unparsed : List String) :
    ∃ sorted, List.Forall₂ (fun p => classifyItem data p.1 p.2) (items.zipIdx i) sorted ∧
      parseItems data i items (parsed, unparsed) =
        (parsed ++ (sorted.filterMap Sum.getLeft?).map ParsedDate.of,
          unparsed ++ sorted.filterMap Sum.getRight?) := by
  induction items generalizing i parsed unparsed with
  | nil => exact ⟨[], .nil, by simp [parseItems]⟩
  | cons item items ih =>
    cases hdate : toDate data item.date with
    | none =>
      obtain ⟨sorted, hsorted, hparse⟩ := ih (i + 1) parsed (unparsed ++ [item.name i])
      refine ⟨.inr (item.name i) :: sorted, .cons ⟨rfl, hdate⟩ hsorted, ?_⟩
      rw [parseItems, filter_toDate, hdate]
      refine hparse.trans ?_
      simp [List.filterMap_cons]
    | some iso =>
      obtain ⟨d, rfl⟩ := exists_of_toDate hdate
      obtain ⟨sorted, hsorted, hparse⟩ := ih (i + 1) (parsed ++ [⟨item.name i, d.isoformat⟩]) unparsed
      refine ⟨.inl (item.name i, d) :: sorted, .cons ⟨rfl, hdate⟩ hsorted, ?_⟩
      rw [parseItems, filter_toDate, hdate]
      refine hparse.trans ?_
      simp [List.filterMap_cons, ParsedDate.of]

theorem dateViolations_of (entries : List (String × CalendarDate)) :
    dateViolations (entries.map ParsedDate.of) =
      ((entries.zip entries.tail).filter fun p => p.2.2.Before p.1.2).map
        fun p => ⟨ParsedDate.of p.1, ParsedDate.of p.2⟩ := by
  have hzip : (entries.map ParsedDate.of).zip (entries.map ParsedDate.of).tail =
      (entries.zip entries.tail).map fun p => (ParsedDate.of p.1, ParsedDate.of p.2) := by
    rw [← List.map_tail, List.zip_map]
    rfl
  rw [dateViolations, hzip, List.filterMap_map]
  induction entries.zip entries.tail with
  | nil => rfl
  | cons p pairs ih =>
    have hdate : (ParsedDate.of p.2).date < (ParsedDate.of p.1).date ↔ p.2.2.Before p.1.2 :=
      isoformat_lt p.2.2 p.1.2
    by_cases hbefore : p.2.2.Before p.1.2
    · rw [List.filter_cons_of_pos (by simpa using hbefore), List.map_cons, ← ih,
        List.filterMap_cons, Function.comp_apply, if_pos (hdate.mpr hbefore)]
    · rw [List.filter_cons_of_neg (by simpa using hbefore), ← ih, List.filterMap_cons,
        Function.comp_apply, if_neg (mt hdate.mp hbefore)]

theorem pairwise_iff_neighbours (entries : List (String × CalendarDate)) :
    (entries.zip entries.tail).filter (fun p => p.2.2.Before p.1.2) = [] ↔
      entries.Pairwise InOrder := by
  rw [← List.isChain_iff_pairwise]
  induction entries with
  | nil => simp
  | cons a entries ih =>
    cases entries with
    | nil => simp
    | cons b entries =>
      rw [List.isChain_cons_cons, ← ih]
      have hzip : (a :: b :: entries).zip (a :: b :: entries).tail =
          (a, b) :: (b :: entries).zip (b :: entries).tail := rfl
      by_cases hbefore : b.2.Before a.2
      · have hin : ¬ InOrder a b := fun hin => hin hbefore
        rw [hzip, List.filter_cons_of_pos (by simpa using hbefore)]
        simp [hin]
      · have hin : InOrder a b := hbefore
        rw [hzip, List.filter_cons_of_neg (by simpa using hbefore)]
        simp [hin]

end Loop

/-- The reply sorts the items into entries and labels, and judges the entries by the calendar. -/
theorem checkDateOrder_chronological (data : CharData) (dates : List LabelledDate) :
    ∃ sorted, List.Forall₂ (fun p => classifyItem data p.1 p.2) dates.zipIdx sorted ∧
      (checkDateOrder data dates).parsed = (sorted.filterMap Sum.getLeft?).map ParsedDate.of ∧
      (checkDateOrder data dates).unparsed = sorted.filterMap Sum.getRight? ∧
      ((checkDateOrder data dates).ordered = true ↔
        (sorted.filterMap Sum.getLeft?).Pairwise InOrder) ∧
      (checkDateOrder data dates).violations =
        (((sorted.filterMap Sum.getLeft?).zip (sorted.filterMap Sum.getLeft?).tail).filter
          fun p => p.2.2.Before p.1.2).map fun p => ⟨ParsedDate.of p.1, ParsedDate.of p.2⟩ := by
  obtain ⟨sorted, hsorted, hparse⟩ := parseItems_spec data dates 0 [] []
  rw [List.nil_append, List.nil_append] at hparse
  have hviolations : (checkDateOrder data dates).violations =
      dateViolations ((sorted.filterMap Sum.getLeft?).map ParsedDate.of) := by
    simp only [checkDateOrder, hparse]
  have hordered : (checkDateOrder data dates).ordered =
      (checkDateOrder data dates).violations.isEmpty := rfl
  refine ⟨sorted, hsorted, ?_, ?_, ?_, ?_⟩
  · simp only [checkDateOrder, hparse]
  · simp only [checkDateOrder, hparse]
  · rw [hordered, hviolations, dateViolations_of, List.isEmpty_iff, List.map_eq_nil_iff]
    exact pairwise_iff_neighbours _
  · rw [hviolations, dateViolations_of]

end Doci
