import Doci.JsonValues
import Mathlib.Data.Nat.Digits.Lemmas

/-! The texts of JSON values. What is written of a value without fractions is read back as that
value. -/

namespace Doci

namespace JsonText

def quote : Char := Char.ofNat 34

def backslash : Char := Char.ofNat 92

def openBrace : Char := Char.ofNat 123

def closeBrace : Char := Char.ofNat 125

def isSpace (c : Char) : Bool := c == ' ' || c == '\t' || c == '\n' || c == '\r'

def hexChar (d : Nat) : Char := if d < 10 then Char.ofNat (48 + d) else Char.ofNat (87 + d)

def hexValue (c : Char) : Option Nat :=
  if 48 ≤ c.toNat ∧ c.toNat ≤ 57 then some (c.toNat - 48)
  else if 97 ≤ c.toNat ∧ c.toNat ≤ 102 then some (c.toNat - 87)
  else if 65 ≤ c.toNat ∧ c.toNat ≤ 70 then some (c.toNat - 55)
  else none

/-- The letter after the backslash for the characters that have one. -/
def letters : List (Char × Char) :=
  [(quote, quote), (backslash, backslash), ('\n', 'n'), ('\r', 'r'), ('\t', 't'),
    (Char.ofNat 8, 'b'), (Char.ofNat 12, 'f')]

def escape (c : Char) : List Char :=
  match letters.lookup c with
  | some letter => [backslash, letter]
  | none =>
    if c.toNat < 32 then [backslash, 'u', '0', '0', hexChar (c.toNat / 16), hexChar (c.toNat % 16)]
    else [c]

def writeString (s : String) : List Char := quote :: s.toList.flatMap escape ++ [quote]

def digitChar (d : Nat) : Char := Char.ofNat (48 + d)

def writeNat (n : Nat) : List Char :=
  if n = 0 then ['0'] else (Nat.digits 10 n).reverse.map digitChar

def writeInt (n : Int) : List Char := if n < 0 then '-' :: writeNat n.natAbs else writeNat n.natAbs

mutual

def write : Json → List Char
  | .null => "null".toList
  | .bool b => (if b then "true" else "false").toList
  | .int n => writeInt n
  | .real _ => []
  | .str s => writeString s
  | .arr items => '[' :: writeItems items
  | .obj entries => openBrace :: writeEntries entries

def writeItems : List Json → List Char
  | [] => [']']
  | v :: items => write v ++ writeMoreItems items

def writeMoreItems : List Json → List Char
  | [] => [']']
  | v :: items => ',' :: (write v ++ writeMoreItems items)

def writeEntries : List (String × Json) → List Char
  | [] => [closeBrace]
  | (k, v) :: entries => writeString k ++ ':' :: (write v ++ writeMoreEntries entries)

def writeMoreEntries : List (String × Json) → List Char
  | [] => [closeBrace]
  | (k, v) :: entries => ',' :: (writeString k ++ ':' :: (write v ++ writeMoreEntries entries))

end

def dumps (v : Json) : String := String.ofList (write v)

def skip (cs : List Char) : List Char := cs.dropWhile isSpace

/-- What an escape of a letter stands for. -/
def letterChar (c : Char) : Option Char :=
  if c = '/' then some c else (letters.find? fun e => e.2 == c).map Prod.fst

def codeChar (a b c d : Char) : Option Char := do
  let code := 4096 * (← hexValue a) + 256 * (← hexValue b) + 16 * (← hexValue c) + (← hexValue d)
  if code.isValidChar then some (Char.ofNat code) else none

/-- The rest of a string after its first quote. -/
def readChars : List Char → Option (List Char × List Char)
  | [] => none
  | c :: cs =>
    if c = quote then some ([], cs)
    else if c = backslash then
      match cs with
      | [] => none
      | e :: cs =>
        if e = 'u' then
          match cs with
          | x :: y :: z :: w :: cs => do
            let c ← codeChar x y z w
            let (s, rest) ← readChars cs
            return (c :: s, rest)
          | _ => none
        else do
          let c ← letterChar e
          let (s, rest) ← readChars cs
          return (c :: s, rest)
    else if c.toNat < 32 then none
    else do
      let (s, rest) ← readChars cs
      return (c :: s, rest)

def digitValue (c : Char) : Option Nat :=
  if 48 ≤ c.toNat ∧ c.toNat ≤ 57 then some (c.toNat - 48) else none

def isDigit (c : Char) : Bool := (digitValue c).isSome

/-- No fractions and no exponents. -/
def readNat (cs : List Char) : Option (Nat × List Char) :=
  let digits := cs.takeWhile isDigit
  let rest := cs.dropWhile isDigit
  if digits = [] ∨ digits.head? = some '0' ∧ digits.length ≠ 1 then none
  else if rest.head?.any fun c => c == '.' || c == 'e' || c == 'E' then none
  else some (Nat.ofDigits 10 (digits.reverse.filterMap digitValue), rest)

def readNumber : List Char → Option (Json × List Char)
  | [] => none
  | c :: cs =>
    if c = '-' then (readNat cs).map fun r => (.int (-r.1), r.2)
    else (readNat (c :: cs)).map fun r => (.int r.1, r.2)

def readWord (word : String) (v : Json) (cs : List Char) : Option (Json × List Char) :=
  if word.toList.isPrefixOf cs then some (v, cs.drop word.length) else none

mutual

def readValue : Nat → List Char → Option (Json × List Char)
  | 0, _ => none
  | n + 1, cs =>
    match skip cs with
    | [] => none
    | c :: cs =>
      if c = quote then (readChars cs).map fun r => (.str (String.ofList r.1), r.2)
      else if c = '[' then
        match skip cs with
        | ']' :: rest => some (.arr [], rest)
        | cs => (readItems n cs).map fun r => (.arr r.1, r.2)
      else if c = openBrace then
        if (skip cs).head? = some closeBrace then some (.obj [], (skip cs).tail)
        else (readEntries n (skip cs)).map fun r => (.obj r.1, r.2)
      else if c = 'n' then readWord "null" .null (c :: cs)
      else if c = 't' then readWord "true" (.bool true) (c :: cs)
      else if c = 'f' then readWord "false" (.bool false) (c :: cs)
      else readNumber (c :: cs)

def readItems : Nat → List Char → Option (List Json × List Char)
  | 0, _ => none
  | n + 1, cs => do
    let (v, rest) ← readValue n cs
    match skip rest with
    | ',' :: rest =>
      let (items, rest) ← readItems n rest
      return (v :: items, rest)
    | ']' :: rest => return ([v], rest)
    | _ => none

def readEntries : Nat → List Char → Option (List (String × Json) × List Char)
  | 0, _ => none
  | n + 1, cs =>
    match skip cs with
    | [] => none
    | c :: cs =>
      if c = quote then do
        let (k, rest) ← readChars cs
        match skip rest with
        | ':' :: rest =>
          let (v, rest) ← readValue n rest
          match skip rest with
          | [] => none
          | c :: rest =>
            if c = ',' then
              let (entries, rest) ← readEntries n rest
              return ((String.ofList k, v) :: entries, rest)
            else if c = closeBrace then return ([(String.ofList k, v)], rest)
            else none
        | _ => none
      else none

end

/-- `json.loads` of texts without fractions, exponents and escaped surrogate pairs; of equal keys the
first one counts. -/
def loads (text : String) : Option Json := do
  let (v, rest) ← readValue (text.length + 1) text.toList
  if skip rest = [] then some v else none

mutual

def Integral : Json → Prop
  | .real _ => False
  | .arr items => IntegralItems items
  | .obj entries => IntegralEntries entries
  | _ => True

def IntegralItems : List Json → Prop
  | [] => True
  | v :: items => Integral v ∧ IntegralItems items

def IntegralEntries : List (String × Json) → Prop
  | [] => True
  | (_, v) :: entries => Integral v ∧ IntegralEntries entries

end

section Strings

theorem hexValue_hexChar {d : Nat} (h : d < 16) : hexValue (hexChar d) = some d := by
  revert d
  decide

theorem codeChar_control {c : Char} (h : c.toNat < 32) :
    codeChar '0' '0' (hexChar (c.toNat / 16)) (hexChar (c.toNat % 16)) = some c := by
  have hcode : 4096 * 0 + 256 * 0 + 16 * (c.toNat / 16) + c.toNat % 16 = c.toNat := by omega
  have hzero : hexValue '0' = some 0 := by decide
  simp only [codeChar, hzero, hexValue_hexChar (show c.toNat / 16 < 16 by omega),
    hexValue_hexChar (Nat.mod_lt _ (by decide)), Option.bind_eq_bind, Option.bind_some, hcode,
    Char.ofNat_toNat]
  exact if_pos c.valid

theorem readChars_letter {e c : Char} (he : e ≠ 'u') (h : letterChar e = some c) (cs : List Char) :
    readChars (backslash :: e :: cs) = (readChars cs).bind fun r => some (c :: r.1, r.2) := by
  have hne : backslash ≠ quote := by decide
  rw [readChars.eq_def]
  simp only [if_neg hne, if_neg he, h, if_true, Option.bind_eq_bind, Option.bind_some]
  rfl

theorem letters_read : ∀ e ∈ letters, e.2 ≠ 'u' ∧ letterChar e.2 = some e.1 := by decide

theorem readChars_escape (c : Char) (cs : List Char) :
    readChars (escape c ++ cs) = (readChars cs).bind fun r => some (c :: r.1, r.2) := by
  unfold escape
  split
  · next letter h =>
    have hmem : (c, letter) ∈ letters := by
      obtain ⟨before, after, heq, _⟩ := List.lookup_eq_some_iff.mp h
      rw [heq]
      exact List.mem_append_right _ (List.mem_cons_self ..)
    obtain ⟨he, hletter⟩ := letters_read _ hmem
    exact readChars_letter he hletter cs
  · next h =>
    have hquote : c ≠ quote := by
      rintro rfl
      cases h
    have hbackslash : c ≠ backslash := by
      rintro rfl
      cases h
    split
    · next hlt =>
      have hne : backslash ≠ quote := by decide
      simp only [List.cons_append, List.nil_append]
      rw [readChars.eq_def]
      simp only [if_neg hne, if_true, codeChar_control hlt, Option.bind_eq_bind, Option.bind_some]
      rfl
    · next hlt =>
      rw [List.cons_append, List.nil_append, readChars.eq_def]
      simp only [if_neg hquote, if_neg hbackslash, if_neg hlt]
      rfl

theorem readChars_chars (s rest : List Char) :
    readChars (s.flatMap escape ++ quote :: rest) = some (s, rest) := by
  induction s with
  | nil =>
    rw [List.flatMap_nil, List.nil_append, readChars.eq_def]
    exact if_pos rfl
  | cons c s ih => rw [List.flatMap_cons, List.append_assoc, readChars_escape, ih, Option.bind_some]

theorem readChars_writeString (s : String) (rest : List Char) :
    writeString s ++ rest = quote :: (s.toList.flatMap escape ++ quote :: rest) := by
  simp [writeString]

end Strings

section Numbers

/-- What may follow an item of a list or an entry. -/
def Ends (rest : List Char) : Prop :=
  ∀ c, rest.head? = some c → c = ',' ∨ c = ']' ∨ c = closeBrace

variable {rest : List Char}

theorem Ends.head (h : Ends rest) {p : Char → Bool}
    (hp : p ',' = false ∧ p ']' = false ∧ p closeBrace = false) : rest.head?.any p = false := by
  cases rest with
  | nil => rfl
  | cons c cs =>
    rcases h c rfl with rfl | rfl | rfl
    · exact hp.1
    · exact hp.2.1
    · exact hp.2.2

theorem digitValue_digitChar {d : Nat} (h : d < 10) : digitValue (digitChar d) = some d := by
  revert d
  decide

theorem spanDigits {chars : List Char} (hchars : ∀ c ∈ chars, isDigit c = true) (h : Ends rest) :
    (chars ++ rest).takeWhile isDigit = chars ∧ (chars ++ rest).dropWhile isDigit = rest := by
  have hhead := h.head (p := isDigit) (by decide)
  rw [List.takeWhile_append_of_pos hchars, List.dropWhile_append_of_pos hchars]
  cases rest with
  | nil => simp
  | cons c cs =>
    have hc : isDigit c = false := hhead
    simp [hc]

theorem filterMap_digits {ds : List Nat} (h : ∀ d ∈ ds, d < 10) :
    (ds.map digitChar).filterMap digitValue = ds := by
  induction ds with
  | nil => rfl
  | cons d ds ih =>
    have hd := digitValue_digitChar (h d (List.mem_cons_self ..))
    rw [List.map_cons, List.filterMap_cons_some hd, ih fun e he => h e (List.mem_cons_of_mem _ he)]

theorem readNat_digits {ds : List Nat} (hne : ds ≠ []) (hlt : ∀ d ∈ ds, d < 10)
    (hzero : ds.getLast hne ≠ 0 ∨ ds.length = 1) (h : Ends rest) :
    readNat (ds.reverse.map digitChar ++ rest) = some (Nat.ofDigits 10 ds, rest) := by
  have hdigit : ∀ c ∈ ds.reverse.map digitChar, isDigit c = true := by
    intro c hc
    obtain ⟨d, hd, rfl⟩ := List.mem_map.mp hc
    rw [isDigit, digitValue_digitChar (hlt d (List.mem_reverse.mp hd))]
    rfl
  obtain ⟨htake, hdrop⟩ := spanDigits hdigit h
  have hvalue : (ds.reverse.map digitChar).reverse.filterMap digitValue = ds := by
    rw [← List.map_reverse, List.reverse_reverse, filterMap_digits hlt]
  have hlead : ¬ (ds.reverse.map digitChar = [] ∨
      (ds.reverse.map digitChar).head? = some '0' ∧ (ds.reverse.map digitChar).length ≠ 1) := by
    rintro (hnil | ⟨hhead, hlen⟩)
    · exact hne (by simpa using hnil)
    · rcases hzero with hlast | hone
      · have hd : digitChar (ds.getLast hne) = '0' := by
          rw [List.head?_map, List.head?_reverse, List.getLast?_eq_some_getLast hne] at hhead
          exact Option.some.inj hhead
        have hread := digitValue_digitChar (hlt _ (List.getLast_mem hne))
        rw [hd] at hread
        exact hlast (Option.some.inj hread).symm
      · exact hlen (by simpa using hone)
  have hfrac : (rest.head?.any fun c => c == '.' || c == 'e' || c == 'E') = false :=
    h.head (by decide)
  simp only [readNat, htake, hdrop, if_neg hlead, hfrac, hvalue]
  rfl

theorem readNat_writeNat (n : Nat) (h : Ends rest) : readNat (writeNat n ++ rest) = some (n, rest) := by
  unfold writeNat
  by_cases hn : n = 0
  · subst hn
    exact readNat_digits (List.cons_ne_nil 0 []) (by simp) (.inr rfl) h
  · have hne : Nat.digits 10 n ≠ [] := Nat.digits_ne_nil_iff_ne_zero.mpr hn
    rw [if_neg hn, readNat_digits hne (fun d hd => Nat.digits_lt_base (by decide) hd)
      (.inl (Nat.getLast_digit_ne_zero 10 hn)) h, Nat.ofDigits_digits]

end Numbers

section Values

variable {rest : List Char}

theorem skip_cons {c : Char} (h : isSpace c = false) (cs : List Char) : skip (c :: cs) = c :: cs := by
  simp [skip, h]

theorem ends_comma (cs : List Char) : Ends (',' :: cs) := fun _ h => .inl (Option.some.inj h).symm

theorem ends_bracket (cs : List Char) : Ends (']' :: cs) :=
  fun _ h => .inr (.inl (Option.some.inj h).symm)

theorem ends_brace (cs : List Char) : Ends (closeBrace :: cs) :=
  fun _ h => .inr (.inr (Option.some.inj h).symm)

theorem writeNat_head (n : Nat) : ∃ c cs, writeNat n = c :: cs ∧ isDigit c = true := by
  have hread : readNat (writeNat n ++ []) = some (n, []) :=
    readNat_writeNat n fun _ h => by cases h
  rw [List.append_nil] at hread
  cases hw : writeNat n with
  | nil =>
    rw [hw] at hread
    cases hread
  | cons c cs =>
    refine ⟨c, cs, rfl, ?_⟩
    cases hc : isDigit c with
    | true => rfl
    | false => simp [hw, readNat, hc] at hread

theorem writeInt_head (n : Int) : ∃ c cs, writeInt n = c :: cs ∧ (c = '-' ∨ isDigit c = true) := by
  unfold writeInt
  split_ifs
  · exact ⟨_, _, rfl, .inl rfl⟩
  · obtain ⟨c, cs, hw, hc⟩ := writeNat_head n.natAbs
    exact ⟨c, cs, hw, .inr hc⟩

theorem readNumber_writeInt (n : Int) (h : Ends rest) :
    readNumber (writeInt n ++ rest) = some (.int n, rest) := by
  unfold writeInt
  split_ifs with hneg
  · rw [List.cons_append, readNumber, if_pos rfl, readNat_writeNat _ h]
    have hn : -(n.natAbs : Int) = n := by omega
    rw [Option.map_some, hn]
  · obtain ⟨c, cs, hw, hc⟩ := writeNat_head n.natAbs
    have hread := readNat_writeNat n.natAbs h
    have hminus : c ≠ '-' := by
      rintro rfl
      cases hc
    have hn : (n.natAbs : Int) = n := by omega
    rw [hw] at hread ⊢
    rw [List.cons_append] at hread ⊢
    rw [readNumber, if_neg hminus, hread, Option.map_some, hn]

/-- The first character of a number is that of no other value. -/
theorem number_start {c : Char} (h : c = '-' ∨ isDigit c = true) : isSpace c = false ∧ c ≠ ']' ∧
    c ≠ quote ∧ c ≠ '[' ∧ c ≠ openBrace ∧ c ≠ 'n' ∧ c ≠ 't' ∧ c ≠ 'f' := by
  rcases h with rfl | h
  · decide
  · refine ⟨?_, ?_, ?_, ?_, ?_, ?_, ?_, ?_⟩
    · cases hspace : isSpace c with
      | false => rfl
      | true =>
        simp only [isSpace, Bool.or_eq_true, beq_iff_eq] at hspace
        rcases hspace with ((rfl | rfl) | rfl) | rfl <;> cases h
    all_goals
      rintro rfl
      cases h

theorem write_head {v : Json} (h : Integral v) :
    ∃ c cs, write v = c :: cs ∧ isSpace c = false ∧ c ≠ ']' := by
  cases v with
  | null => exact ⟨'n', "ull".toList, by simp [write], by decide, by decide⟩
  | bool b =>
    cases b with
    | true => exact ⟨'t', "rue".toList, by simp [write], by decide, by decide⟩
    | false => exact ⟨'f', "alse".toList, by simp [write], by decide, by decide⟩
  | int n =>
    obtain ⟨c, cs, hw, hc⟩ := writeInt_head n
    exact ⟨c, cs, by simp [write, hw], (number_start hc).1, (number_start hc).2.1⟩
  | real q => simp [Integral] at h
  | str s =>
    exact ⟨quote, s.toList.flatMap escape ++ [quote], by simp [write, writeString], by decide, by decide⟩
  | arr items => exact ⟨'[', _, by rw [write], by decide, by decide⟩
  | obj entries => exact ⟨openBrace, _, by rw [write], by decide, by decide⟩

theorem readValue_number {c : Char} (n : Nat) (cs : List Char) (h : c = '-' ∨ isDigit c = true) :
    readValue (n + 1) (c :: cs) = readNumber (c :: cs) := by
  obtain ⟨hspace, _, hquote, hbracket, hbrace, hn, ht, hf⟩ := number_start h
  rw [readValue.eq_def]
  simp only [skip_cons hspace, if_neg hquote, if_neg hbracket, if_neg hbrace, if_neg hn, if_neg ht,
    if_neg hf]

theorem writeItems_cons (v : Json) (items : List Json) :
    writeItems (v :: items) = write v ++ writeMoreItems items := by rw [writeItems]

theorem writeMoreItems_cons (v : Json) (items : List Json) :
    writeMoreItems (v :: items) = ',' :: writeItems (v :: items) := by
  rw [writeMoreItems, writeItems]

theorem writeEntries_cons (k : String) (v : Json) (entries : List (String × Json)) :
    writeEntries ((k, v) :: entries) =
      writeString k ++ ':' :: (write v ++ writeMoreEntries entries) := by rw [writeEntries]

theorem writeMoreEntries_cons (e : String × Json) (entries : List (String × Json)) :
    writeMoreEntries (e :: entries) = ',' :: writeEntries (e :: entries) := by
  rw [writeMoreEntries, writeEntries]

theorem writeItems_head {items : List Json} (h : IntegralItems items) (hne : items ≠ []) :
    ∃ c cs, writeItems items = c :: cs ∧ isSpace c = false ∧ c ≠ ']' := by
  cases items with
  | nil => exact absurd rfl hne
  | cons v items =>
    simp only [IntegralItems] at h
    obtain ⟨c, cs, hw, hc⟩ := write_head h.1
    exact ⟨c, cs ++ writeMoreItems items, by rw [writeItems_cons, hw, List.cons_append], hc⟩

theorem writeEntries_head {entries : List (String × Json)} (hne : entries ≠ []) :
    ∃ cs, writeEntries entries = quote :: cs := by
  cases entries with
  | nil => exact absurd rfl hne
  | cons e entries =>
    obtain ⟨k, v⟩ := e
    exact ⟨_, by rw [writeEntries_cons, readChars_writeString]⟩

mutual

theorem readValue_write (v : Json) (h : Integral v) (n : Nat) (hn : (write v).length ≤ n)
    (rest : List Char) (hends : Ends rest) : readValue n (write v ++ rest) = some (v, rest) := by
  obtain ⟨c, cs, hw, _⟩ := write_head h
  obtain ⟨n, rfl⟩ : ∃ m, n = m + 1 := ⟨n - 1, by rw [hw, List.length_cons] at hn; omega⟩
  cases v with
  | null => rfl
  | bool b => cases b <;> rfl
  | int k =>
    obtain ⟨c, cs, hk, hc⟩ := writeInt_head k
    have hread := readNumber_writeInt k hends
    rw [write, hk, List.cons_append] at *
    rw [readValue_number n _ hc, ← hread]
  | real q => simp [Integral] at h
  | str s =>
    have hspace : isSpace quote = false := by decide
    rw [write, readChars_writeString, readValue.eq_def]
    simp only [skip_cons hspace, if_true, readChars_chars, Option.map_some, String.ofList_toList]
  | arr items =>
    by_cases hnil : items = []
    · subst hnil
      rfl
    · have hitems : IntegralItems items := by simpa only [Integral] using h
      have hread := readItems_write items hitems hnil n
        (by rw [write, List.length_cons] at hn; omega) rest
      obtain ⟨d, ds, hd, hspace, hbracket⟩ := writeItems_head hitems hnil
      rw [hd, List.cons_append] at hread
      rw [write, hd, readValue.eq_def]
      have hskip : skip ('[' :: d :: ds ++ rest) = '[' :: d :: (ds ++ rest) := skip_cons (by decide) _
      have hopen : '[' ≠ quote := by decide
      simp only [hskip, if_neg hopen, if_true, skip_cons hspace]
      split
      · next heq => exact absurd (List.cons.inj heq).1 hbracket
      · rw [hread, Option.map_some]
  | obj entries =>
    by_cases hnil : entries = []
    · subst hnil
      rfl
    · have hentries : IntegralEntries entries := by simpa only [Integral] using h
      have hread := readEntries_write entries hentries hnil n
        (by rw [write, List.length_cons] at hn; omega) rest
      obtain ⟨ds, hd⟩ := writeEntries_head hnil
      rw [hd, List.cons_append] at hread
      rw [write, hd, readValue.eq_def]
      have hskip : skip (openBrace :: quote :: ds ++ rest) = openBrace :: quote :: (ds ++ rest) :=
        skip_cons (by decide) _
      have hskip' : skip (quote :: (ds ++ rest)) = quote :: (ds ++ rest) := skip_cons (by decide) _
      have hquote : openBrace ≠ quote := by decide
      have hbracket : openBrace ≠ '[' := by decide
      have hclose : ¬ (quote :: (ds ++ rest)).head? = some closeBrace := by
        rw [List.head?_cons]
        decide
      simp only [hskip, hskip', if_neg hquote, if_neg hbracket, if_true, if_neg hclose, hread,
        Option.map_some]

theorem readItems_write (items : List Json) (h : IntegralItems items) (hne : items ≠ []) (n : Nat)
    (hn : (writeItems items).length ≤ n) (rest : List Char) :
    readItems n (writeItems items ++ rest) = some (items, rest) := by
  cases items with
  | nil => exact absurd rfl hne
  | cons v items =>
    simp only [IntegralItems] at h
    obtain ⟨c, cs, hw, _⟩ := write_head h.1
    rw [writeItems_cons, List.length_append] at hn
    obtain ⟨n, rfl⟩ : ∃ m, n = m + 1 := ⟨n - 1, by rw [hw, List.length_cons] at hn; omega⟩
    rw [writeItems_cons, List.append_assoc, readItems]
    by_cases hnil : items = []
    · subst hnil
      rw [writeMoreItems] at hn ⊢
      have hvalue := readValue_write v h.1 n (by simpa using hn) (']' :: rest) (ends_bracket rest)
      simp only [List.cons_append, List.nil_append, hvalue, Option.bind_eq_bind, Option.bind_some]
      rfl
    · obtain ⟨w, ws, rfl⟩ := List.exists_cons_of_ne_nil hnil
      rw [writeMoreItems_cons] at hn ⊢
      rw [List.length_cons, hw, List.length_cons] at hn
      have hvalue := readValue_write v h.1 n (by rw [hw, List.length_cons]; omega)
        (',' :: writeItems (w :: ws) ++ rest) (ends_comma _)
      have hitems := readItems_write (w :: ws) h.2 hnil n (by omega) rest
      have hskip : skip (',' :: writeItems (w :: ws) ++ rest) = ',' :: (writeItems (w :: ws) ++ rest) :=
        skip_cons (by decide) _
      simp only [hvalue, Option.bind_eq_bind, Option.bind_some, hskip, hitems]
      rfl

theorem readEntries_write (entries : List (String × Json)) (h : IntegralEntries entries)
    (hne : entries ≠ []) (n : Nat) (hn : (writeEntries entries).length ≤ n) (rest : List Char) :
    readEntries n (writeEntries entries ++ rest) = some (entries, rest) := by
  cases entries with
  | nil => exact absurd rfl hne
  | cons e entries =>
    obtain ⟨k, v⟩ := e
    simp only [IntegralEntries] at h
    rw [writeEntries_cons, List.length_append, List.length_cons, List.length_append] at hn
    obtain ⟨n, rfl⟩ : ∃ m, n = m + 1 := ⟨n - 1, by omega⟩
    rw [writeEntries_cons, List.append_assoc, readChars_writeString, readEntries]
    have hquote : skip (quote :: (k.toList.flatMap escape ++ quote ::
        (':' :: (write v ++ writeMoreEntries entries) ++ rest))) = quote :: (k.toList.flatMap escape ++
        quote :: (':' :: (write v ++ writeMoreEntries entries) ++ rest)) := skip_cons (by decide) _
    have hcolon : skip (':' :: (write v ++ writeMoreEntries entries) ++ rest) =
        ':' :: (write v ++ (writeMoreEntries entries ++ rest)) := by
      rw [← List.append_assoc]
      exact skip_cons (by decide) _
    simp only [hquote, if_true, readChars_chars, hcolon, Option.bind_eq_bind, Option.bind_some,
      String.ofList_toList]
    by_cases hnil : entries = []
    · subst hnil
      rw [writeMoreEntries] at hn ⊢
      have hvalue := readValue_write v h.1 n (by omega) (closeBrace :: rest) (ends_brace rest)
      have hskip : skip (closeBrace :: rest) = closeBrace :: rest := skip_cons (by decide) _
      have hcomma : closeBrace ≠ ',' := by decide
      simp only [List.cons_append, List.nil_append, hvalue, Option.bind_some, hskip, if_neg hcomma,
        if_true]
      rfl
    · obtain ⟨w, ws, rfl⟩ := List.exists_cons_of_ne_nil hnil
      rw [writeMoreEntries_cons] at hn ⊢
      rw [List.length_cons] at hn
      have hvalue := readValue_write v h.1 n (by omega) (',' :: writeEntries (w :: ws) ++ rest)
        (ends_comma _)
      have hentries := readEntries_write (w :: ws) h.2 hnil n (by omega) rest
      have hskip : skip (',' :: writeEntries (w :: ws) ++ rest) =
          ',' :: (writeEntries (w :: ws) ++ rest) := skip_cons (by decide) _
      simp only [hvalue, Option.bind_some, hskip, if_true, hentries]
      rfl

end

theorem loads_dumps {v : Json} (h : Integral v) : loads (dumps v) = some v := by
  have hread := readValue_write v h ((dumps v).length + 1) (by simp [dumps]) []
    fun _ hnil => by cases hnil
  rw [List.append_nil] at hread
  simp only [loads, dumps, String.toList_ofList] at hread ⊢
  rw [hread]
  rfl

end Values

end JsonText

end Doci
