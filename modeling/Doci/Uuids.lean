import Doci.ThreadDeletion

/-! Reading a UUID from its text: `UUID(s)` gives back what `str(u)` wrote. -/

namespace Doci

/-- The value of a hexadecimal digit, of either case. -/
def hexValue (c : Char) : Option Nat := (List.range 16).find? fun n => Nat.digitChar n = c.toLower

/-- `s.replace(part, "")`, where `skip` characters of a part are still to be left out. -/
def removeAll (part : List Char) : Nat → List Char → List Char
  | _, [] => []
  | skip + 1, _ :: s => removeAll part skip s
  | 0, c :: s =>
    if part.isPrefixOf (c :: s) then removeAll part (part.length - 1) s else c :: removeAll part 0 s

def isBrace (c : Char) : Bool := c == '{' || c == '}'

/-- `s.strip("{}")`. -/
def stripBraces (s : List Char) : List Char := ((s.dropWhile isBrace).reverse.dropWhile isBrace).reverse

/-- `UUID(s)`: the URN prefix, braces and hyphens are optional. -/
def uuidOf (s : String) : Option Uuid :=
  let hex := (stripBraces (removeAll "uuid:".toList 0 (removeAll "urn:".toList 0 s.toList))).filter (· ≠ '-')
  if hex.length = 32 then
    (hex.mapM hexValue).map fun digits => BitVec.ofNat 128 (digits.foldl (fun n d => 16 * n + d) 0)
  else none

variable {u : Uuid} {s part : List Char} {c : Char}

theorem hexValue_digitChar : ∀ n < 16, hexValue (Nat.digitChar n) = some n := by decide

theorem digitChar_plain : ∀ n < 16, Nat.digitChar n ∉ ['-', ':', '|', 'u', '{', '}'] := by decide

theorem mem_hexDigits {start count : Nat} (h : c ∈ hexDigits u start count) :
    ∃ n < 16, c = Nat.digitChar n := by
  obtain ⟨i, -, rfl⟩ := List.mem_map.mp h
  exact ⟨_, Nat.mod_lt _ (by decide), rfl⟩

/-- The characters of the text are hexadecimal digits and hyphens. -/
theorem mem_uuidText (h : c ∈ (uuidText u).toList) : c = '-' ∨ ∃ n < 16, c = Nat.digitChar n := by
  simp only [uuidText, String.toList_ofList, List.mem_append, List.mem_cons] at h
  rcases h with (((h | h | h) | h | h) | h | h) | h | h
  all_goals first | exact .inl h | exact .inr (mem_hexDigits h)

theorem not_mem_uuidText (h : c ∈ [':', '|', 'u', '{', '}']) : c ∉ (uuidText u).toList := by
  intro hc
  rcases mem_uuidText hc with rfl | ⟨n, hn, rfl⟩
  · exact absurd h (by decide)
  · exact digitChar_plain n hn (List.mem_cons_of_mem _ h)

theorem removeAll_eq (h : c ∉ s) (hp : part.head? = some c) : removeAll part 0 s = s := by
  induction s with
  | nil => rfl
  | cons x s ih =>
    have hne : part.isPrefixOf (x :: s) = false := by
      cases part with
      | nil => cases hp
      | cons p part =>
        obtain rfl : p = c := Option.some.inj hp
        have hx : p ≠ x := fun hpx => h (hpx ▸ List.mem_cons_self)
        simp [List.isPrefixOf, hx]
    rw [removeAll, hne, if_neg Bool.false_ne_true, ih fun hc => h (List.mem_cons_of_mem _ hc)]

theorem dropWhile_brace (h : ∀ c ∈ s, isBrace c = false) : s.dropWhile isBrace = s := by
  cases s with
  | nil => rfl
  | cons c s => rw [List.dropWhile_cons_of_neg (by simp [h c List.mem_cons_self])]

theorem stripBraces_eq (h : ∀ c ∈ s, isBrace c = false) : stripBraces s = s := by
  rw [stripBraces, dropWhile_brace h, dropWhile_brace fun c hc => h c (List.mem_reverse.mp hc),
    List.reverse_reverse]

/-- Without its hyphens the text is all the digits. -/
theorem filter_uuidText (u : Uuid) : (uuidText u).toList.filter (· ≠ '-') = hexDigits u 0 32 := by
  have hkeep : ∀ start count, (hexDigits u start count).filter (· ≠ '-') = hexDigits u start count := by
    intro start count
    refine List.filter_eq_self.mpr fun c hc => ?_
    obtain ⟨n, hn, rfl⟩ := mem_hexDigits hc
    simp
  have hhyphen : ∀ l : List Char, ('-' :: l).filter (· ≠ '-') = l.filter (· ≠ '-') := fun l => rfl
  rw [uuidText, String.toList_ofList]
  simp only [List.filter_append, hhyphen, hkeep]
  rfl

theorem mapM_hexValue {l : List Nat} (h : ∀ n ∈ l, n < 16) :
    (l.map Nat.digitChar).mapM hexValue = some l := by
  induction l with
  | nil => rfl
  | cons n l ih =>
    simp [List.mapM_cons, hexValue_digitChar n (h n List.mem_cons_self),
      ih fun m hm => h m (List.mem_cons_of_mem _ hm)]

/-- The digits of a number in base 16, read again. -/
theorem foldl_hex (x m : Nat) :
    ((List.range m).map fun i => x / 16 ^ (m - 1 - i) % 16).foldl (fun n d => 16 * n + d) 0 = x % 16 ^ m := by
  induction m generalizing x with
  | zero => simp [Nat.mod_one]
  | succ m ih =>
    have hfront : ((List.range m).map fun i => x / 16 ^ (m + 1 - 1 - i) % 16) =
        (List.range m).map fun i => x / 16 / 16 ^ (m - 1 - i) % 16 := by
      refine List.map_congr_left fun i hi => ?_
      have hlt := List.mem_range.mp hi
      rw [Nat.div_div_eq_div_mul, ← Nat.pow_succ', show m + 1 - 1 - i = m - 1 - i + 1 by omega]
    rw [List.range_succ, List.map_append, List.foldl_append, hfront, ih]
    have hmod : x % 16 ^ (m + 1) = 16 * (x / 16 % 16 ^ m) + x % 16 := by
      rw [Nat.pow_succ', Nat.mod_mul]
      omega
    simp [hmod]

theorem uuidOf_uuidText (u : Uuid) : uuidOf (uuidText u) = some u := by
  have hurn : removeAll "urn:".toList 0 (uuidText u).toList = (uuidText u).toList :=
    removeAll_eq (not_mem_uuidText (by decide)) (c := 'u') rfl
  have huuid : removeAll "uuid:".toList 0 (uuidText u).toList = (uuidText u).toList :=
    removeAll_eq (not_mem_uuidText (by decide)) (c := 'u') rfl
  have hbraces : stripBraces (uuidText u).toList = (uuidText u).toList := by
    refine stripBraces_eq fun c hc => ?_
    have hopen : c ≠ '{' := fun h => not_mem_uuidText (u := u) (c := '{') (by decide) (h ▸ hc)
    have hclose : c ≠ '}' := fun h => not_mem_uuidText (u := u) (c := '}') (by decide) (h ▸ hc)
    simp [isBrace, hopen, hclose]
  have hdigits : hexDigits u 0 32 =
      ((List.range 32).map fun i => u.toNat / 16 ^ (32 - 1 - i) % 16).map Nat.digitChar := by
    rw [hexDigits, List.map_map]
    rfl
  have hmap := mapM_hexValue (l := (List.range 32).map fun i => u.toNat / 16 ^ (32 - 1 - i) % 16)
    fun n hn => by
      obtain ⟨i, -, rfl⟩ := List.mem_map.mp hn
      exact Nat.mod_lt _ (by decide)
  have hlen : (hexDigits u 0 32).length = 32 := by simp [hexDigits]
  simp only [uuidOf, hurn, huuid, hbraces, filter_uuidText, hlen, ↓reduceIte]
  rw [hdigits, hmap, Option.map_some, foldl_hex]
  have hlt : u.toNat < 16 ^ 32 := u.isLt
  rw [Nat.mod_eq_of_lt hlt, BitVec.ofNat_toNat, BitVec.setWidth_eq]

end Doci
