import Doci.BlobDrift
import Doci.Checkpoint
import Doci.DateOrder

/-! The versions of a checkpoint's channels: a number of 32 digits and a random suffix. Along a
chain of calls their texts increase with their numbers. -/

namespace Doci

open Numerals

/-- `current`: the saver returns texts, and other savers count with numbers. -/
inductive ChannelVersion where
  | int (n : ℤ)
  | str (version : String)

/-- `bytes.hex()`. -/
def hexText (bytes : Bytes) : List Char :=
  bytes.flatMap fun b => [Nat.digitChar (b.toNat / 16), Nat.digitChar (b.toNat % 16)]

def zeroPadded (width n : ℕ) : List Char := (digitChars (decimalDigits n)).leftpad width '0'

/-- `f"{n:032}"`: the sign is one of the 32, and no number of more than 4300 digits is written. -/
def formatPadded (n : ℤ) : Option (List Char) :=
  if (decimalDigits n.natAbs).length ≤ 4300 then
    some (if n < 0 then '-' :: zeroPadded 31 n.natAbs else zeroPadded 32 n.natAbs)
  else none

section Next

variable (data : CharData)

/-- `cur`, with `none` for the `ValueError` of `int`. -/
def currentNumber : Option ChannelVersion → Option ℤ
  | none => some 0
  | some (.int n) => some n
  | some (.str version) => Blobs.intOf data (version.toList.takeWhile (· ≠ '.'))

/-- `random` is what `os.urandom(8)` returns. -/
def ValkeySaver.getNextVersion (current : Option ChannelVersion) (random : Vector UInt8 8) :
    Option String := do
  let cur ← currentNumber data current
  let number ← formatPadded (cur + 1)
  return String.ofList (number ++ '.' :: hexText random.toList)

/-- The versions of a channel, when each call is handed the version that the last one returned. -/
def versionChain : Option ChannelVersion → List (Vector UInt8 8) → Option (List String)
  | _, [] => some []
  | current, random :: randoms => do
    let version ← ValkeySaver.getNextVersion data current random
    let later ← versionChain (some (.str version)) randoms
    return version :: later

end Next

section Padded

variable {width n : ℕ}

theorem zeroPadded_eq : zeroPadded width n = digitChars ((decimalDigits n).leftpad width 0) := by
  have hzeros : ∀ k, digitChars (List.replicate k 0) = List.replicate k '0' :=
    fun _ => List.map_replicate
  rw [zeroPadded, List.leftpad, List.leftpad, digitChars_append, length_digitChars, hzeros]

theorem value_leftpad (g : List Digit) : value (g.leftpad width 0) = value g := by
  have hzeros : ∀ k, value (List.replicate k 0) = 0 := by
    intro k
    induction k with
    | zero => rfl
    | succ k ih => simp [List.replicate_succ, value_cons, ih]
  rw [List.leftpad, value_append, hzeros, Nat.zero_mul, Nat.zero_add]

theorem length_decimalDigits_of_lt (hwidth : 0 < width) (h : n < 10 ^ width) :
    (decimalDigits n).length ≤ width := by
  rw [← not_lt, lt_length_decimalDigits]
  omega

theorem length_leftpad_decimalDigits (hwidth : 0 < width) (h : n < 10 ^ width) :
    ((decimalDigits n).leftpad width 0).length = width := by
  rw [List.length_leftpad, max_eq_left (length_decimalDigits_of_lt hwidth h)]

theorem length_zeroPadded (hwidth : 0 < width) (h : n < 10 ^ width) :
    (zeroPadded width n).length = width := by
  rw [zeroPadded_eq, length_digitChars, length_leftpad_decimalDigits hwidth h]

theorem zeroPadded_lt {m : ℕ} (hwidth : 0 < width) (hm : m < 10 ^ width) (hn : n < 10 ^ width) :
    zeroPadded width m < zeroPadded width n ↔ m < n := by
  have hlen := (length_leftpad_decimalDigits hwidth hm).trans
    (length_leftpad_decimalDigits hwidth hn).symm
  rw [zeroPadded_eq, zeroPadded_eq, digitChars_lt hlen, value_leftpad, value_leftpad,
    value_decimalDigits, value_decimalDigits]

/-- `int(s)` reads back what was padded. -/
theorem intOf_zeroPadded {data : CharData} (hwidth : 0 < width) (hle : width ≤ 4300)
    (h : n < 10 ^ width) : Blobs.intOf data (zeroPadded width n) = some (n : ℤ) := by
  have hlen := length_leftpad_decimalDigits hwidth h
  have hne : (decimalDigits n).leftpad width 0 ≠ [] :=
    List.append_ne_nil_of_right_ne_nil _ (decimalDigits_ne_nil n)
  rw [zeroPadded_eq, Blobs.intOf_digitChars, if_pos ⟨hne, hlen.trans_le hle⟩, value_leftpad,
    value_decimalDigits]

theorem formatPadded_ofNat (h : n < 10 ^ 32) : formatPadded n = some (zeroPadded 32 n) := by
  have hlen := length_decimalDigits_of_lt (by decide) h
  rw [formatPadded, Int.natAbs_natCast, if_pos (hlen.trans (by decide)), if_neg (by omega)]

theorem takeWhile_zeroPadded (rest : List Char) :
    (zeroPadded width n ++ '.' :: rest).takeWhile (· ≠ '.') = zeroPadded width n := by
  rw [zeroPadded_eq, List.takeWhile_append_of_pos fun c hc => Blobs.ne_dot_of_mem hc, List.takeWhile_cons_of_neg (by simp), List.append_nil]

end Padded

/-- A version of the saver with the number `n`. -/
def HasNumber (n : ℕ) (version : String) : Prop :=
  n < 10 ^ 32 ∧ ∃ suffix, version = String.ofList (zeroPadded 32 n ++ '.' :: suffix)

/-- `after` has the number that comes behind that of `before`. -/
def Succeeds (data : CharData) (before after : Option ChannelVersion) : Prop :=
  ∃ n, currentNumber data before = some n ∧ currentNumber data after = some (n + 1)

section Chain

variable {data : CharData} {m n : ℕ} {version version' : String} {versions : List String}
  {current : Option ChannelVersion}

theorem HasNumber.currentNumber (h : HasNumber n version) :
    currentNumber data (some (.str version)) = some (n : ℤ) := by
  obtain ⟨hn, suffix, rfl⟩ := h
  rw [Doci.currentNumber, String.toList_ofList, takeWhile_zeroPadded,
    intOf_zeroPadded (by decide) (by decide) hn]

theorem HasNumber.lt (h : HasNumber m version) (h' : HasNumber n version') (hlt : m < n) :
    version < version' := by
  obtain ⟨hm, suffix, rfl⟩ := h
  obtain ⟨hn, suffix', rfl⟩ := h'
  have hlen : (zeroPadded 32 m).length = (zeroPadded 32 n).length :=
    (length_zeroPadded (by decide) hm).trans (length_zeroPadded (by decide) hn).symm
  rw [String.lt_iff_toList_lt, String.toList_ofList, String.toList_ofList, append_lt_append hlen,
    zeroPadded_lt (by decide) hm hn]
  exact .inl hlt

theorem getNextVersion_number (hcurrent : currentNumber data current = some (n : ℤ))
    (hn : n + 1 < 10 ^ 32) (random : Vector UInt8 8) :
    ∃ version, ValkeySaver.getNextVersion data current random = some version ∧
      HasNumber (n + 1) version := by
  have hformat := formatPadded_ofNat hn
  push_cast at hformat
  refine ⟨_, ?_, hn, hexText random.toList, rfl⟩
  simp only [ValkeySaver.getNextVersion, hcurrent, hformat, Option.bind_eq_bind, Option.bind_some]
  rfl

/-- What the calls return when the number that they start from is `n`. -/
structure Ascending (data : CharData) (n : ℕ) (current : Option ChannelVersion)
    (versions : List String) : Prop where
  above : ∀ v ∈ versions, ∃ k, n < k ∧ HasNumber k v
  increasing : versions.Pairwise (· < ·)
  derived : List.IsChain (Succeeds data) (current :: versions.map fun v => some (.str v))

theorem Ascending.nil : Ascending data n current [] :=
  ⟨fun _ hv => absurd hv List.not_mem_nil, List.Pairwise.nil, List.isChain_singleton _⟩

theorem Ascending.cons (hcurrent : currentNumber data current = some (n : ℤ))
    (hversion : HasNumber (n + 1) version)
    (h : Ascending data (n + 1) (some (.str version)) versions) :
    Ascending data n current (version :: versions) := by
  refine ⟨fun v hv => ?_, List.pairwise_cons.mpr ⟨fun v hv => ?_, h.increasing⟩,
    List.isChain_cons_cons.mpr ⟨⟨n, hcurrent, ?_⟩, h.derived⟩⟩
  · rcases List.mem_cons.mp hv with rfl | hv
    · exact ⟨n + 1, Nat.lt_succ_self n, hversion⟩
    · obtain ⟨k, hk, hnumber⟩ := h.above v hv
      exact ⟨k, (Nat.lt_succ_self n).trans hk, hnumber⟩
  · obtain ⟨k, hk, hnumber⟩ := h.above v hv
    exact hversion.lt hnumber hk
  · exact_mod_cast hversion.currentNumber

theorem versionChain_ascending {randoms : List (Vector UInt8 8)}
    (hcurrent : currentNumber data current = some (n : ℤ)) (hn : n + randoms.length < 10 ^ 32) :
    ∃ versions, versionChain data current randoms = some versions ∧
      versions.length = randoms.length ∧ Ascending data n current versions := by
  induction randoms generalizing n current with
  | nil => exact ⟨[], rfl, rfl, Ascending.nil⟩
  | cons random randoms ih =>
    rw [List.length_cons] at hn
    obtain ⟨version, hnext, hversion⟩ := getNextVersion_number hcurrent (by omega) random
    obtain ⟨later, hlater, hlen, hascending⟩ := ih hversion.currentNumber (by omega)
    refine ⟨version :: later, ?_, congrArg Nat.succ hlen, hascending.cons hcurrent hversion⟩
    simp only [versionChain, hnext, hlater, Option.bind_eq_bind, Option.bind_some]
    rfl

/-- A chain that starts with `None` or with a number, and whose numbers stay below `10 ^ 32`. -/
theorem versions_increase (start : Option ℕ) (randoms : List (Vector UInt8 8))
    (hbound : start.getD 0 + randoms.length < 10 ^ 32) :
    ∃ versions, versionChain data (start.map fun n => .int n) randoms = some versions ∧
      versions.length = randoms.length ∧ versions.Pairwise (· < ·) ∧
      List.IsChain (Succeeds data)
        ((start.map fun n => .int n) :: versions.map fun v => some (.str v)) := by
  have hstart : currentNumber data (start.map fun n => .int n) = some ((start.getD 0 : ℕ) : ℤ) := by
    cases start <;> rfl
  obtain ⟨versions, hchain, hlen, hascending⟩ := versionChain_ascending hstart hbound
  exact ⟨versions, hchain, hlen, hascending.increasing, hascending.derived⟩

/-- The second suffix is the smaller one. -/
theorem versions_increase_two :
    [Vector.replicate 8 255, Vector.replicate 8 0].length < 10 ^ 32 ∧
    ∃ versions, versionChain plainData none [Vector.replicate 8 255, Vector.replicate 8 0] =
        some versions ∧
      versions.length = 2 ∧ versions.Pairwise (· < ·) ∧
      List.IsChain (Succeeds plainData) (none :: versions.map fun v => some (.str v)) :=
  ⟨by norm_num, versions_increase none [Vector.replicate 8 255, Vector.replicate 8 0] (by norm_num)⟩

end Chain

end Doci
