import Doci.Characters

/-! `gen_key` and the rows that are created under the keys it derives. -/

namespace Doci

/-- The class `[a-z0-9]`, which is also `_KEY_ALPHABET`. -/
def slugChar (c : Char) : Bool := ('a' ≤ c && c ≤ 'z') || ('0' ≤ c && c ≤ '9')

def keyMaxSegments : Nat := 5

def keySuffixLen : Nat := 6

/-- What `secrets.choice` may draw. -/
structure Suffix where
  chars : List Char
  length_eq : chars.length = keySuffixLen
  slug : ∀ c ∈ chars, slugChar c = true

/-- `re.findall(r"[a-z0-9]+", s)`. -/
def slugRuns (s : List Char) : List (List Char) :=
  (s.splitOnP fun c => !slugChar c).filter (· ≠ [])

section GenKey

variable (data : CharData)

def slugWords (name : List Char) : List (List Char) :=
  (slugRuns (data.lowerText [] name [])).take keyMaxSegments

def genKey (name : List Char) (suffix : Suffix) : List Char :=
  let stem := ['-'].intercalate (slugWords data name)
  if stem ≠ [] then stem ++ '-' :: suffix.chars else suffix.chars

end GenKey

/-- The width of every `key` and `name` column. -/
def columnWidth : Nat := 255

/-- A `VARCHAR` takes a longer value only if the excess is blank. -/
def fitsColumn (s : List Char) : Bool := (s.drop columnWidth).all (· == ' ')

inductive CreateError where
  | truncation
  | duplicateKey (key : List Char)
  deriving DecidableEq

/-- The key and the name of a new row. -/
abbrev NamedRow := List Char × List Char

section Create

variable (data : CharData) (taken : List Char → Bool)

def insertNamed (key name : List Char) : Except CreateError NamedRow :=
  if !(fitsColumn key && fitsColumn name) then .error .truncation
  else if taken key then .error (.duplicateKey key)
  else .ok (key, name)

/-- `key or gen_key(name)`. -/
def keyOr (key : Option (List Char)) (name : List Char) (suffix : Suffix) : List Char :=
  match key with
  | some (c :: key) => c :: key
  | _ => genKey data name suffix

def createRule (name : List Char) (key : Option (List Char)) (suffix : Suffix) :
    Except CreateError NamedRow := insertNamed taken (keyOr data key name suffix) name

def createDossier (name : List Char) (key : Option (List Char)) (suffix : Suffix) :
    Except CreateError NamedRow := insertNamed taken (keyOr data key name suffix) name

def createKnowledge (name : List Char) (key : Option (List Char)) (suffix : Suffix) :
    Except CreateError NamedRow := insertNamed taken (keyOr data key name suffix) name

/-- `upsert_document`: a key that is taken is updated. -/
def upsertDocument (name : List Char) (key : Option (List Char)) (suffix : Suffix) :
    Except CreateError NamedRow := insertNamed (fun _ => false) (keyOr data key name suffix) name

end Create

/-- A key of the promised shape: at most five segments and the suffix, of one to 255
characters in all. -/
def SlugKey (suffix : Suffix) (key : List Char) : Prop :=
  (∃ segments : List (List Char), segments.length ≤ 5 ∧
      (∀ w ∈ segments, w ≠ [] ∧ ∀ c ∈ w, slugChar c = true) ∧
      key = ['-'].intercalate (segments ++ [suffix.chars])) ∧
    suffix.chars.length = 6 ∧ key.length ≤ 255

/-- Nothing that `gen_key` derives from the name makes a creation fail. -/
def CreatesByName (data : CharData) (name : List Char) (suffix : Suffix) : Prop :=
  SlugKey suffix (genKey data name suffix) ∧
    ∀ taken, createRule data taken name none suffix ≠ .error .truncation ∧
      createDossier data taken name none suffix ≠ .error .truncation ∧
      createKnowledge data taken name none suffix ≠ .error .truncation ∧
      upsertDocument data name none suffix ≠ .error .truncation

variable {data : CharData} {name : List Char} {suffix : Suffix}

theorem mem_splitOnP_not {p : Char → Bool} {s w : List Char} (h : w ∈ s.splitOnP p) :
    ∀ c ∈ w, p c = false := by
  induction s generalizing w with
  | nil =>
    rw [List.splitOnP_nil, List.mem_singleton] at h
    simp [h]
  | cons x s ih =>
    rw [List.splitOnP_cons_eq_if_modifyHead] at h
    by_cases hx : p x = true
    · rw [if_pos hx, List.mem_cons] at h
      rcases h with rfl | h
      · simp
      · exact ih h
    · rw [if_neg hx] at h
      obtain ⟨first, rest, heq⟩ := List.exists_cons_of_ne_nil (List.splitOnP_ne_nil p s)
      rw [heq] at h ih
      rcases List.mem_cons.mp h with rfl | h
      · intro c hc
        rcases List.mem_cons.mp hc with rfl | hc
        · simpa using hx
        · exact ih List.mem_cons_self c hc
      · exact ih (List.mem_cons_of_mem _ h)

theorem slugWords_slug {w : List Char} (h : w ∈ slugWords data name) :
    w ≠ [] ∧ ∀ c ∈ w, slugChar c = true := by
  have hrun := List.mem_filter.mp (List.mem_of_mem_take h)
  refine ⟨by simpa using hrun.2, fun c hc => ?_⟩
  simpa using mem_splitOnP_not hrun.1 c hc

theorem length_slugWords : (slugWords data name).length ≤ 5 := by
  rw [slugWords, List.length_take]
  exact Nat.min_le_left _ _

theorem length_intercalate_hyphen (segments : List (List Char)) (last : List Char) :
    (['-'].intercalate (segments ++ [last])).length =
      (segments.map List.length).sum + segments.length + last.length := by
  induction segments with
  | nil => simp [List.intercalate]
  | cons w segments ih =>
    obtain ⟨x, rest, heq⟩ := List.exists_cons_of_ne_nil
      (List.append_ne_nil_of_right_ne_nil segments (List.cons_ne_nil last []))
    rw [List.cons_append, heq, List.intercalate_cons_cons, ← heq, List.length_append,
      List.length_append, ih]
    simp only [List.length_cons, List.length_nil, List.map_cons, List.sum_cons]
    omega

theorem intercalate_append_last {segments : List (List Char)} (last : List Char) (h : segments ≠ []) :
    ['-'].intercalate (segments ++ [last]) = ['-'].intercalate segments ++ '-' :: last := by
  induction segments with
  | nil => exact absurd rfl h
  | cons w segments ih =>
    cases segments with
    | nil => simp [List.intercalate]
    | cons x segments =>
      rw [List.cons_append, List.cons_append, List.intercalate_cons_cons, ← List.cons_append,
        ih (List.cons_ne_nil _ _), List.intercalate_cons_cons]
      simp only [List.append_assoc]

/-- The key is the words and the suffix, joined by hyphens. -/
theorem genKey_eq : genKey data name suffix =
    ['-'].intercalate (slugWords data name ++ [suffix.chars]) := by
  by_cases hwords : slugWords data name = []
  · simp [genKey, hwords, List.intercalate]
  · have hstem : ['-'].intercalate (slugWords data name) ≠ [] := by
      obtain ⟨w, rest, heq⟩ := List.exists_cons_of_ne_nil hwords
      have hw := (slugWords_slug (heq ▸ List.mem_cons_self : w ∈ slugWords data name)).1
      rw [heq]
      cases rest with
      | nil => simpa [List.intercalate] using hw
      | cons x rest =>
        rw [List.intercalate_cons_cons]
        simp
    rw [genKey, if_pos hstem, intercalate_append_last _ hwords]

theorem length_genKey : (genKey data name suffix).length =
    ((slugWords data name).map List.length).sum + (slugWords data name).length + 6 := by
  rw [genKey_eq, length_intercalate_hyphen, suffix.length_eq]
  rfl

theorem slugKey_genKey : SlugKey suffix (genKey data name suffix) ↔
    ((slugWords data name).map List.length).sum + (slugWords data name).length ≤ 249 := by
  rw [SlugKey, length_genKey]
  constructor
  · rintro ⟨-, -, hlen⟩
    omega
  · intro hlen
    exact ⟨⟨_, length_slugWords, fun w hw => slugWords_slug hw, genKey_eq⟩, suffix.length_eq, by omega⟩

theorem fitsColumn_of_le {s : List Char} (h : s.length ≤ columnWidth) : fitsColumn s = true := by
  rw [fitsColumn, List.drop_of_length_le h]
  rfl

theorem insertNamed_fits {taken : List Char → Bool} {key : List Char} (hkey : key.length ≤ columnWidth)
    (hname : name.length ≤ columnWidth) : insertNamed taken key name ≠ .error .truncation := by
  rw [insertNamed, fitsColumn_of_le hkey, fitsColumn_of_le hname, Bool.and_true, Bool.not_true,
    if_neg Bool.false_ne_true]
  split <;> simp

theorem slugChar_replicate {n : Nat} {c : Char} (h : c ∈ List.replicate n 'a') : slugChar c = true := by
  rw [List.eq_of_mem_replicate h]
  decide

def plainSuffix : Suffix := ⟨List.replicate keySuffixLen 'a', List.length_replicate, fun _ => slugChar_replicate⟩

theorem slugWords_word {n : Nat} (h : 0 < n) :
    slugWords plainData (List.replicate n 'a') = [List.replicate n 'a'] := by
  have hlower : plainData.lowerText [] (List.replicate n 'a') [] = List.replicate n 'a' := by
    refine CharData.lowerText_eq (List.forall₂_same.mpr fun c hc => ?_)
    rw [List.eq_of_mem_replicate hc]
    exact ⟨by decide, plainData.lower_ascii 'a' (by decide)⟩
  have hsplit : (List.replicate n 'a').splitOnP (fun c => !slugChar c) = [List.replicate n 'a'] :=
    List.splitOnP_eq_singleton fun c hc => by simp [slugChar_replicate hc]
  have hne : List.replicate n 'a' ≠ [] := by simpa using Nat.ne_of_gt h
  rw [slugWords, slugRuns, hlower, hsplit, List.filter_cons_of_pos (by simpa using hne)]
  rfl

/-- A name of one word of 250 characters derives a key of 257. -/
theorem long_word_overflows :
    (List.replicate 250 'a').length ≤ 255 ∧ ¬ CreatesByName plainData (List.replicate 250 'a') plainSuffix := by
  refine ⟨by rw [List.length_replicate]; omega, fun h => ?_⟩
  have hlen := slugKey_genKey.mp h.1
  rw [slugWords_word (by decide), List.map_singleton, List.length_replicate] at hlen
  exact absurd hlen (by decide)

/-- A creation by name succeeds, as far as its key goes, exactly when the first five words of
the name leave room for the suffix. -/
theorem creates_by_name_iff (data : CharData) (name : List Char) (suffix : Suffix)
    (hname : name.length ≤ 255) :
    CreatesByName data name suffix ↔
      ((slugWords data name).map List.length).sum + (slugWords data name).length ≤ 249 := by
  refine ⟨fun h => slugKey_genKey.mp h.1, fun h => ?_⟩
  have hslug : SlugKey suffix (genKey data name suffix) := slugKey_genKey.mpr h
  have hfits : ∀ taken, insertNamed taken (genKey data name suffix) name ≠ .error .truncation :=
    fun taken => insertNamed_fits hslug.2.2 hname
  exact ⟨hslug, fun taken => ⟨hfits taken, hfits taken, hfits taken, hfits _⟩⟩

/-- Five words that leave just the room for the suffix, and a sixth one. -/
def sixWords : List Char :=
  [' '].intercalate ([49, 49, 49, 49, 48, 5].map fun n => List.replicate n 'a')

theorem creates_by_name_iff_sixWords : CreatesByName plainData sixWords plainSuffix := by
  have hname : sixWords.length ≤ 255 := by decide +kernel
  have hroom : ((slugWords plainData sixWords).map List.length).sum +
      (slugWords plainData sixWords).length = 249 := by decide +kernel
  exact (creates_by_name_iff plainData sixWords plainSuffix hname).mpr hroom.le

end Doci
