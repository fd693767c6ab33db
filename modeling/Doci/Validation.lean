import Doci.Mime
import Mathlib.Algebra.Order.Group.Int
import Mathlib.Tactic.Common

/-! `validate_object` on a stream of chunks against the check of the whole content: the
chunk loop with the buffers it holds, for a size cap that any setting may give. -/

namespace Doci

section Validation

variable (zipNames : ZipNames)

/-- What `validate_object` checks on the bytes once they are all there. -/
def validateType (data : Bytes) (name : Option String) : Except Refusal (Mime × Nat) :=
  match detectMime zipNames data name with
  | .error text => .error (.raised text)
  | .ok none => .error .unsupportedType
  | .ok (some mime) =>
    if mime = .gif && !isGif87a (data.take headerLen) && containsBytes netscapeMarker data then
      .error .unsupportedType
    else .ok (mime, data.length)

/-- The chunk loop: the buffer, unless it reached the cap. -/
def fillBuffer (maxSize : Int) : List Bytes → Bytes → Option Bytes
  | [], buf => some buf
  | chunk :: chunks, buf =>
    if maxSize ≤ (buf ++ chunk).length then none else fillBuffer maxSize chunks (buf ++ chunk)

/-- Each chunk that the loop takes, with the buffer that it makes. -/
def buffered (maxSize : Int) : List Bytes → Bytes → List (Bytes × Bytes)
  | [], _ => []
  | chunk :: chunks, buf =>
    (chunk, buf ++ chunk) ::
      if maxSize ≤ (buf ++ chunk).length then [] else buffered maxSize chunks (buf ++ chunk)

def validateChunks (maxSize : Int) (chunks : List Bytes) (name : Option String) :
    Except Refusal (Mime × Nat) :=
  match fillBuffer maxSize chunks [] with
  | none => .error .tooLarge
  | some data => validateType zipNames data name

/-- No type is detected, or it is a GIF that may be animated. -/
def Blocked (data : Bytes) (name : Option String) : Prop :=
  detectMime zipNames data name = .ok none ∨
    detectMime zipNames data name = .ok (some .gif) ∧ ¬ ascii "GIF87a" <+: data ∧ netscapeMarker <:+: data

/-- The outcome that the content alone calls for. -/
def ContentOutcome (maxSize : Int) (data : Bytes) (name : Option String) :
    Except Refusal (Mime × Nat) → Prop
  | .error .tooLarge => maxSize < data.length
  | .error .unsupportedType => data.length ≤ maxSize ∧ Blocked zipNames data name
  | .error (.raised _) => False
  | .ok (mime, size) => data.length ≤ maxSize ∧ ¬ Blocked zipNames data name ∧
      detectMime zipNames data name = .ok (some mime) ∧ size = data.length

/-- The bytes look like an archive, and `zipfile` fails on them other than by `BadZipFile`. -/
def ZipRaises (data : Bytes) : Prop :=
  zipMagic <+: data ∧ ∃ text, zipNames data = .error (.other text)

/-- The outcome is that of the content, and no buffer outgrows the cap by more than the
chunk that was read last. -/
def ValidatesContent (maxSize : Int) (chunks : List Bytes) (name : Option String) : Prop :=
  ContentOutcome zipNames maxSize chunks.flatten name
      (validateChunks zipNames maxSize chunks name) ∧
    ∀ held ∈ buffered maxSize chunks [], (held.2.length : Int) ≤ maxSize + held.1.length

variable {zipNames} {maxSize : Int} {chunks : List Bytes} {buf data : Bytes} {name : Option String}

theorem readCapped_eq (cap : Nat) (chunks : List Bytes) (buf : Bytes) :
    readCapped cap chunks buf = fillBuffer cap chunks buf := by
  induction chunks generalizing buf with
  | nil => rfl
  | cons chunk chunks ih => simp only [readCapped, fillBuffer, Int.ofNat_le, ih]

/-- On a cap that is a size, the loop is that of the upload's model. -/
theorem validateObject_eq (cap : Nat) (chunks : List Bytes) (name : Option String) :
    validateObject zipNames cap chunks name = validateChunks zipNames cap chunks name := by
  rw [validateObject, validateChunks, readCapped_eq]
  cases fillBuffer cap chunks [] <;> rfl

theorem containsBytes_iff {part : Bytes} : containsBytes part data = true ↔ part <:+: data := by
  simp only [containsBytes, List.any_eq_true, List.mem_tails, List.isPrefixOf_iff_prefix,
    List.infix_iff_prefix_suffix]
  exact ⟨fun ⟨t, ht, hp⟩ => ⟨t, hp, ht⟩, fun ⟨t, hp, ht⟩ => ⟨t, ht, hp⟩⟩

theorem startsWith_header {magic : Bytes} (h : magic.length ≤ headerLen) :
    startsWith magic (data.take headerLen) = true ↔ magic <+: data := by
  rw [startsWith, List.isPrefixOf_iff_prefix]
  exact ⟨fun h => h.trans (List.take_prefix _ _), fun hp => List.prefix_take_iff.mpr ⟨hp, h⟩⟩

theorem isGif87a_header : isGif87a (data.take headerLen) = true ↔ ascii "GIF87a" <+: data :=
  startsWith_header (by decide)

/-- `detect_mime` raises on nothing else. -/
theorem detectMime_raises_iff :
    (∃ text, detectMime zipNames data name = .error text) ↔ ZipRaises zipNames data := by
  have hzip : startsWith zipMagic (data.take headerLen) = true ↔ zipMagic <+: data :=
    startsWith_header (by decide)
  constructor
  · rintro ⟨text, htext⟩
    unfold detectMime at htext
    dsimp only at htext
    split at htext
    · cases htext
    · split_ifs at htext with hmagic
      refine ⟨hzip.mp hmagic, text, ?_⟩
      unfold classifyOoxml at htext
      split at htext
      · cases htext
      · next hnames => rw [hnames, Except.error.inj htext]
      · cases htext
  · rintro ⟨hmagic, text, hnames⟩
    refine ⟨text, ?_⟩
    have htable : (magicTable.find? fun entry => entry.2 (data.take headerLen)) = none := by
      obtain ⟨rest, rfl⟩ := hmagic
      simp [magicTable, matchWebp, startsWith, zipMagic, ascii, headerLen]
    simp only [detectMime, htable, hzip.mpr hmagic, if_true, classifyOoxml, hnames]

theorem validateType_blocked (h : Blocked zipNames data name) :
    validateType zipNames data name = .error .unsupportedType := by
  unfold validateType
  rcases h with hnone | ⟨hgif, hanimated, hmarker⟩
  · rw [hnone]
  · have hheader : isGif87a (data.take headerLen) = false :=
      Bool.eq_false_iff.mpr fun h => hanimated (isGif87a_header.mp h)
    rw [hgif]
    simp [hheader, containsBytes_iff.mpr hmarker]

theorem validateType_free (h : ¬ Blocked zipNames data name) (hreads : ¬ ZipRaises zipNames data) :
    ∃ mime, detectMime zipNames data name = .ok (some mime) ∧
      validateType zipNames data name = .ok (mime, data.length) := by
  cases hmime : detectMime zipNames data name with
  | error text => exact absurd (detectMime_raises_iff.mp ⟨text, hmime⟩) hreads
  | ok found =>
    obtain _ | mime := found
    · exact absurd (.inl hmime) h
    refine ⟨mime, rfl, ?_⟩
    have hfree : (decide (mime = .gif) && !isGif87a (data.take headerLen) &&
        containsBytes netscapeMarker data) = false := by
      refine Bool.eq_false_iff.mpr fun hblocked => h (.inr ?_)
      simp only [Bool.and_eq_true, decide_eq_true_eq, Bool.not_eq_true'] at hblocked
      obtain ⟨⟨rfl, hheader⟩, hmarker⟩ := hblocked
      refine ⟨hmime, fun hgif => ?_, containsBytes_iff.mp hmarker⟩
      rw [isGif87a_header.mpr hgif] at hheader
      exact Bool.noConfusion hheader
    simp only [validateType, hmime]
    rw [hfree]
    rfl

theorem Blocked.reads (h : Blocked zipNames data name) : ¬ ZipRaises zipNames data := by
  intro hraises
  have hiff : (∃ text, detectMime zipNames data name = .error text) ↔ ZipRaises zipNames data :=
    detectMime_raises_iff
  obtain ⟨text, htext⟩ := hiff.mpr hraises
  rcases h with hnone | ⟨hgif, _⟩
  · rw [htext] at hnone
    cases hnone
  · rw [htext] at hgif
    cases hgif

/-- Within the cap, the check of the type gives the outcome of the content unless it raises, and
only there. -/
theorem contentOutcome_validateType :
    ContentOutcome zipNames maxSize data name (validateType zipNames data name) ↔
      (data.length : Int) ≤ maxSize ∧ ¬ ZipRaises zipNames data := by
  by_cases hraises : ZipRaises zipNames data
  · have hiff : (∃ text, detectMime zipNames data name = .error text) ↔ ZipRaises zipNames data :=
      detectMime_raises_iff
    obtain ⟨text, htext⟩ := hiff.mpr hraises
    have hraised : validateType zipNames data name = .error (.raised text) := by
      simp only [validateType, htext]
    rw [hraised]
    exact iff_of_false id fun h => h.2 hraises
  by_cases hblocked : Blocked zipNames data name
  · rw [validateType_blocked hblocked]
    exact and_congr_right fun _ => iff_of_true hblocked hraises
  · obtain ⟨mime, hmime, hok⟩ := validateType_free hblocked hraises
    rw [hok]
    exact and_congr_right fun _ => iff_of_true ⟨hblocked, hmime, rfl⟩ hraises

theorem fillBuffer_eq (maxSize : Int) (chunks : List Bytes) (buf : Bytes) :
    fillBuffer maxSize chunks buf =
      if chunks = [] ∨ ((buf ++ chunks.flatten).length : Int) < maxSize then
        some (buf ++ chunks.flatten) else none := by
  induction chunks generalizing buf with
  | nil => simp [fillBuffer]
  | cons chunk chunks ih =>
    have hlen : (buf ++ chunk).length ≤ (buf ++ (chunk :: chunks).flatten).length := by
      simp only [List.flatten_cons, List.length_append]
      omega
    rw [fillBuffer]
    by_cases hfull : maxSize ≤ (buf ++ chunk).length
    · rw [if_pos hfull, if_neg (by simp only [reduceCtorEq, false_or]; omega)]
    · rw [if_neg hfull, ih, List.append_assoc, ← List.flatten_cons]
      by_cases hmore : chunks = []
      · subst hmore
        rw [if_pos (.inl rfl), if_pos (.inr (by simpa using hfull))]
      · simp only [hmore, reduceCtorEq, false_or]

theorem buffered_le (hbuf : (buf.length : Int) ≤ maxSize) :
    ∀ held ∈ buffered maxSize chunks buf, (held.2.length : Int) ≤ maxSize + held.1.length := by
  induction chunks generalizing buf with
  | nil => simp [buffered]
  | cons chunk chunks ih =>
    intro held hheld
    rw [buffered, List.mem_cons] at hheld
    rcases hheld with rfl | hheld
    · simp only [List.length_append, Int.natCast_add]
      omega
    · by_cases hfull : maxSize ≤ (buf ++ chunk).length
      · rw [if_pos hfull] at hheld
        cases hheld
      · rw [if_neg hfull] at hheld
        exact ih (by omega) held hheld

theorem validateChunks_eq :
    validateChunks zipNames maxSize chunks name =
      if chunks = [] ∨ (chunks.flatten.length : Int) < maxSize then
        validateType zipNames chunks.flatten name else .error .tooLarge := by
  rw [validateChunks, fillBuffer_eq, List.nil_append]
  by_cases hread : chunks = [] ∨ (chunks.flatten.length : Int) < maxSize
  · simp only [if_pos hread]
  · simp only [if_neg hread]

/-- The outcome is the content's unless the size is the cap itself, an empty object meets a
negative cap, or the check of the type raises. -/
theorem validateChunks_outcome :
    ContentOutcome zipNames maxSize chunks.flatten name
        (validateChunks zipNames maxSize chunks name) ↔
      ((chunks = [] ∨ (chunks.flatten.length : Int) < maxSize) ↔
        (chunks.flatten.length : Int) ≤ maxSize) ∧
      ((chunks.flatten.length : Int) ≤ maxSize → ¬ ZipRaises zipNames chunks.flatten) := by
  rw [validateChunks_eq]
  by_cases hread : chunks = [] ∨ (chunks.flatten.length : Int) < maxSize
  · rw [if_pos hread, contentOutcome_validateType]
    simp only [hread, true_iff]
    exact and_congr_right fun hle => ⟨fun h _ => h, fun h => h hle⟩
  · rw [if_neg hread]
    simp only [ContentOutcome, hread, false_iff, not_le]
    exact ⟨fun hless => ⟨hless, fun hle => absurd hle (not_le.mpr hless)⟩, And.left⟩

/-- One byte under a cap of one byte is refused as too large. -/
theorem full_object_refused :
    ¬ ValidatesContent (fun _ => .error .badZipFile) 1 [ascii "a"] none := by
  rintro ⟨houtcome, -⟩
  exact absurd (validateChunks_outcome.mp houtcome).1 (by decide)

/-- Validation goes by the content exactly where the size misses the cap and `zipfile` does not
fail on an archive that is within it. -/
theorem validates_content_iff (zipNames : ZipNames) (maxSize : Int)
    (chunks : List Bytes) (name : Option String) :
    ValidatesContent zipNames maxSize chunks name ↔
      0 ≤ maxSize ∧ ((chunks.flatten.length : Int) = maxSize → chunks = []) ∧
        ((chunks.flatten.length : Int) ≤ maxSize → ¬ ZipRaises zipNames chunks.flatten) := by
  rw [ValidatesContent, validateChunks_outcome]
  constructor
  · rintro ⟨⟨houtcome, hreads⟩, hheld⟩
    have hcap : 0 ≤ maxSize := by
      cases chunks with
      | nil => simpa using houtcome
      | cons chunk chunks =>
        have hfirst := hheld (chunk, [] ++ chunk) (by simp [buffered])
        simp only [List.nil_append] at hfirst
        omega
    refine ⟨hcap, fun hsize => ?_, hreads⟩
    rcases houtcome.mpr hsize.le with hempty | hless
    · exact hempty
    · omega
  · rintro ⟨hcap, hsize, hreads⟩
    refine ⟨⟨⟨?_, ?_⟩, hreads⟩, buffered_le (by simpa using hcap)⟩
    · rintro (rfl | hless)
      · simpa using hcap
      · exact hless.le
    · intro hle
      rcases hle.lt_or_eq with hless | heq
      · exact .inr hless
      · exact .inl (hsize heq)

end Validation

end Doci
