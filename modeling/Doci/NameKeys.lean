import Doci.Names

/-! Names up to case, diacritics and punctuation, and when that is what `fuzzy_match_name` compares. -/

namespace Doci

open Numerals SequenceMatcher

def vietnameseMarks : List Char :=
  ['\u0300', '\u0301', '\u0302', '\u0303', '\u0306', '\u0309', '\u031b', '\u0323']

def plainLetter (c : Char) : List Char :=
  if c ∈ vietnameseMarks then []
  else match vietnamese.find? fun l => l.1 == c with
    | some l => [l.2.2]
    | none => [c]

namespace NameData

variable (data : NameData)

def keyChar (c : Char) : Char := if data.alnum c then c else ' '

/-- Lower case, without diacritics, with one space for everything between words. -/
def key (s : List Char) : List Char :=
  strip (squeeze (((data.lowerText [] s []).flatMap plainLetter).map data.keyChar))

def codeReading (c : Char) : List Char :=
  ((data.decompose c).filter (data.combining · = 0)).flatMap fun x =>
    (data.lowerAt [] x []).map nameChar

def keyReading (before : List Char) (c : Char) (after : List Char) : List Char :=
  ((data.lowerAt before c after).flatMap plainLetter).map data.keyChar

/-- The code and the keys read the character alike, wherever it stands. -/
def Agrees (c : Char) : Prop :=
  c ≠ 'Σ' ∧ squeeze (data.codeReading c) = squeeze (data.keyReading [] c [])

def Clean (s : List Char) : Prop := ∀ c ∈ s, data.Agrees c

section Norm

variable {data} {s before after : List Char} {c : Char}

theorem filter_insertMark (hc : data.combining c ≠ 0) : (data.insertMark c s).filter (data.combining · = 0) =
    s.filter (data.combining · = 0) := by
  induction s with
  | nil => simp [insertMark, hc]
  | cons d s ih =>
    unfold insertMark
    split_ifs with hd
    · rw [List.filter_cons_of_neg (by simpa using hd.1), List.filter_cons_of_neg (by simpa using hd.1), ih]
    · rw [List.filter_cons_of_neg (by simpa using hc)]

theorem filter_canonicalOrder (s : List Char) : (data.canonicalOrder s).filter (data.combining · = 0) =
    s.filter (data.combining · = 0) := by
  induction s with
  | nil => rfl
  | cons c s ih =>
    unfold canonicalOrder
    split_ifs with hc
    · rw [List.filter_cons_of_pos (by simpa using hc), List.filter_cons_of_pos (by simpa using hc), ih]
    · rw [filter_insertMark hc, List.filter_cons_of_neg (by simpa using hc), ih]

theorem nameChar_lowerAt : (data.lowerAt before c after).map nameChar =
    (data.lowerAt [] c []).map nameChar := by
  have hsigma : nameChar 'ς' = ' ' ∧ nameChar 'σ' = ' ' := by decide
  unfold CharData.lowerAt
  split_ifs <;> simp [hsigma]

theorem nameChar_lowerText (s : List Char) : (data.lowerText before s after).map nameChar =
    s.flatMap fun c => (data.lowerAt [] c []).map nameChar := by
  induction s generalizing before with
  | nil => rfl
  | cons c s ih =>
    rw [CharData.lowerText, List.map_append, ih, nameChar_lowerAt]
    rfl

theorem norm_eq (s : List Char) : data.norm s = strip (squeeze (s.flatMap data.codeReading)) := by
  have hfilter : (data.nfkd s).filter (data.combining · = 0) =
      s.flatMap fun c => (data.decompose c).filter (data.combining · = 0) := by
    rw [nfkd, filter_canonicalOrder, List.filter_flatMap]
  simp only [norm]
  rw [hfilter, nameChar_lowerText, List.flatMap_assoc]
  rfl

theorem squeeze_key (hs : data.Clean s) :
    squeeze (((data.lowerText before s after).flatMap plainLetter).map data.keyChar) =
      squeeze (s.flatMap data.codeReading) := by
  induction s generalizing before with
  | nil => rfl
  | cons c s ih =>
    obtain ⟨hsigma, hc⟩ := hs c List.mem_cons_self
    have hlower : data.lowerAt before c (s ++ after) = data.lowerAt [] c [] := by
      simp [CharData.lowerAt, hsigma]
    have hs' : data.Clean s := fun x hx => hs x (List.mem_cons_of_mem c hx)
    rw [CharData.lowerText, List.flatMap_append, List.map_append, List.flatMap_cons, hlower]
    exact squeeze_congr hc.symm (ih hs')

theorem norm_eq_key (hs : data.Clean s) : data.norm s = data.key s := by
  rw [norm_eq, key, squeeze_key hs]

end Norm

section Ascii

variable {data} {c : Char} {s : List Char}

theorem plainLetter_ascii (hc : c.toNat < 128) : plainLetter c = [c] := by
  have hmarks : vietnameseMarks.all (fun m => 128 ≤ m.toNat) = true := by decide
  have hmark : c ∉ vietnameseMarks := by
    intro hmem
    have hle := List.all_eq_true.mp hmarks c hmem
    simp only [decide_eq_true_eq] at hle
    omega
  have hfind : (vietnamese.find? fun l => l.1 == c) = none := by
    rw [List.find?_eq_none]
    intro l hl heq
    have hle := (vietnamese_letters l hl).1.1
    obtain rfl : l.1 = c := by simpa using heq
    omega
  rw [plainLetter, if_neg hmark, hfind]

theorem lowerAt_ascii (hc : c.toNat < 128) (before after : List Char) :
    data.lowerAt before c after = [c.toLower] := by
  have hsigma : c ≠ 'Σ' := by
    rintro rfl
    exact absurd hc (by decide)
  rw [CharData.lowerAt, if_neg hsigma, data.lower_ascii c hc]

theorem codeReading_ascii (hc : c.toNat < 128) : data.codeReading c = [nameChar c.toLower] := by
  rw [codeReading, data.decompose_ascii c hc]
  simp [data.combining_ascii c hc, lowerAt_ascii hc]

theorem ascii_lower (hc : c.toNat < 128) : c.toLower.toNat < 128 ∧
    nameChar c.toLower = if c.toLower.isAlphanum then c.toLower else ' ' := by
  have hall : ∀ n : Fin 128, (Char.ofNat n).toLower.toNat < 128 ∧ nameChar (Char.ofNat n).toLower =
      if (Char.ofNat n).toLower.isAlphanum then (Char.ofNat n).toLower else ' ' := by
    decide +kernel
  have hchar := hall ⟨c.toNat, hc⟩
  rwa [Char.ofNat_toNat] at hchar

theorem keyReading_ascii (hc : c.toNat < 128) (before after : List Char) :
    data.keyReading before c after = [nameChar c.toLower] := by
  obtain ⟨hlower, hname⟩ := ascii_lower hc
  rw [keyReading, lowerAt_ascii hc, hname]
  simp [plainLetter_ascii hlower, keyChar, data.alnum_ascii _ hlower]

theorem agrees_ascii (hc : c.toNat < 128) : data.Agrees c := by
  refine ⟨?_, by rw [codeReading_ascii hc, keyReading_ascii hc]⟩
  rintro rfl
  exact absurd hc (by decide)

theorem agrees_vietnamese : ∀ l ∈ vietnamese, l.1 ≠ 'đ' → data.Agrees l.1 ∧ data.Agrees l.2.1 := by
  intro l hl hdong
  have htable : ∀ l ∈ vietnamese, (l.1 ≠ 'Σ' ∧ l.2.1 ≠ 'Σ') ∧ plainLetter l.1 = [l.2.2] ∧
      (l.2.2.toNat < 128 ∧ l.2.2.toUpper.toNat < 128) ∧ l.2.2.toLower = l.2.2 ∧
        l.2.2.toUpper.toLower = l.2.2 ∧ isNameChar l.2.2 = true ∧ l.2.2.isAlphanum = true := by
    decide +kernel
  obtain ⟨⟨hsigma, hsigma'⟩, hplain, ⟨hascii, hascii'⟩, hlower, hlower', hname, halnum⟩ := htable l hl
  obtain ⟨hsmall, hcapital⟩ := data.decompose_vietnamese l hl hdong
  obtain ⟨hlow, hlow'⟩ := data.lower_vietnamese l hl
  have hkey : data.keyChar l.2.2 = l.2.2 := by
    rw [keyChar, data.alnum_ascii _ hascii, halnum]
    rfl
  have hchar : nameChar l.2.2 = l.2.2 := by simp [nameChar, hname]
  refine ⟨⟨hsigma, ?_⟩, hsigma', ?_⟩
  · rw [codeReading, keyReading, hsmall, CharData.lowerAt, if_neg hsigma, hlow]
    simp [lowerAt_ascii hascii, hlower, hplain, hkey, hchar]
  · rw [codeReading, keyReading, hcapital, CharData.lowerAt, if_neg hsigma', hlow']
    simp [lowerAt_ascii hascii', hlower', hplain, hkey, hchar]

theorem not_agrees_dong : ¬ data.Agrees 'đ' ∧ ¬ data.Agrees 'Đ' := by
  have hletter : plainLetter 'đ' = ['d'] := by decide +kernel
  have hname : nameChar 'đ' = ' ' := by decide
  have hkey : data.keyChar 'd' = 'd' := by
    rw [keyChar, data.alnum_ascii 'd' (by decide)]
    rfl
  have hlower := data.lower_vietnamese ('đ', 'Đ', 'd') (by decide)
  obtain ⟨⟨hsmall, hzero⟩, hcapital, hzero'⟩ := data.decompose_dong
  have hdiffer : squeeze [' '] ≠ squeeze ['d'] := by decide
  refine ⟨fun h => hdiffer ?_, fun h => hdiffer ?_⟩
  · have hread := h.2
    rw [codeReading, keyReading, hsmall] at hread
    simpa [hzero, CharData.lowerAt, hlower.1, hletter, hname, hkey] using hread
  · have hread := h.2
    rw [codeReading, keyReading, hcapital] at hread
    simpa [hzero', CharData.lowerAt, hlower.2, hletter, hname, hkey] using hread

end Ascii

section Exactness

variable {data} {c : Char} {s : List Char}

theorem exactSimilarity_eq_iff (a b : String) :
    data.exactSimilarity a b = 100 ↔ data.norm a.toList = data.norm b.toList := by
  rw [exactSimilarity, ← ratio_eq_one_iff]
  constructor
  · intro h
    linarith
  · intro h
    rw [h]
    norm_num

theorem strip_ends (s : List Char) : strip ('x' :: (s ++ ['x'])) = 'x' :: (s ++ ['x']) := by
  have hx : isSpace 'x' = false := by decide
  have hdrop : ∀ s : List Char, ('x' :: s).dropWhile isSpace = 'x' :: s := fun s =>
    List.dropWhile_cons_of_neg (by simp [hx])
  rw [strip, hdrop, List.reverse_cons, List.reverse_append, List.reverse_singleton,
    List.singleton_append, List.cons_append, hdrop]
  simp

theorem strip_between (s : List Char) :
    strip (squeeze ('x' :: (s ++ ['x']))) = 'x' :: (squeeze s ++ ['x']) := by
  have hx : isSpace 'x' = false := by decide
  rw [squeeze_cons_of_not hx, squeeze_concat hx, strip_ends]

theorem isNameChar_ascii (hc : isNameChar c = true) : c.toNat < 128 ∧ nameChar c.toLower = c := by
  have hascii : c.toNat < 128 := by
    simp only [isNameChar, Bool.or_eq_true, Bool.and_eq_true, decide_eq_true_eq, beq_iff_eq,
      Char.le_def, UInt32.le_iff_toNat_le] at hc
    have hnine : 'z'.toNat = 122 ∧ '9'.toNat = 57 ∧ ' '.toNat = 32 := ⟨rfl, rfl, rfl⟩
    rcases hc with (⟨_, hle⟩ | ⟨_, hle⟩) | rfl
    · have hval : c.toNat ≤ 'z'.toNat := hle
      omega
    · have hval : c.toNat ≤ '9'.toNat := hle
      omega
    · omega
  have hall : ∀ n : Fin 128, isNameChar (Char.ofNat n) = true →
      nameChar (Char.ofNat n).toLower = Char.ofNat n := by decide +kernel
  have hchar := hall ⟨c.toNat, hascii⟩
  rw [Char.ofNat_toNat] at hchar
  exact ⟨hascii, hchar hc⟩

theorem codeReading_self (hs : ∀ c ∈ s, isNameChar c = true) : s.flatMap data.codeReading = s := by
  induction s with
  | nil => rfl
  | cons c s ih =>
    obtain ⟨hascii, hlower⟩ := isNameChar_ascii (hs c List.mem_cons_self)
    rw [List.flatMap_cons, codeReading_ascii hascii, hlower, ih fun x hx => hs x (List.mem_cons_of_mem c hx)]
    rfl

theorem isNameChar_nameChar (c : Char) : isNameChar (nameChar c) = true := by
  unfold nameChar
  split_ifs with hc
  · exact hc
  · decide

theorem isNameChar_codeReading (c : Char) : ∀ x ∈ data.codeReading c, isNameChar x = true := by
  intro x hx
  obtain ⟨y, _, hy⟩ := List.mem_flatMap.mp hx
  obtain ⟨z, _, rfl⟩ := List.mem_map.mp hy
  exact isNameChar_nameChar z

theorem clean_of_name (data : NameData) (hs : ∀ c ∈ s, isNameChar c = true) : data.Clean s :=
  fun c hc => agrees_ascii (isNameChar_ascii (hs c hc)).1

theorem mem_squeeze {x : Char} (h : x ∈ squeeze s) : x ∈ s ∨ x = ' ' := by
  induction s with
  | nil => cases h
  | cons c s ih =>
    unfold squeeze at h
    split_ifs at h
    · exact (ih h).imp_left (List.mem_cons_of_mem c)
    · rcases List.mem_cons.mp h with rfl | h
      · exact .inr rfl
      · exact (ih h).imp_left (List.mem_cons_of_mem c)
    · rcases List.mem_cons.mp h with rfl | h
      · exact .inl List.mem_cons_self
      · exact (ih h).imp_left (List.mem_cons_of_mem c)

theorem readings_differ (hc : ¬ data.Agrees c) :
    squeeze (data.codeReading c) ≠ squeeze (data.keyReading ['x'] c ['x']) := by
  by_cases hsigma : c = 'Σ'
  · subst hsigma
    obtain ⟨hsmall, hfinal⟩ := data.sigma_alnum
    have hplain : plainLetter 'σ' = ['σ'] ∧ plainLetter 'ς' = ['ς'] := by decide +kernel
    have hletter : ∃ x, isNameChar x = false ∧ isSpace x = false ∧
        data.keyReading ['x'] 'Σ' ['x'] = [x] := by
      rw [keyReading, CharData.lowerAt, if_pos rfl]
      split_ifs
      · exact ⟨'ς', by decide, by decide, by simp [hplain, keyChar, hfinal]⟩
      · exact ⟨'σ', by decide, by decide, by simp [hplain, keyChar, hsmall]⟩
    obtain ⟨x, hname, hspace, hread⟩ := hletter
    intro h
    have hmem : x ∈ squeeze (data.codeReading 'Σ') := by
      rw [h, hread, squeeze_cons_of_not hspace]
      exact List.mem_cons_self
    rcases mem_squeeze hmem with hmem | rfl
    · rw [isNameChar_codeReading _ x hmem] at hname
      cases hname
    · cases hspace
  · intro h
    refine hc ⟨hsigma, h.trans ?_⟩
    simp [keyReading, CharData.lowerAt, hsigma]

end Exactness

/-- Clean names score 100 exactly when their keys are equal; no other character is that safe. -/
theorem similarity_exact (data : NameData) :
    (∀ a b : String, data.Clean a.toList → data.Clean b.toList →
      (data.exactSimilarity a b = 100 ↔ data.key a.toList = data.key b.toList)) ∧
    ∀ c, ¬ data.Agrees c → ∃ a b : String, strip a.toList ≠ [] ∧ strip b.toList ≠ [] ∧
      (∀ x ∈ a.toList, x = c ∨ x = 'x') ∧ data.Clean b.toList ∧
      ¬ (data.exactSimilarity a b = 100 ↔ data.key a.toList = data.key b.toList) := by
  refine ⟨fun a b ha hb => ?_, fun c hc => ?_⟩
  · rw [exactSimilarity_eq_iff, norm_eq_key ha, norm_eq_key hb]
  · have hread : ∀ y ∈ 'x' :: (data.codeReading c ++ ['x']), isNameChar y = true := by
      intro y hy
      simp only [List.mem_cons, List.mem_append, List.not_mem_nil, or_false] at hy
      rcases hy with rfl | hy | rfl
      · rfl
      · exact isNameChar_codeReading c y hy
      · rfl
    have hx : data.codeReading 'x' = ['x'] ∧ ∀ l r, data.keyReading l 'x' r = ['x'] :=
      ⟨codeReading_ascii (by decide), keyReading_ascii (by decide)⟩
    have hclean := clean_of_name data hread
    have hnorm : data.norm ('x' :: ([c] ++ ['x'])) = 'x' :: (squeeze (data.codeReading c) ++ ['x']) := by
      rw [norm_eq]
      simp only [List.flatMap_cons, List.flatMap_nil, List.append_nil, hx.1, List.singleton_append]
      exact strip_between _
    have hnorm' : data.norm ('x' :: (data.codeReading c ++ ['x'])) =
        'x' :: (squeeze (data.codeReading c) ++ ['x']) := by
      rw [norm_eq, codeReading_self hread, strip_between]
    have hkey : data.key ('x' :: ([c] ++ ['x'])) =
        'x' :: (squeeze (data.keyReading ['x'] c ['x']) ++ ['x']) := by
      have htext : ((data.lowerText [] ('x' :: ([c] ++ ['x'])) []).flatMap plainLetter).map data.keyChar =
          data.keyReading [] 'x' [c, 'x'] ++ (data.keyReading ['x'] c ['x'] ++
            data.keyReading [c, 'x'] 'x' []) := by
        simp [CharData.lowerText, keyReading]
      rw [key, htext, hx.2, hx.2, ← strip_between]
      rfl
    refine ⟨String.ofList ('x' :: ([c] ++ ['x'])), String.ofList ('x' :: (data.codeReading c ++ ['x'])),
      ?_, ?_, ?_, ?_, ?_⟩
    · rw [String.toList_ofList, strip_ends]
      exact List.cons_ne_nil _ _
    · rw [String.toList_ofList, strip_ends]
      exact List.cons_ne_nil _ _
    · rw [String.toList_ofList]
      intro y hy
      simp only [List.mem_cons, List.mem_append, List.not_mem_nil, or_false] at hy
      tauto
    · rw [String.toList_ofList]
      exact hclean
    · rw [exactSimilarity_eq_iff, String.toList_ofList, String.toList_ofList, hnorm, hnorm',
        ← norm_eq_key hclean, hnorm', hkey]
      simpa using (readings_differ hc).symm

section Plain

/-- The marks of the letters of `vietnamese`, in the same order. -/
def vietnameseAccents : List (List Char) :=
  [['\u0301'], ['\u0300'], ['\u0309'], ['\u0303'], ['\u0323'], ['\u0306'], ['\u0306', '\u0301'],
    ['\u0306', '\u0300'], ['\u0306', '\u0309'], ['\u0306', '\u0303'], ['\u0323', '\u0306'],
    ['\u0302'], ['\u0302', '\u0301'], ['\u0302', '\u0300'], ['\u0302', '\u0309'],
    ['\u0302', '\u0303'], ['\u0323', '\u0302'], ['\u0301'], ['\u0300'], ['\u0309'], ['\u0303'],
    ['\u0323'], ['\u0302'], ['\u0302', '\u0301'], ['\u0302', '\u0300'], ['\u0302', '\u0309'],
    ['\u0302', '\u0303'], ['\u0323', '\u0302'], ['\u0301'], ['\u0300'], ['\u0309'], ['\u0303'],
    ['\u0323'], ['\u0301'], ['\u0300'], ['\u0309'], ['\u0303'], ['\u0323'], ['\u0302'],
    ['\u0302', '\u0301'], ['\u0302', '\u0300'], ['\u0302', '\u0309'], ['\u0302', '\u0303'],
    ['\u0323', '\u0302'], ['\u031b'], ['\u031b', '\u0301'], ['\u031b', '\u0300'],
    ['\u031b', '\u0309'], ['\u031b', '\u0303'], ['\u031b', '\u0323'], ['\u0301'], ['\u0300'],
    ['\u0309'], ['\u0303'], ['\u0323'], ['\u031b'], ['\u031b', '\u0301'], ['\u031b', '\u0300'],
    ['\u031b', '\u0309'], ['\u031b', '\u0303'], ['\u031b', '\u0323'], ['\u0301'], ['\u0300'],
    ['\u0309'], ['\u0303'], ['\u0323'], []]

def plainDecompose (c : Char) : List Char :=
  match (vietnamese.zip vietnameseAccents).find? fun l => l.1.1 == c || l.1.2.1 == c with
  | some (l, accents) =>
    if l.1 = 'đ' then [c] else (if l.1 = c then l.2.2 else l.2.2.toUpper) :: accents
  | none => [c]

def plainCombining (c : Char) : ℕ :=
  if c = '\u0323' then 220 else if c = '\u031b' then 216 else if c ∈ vietnameseMarks then 230 else 0

theorem plainDecompose_ascii {c : Char} (hc : c.toNat < 128) : plainDecompose c = [c] := by
  have hfind : ((vietnamese.zip vietnameseAccents).find? fun l => l.1.1 == c || l.1.2.1 == c) = none := by
    rw [List.find?_eq_none]
    intro l hl heq
    obtain ⟨⟨hsmall, _⟩, hcapital, _⟩ := vietnamese_letters l.1 (List.of_mem_zip hl).1
    simp only [Bool.or_eq_true, beq_iff_eq] at heq
    rcases heq with rfl | rfl
    · omega
    · omega
  rw [plainDecompose, hfind]

theorem plain_space {c : Char} (hc : isSpace c = true) : plainData.alnum c = false := by
  have hletter : vietnameseLetter c = false := by
    rw [vietnameseLetter, List.any_eq_false]
    intro l hl
    obtain ⟨⟨_, hsmall⟩, _, hcapital⟩ := vietnamese_letters l hl
    have hne : l.1 ≠ c ∧ l.2.1 ≠ c := by
      refine ⟨?_, ?_⟩
      · rintro rfl
        rw [hc] at hsmall
        cases hsmall
      · rintro rfl
        rw [hc] at hcapital
        cases hcapital
    simp [hne]
  have hsigma : c ∉ sigmas := by
    intro hmem
    simp only [sigmas, List.mem_cons, List.not_mem_nil, or_false] at hmem
    rcases hmem with rfl | rfl | rfl
    · cases hc
    · cases hc
    · cases hc
  have halnum : c.isAlphanum = false := by
    by_cases hascii : c.toNat < 128
    · have hall : ∀ n : Fin 128, isSpace (Char.ofNat n) = true → (Char.ofNat n).isAlphanum = false := by
        decide +kernel
      have hchar := hall ⟨c.toNat, hascii⟩
      rw [Char.ofNat_toNat] at hchar
      exact hchar hc
    · simp only [Char.isAlphanum, Char.isAlpha, Char.isUpper, Char.isLower, Char.isDigit]
      have hval : 128 ≤ c.val.toNat := not_lt.mp hascii
      simp [UInt32.le_iff_toNat_le]
      omega
  simp [plainData, halnum, hsigma, hletter]

/-- `plainData` with the decompositions of the letters of Vietnamese. -/
def plainNames : NameData where
  toCharData := plainData
  decompose := plainDecompose
  combining := plainCombining
  decompose_ascii _ hc := plainDecompose_ascii hc
  combining_ascii c hc := by
    have hall : ∀ n : Fin 128, plainCombining (Char.ofNat n) = 0 := by decide +kernel
    have hchar := hall ⟨c.toNat, hc⟩
    rwa [Char.ofNat_toNat] at hchar
  decompose_vietnamese := by decide +kernel
  decompose_dong := by decide +kernel
  space_alnum _ hc := plain_space hc
  sigma_alnum := by decide +kernel

end Plain

theorem similarity_cong : plainNames.exactSimilarity "CÔNG TY" "Cong ty" = 100 := by
  have htext : "CÔNG TY".toList = ['C', 'Ô', 'N', 'G', ' ', 'T', 'Y'] := by decide +kernel
  have htext' : "Cong ty".toList = ['C', 'o', 'n', 'g', ' ', 't', 'y'] := by decide +kernel
  have hcircumflex : plainNames.Agrees 'ô' ∧ plainNames.Agrees 'Ô' :=
    agrees_vietnamese ('ô', 'Ô', 'o') (by decide) (by decide)
  have hclean : plainNames.Clean "CÔNG TY".toList := by
    rw [htext]
    intro c hc
    by_cases hascii : c.toNat < 128
    · exact agrees_ascii hascii
    · simp only [List.mem_cons, List.not_mem_nil, or_false] at hc
      obtain rfl : c = 'Ô' := by
        by_contra hne
        rcases hc with rfl | rfl | rfl | rfl | rfl | rfl | rfl <;>
          first | exact hascii (by decide) | exact hne rfl
      exact hcircumflex.2
  have hclean' : plainNames.Clean "Cong ty".toList := by
    rw [htext']
    intro c hc
    simp only [List.mem_cons, List.not_mem_nil, or_false] at hc
    refine agrees_ascii ?_
    rcases hc with rfl | rfl | rfl | rfl | rfl | rfl | rfl <;> decide
  exact ((similarity_exact plainNames).1 "CÔNG TY" "Cong ty" hclean hclean').mpr (by decide +kernel)

/-- The unaccented spelling of a name with `Đ` is not its full match. -/
theorem similarity_dong : ¬ ∀ (data : NameData) (a b : String), strip a.toList ≠ [] →
    strip b.toList ≠ [] → (data.exactSimilarity a b = 100 ↔ data.key a.toList = data.key b.toList) := by
  intro h
  have hdong := h plainNames "Đồng" "Dong" (by decide +kernel) (by decide +kernel)
  rw [exactSimilarity_eq_iff] at hdong
  have hkey : plainNames.key "Đồng".toList = plainNames.key "Dong".toList := by decide +kernel
  have hnorm : plainNames.norm "Đồng".toList ≠ plainNames.norm "Dong".toList := by decide +kernel
  exact hnorm (hdong.mpr hkey)

/-- The other order of two names: the same verdict on a full match, and the same reply where no
step of the matching has a choice. -/
theorem fuzzyMatchName_swap (data : NameData) (repr : String → String) (a b : String) (threshold : ℚ)
    (ha : strip a.toList ≠ []) (hb : strip b.toList ≠ []) :
    (data.exactSimilarity a b = 100 ↔ data.exactSimilarity b a = 100) ∧
      ((data.norm a.toList).length < 200 → (data.norm b.toList).length < 200 →
        Untied (data.norm a.toList) (data.norm b.toList) →
        data.fuzzyMatchName repr a b threshold = data.fuzzyMatchName repr b a threshold ∧
          ∃ reply, data.fuzzyMatchName repr a b threshold = .ok reply) := by
  refine ⟨?_, fun hla hlb huntied => ?_⟩
  · rw [exactSimilarity_eq_iff, exactSimilarity_eq_iff, eq_comm]
  · have hratio := ratio_comm huntied hla hlb
    have hsimilarity : data.similarity a b = data.similarity b a := by
      rw [similarity, similarity, exactSimilarity, exactSimilarity, hratio]
    have hforth : ¬ (strip a.toList = [] ∨ strip b.toList = []) := by simp [ha, hb]
    have hback : ¬ (strip b.toList = [] ∨ strip a.toList = []) := by simp [ha, hb]
    rw [fuzzyMatchName, fuzzyMatchName, if_neg hforth, if_neg hback, hsimilarity]
    exact ⟨rfl, _, rfl⟩

def quoted (s : String) : String := "'" ++ s ++ "'"

theorem fuzzyMatchName_swap_acme :
    plainNames.fuzzyMatchName quoted "ACME" "ACME Co" 50 =
      plainNames.fuzzyMatchName quoted "ACME Co" "ACME" 50 := by
  have hnorm : plainNames.norm "ACME".toList = ['a', 'c', 'm', 'e'] := by decide +kernel
  have hnorm' : plainNames.norm "ACME Co".toList = ['a', 'c', 'm', 'e', ' ', 'c', 'o'] := by
    decide +kernel
  have huntied : Untied ['a', 'c', 'm', 'e'] ['a', 'c', 'm', 'e', ' ', 'c', 'o'] := by
    decide +kernel
  have hswap := fuzzyMatchName_swap plainNames quoted "ACME" "ACME Co" 50 (by decide +kernel)
    (by decide +kernel)
  rw [hnorm, hnorm'] at hswap
  exact (hswap.2 (by decide) (by decide) huntied).1

/-- Two names whose order decides. -/
theorem fuzzyMatchName_tide : ¬ ∀ (data : NameData) (repr : String → String) (a b : String)
    (threshold : ℚ), strip a.toList ≠ [] → strip b.toList ≠ [] →
    data.fuzzyMatchName repr a b threshold = data.fuzzyMatchName repr b a threshold := by
  intro h
  have hsame := h plainNames (fun s => s) "tide" "diet" 30 (by decide +kernel) (by decide +kernel)
  have hforth : plainNames.fuzzyMatchName (fun s => s) "tide" "diet" 30 = .ok ⟨25, false, 30⟩ := by
    decide +kernel
  have hback : plainNames.fuzzyMatchName (fun s => s) "diet" "tide" 30 = .ok ⟨50, true, 30⟩ := by
    decide +kernel
  rw [hforth, hback] at hsame
  exact absurd hsame (by decide)

end NameData

end Doci
