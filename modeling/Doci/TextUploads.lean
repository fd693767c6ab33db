import Doci.Tasks
import Doci.Validation

/-! Text uploads against the magic numbers that come before the text test: the printable
signatures are the only ones that a text can begin with. -/

namespace Doci

variable {data : Bytes} {filename : Option String} {zipNames : ZipNames}

/-- Acceptable as text: UTF-8 without the forbidden control bytes. -/
def TextUpload (data : Bytes) : Prop := data.any badCtrl = false ∧ decodesUtf8 data = true

instance : Decidable (TextUpload data) := inferInstanceAs (Decidable (_ ∧ _))

/-- The signatures of images that are printable. -/
def PrintableImage (data : Bytes) : Prop :=
  ascii "GIF87a" <+: data ∨ ascii "GIF89a" <+: data ∨
    (12 ≤ data.length ∧ ascii "RIFF" <+: data ∧ ascii "WEBP" <+: data.drop 8) ∨ ascii "BM" <+: data

def isText (mime : Mime) : Prop := mime = .txt ∨ mime = .markdown ∨ mime = .csv

theorem prefix_iff_take {magic : Bytes} : magic <+: data ↔ data.take magic.length = magic :=
  ⟨fun h => (List.prefix_iff_eq_take.mp h).symm, fun h => List.prefix_iff_eq_take.mpr h.symm⟩

theorem matchWebp_header :
    matchWebp (data.take headerLen) = true ↔
      12 ≤ data.length ∧ ascii "RIFF" <+: data ∧ ascii "WEBP" <+: data.drop 8 := by
  have hriff : (data.take headerLen).take 4 = data.take 4 := by
    rw [List.take_take]
    rfl
  have hwebp : ((data.take headerLen).drop 8).take 4 = (data.drop 8).take 4 := by
    rw [List.drop_take, List.take_take]
    rfl
  have hlen : 12 ≤ (data.take headerLen).length ↔ 12 ≤ data.length := by
    rw [List.length_take, headerLen]
    omega
  simp only [matchWebp, hriff, hwebp, Bool.and_eq_true, decide_eq_true_eq, hlen, beq_iff_eq,
    prefix_iff_take, and_assoc]
  rfl

namespace TextUpload

theorem not_prefix_of_control {magic : Bytes} (h : TextUpload data) (hm : magic.any badCtrl = true) :
    ¬ magic <+: data := by
  rintro ⟨rest, rfl⟩
  have hctrl := h.1
  rw [List.any_append, hm] at hctrl
  cases hctrl

theorem not_prefix_of_undecodable {magic : Bytes} (h : TextUpload data)
    (hm : magic.foldlM utf8Step .start = none) : ¬ magic <+: data := by
  rintro ⟨rest, rfl⟩
  have hdec := h.2
  rw [decodesUtf8, List.foldlM_append, hm] at hdec
  cases hdec

theorem header_false {magic : Bytes} (h : ¬ magic <+: data) (hlen : magic.length ≤ headerLen) :
    startsWith magic (data.take headerLen) = false :=
  Bool.eq_false_iff.mpr fun hs => h ((startsWith_header hlen).mp hs)

/-- On a text only the printable magic numbers can match, in their order. -/
theorem detectMime_eq (h : TextUpload data) :
    detectMime zipNames data filename = .ok (some (
      if ascii "%PDF" <+: data then .pdf
      else if ascii "GIF87a" <+: data ∨ ascii "GIF89a" <+: data then .gif
      else if 12 ≤ data.length ∧ ascii "RIFF" <+: data ∧ ascii "WEBP" <+: data.drop 8 then .webp
      else if ascii "BM" <+: data then .bmp
      else textByExt (lowerSuffix (filename.getD "")))) := by
  have hpng : ¬ ([0x89] ++ ascii "PNG" ++ [0x0d, 0x0a, 0x1a, 0x0a]) <+: data :=
    h.not_prefix_of_undecodable (by decide)
  have hjpeg : ¬ [0xff, 0xd8, 0xff] <+: data := h.not_prefix_of_undecodable (by decide)
  have hlittle : ¬ (ascii "II*" ++ [0x00]) <+: data := h.not_prefix_of_control (by decide)
  have hbig : ¬ (ascii "MM" ++ [0x00] ++ ascii "*") <+: data := h.not_prefix_of_control (by decide)
  have hzip : ¬ zipMagic <+: data := h.not_prefix_of_control (by decide)
  have htext : classifyText data filename =
      some (textByExt (lowerSuffix (filename.getD ""))) := by
    simp [classifyText, h.1, h.2]
  simp only [detectMime, magicTable, List.find?_cons, List.find?_nil, htext,
    header_false hpng (by decide), header_false hjpeg (by decide), header_false hlittle (by decide),
    header_false hbig (by decide), header_false hzip (by decide),
    ← @startsWith_header data (ascii "%PDF") (by decide),
    ← @startsWith_header data (ascii "GIF87a") (by decide),
    ← @startsWith_header data (ascii "GIF89a") (by decide),
    ← @startsWith_header data (ascii "BM") (by decide), ← matchWebp_header]
  cases startsWith (ascii "%PDF") (data.take headerLen) <;>
    cases startsWith (ascii "GIF87a") (data.take headerLen) <;>
    cases startsWith (ascii "GIF89a") (data.take headerLen) <;>
    cases matchWebp (data.take headerLen) <;>
    cases startsWith (ascii "BM") (data.take headerLen) <;> rfl

end TextUpload

theorem textByExt_isText (ext : String) : isText (textByExt ext) := by
  unfold textByExt isText
  split
  · exact .inr (.inl rfl)
  · split
    · exact .inr (.inr rfl)
    · exact .inl rfl

theorem PrintableImage.not_pdf (h : PrintableImage data) : ¬ ascii "%PDF" <+: data := by
  have hne : ∀ magic : Bytes, magic.head? ≠ some 0x25 → magic ≠ [] → magic <+: data →
      ¬ ascii "%PDF" <+: data := by
    rintro magic hhead hmagic ⟨rest, rfl⟩ ⟨rest', heq⟩
    cases magic with
    | nil => exact hmagic rfl
    | cons b magic =>
      rw [show ascii "%PDF" = 0x25 :: ascii "PDF" from rfl] at heq
      exact hhead (congrArg some (List.cons.inj heq).1.symm)
  rcases h with h | h | ⟨-, h, -⟩ | h <;> exact hne _ (by decide) (by decide) h

/-- A text is taken for an image exactly when it begins with a printable signature, for a PDF
exactly when it begins with `%PDF`, and else for the text type of its extension. -/
theorem text_image_iff (zipNames : ZipNames) (data : Bytes) (filename : Option String)
    (h : TextUpload data) :
    ∃ mime, detectMime zipNames data filename = .ok (some mime) ∧
      (classify (some mime) = some .image ↔ PrintableImage data) ∧
      (mime = .pdf ↔ ascii "%PDF" <+: data) ∧
      (¬ PrintableImage data → ¬ ascii "%PDF" <+: data →
        isText mime ∧ mime = textByExt (lowerSuffix (filename.getD ""))) := by
  refine ⟨_, h.detectMime_eq, ?_⟩
  by_cases hpdf : ascii "%PDF" <+: data
  · rw [if_pos hpdf]
    exact ⟨⟨fun hc => (nomatch hc), fun hi => absurd hpdf hi.not_pdf⟩, iff_of_true rfl hpdf,
      fun _ hno => absurd hpdf hno⟩
  rw [if_neg hpdf]
  have himage : ∀ mime : Mime, mime ≠ .pdf → classify (some mime) = some .image →
      PrintableImage data → (classify (some mime) = some .image ↔ PrintableImage data) ∧
        (mime = .pdf ↔ ascii "%PDF" <+: data) ∧ (¬ PrintableImage data → ¬ ascii "%PDF" <+: data →
          isText mime ∧ mime = textByExt (lowerSuffix (filename.getD ""))) :=
    fun mime hne hclass hi => ⟨iff_of_true hclass hi, iff_of_false hne hpdf, fun hno => absurd hi hno⟩
  by_cases hgif : ascii "GIF87a" <+: data ∨ ascii "GIF89a" <+: data
  · rw [if_pos hgif]
    exact himage .gif (by decide) rfl (hgif.imp_right .inl)
  rw [if_neg hgif]
  by_cases hwebp : 12 ≤ data.length ∧ ascii "RIFF" <+: data ∧ ascii "WEBP" <+: data.drop 8
  · rw [if_pos hwebp]
    exact himage .webp (by decide) rfl (.inr (.inr (.inl hwebp)))
  rw [if_neg hwebp]
  by_cases hbmp : ascii "BM" <+: data
  · rw [if_pos hbmp]
    exact himage .bmp (by decide) rfl (.inr (.inr (.inr hbmp)))
  rw [if_neg hbmp]
  have hno : ¬ PrintableImage data := by
    rintro (h | h | h | h)
    · exact hgif (.inl h)
    · exact hgif (.inr h)
    · exact hwebp h
    · exact hbmp h
  have hby := textByExt_isText (lowerSuffix (filename.getD ""))
  refine ⟨iff_of_false (fun hc => ?_) hno, iff_of_false (fun hc => ?_) hpdf, fun _ _ => ⟨hby, rfl⟩⟩
  · rcases hby with he | he | he <;> rw [he] at hc <;> cases hc
  · rcases hby with he | he | he <;> rw [he] at hc <;> cases hc

/-- A note that begins with "BMW" is mined as a bitmap. -/
theorem bmw_note_is_image : ∃ (data : Bytes) (mime : Mime), TextUpload data ∧
    detectMime (fun _ => .error .badZipFile) data (some "cars.md") = .ok (some mime) ∧
      classify (some mime) = some .image :=
  ⟨ascii "BMW 320i", .bmp, by decide, rfl, rfl⟩

theorem text_image_iff_bmw : ∃ mime,
    detectMime (fun _ => .error .badZipFile) (ascii "BMW 320i") (some "cars.md") = .ok (some mime) ∧
      (classify (some mime) = some .image ↔ PrintableImage (ascii "BMW 320i")) ∧
      (mime = .pdf ↔ ascii "%PDF" <+: ascii "BMW 320i") ∧
      (¬ PrintableImage (ascii "BMW 320i") → ¬ ascii "%PDF" <+: ascii "BMW 320i" →
        isText mime ∧ mime = textByExt (lowerSuffix "cars.md")) :=
  text_image_iff _ _ (some "cars.md") (by decide)

end Doci
