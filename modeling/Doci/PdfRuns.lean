import Doci.FilingCalls
import Doci.PdfMining

/-! What mining leaves of one PDF for one run: a part for each page, results of the run for those
parts, and outputs that name them. -/

namespace Doci

open Coroutine ReadCommitted

theorem pageLocator_injective {m n : Nat} (h : pageLocator m = pageLocator n) : m = n := by
  have hread : ∀ k, Nat.ofDigitChars 10 ((pageLocator k).toList.drop 1) 0 = k := by
    intro k
    have hchars : (pageLocator k).toList.drop 1 =
        List.replicate (5 - (toString k).length) '0' ++ Nat.toDigits 10 k := by
      simp [pageLocator, String.toList_append, String.toList_ofList, Nat.toString_eq_repr]
    rw [hchars, Nat.ofDigitChars_append, Nat.ofDigitChars_replicate_zero, Nat.mul_zero,
      Nat.ofDigitChars_ten_toDigits]
  rw [← hread m, h, hread n]

section Facts

variable (cfg : MiningConfig)

def Transcribed (image : Bytes) (text : String) : Prop :=
  ∃ i message, imageMessage cfg.media.zipNames "Transcribe this image to Markdown." image = .ok message ∧
    text = Content.asText (cfg.answer i (.transcribe message))

/-- A model annotated the text, at first or in a review. -/
def TextRead (text : String) (answer : TextAnnotation) : Prop :=
  ∃ i fields dossier, answer = cfg.answer i (.annotateText (textPrompt text fields dossier)) ∨
    ∃ first, answer = cfg.answer i (.reflectText (textReflectPrompt text fields dossier first))

def ImageRead (image : Bytes) (answer : ImageAnnotation) : Prop :=
  ∃ i fields dossier message,
    imageMessage cfg.media.zipNames (imagePrompt fields dossier) image = .ok message ∧
        answer = cfg.answer i (.annotateImage message) ∨
      ∃ first, imageMessage cfg.media.zipNames (imageReflectPrompt fields dossier first) image =
        .ok message ∧ answer = cfg.answer i (.reflectImage message)

/-- What may be stored about a page: its own text, or what a model answered about it. -/
inductive PageFact (page : SplitPage) : ResultKind → Json → Prop
  | markdown (hkind : classifyPage page.signals = .text) :
    PageFact page .extract (.obj [("result", .str (cfg.libraries.markdown page.content))])
  | annotated (hkind : classifyPage page.signals = .text) (answer : TextAnnotation)
    (hread : TextRead cfg (cfg.libraries.markdown page.content) answer) :
    PageFact page ResultKind.annotation answer.modelDump
  | transcribed (hkind : classifyPage page.signals = .image) (text : String)
    (hread : Transcribed cfg (cfg.libraries.png page.content) text) :
    PageFact page .extract (.obj [("result", .str text)])
  | seen (hkind : classifyPage page.signals = .image) (answer : ImageAnnotation)
    (hread : ImageRead cfg (cfg.libraries.png page.content) answer) :
    PageFact page ResultKind.annotation answer.modelDump

end Facts

/-- A PDF put for a document and a run over it; `sole` if no part is made of the whole document. -/
structure PdfRun where
  cfg : MiningConfig
  document : DocumentId
  execution : ExecutionId
  pdf : Bytes
  sole : Prop

namespace PdfRun

variable (P : PdfRun)

def pages : List SplitPage := iterPages P.cfg P.pdf

def filing : Filing where
  document := P.document
  put := fun data => data = P.pdf
  recorded := fun mime => mime = .pdf
  files := fun place kind page key =>
    (∃ p ∈ P.pages, place = pageLocator p.number ∧ page = some p.number ∧
      kind = (storedPage (classifyPage p.signals)).1 ∧ key = .region P.document place) ∨
    ¬ P.sole ∧ place = pageLocator 1 ∧ page = some 1 ∧ key = .original P.document
  holds := fun place data =>
    ∀ p ∈ P.pages, place = pageLocator p.number → data = rendered P.cfg (classifyPage p.signals) p.content

/-- The part and the blob are those of the page. -/
def Registered (page : SplitPage) (media : Option MediaId) (part : PartId) (s : Store) : Prop :=
  s.partKey part = some (P.document, pageLocator page.number) ∧
    ∃ m key, media = some m ∧ s.mediaKey m = some key ∧
      (P.sole → key = .region P.document (pageLocator page.number))

/-- The page's part is committed. -/
def Filed (page : SplitPage) (part : PartId) (s : Store) : Prop :=
  ∃ row, (s.part.slot (P.document, pageLocator page.number)).committed = some row ∧ row.id = part

def Extracted (part : PartId) (s : Mine) : Prop :=
  ∃ row ∈ s.results.rows, row.key = (P.execution, part, .extract)

/-- The run's results for the part have the ids that the output names. -/
def Recorded (part : PartId) (extract answer : Option String) (s : Mine) : Prop :=
  ∃ first ∈ s.results.rows, ∃ second ∈ s.results.rows, first.key = (P.execution, part, .extract) ∧
    second.key = (P.execution, part, ResultKind.annotation) ∧ extract = some (toString first.id) ∧
    answer = some (toString second.id)

/-- The output is of the page. -/
def Reports (s : Mine) (page : SplitPage) (out : PageOutput) : Prop :=
  out.pageNumber = page.number ∧ out.kind = classifyPage page.signals ∧
    ∃ part, s.store.partKey part = some (P.document, pageLocator page.number) ∧
      P.Recorded part out.extractRef out.annotationRef s

structure Sound (s : Mine) : Prop where
  filed : P.filing.Sound s.store
  rows : ∀ row ∈ s.results.rows, row.execution = P.execution → ∃ page ∈ P.pages,
    P.Filed page row.part s.store ∧ (P.sole → PageFact P.cfg page row.kind row.content)
  paired : ∀ row ∈ s.results.rows, row.execution = P.execution → row.kind = ResultKind.annotation →
    P.Extracted row.part s
  succeeded : ∀ count outputs, (P.execution, P.document, Mined.pdf count outputs) ∈ s.succeeded →
    count = P.pages.length ∧ List.Forall₂ (P.Reports s) P.pages outputs

/-- Nothing of the run is lost. -/
structure Grown (s t : Mine) : Prop where
  kept : P.filing.Kept s.store t.store
  rows : ∀ row ∈ s.results.rows, row.execution = P.execution →
    ∃ row' ∈ t.results.rows, row'.id = row.id ∧ row'.key = row.key
  succeeded : ∀ entry ∈ s.succeeded, entry ∈ t.succeeded

end PdfRun

section Growth

variable {P : PdfRun} {s t : Mine} {page : SplitPage} {part : PartId}

theorem PdfRun.Grown.refl (s : Mine) : P.Grown s s :=
  ⟨Filing.Kept.refl _, fun row h _ => ⟨row, h, rfl, rfl⟩, fun _ h => h⟩

theorem PdfRun.Grown.trans {u : Mine} (h : P.Grown s t) (h' : P.Grown t u) : P.Grown s u := by
  refine ⟨h.kept.trans h'.kept, fun row hrow hrun => ?_,
    fun entry hentry => h'.succeeded entry (h.succeeded entry hentry)⟩
  obtain ⟨middle, hmiddle, hid, hkey⟩ := h.rows row hrow hrun
  have hrun' : middle.execution = P.execution := (congrArg Prod.fst hkey).trans hrun
  obtain ⟨last, hlast, hid', hkey'⟩ := h'.rows middle hmiddle hrun'
  exact ⟨last, hlast, hid'.trans hid, hkey'.trans hkey⟩

theorem PdfRun.Registered.later {media : Option MediaId} {a b : Store}
    (h : P.Registered page media part a) (hkept : P.filing.Kept a b) : P.Registered page media part b := by
  obtain ⟨hpart, m, key, hm, hkey, hsole⟩ := h
  exact ⟨hkept.keys.part _ _ hpart, m, key, hm, hkept.keys.media _ _ hkey, hsole⟩

theorem PdfRun.Filed.later {a b : Store} (h : P.Filed page part a) (hkept : P.filing.Kept a b) :
    P.Filed page part b := by
  obtain ⟨row, hrow, hid⟩ := h
  obtain ⟨row', hrow', hstem⟩ := hkept.parts _ row hrow
  exact ⟨row', hrow', (congrArg Prod.fst hstem).trans hid⟩

theorem PdfRun.Recorded.later {extract answer : Option String}
    (h : P.Recorded part extract answer s) (hgrown : P.Grown s t) :
    P.Recorded part extract answer t := by
  obtain ⟨first, hfirst, second, hsecond, hkey, hkey', hextract, hanswer⟩ := h
  obtain ⟨first', hfirst', hid, hsame⟩ := hgrown.rows first hfirst (congrArg Prod.fst hkey)
  obtain ⟨second', hsecond', hid', hsame'⟩ := hgrown.rows second hsecond (congrArg Prod.fst hkey')
  exact ⟨first', hfirst', second', hsecond', hsame.trans hkey, hsame'.trans hkey', hid ▸ hextract,
    hid' ▸ hanswer⟩

theorem PdfRun.Extracted.later (h : P.Extracted part s) (hgrown : P.Grown s t) : P.Extracted part t := by
  obtain ⟨row, hrow, hkey⟩ := h
  obtain ⟨row', hrow', _, hsame⟩ := hgrown.rows row hrow (congrArg Prod.fst hkey)
  exact ⟨row', hrow', hsame.trans hkey⟩

theorem PdfRun.Reports.later {out : PageOutput} (h : P.Reports s page out) (hgrown : P.Grown s t) :
    P.Reports t page out := by
  obtain ⟨hnumber, hkind, part, hpart, hrecorded⟩ := h
  exact ⟨hnumber, hkind, part, hgrown.kept.keys.part _ _ hpart, hrecorded.later hgrown⟩

theorem PdfRun.Filed.partRow {store : Store} (h : P.Filed page part store) (hfiled : P.filing.Sound store) :
    ∃ row, store.partRow none part = some ((P.document, pageLocator page.number), row) ∧
      row.pageNumber = some page.number := by
  obtain ⟨row, hrow, rfl⟩ := h
  have hkey : store.partKey row.id = some (P.document, pageLocator page.number) :=
    hfiled.parts.row_key _ row (.inl hrow)
  have hview : store.part.view none (P.document, pageLocator page.number) = some row :=
    (Slot.view_none _).trans hrow
  refine ⟨row, ?_, ?_⟩
  · simp [Store.partRow, hkey, hview]
  · obtain ⟨_, _, _, _, ⟨p, _, hplace, hpage, _⟩ | ⟨_, hplace, hpage, _⟩⟩ :=
      hfiled.parts.row_files _ row (.inl hrow)
    · rw [hpage, pageLocator_injective hplace]
    · rw [hpage, pageLocator_injective hplace]

theorem PdfRun.Filed.unique {page' : SplitPage} {store : Store} (h : P.Filed page part store)
    (h' : P.Filed page' part store) (hfiled : P.filing.Sound store) : page.number = page'.number := by
  obtain ⟨row, hrow, rfl⟩ := h
  obtain ⟨row', hrow', hid⟩ := h'
  have hkey := hfiled.parts.row_key _ row (.inl hrow)
  have hkey' := hfiled.parts.row_key _ row' (.inl hrow')
  obtain ⟨_, hplace⟩ := Prod.mk.inj (Option.some.inj (hkey.symm.trans (hid ▸ hkey')))
  exact pageLocator_injective hplace

/-- A part with the page's key that a session sees is committed. -/
theorem PdfRun.filed_of_row {store : Store}
    (hkey : store.partKey part = some (P.document, pageLocator page.number))
    (hrow : (store.partRow none part).isSome) : P.Filed page part store := by
  obtain ⟨found, hfound⟩ := Option.isSome_iff_exists.mp hrow
  simp only [Store.partRow, hkey, Option.bind_some, Option.map_eq_some_iff, Option.filter_eq_some_iff,
    decide_eq_true_eq] at hfound
  obtain ⟨row, ⟨hview, hid⟩, _⟩ := hfound
  exact ⟨row, (Slot.view_none _).symm.trans hview, hid⟩

/-- A statement of the store, with the results that it takes with it. -/
theorem PdfRun.Sound.stored (h : P.Sound s) {store : Store} (hfiled : P.filing.Sound store)
    (hkept : P.filing.Kept s.store store) {results : ResultTable}
    (hresults : results = s.results ∨
      results = s.results.restrict fun part => (store.partRow none part).isSome) :
    P.Sound { s with store := store, results := results } ∧
      P.Grown s { s with store := store, results := results } := by
  have hmem : ∀ row ∈ results.rows, row ∈ s.results.rows := by
    intro row hrow
    rcases hresults with rfl | rfl
    · exact hrow
    · exact (ResultTable.mem_restrict.mp hrow).1
  have hgrown : P.Grown s { s with store := store, results := results } := by
    refine ⟨hkept, fun row hrow hrun => ⟨row, ?_, rfl, rfl⟩, fun _ hentry => hentry⟩
    rcases hresults with rfl | rfl
    · exact hrow
    · refine ResultTable.mem_restrict.mpr ⟨hrow, ?_⟩
      obtain ⟨page, _, hpart, _⟩ := h.rows row hrow hrun
      obtain ⟨held, hheld, _⟩ := (hpart.later hkept).partRow hfiled
      exact Option.isSome_iff_exists.mpr ⟨_, hheld⟩
  refine ⟨⟨hfiled, fun row hrow hrun => ?_, fun row hrow hrun hkind => ?_, fun count outputs hentry => ?_⟩,
    hgrown⟩
  · obtain ⟨page, hpage, hpart, hfact⟩ := h.rows row (hmem row hrow) hrun
    exact ⟨page, hpage, hpart.later hkept, hfact⟩
  · exact (h.paired row (hmem row hrow) hrun hkind).later hgrown
  · obtain ⟨hcount, houtputs⟩ := h.succeeded count outputs hentry
    exact ⟨hcount, houtputs.imp fun _ _ hout => hout.later hgrown⟩

/-- A result is saved: for the run it is of a page, an annotation after the text. -/
theorem PdfRun.Sound.saved (h : P.Sound s) (key : ResultKey) (content : Json)
    (hkey : key.1 = P.execution → ∃ page ∈ P.pages, P.Filed page key.2.1 s.store ∧
      (P.sole → PageFact P.cfg page key.2.2 content))
    (hpaired : key.1 = P.execution → key.2.2 = ResultKind.annotation → P.Extracted key.2.1 s) :
    P.Sound { s with results := (s.results.upsert key content).2 } ∧
      P.Grown s { s with results := (s.results.upsert key content).2 } := by
  have hgrown : P.Grown s { s with results := (s.results.upsert key content).2 } :=
    ⟨Filing.Kept.refl _, fun row hrow _ => ResultTable.upsert_stable hrow, fun _ hentry => hentry⟩
  refine ⟨⟨h.filed, fun row hrow hrun => ?_, fun row hrow hrun hkind => ?_, fun count outputs hentry => ?_⟩,
    hgrown⟩
  · rcases ResultTable.mem_upsert.mp hrow with rfl | ⟨hold, _⟩
    · exact hkey hrun
    · exact h.rows row hold hrun
  · rcases ResultTable.mem_upsert.mp hrow with rfl | ⟨hold, _⟩
    · exact (hpaired hrun hkind).later hgrown
    · exact (h.paired row hold hrun hkind).later hgrown
  · obtain ⟨hcount, houtputs⟩ := h.succeeded count outputs hentry
    exact ⟨hcount, houtputs.imp fun _ _ hout => hout.later hgrown⟩

theorem PdfRun.Sound.ended (h : P.Sound s) (execution : ExecutionId) (document : DocumentId)
    (mined : Mined) (hmined : execution = P.execution → document = P.document →
      ∀ count outputs, mined = .pdf count outputs →
        count = P.pages.length ∧ List.Forall₂ (P.Reports s) P.pages outputs) :
    P.Sound { s with succeeded := (execution, document, mined) :: s.succeeded } ∧
      P.Grown s { s with succeeded := (execution, document, mined) :: s.succeeded } := by
  have hgrown : P.Grown s { s with succeeded := (execution, document, mined) :: s.succeeded } :=
    ⟨Filing.Kept.refl _, fun row hrow _ => ⟨row, hrow, rfl, rfl⟩,
      fun _ hentry => List.mem_cons_of_mem _ hentry⟩
  refine ⟨⟨h.filed, h.rows, h.paired, fun count outputs hentry => ?_⟩, hgrown⟩
  have hreports : count = P.pages.length ∧ List.Forall₂ (P.Reports s) P.pages outputs := by
    rcases List.mem_cons.mp hentry with hnew | hold
    · obtain ⟨hrun, hrest⟩ := Prod.mk.inj hnew
      obtain ⟨hdocument, hpdf⟩ := Prod.mk.inj hrest
      exact hmined hrun.symm hdocument.symm count outputs hpdf.symm
    · exact h.succeeded count outputs hold
  exact ⟨hreports.1, hreports.2.imp fun _ _ hout => hout.later hgrown⟩

end Growth

end Doci
