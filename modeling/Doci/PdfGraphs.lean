import Doci.PdfNodes

/-! The graphs of a document's mining and the attempts that run them. -/

namespace Doci

open Coroutine ReadCommitted

variable {P : PdfRun}

section Pages

variable {cfg : MiningConfig} {data : Bytes}

theorem iterPages_numbers : (iterPages cfg data).map SplitPage.number =
    List.range' 1 (iterPages cfg data).length := by
  simp only [iterPages, List.map_map, List.length_map, List.length_zipIdx]
  have hindex := List.zipIdx_map_snd 0 (cfg.libraries.pages data)
  rw [show SplitPage.number ∘ _ = (fun i => i + 1) ∘ (Prod.snd : (Bytes × PdfPage) × Nat → Nat) from rfl,
    ← List.map_map, hindex]
  simpa only [Nat.add_comm] using List.map_add_range' (a := 1) 0 (cfg.libraries.pages data).length 1

theorem iterPages_ascending : (iterPages cfg data).Pairwise fun a b => a.number < b.number := by
  rw [← List.pairwise_map (f := SplitPage.number) (R := (· < ·)), iterPages_numbers]
  exact List.pairwise_lt_range'

theorem eq_of_number {p q : SplitPage} (hp : p ∈ iterPages cfg data) (hq : q ∈ iterPages cfg data)
    (h : p.number = q.number) : p = q := by
  apply List.inj_on_of_nodup_map (f := SplitPage.number) ?_ hp hq h
  rw [iterPages_numbers]
  exact List.nodup_range'

theorem pageCount_iterPages : pageCount (iterPages cfg data) = (iterPages cfg data).length := by
  unfold pageCount
  cases hlast : (iterPages cfg data).getLast? with
  | none =>
    rw [List.getLast?_eq_none_iff.mp hlast]
    rfl
  | some page =>
    have hmem := List.mem_of_getLast? hlast
    obtain ⟨_, _, rfl⟩ := List.mem_map.mp hmem
    simp [iterPages]

end Pages

section Split

variable {s : Mine} {session : Session} {document : DocumentId}

/-- The reference is to the page's part. -/
def PdfRun.RefersTo (P : PdfRun) (s : Store) (page : SplitPage) (ref : PageRef) : Prop :=
  ref.number = page.number ∧ ref.kind = classifyPage page.signals ∧
    P.Registered page ref.media ref.part s

theorem PdfRun.RefersTo.later {a b : Store} {page : SplitPage} {ref : PageRef} (h : P.RefersTo a page ref)
    (hkept : P.filing.Kept a b) : P.RefersTo b page ref := ⟨h.1, h.2.1, h.2.2.later hkept⟩

theorem tells_splitPages {pages : List SplitPage}
    (hpages : document = P.document → ∀ page ∈ pages, page ∈ P.pages) (hinv : P.Sound s) :
    P.Tells (fun refs t => document = P.document → List.Forall₂ (P.RefersTo t.store) pages refs)
      (splitPages P.cfg session document pages) s := by
  induction pages generalizing s with
  | nil => exact tells_ret fun _ _ _ => .nil
  | cons page pages ih =>
    have hpart : P.filing.Leaves (P.filing.Placed document (pageLocator page.number))
        (ensurePart session document (pageLocator page.number) (storedPage (classifyPage page.signals)).1
          (rendered P.cfg (classifyPage page.signals) page.content)
          (some (storedPage (classifyPage page.signals)).2) (some page.number)) s.store := by
      apply leaves_ensurePart ?_ ?_ hinv.filed
      · exact fun hid => .inl ⟨page, hpages hid page (List.mem_cons_self ..), rfl, rfl, rfl, by rw [hid]; rfl⟩
      · intro hid p hp hplace
        rw [eq_of_number (hpages hid page (List.mem_cons_self ..)) hp (pageLocator_injective hplace)]
    apply (tells_onStore hpart).bind hinv
    intro part t hinv hgrown hplaced
    apply (ih (fun hid p hp => hpages hid p (List.mem_cons_of_mem _ hp)) hinv).bind hinv
    intro refs u hinv hgrown' hrefs
    apply tells_ret
    intro v hgrown'' hid
    refine .cons ?_ ((hrefs hid).imp fun p ref href => href.later hgrown''.kept)
    obtain ⟨hkey, m, key, hm, hmedia, hfiles⟩ := hplaced hid
    refine ⟨rfl, rfl, ?_⟩
    apply PdfRun.Registered.later (a := t.store) ?_ (hgrown'.trans hgrown'').kept
    refine ⟨by rw [hkey, hid], m, key, hm, hmedia, fun hsole => ?_⟩
    rcases hfiles with ⟨p, _, hplace, _, _, hregion⟩ | ⟨hnot, _⟩
    · rw [hregion]
    · exact absurd hsole hnot

theorem tells_splitNode {media : Option MediaId} (hinv : P.Sound s)
    (hmedia : document = P.document →
      ∃ m, media = some m ∧ s.store.mediaKey m = some (.original P.document)) :
    P.Tells (fun split t => document = P.document → split.2 = P.pages.length ∧
      List.Forall₂ (P.RefersTo t.store) P.pages split.1) (splitNode P.cfg session document media) s := by
  apply (tells_download hinv).bind hinv
  intro data t hinv _ hreads
  have hdata : document = P.document → iterPages P.cfg data = P.pages := by
    intro hid
    obtain ⟨m, hm, hkey⟩ := hmedia hid
    rw [show data = P.pdf from (hreads m _ hm hkey).1 rfl, PdfRun.pages]
  apply tells_toThread.bind hinv
  intro _ t₁ hinv _ _
  have hsplit : document = P.document → ∀ page ∈ iterPages P.cfg data, page ∈ P.pages :=
    fun hid page hmem => hdata hid ▸ hmem
  apply (tells_splitPages hsplit hinv).bind hinv
  intro refs t₂ hinv _ hrefs
  have hcount : P.filing.Leaves (fun _ _ => True) (setPageCount document (pageCount (iterPages P.cfg data)))
      t₂.store := leaves_safe fun _ _ => trivial
  apply (tells_onStore hcount).bind hinv
  intro _ t₃ _ hgrown _
  apply tells_ret
  intro u hgrown' hid
  refine ⟨by rw [pageCount_iterPages, hdata hid], ?_⟩
  have hall := hrefs hid
  rw [hdata hid] at hall
  exact hall.imp fun page ref href => href.later (hgrown.trans hgrown').kept

end Split

section Process

variable {s : MiningPool} {input : MiningInput} {refs : List PageRef} {session : Session}

theorem outputs_of_good {values : List PageValue} {t : Mine}
    (h : List.Forall₂ (fun j value => P.Good j value t) (refs.map (.page input)) values) :
    List.Forall₂ (fun ref out => out.pageNumber = ref.number ∧ out.kind = ref.kind ∧
      (input.execution = P.execution → P.Recorded ref.part out.extractRef out.annotationRef t))
      refs (pageOutputs values) := by
  rw [List.forall₂_map_left_iff] at h
  induction h with
  | nil => exact .nil
  | cons hgood _ ih =>
    obtain ⟨out, rfl, hout⟩ := hgood
    exact .cons hout ih

theorem sortPages_of_ascending {outputs : List PageOutput} (pages : List SplitPage)
    (hpages : pages.Pairwise fun a b => a.number < b.number)
    (h : List.Forall₂ (fun page out => out.pageNumber = page.number) pages outputs) :
    sortPages outputs = outputs := by
  apply List.Pairwise.insertionSort_eq
  induction h with
  | nil => exact .nil
  | @cons page out pages outputs hout hrest ih =>
    obtain ⟨hfirst, hpages⟩ := List.pairwise_cons.mp hpages
    refine List.pairwise_cons.mpr ⟨fun other hother => ?_, ih hpages⟩
    obtain ⟨i, hi, rfl⟩ := List.getElem_of_mem hother
    have hlt : i < pages.length := hrest.length_eq ▸ hi
    have hnumber := (List.forall₂_iff_get.mp hrest).2 i hlt hi
    have hlater := hfirst pages[i] (List.getElem_mem hlt)
    simp only [List.get_eq_getElem] at hnumber
    omega

theorem works_processNode (hinv : P.growth.Sound s) (hrefs : input.execution = P.execution →
    List.Forall₂ (P.RefersTo s.shared.store) P.pages refs) :
    P.Works (fun outputs t => input.execution = P.execution →
      List.Forall₂ (P.Reports t) P.pages outputs) (processNode P.cfg input refs) s := by
  have hready : ∀ j ∈ refs.map (PageJob.page input), P.Ready j s.shared := by
    intro j hj
    obtain ⟨ref, href, rfl⟩ := List.mem_map.mp hj
    intro hrun
    obtain ⟨i, hi, rfl⟩ := List.getElem_of_mem href
    have hall := hrefs hrun
    have hlt : i < P.pages.length := hall.length_eq ▸ hi
    obtain ⟨hnumber, hkind, hpart⟩ := (List.forall₂_iff_get.mp hall).2 i hlt hi
    exact ⟨P.pages[i], List.getElem_mem hlt, hnumber, hkind, hpart⟩
  apply (works_gather _ _ hinv hready).bind hinv
  intro values t _ hgrown hvalues
  apply works_ret
  intro u hgrown' hrun
  have hreports : List.Forall₂ (P.Reports t.shared) P.pages (pageOutputs values) := by
    refine List.forall₂_iff_get.mpr ⟨?_, fun i hi hi' => ?_⟩
    · rw [(hrefs hrun).length_eq, (outputs_of_good hvalues).length_eq]
    · have hlt : i < refs.length := (hrefs hrun).length_eq ▸ hi
      obtain ⟨hnumber, hkind, hpart⟩ := (List.forall₂_iff_get.mp (hrefs hrun)).2 i hi hlt
      obtain ⟨hnumber', hkind', hrecorded⟩ := (List.forall₂_iff_get.mp (outputs_of_good hvalues)).2 i hlt hi'
      exact ⟨hnumber'.trans hnumber, hkind'.trans hkind, _, hgrown.kept.keys.part _ _ hpart.1, hrecorded hrun⟩
  rw [sortPages_of_ascending P.pages iterPages_ascending (hreports.imp fun _ _ h => h.1)]
  exact hreports.imp fun _ _ h => h.later hgrown'

/-- What a run that ends as a PDF's must end with. -/
def PdfRun.Completes (P : PdfRun) (mined : Mined) (s : Mine) : Prop :=
  ∀ count outputs, mined = .pdf count outputs →
    count = P.pages.length ∧ List.Forall₂ (P.Reports s) P.pages outputs

theorem works_pdfGraph {media : Option MediaId} (hinv : P.growth.Sound s)
    (hdocument : input.execution = P.execution → input.document = P.document)
    (hmedia : input.document = P.document → ∃ m, media = some m ∧
      s.shared.store.mediaKey m = some (.original P.document)) :
    P.Works (fun mined t => input.execution = P.execution → P.Completes mined t)
      (pdfGraph P.cfg session input media) s := by
  apply (works_lift (tells_splitNode hinv.inv hmedia)).bind hinv
  rintro ⟨refs, count⟩ t hinv hgrown hsplit
  have hrefs : input.execution = P.execution → List.Forall₂ (P.RefersTo t.shared.store) P.pages refs :=
    fun hrun => (hsplit (hdocument hrun)).2
  apply (works_processNode hinv hrefs).bind hinv
  intro outputs u _ _ houtputs
  apply works_ret
  intro v hgrown hrun count' outputs' hmined
  obtain ⟨rfl, rfl⟩ := Mined.pdf.inj hmined
  exact ⟨(hsplit (hdocument hrun)).1, (houtputs hrun).imp fun _ _ h => h.later hgrown⟩

end Process

section Attempts

variable {s : MiningPool} {input : MiningInput} {session : Session}

/-- Attempts of the run mine its document as a PDF; a standalone image of it would make a source part. -/
def PdfRun.Fits (P : PdfRun) (attempt : Attempt) : Prop :=
  (attempt.input.execution = P.execution → attempt.input.document = P.document ∧ attempt.kind ≠ .image) ∧
    (attempt.input.document = P.document → attempt.kind = .image → ¬ P.sole)

theorem works_imageBranch {media : MediaId} (hinv : P.growth.Sound s)
    (hother : input.execution ≠ P.execution) (hsole : input.document = P.document → ¬ P.sole) :
    P.Works (fun mined t => input.execution = P.execution → P.Completes mined t)
      (imageBranch input media) s := by
  have hpart : P.filing.Leaves (P.filing.Placed input.document (pageLocator 1))
      (ensureSourcePart input.document .image) s.shared.store := by
    apply leaves_ensureSourcePart ?_ hinv.inv.filed
    exact fun hid => .inr ⟨hsole hid, rfl, rfl, by rw [hid]; rfl⟩
  apply (works_lift (tells_onStore hpart)).bind hinv
  intro part t hinv _ _
  have hready : P.Ready (.transcribe (imageInput input media part.row.id)) t.shared :=
    fun hrun => absurd hrun hother
  apply (works_imageGraph hinv hready).bind hinv
  intro result u hinv _ _
  apply (works_lift (tells_recordThumb _)).bind hinv
  exact fun _ v _ _ _ => works_ret fun _ _ hrun => absurd hrun hother

theorem works_miningGraph (hvalid : P.filing.Validates P.cfg.media) (hinv : P.growth.Sound s)
    (hdocument : input.execution = P.execution → input.document = P.document) :
    P.Works (fun mined t => input.execution = P.execution → P.Completes mined t)
      (miningGraph P.cfg session input) s := by
  apply (works_lift (tells_onStore (leaves_finalizeDocument hvalid hinv.inv.filed))).bind hinv
  rintro doc t hinv _ ⟨hkey, _, hrecorded⟩
  dsimp only
  split
  · apply works_pdfGraph hinv hdocument
    exact fun hid => ⟨doc.row.mediaId, rfl, by rw [← hid]; exact hkey⟩
  · next himage =>
    have hother : input.document ≠ P.document := by
      intro hid
      cases hmime : doc.mimeType with
      | none =>
        rw [hmime] at himage
        cases himage
      | some mime =>
        obtain rfl : mime = .pdf := hrecorded hid mime hmime
        rw [hmime] at himage
        cases himage
    exact works_imageBranch hinv (fun hrun => hother (hdocument hrun)) fun hid => absurd hid hother
  · exact works_ret fun _ _ _ count outputs hmined => by cases hmined

theorem tells_readyNow {s : Mine} {document : DocumentId} (hinv : P.Sound s) :
    P.Tells (fun doc t => t.store.mediaKey doc.row.mediaId = some (.original document))
      (onStore (readyNow document)) s := by
  have hfetch : P.filing.Leaves (P.filing.Fetched document) (getDocument document) s.store :=
    leaves_fetch false hinv.filed
  have hready : P.filing.Leaves (fun doc t => t.mediaKey doc.row.mediaId = some (.original document))
      (readyNow document) s.store := by
    apply hfetch.bind hinv.filed
    intro doc t _ hdoc
    apply Keeps.ite
    · exact fun _ => leaves_throw _
    · exact fun _ => leaves_ret fun u hkept _ => hkept.keys.media _ _ hdoc.1
  exact tells_onStore hready

theorem works_graph {attempt : Attempt} (hvalid : P.filing.Validates P.cfg.media)
    (hinv : P.growth.Sound s) (hfits : P.Fits attempt) :
    P.Works (fun mined t => attempt.input.execution = P.execution → P.Completes mined t)
      (attempt.graph P.cfg session) s := by
  have hdocument : attempt.input.execution = P.execution → attempt.input.document = P.document :=
    fun hrun => (hfits.1 hrun).1
  unfold Attempt.graph
  split
  · exact works_miningGraph hvalid hinv hdocument
  · next hkind =>
    apply (works_lift (tells_readyNow hinv.inv)).bind hinv
    intro doc t hinv _ _
    apply works_imageBranch hinv
    · exact fun hrun => (hfits.1 hrun).2 hkind
    · exact fun hid => hfits.2 hid hkind
  · apply (works_lift (tells_readyNow hinv.inv)).bind hinv
    intro doc t hinv _ hkey
    apply works_pdfGraph hinv hdocument
    exact fun hid => ⟨doc.row.mediaId, rfl, by rw [← hid]; exact hkey⟩

theorem tells_succeed {s : Mine} {execution : ExecutionId} {document : DocumentId} {mined : Mined}
    (hmined : execution = P.execution → P.Completes mined s) :
    P.Tells (fun _ _ => True)
      (Coroutine.perform (MiningCmd.succeed execution document mined)) s := by
  apply tells_perform
  · intro t hgrown hinv
    obtain ⟨hsound, hgrown'⟩ := hinv.ended execution document mined
      fun hrun _ count outputs hpdf => by
        obtain ⟨hcount, hreports⟩ := hmined hrun count outputs hpdf
        exact ⟨hcount, hreports.imp fun _ _ h => h.later hgrown⟩
    exact ⟨hsound, hgrown', fun _ _ => trivial⟩
  · exact fun _ _ _ _ _ => trivial

theorem works_attempt {attempt : Attempt} (hvalid : P.filing.Validates P.cfg.media)
    (hinv : P.growth.Sound s) (hfits : P.Fits attempt) :
    P.Works (fun _ _ => True) (attempt.run P.cfg session) s := by
  apply (works_graph hvalid hinv hfits).bind hinv
  exact fun mined t _ _ hmined => works_lift (tells_succeed hmined)

theorem exists_page {p : Prop} {Q : SplitPage → Prop} (h : p → ∃ page, Q page) : ∃ page, p → Q page := by
  by_cases hp : p
  · obtain ⟨page, hq⟩ := h hp
    exact ⟨page, fun _ => hq⟩
  · exact ⟨⟨0, 0, [], ⟨0, 0, false⟩⟩, fun h => absurd h hp⟩

/-- One case for each kind of job. -/
theorem works_job {j : PageJob} (hinv : P.growth.Sound s) (hready : P.Ready j s.shared) :
    P.Works (P.Good j) (j.run P.cfg) s := by
  cases j with
  | page input ref =>
    obtain ⟨page, hpage⟩ := exists_page hready
    simp only [PageJob.run]
    split
    · next hkind =>
      apply works_lift
      have htext : input.execution = P.execution → page ∈ P.pages ∧ classifyPage page.signals = .text ∧
          P.Registered page ref.media ref.part s.shared.store := fun hrun =>
        ⟨(hpage hrun).1, (hpage hrun).2.2.1.symm.trans hkind, (hpage hrun).2.2.2⟩
      apply (tells_textPage hinv.inv htext).bind hinv.inv
      intro out t _ _ hout
      exact tells_ret fun u hgrown => P.good_grows (j := .page input ref) ⟨out, rfl, hout⟩ hgrown
    · next hkind =>
      have himage : P.Ready (.transcribe (pageImageInput input ref)) s.shared := fun hrun =>
        ⟨page, (hpage hrun).1, (hpage hrun).2.2.1.symm.trans hkind, (hpage hrun).2.2.2⟩
      apply (works_imagePage hinv himage).bind hinv
      intro out t _ _ hout
      exact works_ret fun u hgrown => P.good_grows (j := .page input ref) ⟨out, rfl, hout⟩ hgrown
  | thumbnail media =>
    apply works_lift
    apply (tells_thumbnailNode hinv.inv).bind hinv.inv
    exact fun result t _ _ hnone => tells_ret fun _ _ => ⟨result, rfl, hnone⟩
  | transcribe input =>
    obtain ⟨page, hpage⟩ := exists_page hready
    apply (works_transcribeNode hinv hpage).bind hinv
    intro result t _ _ hresult
    exact works_ret fun u hgrown => P.good_grows (j := .transcribe input) ⟨result, rfl, hresult⟩ hgrown
  | extract image =>
    apply works_lift
    apply (tells_extractContentImage hinv.inv).bind hinv.inv
    exact fun text t _ _ hread => tells_ret fun _ _ => ⟨text, rfl, hread⟩
  | annotate image dossier reflect =>
    apply works_lift
    apply (tells_annotateImage hinv.inv).bind hinv.inv
    exact fun answer t _ _ hread => tells_ret fun _ _ => ⟨answer, rfl, hread⟩

end Attempts

end Doci
