import Doci.PdfContracts

/-! The nodes of the image and PDF graphs: what a page's job leaves, and what a whole graph ends with. -/

namespace Doci

open Coroutine ReadCommitted

variable {P : PdfRun} {page : SplitPage} {part : PartId}

section Saves

variable {s : Mine} {execution : ExecutionId} {content content' : Json}

/-- The two results of a page are saved in turn. -/
theorem tells_saves (page : SplitPage) {extract answer : String}
    (hextract : ResultKind.extract.content extract = some content)
    (hanswer : ResultKind.annotation.content answer = some content') (hinv : P.Sound s)
    (hpage : execution = P.execution → page ∈ P.pages ∧
      s.store.partKey part = some (P.document, pageLocator page.number) ∧
        (P.sole → PageFact P.cfg page .extract content ∧
          PageFact P.cfg page ResultKind.annotation content'))
    {α : Type} {B : α → Mine → Prop} {next : String → String → MiningProg α}
    (hnext : ∀ first second t, P.Sound t → P.Grown s t →
      (execution = P.execution → P.Recorded part (some first) (some second) t) →
      P.Tells B (next first second) t) :
    P.Tells B ((save execution part "extract.md" extract).bind fun first =>
      (save execution part "annotation.json" answer).bind fun second => next first second) s := by
  have hfirst := tells_save (P := P) execution part hextract hinv fun hrun => by
    obtain ⟨hmem, hkey, hfact⟩ := hpage hrun
    exact ⟨page, hmem, hkey, fun hsole => (hfact hsole).1⟩
  specialize hfirst fun _ hkind => by cases hkind
  apply hfirst.bind hinv
  intro first t hinv hgrown hrow
  have hsecond := tells_save (P := P) execution part hanswer hinv fun hrun => by
    obtain ⟨hmem, hkey, hfact⟩ := hpage hrun
    exact ⟨page, hmem, hgrown.kept.keys.part _ _ hkey, fun hsole => (hfact hsole).2⟩
  specialize hsecond fun hrun _ => by
    obtain ⟨row, hmem, hkey, _⟩ := hrow hrun
    exact ⟨row, hmem, hkey⟩
  apply hsecond.bind hinv
  intro second u hinv hgrown' hrow'
  apply hnext first second u hinv (hgrown.trans hgrown')
  intro hrun
  obtain ⟨row, hmem, hkey, rfl⟩ := hrow hrun
  obtain ⟨row', hmem', hkey', rfl⟩ := hrow' hrun
  obtain ⟨later, hlater, hid, hsame⟩ := hgrown'.rows row hmem (congrArg Prod.fst hkey)
  exact ⟨later, hlater, row', hmem', hsame.trans hkey, hkey', by rw [hid], rfl⟩

theorem tells_textPage {input : MiningInput} {ref : PageRef} (hinv : P.Sound s)
    (hpage : input.execution = P.execution → page ∈ P.pages ∧ classifyPage page.signals = .text ∧
      P.Registered page ref.media ref.part s.store) :
    P.Tells (fun out t => out.pageNumber = ref.number ∧ out.kind = ref.kind ∧
      (input.execution = P.execution → P.Recorded ref.part out.extractRef out.annotationRef t))
      (ProcessNode.textPage P.cfg input ref) s := by
  apply (tells_download hinv).bind hinv
  intro data t hinv hgrown hreads
  apply tells_toThread.bind hinv
  intro _ t₁ hinv hgrown₁ _
  apply (tells_annotateText hinv).bind hinv
  intro answer t₂ hinv hgrown₂ hread
  apply (tells_onStore (leaves_ensureThumb _ _ _)).bind hinv
  intro thumb t₃ hinv hgrown₃ _
  have hset : P.Tells (fun _ _ => True) (onStore (setPartThumb ref.part thumb.row.id)) t₃ :=
    tells_recordThumb (some thumb.row.id)
  apply hset.bind hinv
  intro _ t₄ hinv hgrown₄ _
  have hall := (((hgrown.trans hgrown₁).trans hgrown₂).trans hgrown₃).trans hgrown₄
  refine tells_saves page (ResultKind.content_extract _)
    ((ResultKind.content_annotation _).trans answer.loads_dump) hinv (fun hrun => ?_) ?_
  · obtain ⟨hmem, hkind, hpart⟩ := hpage hrun
    refine ⟨hmem, hall.kept.keys.part _ _ hpart.1, fun hsole => ?_⟩
    have hdata := hpart.reads hmem hsole hreads
    rw [hkind] at hdata
    obtain rfl : data = page.content := hdata
    exact ⟨.markdown hkind, .annotated hkind answer hread⟩
  · intro first second u _ _ hrecorded
    exact tells_ret fun v hgrown => ⟨rfl, rfl, fun hrun => (hrecorded hrun).later hgrown⟩

theorem tells_thumbnailNode {media : Option MediaId} (hinv : P.Sound s) :
    P.Tells (fun result _ => result.extractRef = none ∧ result.annotationRef = none)
      (thumbnailNode P.cfg media) s := by
  apply (tells_download hinv).bind hinv
  intro data t hinv _ _
  apply tells_toThread.bind hinv
  intro _ t₁ hinv _ _
  apply (tells_onStore (leaves_ensureThumb _ _ _)).bind hinv
  intro thumb t₂ _ _ _
  exact tells_ret fun _ _ => ⟨rfl, rfl⟩

end Saves

section Works

variable {s : MiningPool} {α β : Type} {A : α → Mine → Prop} {B : β → Mine → Prop}

theorem works_lift {p : MiningProg α} (h : P.Tells A p s.shared) : P.Works A (TaskProg.lift p) s :=
  Keeps.weaken (keeps_lift h) fun r t _ hr => by
    cases r with
    | ok value => exact hr
    | error e => trivial

theorem PdfRun.Works.bind {p : MiningTask α} {next : α → MiningTask β} (h : P.Works A p s)
    (hinv : P.growth.Sound s)
    (hnext : ∀ value t, P.growth.Sound t → P.Grown s.shared t.shared → A value t.shared →
      P.Works B (next value) t) : P.Works B (p.bind next) s := by
  have halong := Keeps.along h (PdfRun.Grown.refl s.shared)
    (fun a b hgrown hrely => PdfRun.Grown.trans hgrown hrely.shared)
    (fun a b hgrown hguar => PdfRun.Grown.trans hgrown hguar.shared)
  apply Keeps.bind halong hinv
  · exact fun value t hinv hA => hnext value t hinv hA.2 hA.1
  · exact fun _ _ _ _ => trivial

theorem works_ret {value : α} (h : ∀ t, P.Grown s.shared t → A value t) : P.Works A (.ret value) s :=
  fun t hgrown _ => h t.shared hgrown.shared

theorem works_gather (jobs : List PageJob) (bound : Nat) (hinv : P.growth.Sound s)
    (hready : ∀ j ∈ jobs, P.Ready j s.shared) :
    P.Works (fun values t => List.Forall₂ (fun j value => P.Good j value t) jobs values)
      (TaskProg.gather jobs bound) s :=
  keeps_gather hinv trivial hready

end Works

section Image

variable {s : MiningPool} {input : ImageInput}

theorem works_transcribeNode (hinv : P.growth.Sound s)
    (hpage : input.execution = P.execution → page ∈ P.pages ∧ classifyPage page.signals = .image ∧
      P.Registered page input.media input.part s.shared.store) :
    P.Works (fun result t => input.execution = P.execution →
      P.Recorded input.part result.extractRef result.annotationRef t) (transcribeNode input) s := by
  apply (works_lift (tells_download hinv.inv)).bind hinv
  intro data t hinv hgrown hreads
  have hgather := works_gather (P := P) [.extract data, .annotate data input.dossier input.reflect] 2
    hinv fun j hj => by
      simp only [List.mem_cons, List.not_mem_nil, or_false] at hj
      rcases hj with rfl | rfl <;> trivial
  apply hgather.bind hinv
  intro values u hinv hgrown' hvalues
  obtain ⟨first, rest, ⟨text, rfl, htext⟩, hrest, rfl⟩ := List.forall₂_cons_left_iff.mp hvalues
  obtain ⟨second, rest, ⟨answer, rfl, hanswer⟩, hnone, rfl⟩ := List.forall₂_cons_left_iff.mp hrest
  obtain rfl := List.forall₂_nil_left_iff.mp hnone
  apply works_lift
  refine tells_saves page (ResultKind.content_extract _)
    ((ResultKind.content_annotation _).trans answer.loads_dump) hinv.inv (fun hrun => ?_) ?_
  · obtain ⟨hmem, hkind, hpart⟩ := hpage hrun
    refine ⟨hmem, (hgrown.trans hgrown').kept.keys.part _ _ hpart.1, fun hsole => ?_⟩
    have hdata := hpart.reads hmem hsole hreads
    rw [hkind] at hdata
    obtain rfl : data = P.cfg.libraries.png page.content := hdata
    exact ⟨.transcribed hkind text htext, .seen hkind answer hanswer⟩
  · intro first second v _ _ hrecorded
    exact tells_ret fun w hgrown hrun => (hrecorded hrun).later hgrown

theorem works_imageGraph (hinv : P.growth.Sound s) (hready : P.Ready (.transcribe input) s.shared) :
    P.Works (fun result t => input.execution = P.execution →
      P.Recorded input.part result.extractRef result.annotationRef t) (imageGraph input) s := by
  have hgather := works_gather (P := P) [.thumbnail input.media, .transcribe input] 2
    hinv fun j hj => by
      simp only [List.mem_cons, List.not_mem_nil, or_false] at hj
      rcases hj with rfl | rfl
      · trivial
      · exact hready
  apply hgather.bind hinv
  intro values t hinv _ hvalues
  obtain ⟨first, rest, ⟨thumb, rfl, hextract, hanswer⟩, hrest, rfl⟩ :=
    List.forall₂_cons_left_iff.mp hvalues
  obtain ⟨second, rest, ⟨result, rfl, hrecorded⟩, hnone, rfl⟩ := List.forall₂_cons_left_iff.mp hrest
  obtain rfl := List.forall₂_nil_left_iff.mp hnone
  apply works_ret
  intro u hgrown hrun
  obtain ⟨row, hrow, row', hrow', hkey, hkey', hfirst, hsecond⟩ := (hrecorded hrun).later hgrown
  refine ⟨row, hrow, row', hrow', hkey, hkey', ?_, ?_⟩
  · simp [ImageResult.update, hfirst]
  · simp [ImageResult.update, hsecond]

theorem works_imagePage {input : MiningInput} {ref : PageRef} (hinv : P.growth.Sound s)
    (hready : P.Ready (.transcribe (pageImageInput input ref)) s.shared) :
    P.Works (fun out t => out.pageNumber = ref.number ∧ out.kind = ref.kind ∧
      (input.execution = P.execution → P.Recorded ref.part out.extractRef out.annotationRef t))
      (ProcessNode.imagePage input ref) s := by
  apply (works_imageGraph hinv hready).bind hinv
  intro result t hinv _ hrecorded
  apply (works_lift (tells_recordThumb _)).bind hinv
  intro _ u _ hgrown _
  exact works_ret fun v hgrown' => ⟨rfl, rfl, fun hrun => (hrecorded hrun).later (hgrown.trans hgrown')⟩

end Image

end Doci
