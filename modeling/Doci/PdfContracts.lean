import Doci.PdfRuns

/-! The activities, nodes and graphs of mining against what they leave of a PDF's run. -/

namespace Doci

open Coroutine ReadCommitted

abbrev MiningPool := TaskState Mine PageJob PageValue Exc

namespace PdfRun

variable (P : PdfRun)

/-- What the run's jobs on a page may count on. -/
def Ready : PageJob → Mine → Prop
  | .page input ref, s => input.execution = P.execution → ∃ page ∈ P.pages, ref.number = page.number ∧
      ref.kind = classifyPage page.signals ∧ P.Registered page ref.media ref.part s.store
  | .transcribe input, s => input.execution = P.execution → ∃ page ∈ P.pages,
      classifyPage page.signals = .image ∧ P.Registered page input.media input.part s.store
  | _, _ => True

/-- What the value of a job stands for. -/
def Good : PageJob → PageValue → Mine → Prop
  | .page input ref, value, s => ∃ out, value = .page out ∧ out.pageNumber = ref.number ∧
      out.kind = ref.kind ∧
      (input.execution = P.execution → P.Recorded ref.part out.extractRef out.annotationRef s)
  | .thumbnail _, value, _ => ∃ result, value = .update result ∧ result.extractRef = none ∧
      result.annotationRef = none
  | .transcribe input, value, s => ∃ result, value = .update result ∧
      (input.execution = P.execution → P.Recorded input.part result.extractRef result.annotationRef s)
  | .extract image, value, _ => ∃ text, value = .markdown text ∧ Transcribed P.cfg image text
  | .annotate image _ _, value, _ => ∃ answer, value = PageValue.annotation answer ∧
      ImageRead P.cfg image answer

theorem ready_grows {j : PageJob} {s t : Mine} (h : P.Ready j s) (hgrown : P.Grown s t) : P.Ready j t := by
  cases j with
  | page input ref =>
    intro hrun
    obtain ⟨page, hpage, hnumber, hkind, hpart⟩ := h hrun
    exact ⟨page, hpage, hnumber, hkind, hpart.later hgrown.kept⟩
  | transcribe input =>
    intro hrun
    obtain ⟨page, hpage, hkind, hpart⟩ := h hrun
    exact ⟨page, hpage, hkind, hpart.later hgrown.kept⟩
  | _ => trivial

theorem good_grows {j : PageJob} {value : PageValue} {s t : Mine} (h : P.Good j value s)
    (hgrown : P.Grown s t) : P.Good j value t := by
  cases j with
  | page input ref =>
    obtain ⟨out, hvalue, hnumber, hkind, hrecorded⟩ := h
    exact ⟨out, hvalue, hnumber, hkind, fun hrun => (hrecorded hrun).later hgrown⟩
  | transcribe input =>
    obtain ⟨result, hvalue, hrecorded⟩ := h
    exact ⟨result, hvalue, fun hrun => (hrecorded hrun).later hgrown⟩
  | thumbnail media => exact h
  | extract image => exact h
  | annotate image dossier reflect => exact h

def growth : Growth (mining P.cfg) where
  inv := P.Sound
  grows := P.Grown
  Expects := fun c s _ => ∀ ids, c = .store (.deleteMedia ids) → P.filing.Spares ids s.store
  Forks := fun _ _ => True
  Ready := P.Ready
  Good := P.Good
  refl := Grown.refl
  trans := Grown.trans
  ready_grows := P.ready_grows
  good_grows := P.good_grows

/-- The program keeps to the growth, and its answer tells `A`. -/
def Tells {α : Type} (A : α → Mine → Prop) (p : MiningProg α) (s : Mine) : Prop :=
  Keeps P.growth.base (Ends A fun _ => True) p s

/-- The same of a program that opens groups. -/
def Works {α : Type} (A : α → Mine → Prop) (p : MiningTask α) (s : MiningPool) : Prop :=
  Keeps P.growth.contract (Ends (fun value t => A value t.shared) fun _ => True) p s

end PdfRun

section Rules

variable {P : PdfRun} {s : Mine} {α β : Type} {A : α → Mine → Prop} {B : β → Mine → Prop}

theorem PdfRun.Tells.bind {p : MiningProg α} {next : α → MiningProg β} (h : P.Tells A p s)
    (hinv : P.Sound s)
    (hnext : ∀ value t, P.Sound t → P.Grown s t → A value t → P.Tells B (next value) t) :
    P.Tells B (p.bind next) s := by
  have halong := Keeps.along h (PdfRun.Grown.refl s) (fun _ _ => PdfRun.Grown.trans)
    fun _ _ => PdfRun.Grown.trans
  apply Keeps.bind halong hinv
  · exact fun value t hinv hA => hnext value t hinv hA.2 hA.1
  · exact fun _ _ _ _ => trivial

theorem PdfRun.Tells.weaken {A' : α → Mine → Prop} {p : MiningProg α} (h : P.Tells A p s)
    (himp : ∀ value t, A value t → A' value t) : P.Tells A' p s :=
  Keeps.weaken h fun r t _ hr => by
    cases r with
    | ok value => exact himp value t hr
    | error e => trivial

theorem tells_ret {value : α} (h : ∀ t, P.Grown s t → A value t) : P.Tells A (.ret value) s :=
  fun t hgrown _ => h t hgrown

theorem tells_perform {c : MiningCmd} {A : MiningReply c → Mine → Prop}
    (hstep : ∀ t, P.Grown s t → P.Sound t → P.Sound (Mine.meaning P.cfg c t).2 ∧
      P.Grown t (Mine.meaning P.cfg c t).2 ∧
      ∀ reply, (Mine.meaning P.cfg c t).1 = .ok reply → A reply (Mine.meaning P.cfg c t).2)
    (hstable : ∀ reply t u, A reply t → P.Grown t u → A reply u) :
    P.Tells A (Coroutine.perform c) s := by
  apply Keeps.perform
  intro t hgrown hinv fate _
  obtain ⟨hsound, hgrown', hreply⟩ := hstep t hgrown hinv
  cases fate with
  | lost e => exact ⟨hinv, PdfRun.Grown.refl t, fun _ _ _ => trivial⟩
  | late e => exact ⟨hsound, hgrown', fun _ _ _ => trivial⟩
  | done =>
    refine ⟨hsound, hgrown', fun u hu _ => Ends.intro (fun reply h => ?_) fun _ _ => trivial⟩
    exact hstable reply _ u (hreply reply h) hu

theorem cascade_cases (results : ResultTable) (store : Store) (c : DocCmd) :
    Mine.cascade results store c = results ∨
      Mine.cascade results store c = results.restrict fun part => (store.partRow none part).isSome := by
  cases c with
  | deleteMedia ids => exact .inr rfl
  | _ => exact .inl rfl

theorem tells_onStore {A : α → Store → Prop} {p : DocProg α} (h : P.filing.Leaves A p s.store) :
    P.Tells (fun value t => A value t.store) (onStore p) s := by
  have hkeeps := @Keeps.inject _ _ _ _ _ _ MiningReply MiningCmd.store Mine.store P.filing.contract
    P.growth.base _ _ s (fun _ _ hgrown => hgrown.kept) (fun _ hsound => hsound.filed)
    (fun c t fate hfate => ⟨hfate.1, fun ids hc => hfate.2 ids (congrArg _ hc)⟩)
    (fun c t fate => by cases fate <;> exact ⟨rfl, rfl⟩)
    (fun c t fate hsound _ hinv hguar => by
      cases fate with
      | lost e => exact ⟨hsound, PdfRun.Grown.refl t⟩
      | late e => exact hsound.stored hinv hguar (cascade_cases _ _ c)
      | done => exact hsound.stored hinv hguar (cascade_cases _ _ c)) h
  exact Keeps.weaken hkeeps fun r t _ hr => by
    cases r with
    | ok value => exact hr
    | error e => trivial

theorem tells_toThread : P.Tells (fun _ _ => True) toThread s := by
  apply tells_perform
  · exact fun t _ hinv => ⟨hinv, PdfRun.Grown.refl t, fun _ _ => trivial⟩
  · exact fun _ _ _ _ _ => trivial

theorem tells_ask (q : Question) : P.Tells (fun answer _ => ∃ i, answer = P.cfg.answer i q) (ask q) s := by
  apply tells_perform
  · intro t _ hinv
    refine ⟨⟨hinv.filed, hinv.rows, hinv.paired, hinv.succeeded⟩, ⟨Filing.Kept.refl _, fun row hrow _ =>
      ⟨row, hrow, rfl, rfl⟩, fun _ hentry => hentry⟩, fun answer hanswer => ⟨t.asked, ?_⟩⟩
    exact (Except.ok.inj hanswer).symm
  · exact fun _ _ _ hanswer _ => hanswer

end Rules

section Activities

variable {P : PdfRun} {s : Mine} {page : SplitPage} {media : Option MediaId} {part : PartId}
  {execution : ExecutionId}

theorem leaves_download {F : Filing} {s : Store} (hinv : F.Sound s) :
    F.Leaves (fun data _ => ∀ m key, media = some m → s.mediaKey m = some key → F.Reads key data)
      (download media) s := by
  cases media with
  | none => exact leaves_throw _
  | some id =>
    have hfetch : F.Leaves (fun record _ => ∀ key, s.mediaKey id = some key → record.objectKey = key)
        (fetchMedia id) s := by
      have hread : F.Leaves (fun found _ => ∀ record, found = some record →
          ∀ key, s.mediaKey id = some key → record.objectKey = key) (statement (.mediaById id)) s := by
        apply leaves_statement
        · exact fun _ _ _ _ => trivial
        · rintro t found hkept _ hreply record rfl key hkey
          have hfound : Store.notDeleted (t.mediaRow none id) = some record := Except.ok.inj hreply
          obtain ⟨⟨key', row⟩, hrow, rfl⟩ := Option.map_eq_some_iff.mp hfound
          obtain ⟨hrow, _⟩ := Option.filter_eq_some_iff.mp hrow
          obtain ⟨key'', hkey'', hrow⟩ := Option.bind_eq_some_iff.mp hrow
          obtain ⟨_, _, heq⟩ := Option.map_eq_some_iff.mp hrow
          obtain ⟨rfl, _⟩ := Prod.mk.inj heq
          exact Option.some.inj (hkey''.symm.trans (hkept.keys.media _ _ hkey))
        · exact fun _ _ _ hfound _ => hfound
      apply hread.bind hinv
      intro found t _ hfound
      cases found with
      | none => exact leaves_throw _
      | some record => exact leaves_ret fun _ _ _ => hfound record rfl
    apply hfetch.bind hinv
    intro record t hinv hrecord
    have hstream : F.Leaves (fun data _ => F.Reads record.objectKey data)
        (statement (.streamObject record.objectKey)) t := by
      apply leaves_statement
      · exact fun _ _ _ _ => trivial
      · intro u data _ hinv hreply
        apply hinv.reads
        simp only [Store.meaning] at hreply
        cases hobject : u.objects record.objectKey with
        | none =>
          rw [hobject] at hreply
          cases hreply
        | some object =>
          rw [hobject] at hreply
          rw [Except.ok.inj hreply]
      · exact fun _ _ _ hdata _ => hdata
    apply hstream.weaken
    rintro data u _ hdata m key hm hkey
    obtain rfl := Option.some.inj hm
    exact hrecord key hkey ▸ hdata

theorem tells_download (hinv : P.Sound s) :
    P.Tells (fun data _ => ∀ m key, media = some m → s.store.mediaKey m = some key →
      P.filing.Reads key data) (onStore (download media)) s :=
  tells_onStore (leaves_download hinv.filed)

/-- What is read of a page's blob. -/
theorem PdfRun.Registered.reads {a : Store} {data : Bytes} (h : P.Registered page media part a)
    (hpage : page ∈ P.pages) (hsole : P.sole)
    (hreads : ∀ m key, media = some m → a.mediaKey m = some key → P.filing.Reads key data) :
    data = rendered P.cfg (classifyPage page.signals) page.content := by
  obtain ⟨_, m, key, hm, hkey, hregion⟩ := h
  exact (hreads m key hm hkey).2 _ (hregion hsole) page hpage rfl

theorem tells_upsert {kind : ResultKind} {content : Json} (hpage : execution = P.execution →
    ∃ page ∈ P.pages, s.store.partKey part = some (P.document, pageLocator page.number) ∧
      (P.sole → PageFact P.cfg page kind content))
    (hpaired : execution = P.execution → kind = ResultKind.annotation → P.Extracted part s) :
    P.Tells (fun id t => execution = P.execution → ∃ row ∈ t.results.rows,
      row.key = (P.execution, part, kind) ∧ row.id = id)
      (Coroutine.perform (MiningCmd.upsertResult (execution, part, kind) content)) s := by
  apply tells_perform
  · intro t hgrown hinv
    simp only [Mine.meaning]
    split_ifs with hrow hstorable
    · exact ⟨hinv, PdfRun.Grown.refl t, fun reply hreply => by cases hreply⟩
    · exact ⟨hinv, PdfRun.Grown.refl t, fun reply hreply => by cases hreply⟩
    · obtain ⟨hsound, hgrown'⟩ := hinv.saved (execution, part, kind) content
        fun hrun => by
          obtain ⟨page, hpage, hkey, hfact⟩ := hpage hrun
          refine ⟨page, hpage, PdfRun.filed_of_row (hgrown.kept.keys.part _ _ hkey) ?_, hfact⟩
          exact Option.isSome_iff_ne_none.mpr fun hnone => hrow (Option.isNone_iff_eq_none.mpr hnone)
        fun hrun hkind => (hpaired hrun hkind).later hgrown
      refine ⟨hsound, hgrown', fun id hid hrun => ?_⟩
      refine ⟨_, ResultTable.mem_upsert.mpr (.inl rfl), ?_, Except.ok.inj hid⟩
      rw [← hrun]
      rfl
  · intro id t u hrow hgrown hrun
    obtain ⟨row, hrow, hkey, hid⟩ := hrow hrun
    obtain ⟨row', hrow', hid', hkey'⟩ := hgrown.rows row hrow (congrArg Prod.fst hkey)
    exact ⟨row', hrow', hkey'.trans hkey, hid'.trans hid⟩

theorem tells_save (execution : ExecutionId) (part : PartId) {kind : ResultKind} {payload : String}
    {content : Json}
    (hcontent : kind.content payload = some content) (hinv : P.Sound s)
    (hpage : execution = P.execution → ∃ page ∈ P.pages,
      s.store.partKey part = some (P.document, pageLocator page.number) ∧
        (P.sole → PageFact P.cfg page kind content))
    (hpaired : execution = P.execution → kind = ResultKind.annotation → P.Extracted part s) :
    P.Tells (fun ref t => execution = P.execution → ∃ row ∈ t.results.rows,
      row.key = (P.execution, part, kind) ∧ ref = toString row.id)
      (save execution part kind.value payload) s := by
  have hsave : saveResult execution part kind.value payload =
      Coroutine.perform (MiningCmd.upsertResult (execution, part, kind) content) := by
    rw [saveResult, ResultKind.ofValue_value]
    simp only [hcontent]
  unfold save
  rw [hsave]
  apply (tells_upsert hpage hpaired).bind hinv
  intro id t _ _ hid
  apply tells_ret
  intro u hgrown hrun
  obtain ⟨row, hrow, hkey, rfl⟩ := hid hrun
  obtain ⟨row', hrow', hid', hkey'⟩ := hgrown.rows row hrow (congrArg Prod.fst hkey)
  exact ⟨row', hrow', hkey'.trans hkey, by rw [hid']⟩

theorem tells_reviewText {text : String} {fields : List FieldSpec} {dossier : Option DossierSpec}
    {rounds : Nat} {answer : TextAnnotation} (hread : TextRead P.cfg text answer)
    (hinv : P.Sound s) :
    P.Tells (fun answer _ => TextRead P.cfg text answer)
      (reviewText text fields dossier rounds answer) s := by
  induction rounds generalizing s answer with
  | zero => exact tells_ret fun _ _ => hread
  | succ rounds ih =>
    apply (tells_ask _).bind hinv
    rintro revised t hinv _ ⟨i, hrevised⟩
    exact ih ⟨i, fields, dossier, .inr ⟨answer, hrevised⟩⟩ hinv

theorem tells_annotateText {text : String} {fields : List FieldSpec} {dossier : Option DossierSpec}
    {reflect : Bool} (hinv : P.Sound s) :
    P.Tells (fun answer _ => TextRead P.cfg text answer)
      (annotateText P.cfg text fields dossier reflect) s := by
  apply (tells_ask _).bind hinv
  rintro answer t hinv _ ⟨i, hfirst⟩
  exact tells_reviewText ⟨i, fields, dossier, .inl hfirst⟩ hinv

theorem tells_visionMessage (prompt : String) (image : Bytes) :
    P.Tells (fun message _ => imageMessage P.cfg.media.zipNames prompt image = .ok message)
      (visionMessage P.cfg prompt image) s := by
  unfold visionMessage
  cases imageMessage P.cfg.media.zipNames prompt image with
  | error text => exact fun _ _ _ => trivial
  | ok message => exact tells_ret fun _ _ => rfl

theorem tells_reviewImage {image : Bytes} {fields : List FieldSpec} {dossier : Option DossierSpec}
    {rounds : Nat} {answer : ImageAnnotation} (hread : ImageRead P.cfg image answer)
    (hinv : P.Sound s) :
    P.Tells (fun answer _ => ImageRead P.cfg image answer)
      (reviewImage P.cfg image fields dossier rounds answer) s := by
  induction rounds generalizing s answer with
  | zero => exact tells_ret fun _ _ => hread
  | succ rounds ih =>
    apply (tells_visionMessage _ _).bind hinv
    intro message t hinv _ hmessage
    apply (tells_ask _).bind hinv
    rintro revised u hinv _ ⟨i, hrevised⟩
    exact ih ⟨i, fields, dossier, message, .inr ⟨answer, hmessage, hrevised⟩⟩ hinv

theorem tells_annotateImage {image : Bytes} {fields : List FieldSpec} {dossier : Option DossierSpec}
    {reflect : Bool} (hinv : P.Sound s) :
    P.Tells (fun answer _ => ImageRead P.cfg image answer)
      (annotateImage P.cfg image fields dossier reflect) s := by
  apply (tells_visionMessage _ _).bind hinv
  intro message t hinv _ hmessage
  apply (tells_ask _).bind hinv
  rintro answer u hinv _ ⟨i, hfirst⟩
  exact tells_reviewImage ⟨i, fields, dossier, message, .inl ⟨hmessage, hfirst⟩⟩ hinv

theorem tells_extractContentImage {image : Bytes} (hinv : P.Sound s) :
    P.Tells (fun text _ => Transcribed P.cfg image text) (extractContentImage P.cfg image) s := by
  apply (tells_visionMessage _ _).bind hinv
  intro message t hinv _ hmessage
  apply (tells_ask _).bind hinv
  rintro content u _ _ ⟨i, rfl⟩
  exact tells_ret fun _ _ => ⟨i, message, hmessage, rfl⟩

theorem tells_recordThumb (thumb : Option MediaId) :
    P.Tells (fun _ _ => True) (recordThumb part thumb) s := by
  cases thumb with
  | none => exact tells_ret fun _ _ => trivial
  | some thumb =>
    have hset : P.filing.Leaves (fun _ _ => True) (setPartThumb part thumb) s.store :=
      leaves_safe fun _ _ => trivial
    exact tells_onStore hset

end Activities

end Doci
