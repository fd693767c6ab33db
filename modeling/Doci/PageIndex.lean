import Doci.PdfSystem

/-! The page index of a PDF's run: in every state the pages annotated so far, each once and in order,
and from the run's success on all of them. -/

namespace Doci

open Coroutine ReadCommitted

section Order

theorem pageBefore_total (a b : PageEntry) : pageBefore a b = true ∨ pageBefore b a = true := by
  unfold pageBefore
  cases a.pageNumber with
  | none =>
    cases b.pageNumber with
    | none => simpa using le_total a.locator b.locator
    | some n => exact .inr rfl
  | some m =>
    cases b.pageNumber with
    | none => exact .inl rfl
    | some n =>
      have hlocator := le_total a.locator b.locator
      simp only [Bool.or_eq_true, Bool.and_eq_true, decide_eq_true_eq, beq_iff_eq]
      by_cases h : m = n
      · exact hlocator.imp (fun hle => .inr ⟨h, hle⟩) fun hle => .inr ⟨h.symm, hle⟩
      · omega

theorem pageBefore_trans {a b c : PageEntry} (hab : pageBefore a b = true) (hbc : pageBefore b c = true) :
    pageBefore a c = true := by
  unfold pageBefore at *
  cases ha : a.pageNumber <;> cases hb : b.pageNumber <;> cases hc : c.pageNumber <;>
    simp only [ha, hb, hc, Bool.or_eq_true, Bool.and_eq_true, decide_eq_true_eq, beq_iff_eq,
      Bool.false_eq_true] at hab hbc ⊢
  · exact hab.trans hbc
  · rcases hab with hab | ⟨rfl, hab⟩
    · exact .inl (by omega)
    · exact hbc.imp id fun hbc => ⟨hbc.1, hab.trans hbc.2⟩

instance : Std.Total fun a b : PageEntry => pageBefore a b = true := ⟨pageBefore_total⟩

instance : IsTrans PageEntry fun a b => pageBefore a b = true := ⟨fun _ _ _ => pageBefore_trans⟩

variable {results : ResultTable} {store : Store} {execution : ExecutionId} {entry : PageEntry}

theorem mem_pageIndex : entry ∈ pageIndex results store execution ↔ ∃ row ∈ results.rows,
    row.execution = execution ∧ row.kind = ResultKind.annotation ∧ pageEntry store row = some entry := by
  simp only [pageIndex, List.mem_insertionSort, List.mem_filterMap, List.mem_filter, decide_eq_true_eq,
    and_assoc]

theorem pageIndex_sorted : (pageIndex results store execution).Pairwise fun a b => pageBefore a b = true :=
  List.pairwise_insertionSort _ _

theorem pageEntry_part {row : ResultRow} (h : pageEntry store row = some entry) : entry.part = row.part := by
  obtain ⟨_, _, rfl⟩ := Option.map_eq_some_iff.mp h
  rfl

/-- No part is listed twice. -/
theorem pageIndex_parts : (pageIndex results store execution).Pairwise fun a b => a.part ≠ b.part := by
  have hrows : (results.rows.filter fun row =>
      decide (row.execution = execution ∧ row.kind = ResultKind.annotation)).Pairwise
      fun a b => a.part ≠ b.part := by
    have hkeys := (List.pairwise_map.mp results.unique).filter fun row =>
      decide (row.execution = execution ∧ row.kind = ResultKind.annotation)
    apply hkeys.imp_of_mem
    intro a b ha hb hne hpart
    obtain ⟨hexecution, hkind⟩ := of_decide_eq_true (List.mem_filter.mp ha).2
    obtain ⟨hexecution', hkind'⟩ := of_decide_eq_true (List.mem_filter.mp hb).2
    apply hne
    rw [ResultRow.key, ResultRow.key, hexecution, hexecution', hkind, hkind', hpart]
  refine ((List.perm_insertionSort _ _).pairwise_iff fun h => Ne.symm h).mpr ?_
  refine List.pairwise_filterMap.mpr (hrows.imp fun hne b hb b' hb' => ?_)
  rw [pageEntry_part hb, pageEntry_part hb']
  exact hne

end Order

section Pages

variable {P : PdfRun} {s : Mine} {page : SplitPage} {entry : PageEntry}

/-- The entry is the page's, with what the run's annotation of the page says of it. -/
structure PdfRun.Lists (P : PdfRun) (s : Mine) (page : SplitPage) (entry : PageEntry) : Prop where
  number : entry.pageNumber = some page.number
  locator : entry.locator = pageLocator page.number
  part : P.Filed page entry.part s.store
  row : ∃ row ∈ s.results.rows, row.key = (P.execution, entry.part, ResultKind.annotation) ∧
    entry.itemKey = row.content.textField "item_key" ∧ entry.category = row.content.textField "category"

theorem PdfRun.Sound.lists (h : P.Sound s) {row : ResultRow} (hrow : row ∈ s.results.rows)
    (hrun : row.execution = P.execution) (hkind : row.kind = ResultKind.annotation) :
    ∃ page ∈ P.pages, P.Filed page row.part s.store ∧
      ∃ entry, pageEntry s.store row = some entry ∧ P.Lists s page entry := by
  obtain ⟨page, hpage, hpart, _⟩ := h.rows row hrow hrun
  obtain ⟨found, hfound, hnumber⟩ := hpart.partRow h.filed
  refine ⟨page, hpage, hpart, _, congrArg (Option.map _) hfound, hnumber, rfl, hpart, row, hrow, ?_, rfl, rfl⟩
  rw [ResultRow.key, hrun, hkind]

theorem PdfRun.Sound.listed (h : P.Sound s) (hentry : entry ∈ pageIndex s.results s.store P.execution) :
    ∃ page ∈ P.pages, P.Lists s page entry := by
  obtain ⟨row, hrow, hrun, hkind, heq⟩ := mem_pageIndex.mp hentry
  obtain ⟨page, hpage, _, entry', heq', hlists⟩ := h.lists hrow hrun hkind
  obtain rfl := Option.some.inj (heq.symm.trans heq')
  exact ⟨page, hpage, hlists⟩

def indexNumbers (s : Mine) (execution : ExecutionId) : List (Option Nat) :=
  (pageIndex s.results s.store execution).map PageEntry.pageNumber

theorem PdfRun.Sound.numbers (h : P.Sound s) : ∃ numbers : List Nat,
    indexNumbers s P.execution = numbers.map some ∧ numbers.Pairwise (· < ·) ∧
      ∀ k ∈ numbers, ∃ page ∈ P.pages, page.number = k := by
  have hsome : ∀ entry ∈ pageIndex s.results s.store P.execution,
      entry.pageNumber = some (entry.pageNumber.getD 0) := by
    intro entry hentry
    obtain ⟨page, _, hlists⟩ := h.listed hentry
    rw [hlists.number, Option.getD_some]
  refine ⟨(pageIndex s.results s.store P.execution).map fun entry => entry.pageNumber.getD 0, ?_, ?_, ?_⟩
  · rw [indexNumbers, List.map_map]
    exact List.map_congr_left hsome
  · refine List.pairwise_map.mpr ((pageIndex_sorted.and pageIndex_parts).imp_of_mem ?_)
    rintro a b ha hb ⟨hbefore, hparts⟩
    obtain ⟨p, hp, hlists⟩ := h.listed ha
    obtain ⟨q, hq, hlists'⟩ := h.listed hb
    rw [pageBefore, hlists.number, hlists'.number] at hbefore
    rw [hlists.number, hlists'.number, Option.getD_some, Option.getD_some]
    have hne : p.number ≠ q.number := by
      intro hnumber
      obtain rfl := eq_of_number hp hq hnumber
      obtain ⟨row, hrow, hid⟩ := hlists.part
      obtain ⟨row', hrow', hid'⟩ := hlists'.part
      obtain rfl := Option.some.inj (hrow.symm.trans hrow')
      exact hparts (hid.symm.trans hid')
    simp only [Bool.or_eq_true, Bool.and_eq_true, decide_eq_true_eq, beq_iff_eq] at hbefore
    omega
  · intro k hk
    obtain ⟨entry, hentry, rfl⟩ := List.mem_map.mp hk
    obtain ⟨page, hpage, hlists⟩ := h.listed hentry
    exact ⟨page, hpage, by rw [hlists.number, Option.getD_some]⟩

theorem mem_range_pages {k : Nat} :
    k ∈ List.range' 1 P.pages.length ↔ ∃ page ∈ P.pages, page.number = k := by
  rw [PdfRun.pages, ← iterPages_numbers, List.mem_map]

/-- The run's result of a kind for a page's part is about the page. -/
theorem PdfRun.Sound.result {part : PartId} {page : SplitPage} {s : Mine} {kind : ResultKind}
    {row : ResultRow} (h : P.Sound s) (hrow : row ∈ s.results.rows) (hkey : row.key = (P.execution, part, kind))
    (hpage : page ∈ P.pages) (hfiled : P.Filed page part s.store) :
    s.results.find (P.execution, part, kind) = some row ∧
      (P.sole → PageFact P.cfg page kind row.content) := by
  obtain ⟨hrun, hrest⟩ := Prod.mk.inj hkey
  obtain ⟨rfl, rfl⟩ := Prod.mk.inj hrest
  refine ⟨hkey ▸ ResultTable.find_of_mem hrow, fun hsole => ?_⟩
  obtain ⟨page', hpage', hfiled', hfact⟩ := h.rows row hrow hrun
  rw [eq_of_number hpage hpage' (hfiled.unique hfiled' h.filed)]
  exact hfact hsole

/-- Where every page has a result, every page is listed. -/
theorem PdfRun.Sound.complete (h : P.Sound s) {outputs : List PageOutput}
    (hreports : List.Forall₂ (P.Reports s) P.pages outputs) :
    indexNumbers s P.execution = (List.range' 1 P.pages.length).map some := by
  obtain ⟨numbers, heq, hascending, hmem⟩ := h.numbers
  rw [heq]
  congr 1
  apply List.Pairwise.eq_of_mem_iff hascending List.pairwise_lt_range'
  intro k
  refine ⟨fun hk => mem_range_pages.mpr (hmem k hk), fun hk => ?_⟩
  obtain ⟨page, hpage, rfl⟩ := mem_range_pages.mp hk
  obtain ⟨i, hi, rfl⟩ := List.getElem_of_mem hpage
  have hlt : i < outputs.length := hreports.length_eq ▸ hi
  obtain ⟨_, _, part, hpart, _, _, row, hrow, _, hkey, _⟩ := (List.forall₂_iff_get.mp hreports).2 i hi hlt
  obtain ⟨hrun, hrest⟩ := Prod.mk.inj hkey
  obtain ⟨rfl, hkind⟩ := Prod.mk.inj hrest
  obtain ⟨page, _, hfiled, entry, hentry, hlists⟩ := h.lists hrow hrun hkind
  obtain ⟨found, hfound, hid⟩ := hfiled
  have hsame := (h.filed.parts.row_key _ found (.inl hfound)).symm.trans (hid ▸ hpart)
  obtain ⟨_, hplace⟩ := Prod.mk.inj (Option.some.inj hsame)
  have hlisted : some page.number ∈ indexNumbers s P.execution :=
    List.mem_map.mpr ⟨entry, mem_pageIndex.mpr ⟨row, hrow, hrun, hkind, hentry⟩, hlists.number⟩
  rw [heq, pageLocator_injective hplace, List.mem_map] at hlisted
  obtain ⟨k, hk, hsome⟩ := hlisted
  exact Option.some.inj hsome ▸ hk

end Pages

section Parts

variable {P : PdfRun} {start : Mine} {c d : MiningConfiguration}

/-- The part is of the page, and its blob can hold nothing but the page. -/
structure PdfRun.HoldsPage (P : PdfRun) (s : Store) (place : String) (row : DocumentPartRow)
    (page : SplitPage) : Prop where
  locator : place = pageLocator page.number
  number : row.pageNumber = some page.number
  kind : row.kind = (storedPage (classifyPage page.signals)).1
  blob : ∃ m, row.mediaId = some m ∧ s.mediaKey m = some (.region P.document place)
  content : ∀ data, s.objects (.region P.document place) = some data →
    data = rendered P.cfg (classifyPage page.signals) page.content

theorem PdfRun.Sound.holds {s : Mine} (h : P.Sound s) (hsole : P.sole) {place : String}
    {row : DocumentPartRow} (hrow : (s.store.part.slot (P.document, place)).committed = some row) :
    ∃ page ∈ P.pages, P.HoldsPage s.store place row page := by
  obtain ⟨m, key, hm, hkey, hfiles⟩ := h.filed.parts.row_files place row (.inl hrow)
  rcases hfiles with ⟨page, hpage, hplace, hnumber, hkind, rfl⟩ | ⟨hnot, _⟩
  · refine ⟨page, hpage, hplace, hnumber, hkind, ⟨m, hm, hkey⟩, fun data hdata => ?_⟩
    exact h.filed.blobs.region place data hdata page hpage hplace
  · exact absurd hsole hnot

/-- A part, once it is filed, stays the one part of its page, whatever else runs. -/
theorem parts_hold_pages (hvalid : P.Valid) (hstart : P.NotStarted start) (hsole : P.sole)
    (reach : Reach (mining P.cfg).system P.Admits ⟨⟨start, []⟩, []⟩ c) {place : String}
    {row : DocumentPartRow}
    (hrow : (c.shared.shared.store.part.slot (P.document, place)).committed = some row)
    (later : Reach (mining P.cfg).system P.Admits c d) :
    ∃ page ∈ P.pages, ∃ row',
      (d.shared.shared.store.part.slot (P.document, place)).committed = some row' ∧
      row'.stem = row.stem ∧ P.HoldsPage d.shared.shared.store place row' page ∧
      ∀ place' other, (d.shared.shared.store.part.slot (P.document, place')).committed = some other →
        other.pageNumber = some page.number → place' = place := by
  obtain ⟨hsound, hgrown⟩ := PdfRun.mining_grown hvalid hstart reach later
  obtain ⟨row', hrow', hstem⟩ := hgrown.kept.parts place row hrow
  obtain ⟨page, hpage, hholds⟩ := hsound.holds hsole hrow'
  refine ⟨page, hpage, row', hrow', hstem, hholds, fun place' other hother hnumber => ?_⟩
  obtain ⟨page', _, hholds'⟩ := hsound.holds hsole hother
  have hsame : page'.number = page.number := Option.some.inj (hholds'.number.symm.trans hnumber)
  rw [hholds'.locator, hholds.locator, hsame]

theorem scanned_part_holds_page : ∃ c row,
    Reach (mining plainRun.cfg).system plainRun.Admits ⟨⟨newMine, []⟩, []⟩ c ∧
      (c.shared.shared.store.part.slot (plainRun.document, pageLocator 2)).committed = some row ∧
      ∃ page ∈ plainRun.pages, ∃ row',
        (c.shared.shared.store.part.slot (plainRun.document, pageLocator 2)).committed = some row' ∧
        row'.stem = row.stem ∧ plainRun.HoldsPage c.shared.shared.store (pageLocator 2) row' page ∧
        ∀ place' other,
          (c.shared.shared.store.part.slot (plainRun.document, place')).committed = some other →
          other.pageNumber = some page.number → place' = pageLocator 2 := by
  obtain ⟨c, _, row, h⟩ := plainRun_retried
  exact ⟨c, row, h.reach, h.part,
    parts_hold_pages plainRun_valid newMine_notStarted trivial h.reach h.part .start⟩

end Parts

section Runs

variable {P : PdfRun} {start : Mine} {c d : MiningConfiguration}

/-- In every state the index lists pages of the PDF only, each once and in ascending order. -/
theorem index_ascending (hvalid : P.Valid) (hstart : P.NotStarted start)
    (reach : Reach (mining P.cfg).system P.Admits ⟨⟨start, []⟩, []⟩ c) :
    (∃ numbers : List Nat, indexNumbers c.shared.shared P.execution = numbers.map some ∧
      numbers.Sublist (List.range' 1 P.pages.length)) ∧
    ∀ entry ∈ pageIndex c.shared.shared.results c.shared.shared.store P.execution,
      ∃ page ∈ P.pages, P.Lists c.shared.shared page entry := by
  have hsound := (PdfRun.mining_grown hvalid hstart reach .start).1
  refine ⟨?_, fun entry hentry => hsound.listed hentry⟩
  obtain ⟨numbers, heq, hascending, hmem⟩ := hsound.numbers
  refine ⟨numbers, heq, ?_⟩
  have hsubset : numbers ⊆ List.range' 1 P.pages.length :=
    fun k hk => mem_range_pages.mpr (hmem k hk)
  exact List.sublist_of_subperm_of_pairwise (List.subperm_of_subset hascending.nodup hsubset)
    (hascending.imp Nat.le_of_lt) (List.Pairwise.imp Nat.le_of_lt List.pairwise_lt_range')

theorem index_ascending_retried : ∃ c,
    Reach (mining plainRun.cfg).system plainRun.Admits ⟨⟨newMine, []⟩, []⟩ c ∧
    indexNumbers c.shared.shared plainRun.execution ≠ [] ∧
    (∃ numbers : List Nat, indexNumbers c.shared.shared plainRun.execution = numbers.map some ∧
      numbers.Sublist (List.range' 1 plainRun.pages.length)) ∧
    ∀ entry ∈ pageIndex c.shared.shared.results c.shared.shared.store plainRun.execution,
      ∃ page ∈ plainRun.pages, plainRun.Lists c.shared.shared page entry := by
  obtain ⟨c, _, _, h⟩ := plainRun_retried
  have hindexed : indexNumbers c.shared.shared plainRun.execution ≠ [] := by
    intro hnil
    have hmap := h.index
    rw [List.map_eq_nil_iff.mp hnil] at hmap
    cases hmap
  exact ⟨c, h.reach, hindexed, index_ascending plainRun_valid newMine_notStarted h.reach⟩

theorem reported_numbers {pages : List SplitPage} {outputs : List PageOutput}
    (h : List.Forall₂ (fun page out => PageOutput.pageNumber out = page.number) pages outputs) :
    outputs.map PageOutput.pageNumber = pages.map SplitPage.number := by
  induction h with
  | nil => rfl
  | cons hnumber _ ih => rw [List.map_cons, List.map_cons, hnumber, ih]

/-- A run that has succeeded has delivered all pages, and from then on the index lists them all. -/
theorem mined_pages (hvalid : P.Valid) (hstart : P.NotStarted start)
    (reach : Reach (mining P.cfg).system P.Admits ⟨⟨start, []⟩, []⟩ c) {count : Nat}
    {outputs : List PageOutput}
    (hsucceeded : (P.execution, P.document, .pdf count outputs) ∈ c.shared.shared.succeeded)
    (later : Reach (mining P.cfg).system P.Admits c d) :
    count = P.pages.length ∧ outputs.map PageOutput.pageNumber = List.range' 1 count ∧
      indexNumbers d.shared.shared P.execution = (List.range' 1 count).map some := by
  obtain ⟨hsound, hgrown⟩ := PdfRun.mining_grown hvalid hstart reach later
  obtain ⟨rfl, hreports⟩ := hsound.succeeded count outputs (hgrown.succeeded _ hsucceeded)
  refine ⟨rfl, ?_, hsound.complete hreports⟩
  rw [reported_numbers (hreports.imp fun _ _ h => h.1)]
  exact iterPages_numbers

theorem mined_pages_retried : ∃ c outputs,
    Reach (mining plainRun.cfg).system plainRun.Admits ⟨⟨newMine, []⟩, []⟩ c ∧
      (plainRun.execution, plainRun.document, Mined.pdf 3 outputs) ∈ c.shared.shared.succeeded ∧
      3 = plainRun.pages.length ∧ outputs.map PageOutput.pageNumber = List.range' 1 3 ∧
      indexNumbers c.shared.shared plainRun.execution = (List.range' 1 3).map some := by
  obtain ⟨c, outputs, _, h⟩ := plainRun_retried
  exact ⟨c, outputs, h.reach, h.succeeded,
    mined_pages plainRun_valid newMine_notStarted h.reach h.succeeded .start⟩

/-- What an output names are the run's results for the page, and they are about that page. -/
structure PdfRun.Names (P : PdfRun) (s : Mine) (page : SplitPage) (out : PageOutput)
    (extract annotation : ResultRow) : Prop where
  kind : out.kind = classifyPage page.signals
  stored : extract ∈ s.results.rows ∧ annotation ∈ s.results.rows
  part : extract.part = annotation.part ∧ P.Filed page extract.part s.store
  keys : extract.key = (P.execution, extract.part, .extract) ∧
    annotation.key = (P.execution, annotation.part, ResultKind.annotation)
  refs : out.extractRef = some (toString extract.id) ∧ out.annotationRef = some (toString annotation.id)
  facts : P.sole → PageFact P.cfg page .extract extract.content ∧
    PageFact P.cfg page ResultKind.annotation annotation.content

theorem outputs_name_results (hvalid : P.Valid) (hstart : P.NotStarted start)
    (reach : Reach (mining P.cfg).system P.Admits ⟨⟨start, []⟩, []⟩ c) {count : Nat}
    {outputs : List PageOutput}
    (hsucceeded : (P.execution, P.document, .pdf count outputs) ∈ c.shared.shared.succeeded)
    (later : Reach (mining P.cfg).system P.Admits c d) :
    List.Forall₂ (fun page out => ∃ extract annotation, P.Names d.shared.shared page out extract annotation)
      P.pages outputs := by
  obtain ⟨hsound, hgrown⟩ := PdfRun.mining_grown hvalid hstart reach later
  obtain ⟨rfl, hreports⟩ := hsound.succeeded count outputs (hgrown.succeeded _ hsucceeded)
  have hmem : List.Forall₂ (fun page out => page ∈ P.pages ∧ P.Reports d.shared.shared page out)
      P.pages outputs :=
    (List.forall₂_and_left _ _).mpr ⟨fun _ h => h, hreports⟩
  refine hmem.imp ?_
  rintro page out ⟨hpage, _, hkind, part, hpart, first, hfirst, second, hsecond, hkey, hkey', href, href'⟩
  obtain ⟨hrun, hrest⟩ := Prod.mk.inj hkey
  obtain ⟨rfl, hextract⟩ := Prod.mk.inj hrest
  obtain ⟨hrun', hrest'⟩ := Prod.mk.inj hkey'
  obtain ⟨hsame, hannotation⟩ := Prod.mk.inj hrest'
  obtain ⟨other, hother, hfiled, _⟩ := hsound.rows first hfirst hrun
  obtain rfl : other = page := by
    obtain ⟨row, hrow, hid⟩ := hfiled
    have hkeyed := hsound.filed.parts.row_key _ row (.inl hrow)
    obtain ⟨_, hplace⟩ := Prod.mk.inj (Option.some.inj (hkeyed.symm.trans (hid ▸ hpart)))
    exact eq_of_number hother hpage (pageLocator_injective hplace)
  refine ⟨first, second, hkind, ⟨hfirst, hsecond⟩, ⟨hsame.symm, hfiled⟩, ⟨hkey, hsame ▸ hkey'⟩,
    ⟨href, href'⟩, fun hsole => ?_⟩
  exact ⟨(hsound.result hfirst hkey hpage hfiled).2 hsole, (hsound.result hsecond hkey' hpage hfiled).2 hsole⟩

theorem outputs_name_results_retried : ∃ c outputs,
    Reach (mining plainRun.cfg).system plainRun.Admits ⟨⟨newMine, []⟩, []⟩ c ∧
      (plainRun.execution, plainRun.document, Mined.pdf 3 outputs) ∈ c.shared.shared.succeeded ∧
      List.Forall₂ (fun page out => ∃ extract annotation,
        plainRun.Names c.shared.shared page out extract annotation) plainRun.pages outputs := by
  obtain ⟨c, outputs, _, h⟩ := plainRun_retried
  exact ⟨c, outputs, h.reach, h.succeeded,
    outputs_name_results plainRun_valid newMine_notStarted h.reach h.succeeded .start⟩

end Runs

end Doci
