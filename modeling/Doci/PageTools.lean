import Doci.PageIndex
import Doci.PageImage

/-! The audit's tools over a run's pages, each a reader beside whatever mines: what they list can be
read, a document's span has no holes, and collected facts are of the pages they are given for. -/

namespace Doci

open Coroutine ReadCommitted

inductive ResultQuery where
  | pageIndex (execution : ExecutionId)
  | result (execution : ExecutionId) (part : PartId) (kind : ResultKind)

abbrev ResultReply : ResultQuery → Type
  | .pageIndex _ => List PageEntry
  | .result _ _ _ => Option ResultRow

abbrev ResultProg (α : Type) := Prog ResultReply Exc α

def resultLook : (q : ResultQuery) → MiningPool → Except Exc (ResultReply q)
  | .pageIndex execution, s => .ok (pageIndex s.shared.results s.shared.store execution)
  | .result execution part kind, s => .ok (s.shared.results.find (execution, part, kind))

/-- An answer `{"ok": False, "error": ...}` or `{"ok": True, ...}`. -/
inductive ToolAnswer (α : Type) where
  | failed (error : String)
  | found (value : α)

structure PageReading where
  partId : String
  value : Json

structure SpanPage where
  partId : String
  pageNumber : Option Nat
  itemKey : Option String

structure ListedPage extends SpanPage where
  category : Option String

structure FoundDocument where
  itemKey : String
  present : Bool
  classifiedPages : List (Option Nat)
  span : Option (Nat × Nat)
  spanPages : List SpanPage

structure CollectedFacts where
  itemKey : String
  pageNumbers : List (Option Nat)
  facts : List Dict

section Tools

/-- `content.get(key, default)`, where the content need not be a dict. -/
def contentGet (content : Json) (key : String) (default : Json) : Except Exc Json :=
  match content with
  | .obj entries => .ok ((Dict.get entries key).getD default)
  | _ => .error (.external "AttributeError")

def asDict : Json → Except Exc Dict
  | .obj entries => .ok entries
  | _ => .error (.external "TypeError")

/-- `for f in value or []`, each a dict. -/
def iterFacts (value : Json) : Except Exc (List Dict) :=
  if !value.truthy then .ok []
  else match value with
    | .arr items => items.mapM asDict
    | _ => .error (.external "TypeError")

def ofExcept {α : Type} : Except Exc α → ResultProg α
  | .ok value => .ret value
  | .error e => .throw e

variable (repr : String → String) (readId : String → Option PartId) (showId : PartId → String)
  (execution : ExecutionId)

def getPageText (partId : String) : ResultProg (ToolAnswer PageReading) :=
  match readId partId with
  | none => return .failed (repr partId ++ " is not a valid part_id (UUID).")
  | some pid => do
    match ← Coroutine.perform (ResultQuery.result execution pid .extract) with
    | none => return .failed ("no extracted text for part " ++ partId ++ ".")
    | some row =>
      let text ← ofExcept (contentGet row.content "result" (.str ""))
      return .found { partId, value := text }

def getPageAnnotationTool (partId : String) : ResultProg (ToolAnswer PageReading) :=
  match readId partId with
  | none => return .failed (repr partId ++ " is not a valid part_id (UUID).")
  | some pid => do
    match ← Coroutine.perform (ResultQuery.result execution pid ResultKind.annotation) with
    | none => return .failed ("no annotation for part " ++ partId ++ ".")
    | some row => return .found { partId, value := row.content }

def PageEntry.show (entry : PageEntry) : SpanPage where
  partId := showId entry.part
  pageNumber := entry.pageNumber
  itemKey := entry.itemKey

def PageEntry.list (entry : PageEntry) : ListedPage :=
  { entry.show showId with category := entry.category }

def listPages : ResultProg (List ListedPage) := do
  let pages ← Coroutine.perform (ResultQuery.pageIndex execution)
  return pages.map (PageEntry.list showId)

def matching (itemKey : String) (pages : List PageEntry) : List PageEntry :=
  pages.filter fun p => p.itemKey = some itemKey

/-- `[min(numbered), max(numbered)]`. -/
def spanOf (pages : List PageEntry) : Option (Nat × Nat) := do
  let lo ← (pages.filterMap PageEntry.pageNumber).min?
  let hi ← (pages.filterMap PageEntry.pageNumber).max?
  return (lo, hi)

/-- `lo <= p.page_number <= hi`, for pages that have a number. -/
def PageEntry.within (lo hi : Nat) (p : PageEntry) : Bool :=
  p.pageNumber.any fun k => decide (lo ≤ k) && decide (k ≤ hi)

def spanPages (pages : List PageEntry) : Option (Nat × Nat) → List PageEntry
  | none => []
  | some (lo, hi) => pages.filter (PageEntry.within lo hi)

def findDocument (itemKey : String) : ResultProg FoundDocument := do
  let pages ← Coroutine.perform (ResultQuery.pageIndex execution)
  let matched := matching itemKey pages
  return {
    itemKey
    present := !matched.isEmpty
    classifiedPages := matched.map PageEntry.pageNumber
    span := spanOf matched
    spanPages := (spanPages pages (spanOf matched)).map (PageEntry.show showId) }

def pageNumberOf : Option Nat → Json
  | none => .null
  | some k => .int k

/-- `{**f, "page_number": ..., "part_id": ...}`. -/
def tagFact (p : PageEntry) (fact : Dict) : Dict :=
  Dict.update fact [("page_number", pageNumberOf p.pageNumber), ("part_id", .str (showId p.part))]

def collect : List PageEntry → ResultProg (List Dict)
  | [] => return []
  | p :: pages => do
    match ← Coroutine.perform (ResultQuery.result execution p.part ResultKind.annotation) with
    | none => collect pages
    | some row =>
      let value ← ofExcept (contentGet row.content "facts" (.arr []))
      let facts ← ofExcept (iterFacts value)
      let rest ← collect pages
      return facts.map (tagFact showId p) ++ rest

def collectFacts (itemKey : String) : ResultProg CollectedFacts := do
  let pages ← Coroutine.perform (ResultQuery.pageIndex execution)
  let facts ← collect showId execution (matching itemKey pages)
  return { itemKey, pageNumbers := (matching itemKey pages).map PageEntry.pageNumber, facts }

end Tools

section Span

variable {pages : List PageEntry} {n lo hi : Nat}

theorem filter_range {n lo hi : Nat} (hlo : 1 ≤ lo) (hhi : hi ≤ n) :
    ((List.range' 1 n).filter fun k => decide (lo ≤ k) && decide (k ≤ hi)) =
      List.range' lo (hi + 1 - lo) := by
  apply List.Pairwise.eq_of_mem_iff (List.Pairwise.filter _ List.pairwise_lt_range')
    List.pairwise_lt_range'
  intro k
  simp only [List.mem_filter, List.mem_range'_1, Bool.and_eq_true, decide_eq_true_eq]
  omega

theorem spanOf_some (h : spanOf pages = some (lo, hi)) :
    some lo ∈ pages.map PageEntry.pageNumber ∧ some hi ∈ pages.map PageEntry.pageNumber ∧
      ∀ k, some k ∈ pages.map PageEntry.pageNumber → lo ≤ k ∧ k ≤ hi := by
  obtain ⟨lo', hlo, h⟩ := Option.bind_eq_some_iff.mp h
  obtain ⟨hi', hhi, h⟩ := Option.bind_eq_some_iff.mp h
  obtain ⟨rfl, rfl⟩ := Prod.mk.inj (Option.some.inj h)
  have hmem : ∀ k, k ∈ pages.filterMap PageEntry.pageNumber ↔ some k ∈ pages.map PageEntry.pageNumber :=
    fun k => by rw [List.mem_filterMap, List.mem_map]
  obtain ⟨hlo, hmin⟩ := List.min?_eq_some_iff.mp hlo
  obtain ⟨hhi, hmax⟩ := List.max?_eq_some_iff.mp hhi
  exact ⟨(hmem _).mp hlo, (hmem _).mp hhi, fun k hk => ⟨hmin k ((hmem k).mpr hk), hmax k ((hmem k).mpr hk)⟩⟩

theorem spanOf_none (h : spanOf pages = none) : ∀ k, some k ∉ pages.map PageEntry.pageNumber := by
  intro k hk
  have hmem : k ∈ pages.filterMap PageEntry.pageNumber :=
    List.mem_filterMap.mpr (List.mem_map.mp hk)
  cases hlo : (pages.filterMap PageEntry.pageNumber).min? with
  | none =>
    rw [List.min?_eq_none_iff.mp hlo] at hmem
    cases hmem
  | some lo =>
    cases hhi : (pages.filterMap PageEntry.pageNumber).max? with
    | none =>
      rw [List.max?_eq_none_iff.mp hhi] at hmem
      cases hmem
    | some hi =>
      rw [spanOf, hlo, hhi] at h
      cases h

/-- In an index of all pages a span has no holes. -/
theorem span_numbers (hindex : pages.map PageEntry.pageNumber = (List.range' 1 n).map some) (hlo : 1 ≤ lo)
    (hhi : hi ≤ n) : (spanPages pages (some (lo, hi))).map PageEntry.pageNumber =
      (List.range' lo (hi + 1 - lo)).map some := by
  have hwithin : PageEntry.within lo hi =
      (fun number : Option Nat => number.any fun k => decide (lo ≤ k) && decide (k ≤ hi)) ∘
        PageEntry.pageNumber := rfl
  rw [spanPages, hwithin, ← List.filter_map, hindex, List.filter_map, ← filter_range hlo hhi]
  rfl

end Span

section Runs

variable {P : PdfRun} {start : Mine} {c d m : MiningConfiguration}
  {showId : PartId → String} {itemKey : String}
  {looks : List (ResultQuery × MiningPool)}

/-- `str` of a part's id. -/
def idText (part : PartId) : String := uuidText (BitVec.ofNat 128 part)

theorem partOf_idText {part : PartId} (h : part < 2 ^ 128) : partOf (idText part) = some part := by
  rw [partOf, idText, uuidOf_uuidText, Option.map_some, BitVec.toNat_ofNat, Nat.mod_eq_of_lt h]

theorem resultLook_total (q : ResultQuery) (s : MiningPool) : ∃ value, resultLook q s = .ok value := by
  cases q <;> exact ⟨_, rfl⟩

/-- From a run's success on the pages found are those that are classified so, and their span lists
every page in it once, in order. -/
theorem find_document_span (hvalid : P.Valid) (hstart : P.NotStarted start)
    (reach : Reach (mining P.cfg).system P.Admits ⟨⟨start, []⟩, []⟩ c) {count : Nat}
    {outputs : List PageOutput}
    (hsucceeded : (P.execution, P.document, .pdf count outputs) ∈ c.shared.shared.succeeded)
    {found : FoundDocument}
    (h : (findDocument showId P.execution itemKey).Within (mining P.cfg).system P.Admits resultLook c
      looks d (.ok found)) :
    (∃ m, Reach (mining P.cfg).system P.Admits c m ∧
      found.classifiedPages = ((pageIndex m.shared.shared.results m.shared.shared.store
        P.execution).filter fun entry => entry.itemKey = some itemKey).map PageEntry.pageNumber ∧
      ∀ entry ∈ pageIndex m.shared.shared.results m.shared.shared.store P.execution,
        ∃ page ∈ P.pages, P.Lists m.shared.shared page entry) ∧
    (found.present = true ↔ found.classifiedPages ≠ []) ∧
    (found.present = true ↔ found.span.isSome = true) ∧ ∀ lo hi, found.span = some (lo, hi) →
      1 ≤ lo ∧ hi ≤ count ∧ some lo ∈ found.classifiedPages ∧ some hi ∈ found.classifiedPages ∧
      (∀ k, some k ∈ found.classifiedPages → lo ≤ k ∧ k ≤ hi) ∧
      found.spanPages.map SpanPage.pageNumber = (List.range' lo (hi + 1 - lo)).map some := by
  obtain ⟨m, pages, rest, later, hpages, hrest⟩ := h.of_look (resultLook_total _)
  obtain rfl : pageIndex m.shared.shared.results m.shared.shared.store P.execution = pages :=
    Except.ok.inj hpages
  obtain rfl := Except.ok.inj hrest.of_ret
  obtain ⟨hsound, hgrown⟩ := PdfRun.mining_grown hvalid hstart reach later
  obtain ⟨rfl, hreports⟩ := hsound.succeeded count outputs (hgrown.succeeded _ hsucceeded)
  have hindex := hsound.complete hreports
  have hmem : ∀ k, some k ∈ (matching itemKey (pageIndex m.shared.shared.results m.shared.shared.store
      P.execution)).map PageEntry.pageNumber → 1 ≤ k ∧ k ≤ P.pages.length := by
    intro k hk
    obtain ⟨entry, hentry, hnumber⟩ := List.mem_map.mp hk
    have hlisted : some k ∈ indexNumbers m.shared.shared P.execution :=
      List.mem_map.mpr ⟨entry, (List.mem_filter.mp hentry).1, hnumber⟩
    rw [hindex, List.mem_map] at hlisted
    obtain ⟨k', hk', heq⟩ := hlisted
    obtain rfl := Option.some.inj heq
    have hrange := List.mem_range'_1.mp hk'
    omega
  refine ⟨⟨m, later, rfl, fun entry hentry => hsound.listed hentry⟩, by simp, ?_, fun lo hi hspan => ?_⟩
  · dsimp only
    constructor
    · intro hpresent
      obtain ⟨entry, hentry⟩ := List.exists_mem_of_ne_nil _ (by simpa using hpresent)
      refine Option.isSome_iff_ne_none.mpr fun hnone => ?_
      obtain ⟨page, _, hlists⟩ := hsound.listed (List.mem_filter.mp hentry).1
      exact spanOf_none hnone page.number (List.mem_map.mpr ⟨entry, hentry, hlists.number⟩)
    · intro hspan
      obtain ⟨⟨lo, hi⟩, hspan⟩ := Option.isSome_iff_exists.mp hspan
      obtain ⟨entry, hentry, _⟩ := List.mem_map.mp (spanOf_some hspan).1
      simpa using List.ne_nil_of_mem hentry
  · dsimp only at hspan ⊢
    obtain ⟨hlo, hhi, hbetween⟩ := spanOf_some hspan
    refine ⟨(hmem lo hlo).1, (hmem hi hhi).2, hlo, hhi, hbetween, ?_⟩
    rw [hspan, List.map_map]
    exact span_numbers hindex (hmem lo hlo).1 (hmem hi hhi).2

theorem PdfRun.Retried.entries {outputs : List PageOutput} {row : DocumentPartRow}
    (h : P.Retried c outputs row) : ∃ first unlabelled last,
    pageIndex c.shared.shared.results c.shared.shared.store P.execution = [first, unlabelled, last] ∧
      (first.pageNumber, first.itemKey) = (some 1, some "invoice") ∧
      (unlabelled.pageNumber, unlabelled.itemKey) = (some 2, none) ∧
      (last.pageNumber, last.itemKey) = (some 3, some "invoice") := by
  have hindex := h.index
  obtain ⟨first, rest, heq, hfirst, hrest⟩ := List.map_eq_cons_iff.mp hindex
  obtain ⟨second, rest, rfl, hsecond, hrest⟩ := List.map_eq_cons_iff.mp hrest
  obtain ⟨third, rest, rfl, hthird, hrest⟩ := List.map_eq_cons_iff.mp hrest
  obtain rfl := List.map_eq_nil_iff.mp hrest
  exact ⟨first, second, third, heq, hfirst, hsecond, hthird⟩

/-- The invoice is found on the first and the last page, and its span has the scanned one as well. -/
theorem find_document_span_retried : ∃ c looks found,
    (findDocument idText plainRun.execution "invoice").Within (mining plainRun.cfg).system plainRun.Admits
      resultLook c looks c (.ok found) ∧ found.classifiedPages = [some 1, some 3] ∧
    found.present = true ∧ ∃ lo hi, found.span = some (lo, hi) ∧ lo = 1 ∧ hi = 3 ∧
      found.spanPages.map SpanPage.pageNumber = [some 1, some 2, some 3] := by
  obtain ⟨c, outputs, row, h⟩ := plainRun_retried
  have hread : (findDocument idText plainRun.execution "invoice").Within (mining plainRun.cfg).system
      plainRun.Admits resultLook c _ c _ := .await .start (.ret c _)
  obtain ⟨_, hpresent, hspan, hpages⟩ :=
    find_document_span plainRun_valid newMine_notStarted h.reach h.succeeded hread
  obtain ⟨first, unlabelled, last, hentries, hfirst, hunlabelled, hlast⟩ := h.entries
  obtain ⟨hfirst, hfirst'⟩ := Prod.mk.inj hfirst
  obtain ⟨_, hunlabelled'⟩ := Prod.mk.inj hunlabelled
  obtain ⟨hlast, hlast'⟩ := Prod.mk.inj hlast
  have hclassified : (matching "invoice" (pageIndex c.shared.shared.results c.shared.shared.store
      plainRun.execution)).map PageEntry.pageNumber = [some 1, some 3] := by
    rw [hentries]
    simp [matching, hfirst, hfirst', hunlabelled', hlast, hlast']
  have hfound := hpresent.mpr (by rw [hclassified]; exact List.cons_ne_nil _ _)
  refine ⟨c, _, _, hread, hclassified, hfound, ?_⟩
  obtain ⟨⟨lo, hi⟩, hlohi⟩ := Option.isSome_iff_exists.mp (hspan.mp hfound)
  obtain ⟨_, _, hlo, hhi, hbetween, hnumbers⟩ := hpages lo hi hlohi
  dsimp only at hlo hhi hbetween hnumbers
  rw [hclassified] at hlo hhi hbetween
  have h1 := hbetween 1 (by simp)
  have h3 := hbetween 3 (by simp)
  simp only [List.mem_cons, Option.some.injEq, List.not_mem_nil, or_false] at hlo hhi
  obtain rfl : lo = 1 := by omega
  obtain rfl : hi = 3 := by omega
  exact ⟨1, 3, hlohi, rfl, rfl, hnumbers⟩

/-- From a listing of a page on, its annotation and its text are there to be read. -/
theorem PdfRun.Lists.results {entry : PageEntry} {page : SplitPage} {s t : Mine} (h : P.Lists s page entry)
    (hpage : page ∈ P.pages) (hsound : P.Sound t) (hgrown : P.Grown s t) (kind : ResultKind) :
    ∃ row, t.results.find (P.execution, entry.part, kind) = some row ∧
      (P.sole → PageFact P.cfg page kind row.content) := by
  obtain ⟨row, hrow, hkey, _⟩ := h.row
  obtain ⟨row', hrow', _, hsame⟩ := hgrown.rows row hrow (congrArg Prod.fst hkey)
  have hfiled := h.part.later hgrown.kept
  have hkey' := hsame.trans hkey
  cases kind with
  | annotation => exact ⟨row', hsound.result hrow' hkey' hpage hfiled⟩
  | extract =>
    obtain ⟨hrun, hrest⟩ := Prod.mk.inj hkey'
    obtain ⟨hpart, hkind⟩ := Prod.mk.inj hrest
    obtain ⟨text, htext, hkey⟩ := hpart ▸ hsound.paired row' hrow' hrun hkind
    exact ⟨text, hsound.result htext hkey hpage hfiled⟩

theorem PageFact.text {cfg : MiningConfig} {page : SplitPage} {content : Json}
    (h : PageFact cfg page .extract content) :
    ∃ text, content = .obj [("result", .str text)] ∧
      contentGet content "result" (.str "") = .ok (.str text) := by
  cases h with
  | markdown => exact ⟨_, rfl, rfl⟩
  | transcribed _ text => exact ⟨text, rfl, rfl⟩

/-- A listed page can be read at any later time, and what is read is of that page. -/
theorem listed_page_answers (repr : String → String) (readId : String → Option PartId) (hvalid : P.Valid)
    (hstart : P.NotStarted start) (hsole : P.sole)
    (reach : Reach (mining P.cfg).system P.Admits ⟨⟨start, []⟩, []⟩ c) {pages : List ListedPage}
    (hlist : (listPages showId P.execution).Within (mining P.cfg).system P.Admits resultLook c
      looks m (.ok pages)) {listed : ListedPage} (hlisted : listed ∈ pages)
    (hread : ∀ part < m.shared.shared.store.fresh, readId (showId part) = some part) :
    ∃ page ∈ P.pages, listed.pageNumber = some page.number ∧
      (∀ looks d result, (getPageText repr readId P.execution listed.partId).Within (mining P.cfg).system
        P.Admits resultLook m looks d result → ∃ text, result = .ok (.found ⟨listed.partId, .str text⟩) ∧
          PageFact P.cfg page .extract (.obj [("result", .str text)])) ∧
      ∀ looks d result, (getPageAnnotationTool repr readId P.execution listed.partId).Within
        (mining P.cfg).system P.Admits resultLook m looks d result →
          ∃ content, result = .ok (.found ⟨listed.partId, content⟩) ∧
            PageFact P.cfg page ResultKind.annotation content := by
  obtain ⟨m', index, rest, later, hindex, hrest⟩ := hlist.of_look (resultLook_total _)
  obtain rfl : pageIndex m'.shared.shared.results m'.shared.shared.store P.execution = index :=
    Except.ok.inj hindex
  obtain rfl := Except.ok.inj hrest.of_ret
  have hsame : m' = m := by
    cases hrest
    rfl
  subst hsame
  obtain ⟨entry, hentry, rfl⟩ := List.mem_map.mp hlisted
  have hsound := (PdfRun.mining_grown hvalid hstart reach later).1
  obtain ⟨page, hpage, hlists⟩ := hsound.listed hentry
  have hid : readId (showId entry.part) = some entry.part := by
    obtain ⟨row, hrow, hrowid⟩ := hlists.part
    exact hread _ (hsound.filed.keys.part_lt _ _ (hrowid ▸ hsound.filed.parts.row_key _ row (.inl hrow)))
  refine ⟨page, hpage, hlists.number, fun looks d result h => ?_, fun looks d result h => ?_⟩
  · rw [getPageText, show (entry.list showId).partId = showId entry.part from rfl, hid] at h
    obtain ⟨e, found, looks, later', hfound, h⟩ := h.of_look (resultLook_total _)
    obtain ⟨hsound', hgrown⟩ := PdfRun.mining_grown hvalid hstart (reach.trans later) later'
    obtain ⟨row, hrow, hfact⟩ := hlists.results hpage hsound' hgrown .extract
    obtain rfl : some row = found := hrow ▸ Except.ok.inj hfound
    obtain ⟨text, hcontent, hget⟩ := (hfact hsole).text
    refine ⟨text, ?_, hcontent ▸ hfact hsole⟩
    simp only [hget, ofExcept] at h
    exact h.of_ret
  · rw [getPageAnnotationTool, show (entry.list showId).partId = showId entry.part from rfl, hid] at h
    obtain ⟨e, found, looks, later', hfound, h⟩ := h.of_look (resultLook_total _)
    obtain ⟨hsound', hgrown⟩ := PdfRun.mining_grown hvalid hstart (reach.trans later) later'
    obtain ⟨row, hrow, hfact⟩ := hlists.results hpage hsound' hgrown ResultKind.annotation
    obtain rfl : some row = found := hrow ▸ Except.ok.inj hfound
    exact ⟨row.content, h.of_ret, hfact hsole⟩

theorem listed_page_answers_retried : ∃ c looks pages, ∃ listed ∈ pages,
    (listPages idText plainRun.execution).Within (mining plainRun.cfg).system plainRun.Admits resultLook c
      looks c (.ok pages) ∧ pages.length = 3 ∧
    ∃ page ∈ plainRun.pages, listed.pageNumber = some page.number ∧
      (∀ looks d result, (getPageText quoted partOf plainRun.execution listed.partId).Within
        (mining plainRun.cfg).system plainRun.Admits resultLook c looks d result →
          ∃ text, result = .ok (.found ⟨listed.partId, .str text⟩) ∧
            PageFact plainRun.cfg page .extract (.obj [("result", .str text)])) ∧
      ∀ looks d result, (getPageAnnotationTool quoted partOf plainRun.execution listed.partId).Within
        (mining plainRun.cfg).system plainRun.Admits resultLook c looks d result →
          ∃ content, result = .ok (.found ⟨listed.partId, content⟩) ∧
            PageFact plainRun.cfg page ResultKind.annotation content := by
  obtain ⟨c, _, _, h⟩ := plainRun_retried
  obtain ⟨first, unlabelled, last, hentries, _⟩ := h.entries
  have hread : (listPages idText plainRun.execution).Within (mining plainRun.cfg).system plainRun.Admits
      resultLook c _ c _ := .await .start (.ret c _)
  have hlisted : unlabelled ∈ pageIndex c.shared.shared.results c.shared.shared.store
      plainRun.execution := by
    rw [hentries]
    simp
  refine ⟨c, _, _, _, List.mem_map_of_mem hlisted, hread, ?_, listed_page_answers quoted partOf
    plainRun_valid newMine_notStarted trivial h.reach hread (List.mem_map_of_mem hlisted)
    fun part hpart => partOf_idText (hpart.trans h.fresh)⟩
  rw [hentries]
  rfl

/-- The facts in an annotation, as dicts. -/
def Json.facts (content : Json) : List Dict :=
  match (contentGet content "facts" (.arr [])).bind iterFacts with
  | .ok facts => facts
  | .error _ => []

theorem iterFacts_dumps {α : Type} (entries : α → Dict) (facts : List α) :
    iterFacts (.arr (facts.map fun fact => .obj (entries fact))) = .ok (facts.map entries) := by
  have hmap : ∀ facts : List α,
      (facts.map fun fact => Json.obj (entries fact)).mapM asDict = .ok (facts.map entries) := by
    intro facts
    induction facts with
    | nil => rfl
    | cons fact facts ih =>
      rw [List.map_cons, List.mapM_cons, ih]
      rfl
  cases facts with
  | nil => rfl
  | cons fact facts => exact hmap (fact :: facts)

theorem PageFact.collected {cfg : MiningConfig} {page : SplitPage} {content : Json}
    (h : PageFact cfg page ResultKind.annotation content) :
    ∃ value, contentGet content "facts" (.arr []) = .ok value ∧ iterFacts value = .ok content.facts := by
  have hfacts : ∀ value facts, contentGet content "facts" (.arr []) = .ok value →
      iterFacts value = .ok facts → iterFacts value = .ok content.facts := by
    intro value facts hget hiter
    rw [Json.facts, hget]
    simp only [Except.bind, hiter]
  cases h with
  | annotated _ annotation =>
    exact ⟨_, rfl, hfacts _ _ rfl (iterFacts_dumps (fun fact : TextFact => [("subject", .str fact.subject),
      ("value", .str fact.value), ("source", .str fact.source)]) annotation.facts)⟩
  | seen _ annotation =>
    exact ⟨_, rfl, hfacts _ _ rfl (iterFacts_dumps (fun fact : Fact => [("subject", .str fact.subject),
      ("value", .str fact.value), ("evidence", .str fact.evidence.text), ("source", .str fact.source)])
      annotation.facts)⟩

/-- What a collection is made of: of each page in turn an annotation that a model gave of it. -/
structure PdfRun.Gathers (P : PdfRun) (itemKey : String) (read : PageEntry × Json) : Prop where
  itemKey : read.1.itemKey = some itemKey
  page : ∃ page ∈ P.pages, read.1.pageNumber = some page.number ∧
    PageFact P.cfg page ResultKind.annotation read.2

theorem collect_reads (hvalid : P.Valid) (hstart : P.NotStarted start) (hsole : P.sole)
    (reach : Reach (mining P.cfg).system P.Admits ⟨⟨start, []⟩, []⟩ c) {result : Except Exc (List Dict)}
    {entries : List PageEntry} (hentries : ∀ entry ∈ entries, entry.itemKey = some itemKey ∧
      ∃ page ∈ P.pages, P.Lists c.shared.shared page entry)
    (later : Reach (mining P.cfg).system P.Admits c m)
    (h : (collect showId P.execution entries).Within (mining P.cfg).system P.Admits resultLook m
      looks d result) :
    ∃ reads : List (PageEntry × Json), reads.map Prod.fst = entries ∧
      (∀ read ∈ reads, P.Gathers itemKey read) ∧
      result = .ok (reads.flatMap fun read => read.2.facts.map (tagFact showId read.1)) := by
  induction entries generalizing m looks d result with
  | nil => exact ⟨[], rfl, fun _ hread => absurd hread List.not_mem_nil, h.of_ret⟩
  | cons entry entries ih =>
    obtain ⟨hkey, page, hpage, hlists⟩ := hentries entry (List.mem_cons_self ..)
    obtain ⟨e, found, rest, step, hfound, h⟩ := h.of_look (resultLook_total _)
    obtain ⟨hsound, hgrown⟩ := PdfRun.mining_grown hvalid hstart reach (later.trans step)
    obtain ⟨row, hrow, hfact⟩ := hlists.results hpage hsound hgrown ResultKind.annotation
    obtain rfl : some row = found := hrow ▸ Except.ok.inj hfound
    obtain ⟨value, hget, hiter⟩ := (hfact hsole).collected
    have hread : ((ofExcept (iterFacts value)).bind fun facts =>
        (collect showId P.execution entries).bind fun rest =>
          .ret (facts.map (tagFact showId entry) ++ rest)).Within (mining P.cfg).system P.Admits
        resultLook e rest d result := by
      simp only [hget] at h
      exact h
    rw [hiter] at hread
    have hrest : ((collect showId P.execution entries).bind fun rest =>
        .ret (row.content.facts.map (tagFact showId entry) ++ rest)).Within (mining P.cfg).system P.Admits
        resultLook e rest d result := hread
    have hothers := fun entry hentry => hentries entry (List.mem_cons_of_mem _ hentry)
    rcases hrest.of_bind with ⟨first, f, facts, second, hcollect, hret⟩ | ⟨error, hcollect, _⟩
    · obtain ⟨reads, hreads, hgathers, heq⟩ := ih hothers (later.trans step) hcollect
      obtain rfl := Except.ok.inj heq
      refine ⟨(entry, row.content) :: reads, by rw [List.map_cons, hreads], fun read hread => ?_, hret.of_ret⟩
      rcases List.mem_cons.mp hread with rfl | hread
      · exact ⟨hkey, page, hpage, hlists.number, hfact hsole⟩
      · exact hgathers read hread
    · obtain ⟨reads, _, _, heq⟩ := ih hothers (later.trans step) hcollect
      cases heq

/-- The collection never fails, and its facts are of all pages that were listed under the key, in
their order, each with its page. -/
theorem collected_facts (hvalid : P.Valid) (hstart : P.NotStarted start) (hsole : P.sole)
    (reach : Reach (mining P.cfg).system P.Admits ⟨⟨start, []⟩, []⟩ c)
    {result : Except Exc CollectedFacts}
    (h : (collectFacts showId P.execution itemKey).Within (mining P.cfg).system P.Admits resultLook c
      looks d result) :
    ∃ m, Reach (mining P.cfg).system P.Admits c m ∧ ∃ reads : List (PageEntry × Json),
      reads.map Prod.fst = matching itemKey
        (pageIndex m.shared.shared.results m.shared.shared.store P.execution) ∧
      (∀ read ∈ reads, P.Gathers itemKey read) ∧
      result = .ok {
        itemKey
        pageNumbers := reads.map fun read => read.1.pageNumber
        facts := reads.flatMap fun read => read.2.facts.map (tagFact showId read.1) } := by
  obtain ⟨m, pages, rest, later, hpages, h⟩ := h.of_look (resultLook_total _)
  obtain rfl : pageIndex m.shared.shared.results m.shared.shared.store P.execution = pages :=
    Except.ok.inj hpages
  have hsound := (PdfRun.mining_grown hvalid hstart reach later).1
  have hentries : ∀ entry ∈ matching itemKey (pageIndex m.shared.shared.results m.shared.shared.store
      P.execution), entry.itemKey = some itemKey ∧ ∃ page ∈ P.pages, P.Lists m.shared.shared page entry := by
    intro entry hentry
    obtain ⟨hmem, hkey⟩ := List.mem_filter.mp hentry
    exact ⟨of_decide_eq_true hkey, hsound.listed hmem⟩
  refine ⟨m, later, ?_⟩
  rcases h.of_bind with ⟨first, e, facts, second, hcollect, hret⟩ | ⟨error, hcollect, _⟩
  · obtain ⟨reads, hreads, hgathers, heq⟩ := collect_reads hvalid hstart hsole (reach.trans later) hentries
      .start hcollect
    obtain rfl := Except.ok.inj heq
    refine ⟨reads, hreads, hgathers, ?_⟩
    rw [hret.of_ret, ← hreads, List.map_map]
    rfl
  · obtain ⟨reads, _, _, heq⟩ := collect_reads hvalid hstart hsole (reach.trans later) hentries
      .start hcollect
    cases heq

theorem collected_facts_retried : ∃ c looks result,
    (collectFacts idText plainRun.execution "invoice").Within (mining plainRun.cfg).system plainRun.Admits
      resultLook c looks c result ∧
    indexNumbers c.shared.shared plainRun.execution = [some 1, some 2, some 3] ∧
    ∃ m, Reach (mining plainRun.cfg).system plainRun.Admits c m ∧ ∃ reads : List (PageEntry × Json),
      reads.map Prod.fst = matching "invoice"
        (pageIndex m.shared.shared.results m.shared.shared.store plainRun.execution) ∧
      (∀ read ∈ reads, plainRun.Gathers "invoice" read) ∧
      result = .ok {
        itemKey := "invoice"
        pageNumbers := reads.map fun read => read.1.pageNumber
        facts := reads.flatMap fun read => read.2.facts.map (tagFact idText read.1) } := by
  obtain ⟨c, _, _, h⟩ := plainRun_retried
  obtain ⟨looks, result, hread⟩ := Prog.exists_within (S := (mining plainRun.cfg).system)
    (collectFacts idText plainRun.execution "invoice") plainRun.Admits resultLook c
  refine ⟨c, looks, result, hread, ?_,
    collected_facts plainRun_valid newMine_notStarted trivial h.reach hread⟩
  have hnumbers := congrArg (List.map Prod.fst) h.index
  rw [List.map_map] at hnumbers
  exact hnumbers

end Runs

end Doci
