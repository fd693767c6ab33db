import Doci.PurgeWindow
import Doci.Readers
import Mathlib.Data.List.Sort
import Mathlib.Data.String.Basic

/-! `DocumentService.get_view` beside other calls: the document, its parts and their blobs are read
one after the other. -/

namespace Doci

open Coroutine ReadCommitted

structure MediaView where
  media : MediaRecord
  viewUrl : String
  children : List MediaView := []

inductive ViewCmd where
  | fetchDocument (id : DocumentId)
  | parts (id : DocumentId)
  | getMany (ids : List MediaId)
  | viewUrl (key : ObjectKey)

abbrev ViewReply : ViewCmd → Type
  | .fetchDocument _ => Option DocumentRecord
  | .parts _ => List DocumentPartRecord
  | .getMany _ => MediaId → Option MediaRecord
  | .viewUrl _ => String

abbrev ViewProg (α : Type) := Prog ViewReply Exc α

/-- `ORDER BY page_number NULLS LAST, locator`. -/
def DocumentPartRecord.before (a b : DocumentPartRecord) : Bool :=
  match a.row.pageNumber, b.row.pageNumber with
  | some p, some q => p < q || p = q && a.locator ≤ b.locator
  | some _, none => true
  | none, some _ => false
  | none, none => a.locator ≤ b.locator

/-- `_parts`. -/
def Store.parts (s : Store) (id : DocumentId) : List DocumentPartRecord :=
  (((s.part.rows none).filter fun r => r.1.1 = id).map fun r =>
    { documentId := r.1.1, locator := r.1.2, row := r.2 }).insertionSort fun a b => a.before b

/-- `get_many`. -/
def Store.getMany (s : Store) (ids : List MediaId) (id : MediaId) : Option MediaRecord :=
  if id ∈ ids then s.mediaById id else none

/-- `url` is the presigned URL of a key. -/
def Store.look (url : ObjectKey → String) : (q : ViewCmd) → Store → Except Exc (ViewReply q)
  | .fetchDocument id, s => .ok (s.fetchDocument id false)
  | .parts id, s => .ok (s.parts id)
  | .getMany ids, s => .ok (s.getMany ids)
  | .viewUrl key, _ => .ok (url key)

def viewUrls : List ObjectKey → ViewProg (List String)
  | [] => return []
  | key :: keys => do
    let url ← perform (ViewCmd.viewUrl key)
    let urls ← viewUrls keys
    return url :: urls

/-- `_view`. -/
def viewOf (records : List MediaRecord) : ViewProg MediaView := do
  let urls ← viewUrls (records.map MediaRecord.objectKey)
  match records.zip urls with
  | [] => throw (.external "list index out of range")
  | (media, url) :: rest =>
    return { media, viewUrl := url, children := rest.map fun r => { media := r.1, viewUrl := r.2 } }

/-- The blobs of the parts but for the original one. -/
def pageIds (original : MediaId) (parts : List DocumentPartRecord) : List MediaId :=
  parts.filterMap fun p => p.row.mediaId.filter (· ≠ original)

def getView (id : DocumentId) : ViewProg MediaView := do
  match ← perform (ViewCmd.fetchDocument id) with
  | none => throw (.documentNotFound id)
  | some doc =>
    let parts ← perform (ViewCmd.parts id)
    let mediaIds := doc.row.mediaId :: pageIds doc.row.mediaId parts
    let byId ← perform (ViewCmd.getMany mediaIds)
    viewOf (mediaIds.filterMap byId)

def leaf (url : ObjectKey → String) (media : MediaRecord) : MediaView :=
  { media, viewUrl := url media.objectKey }

/-- What `_view` makes of the records. -/
def headed (url : ObjectKey → String) : List MediaRecord → Except Exc MediaView
  | [] => .error (.external "list index out of range")
  | media :: rest => .ok { leaf url media with children := rest.map (leaf url) }

/-- `DocumentNotFound`, or the original blob of the document as the call found it, over blobs of its
parts in page order. -/
def RightView (id : DocumentId) (looks : List (ViewCmd × Store)) : Except Exc MediaView → Prop
  | .error e => e = .documentNotFound id
  | .ok view => ∃ s₁ doc s₂, (ViewCmd.fetchDocument id, s₁) ∈ looks ∧
      s₁.fetchDocument id false = some doc ∧ view.media.row.id = doc.row.mediaId ∧
      (ViewCmd.parts id, s₂) ∈ looks ∧ ((s₂.parts id).Pairwise fun a b => a.before b) ∧
      (view.children.map fun child => child.media.row.id).Sublist
        (pageIds doc.row.mediaId (s₂.parts id))

/-- When the blobs are read, the original one is not deleted. -/
def OriginalKept (id : DocumentId) (looks : List (ViewCmd × Store)) : Prop :=
  ∀ s₁ doc ids s₃, (ViewCmd.fetchDocument id, s₁) ∈ looks → s₁.fetchDocument id false = some doc →
    (ViewCmd.getMany ids, s₃) ∈ looks → (s₃.mediaById doc.row.mediaId).isSome

section Order

variable {a b c : DocumentPartRecord} {s : Store} {id : DocumentId}

theorem before_total (a b : DocumentPartRecord) : a.before b ∨ b.before a := by
  unfold DocumentPartRecord.before
  cases a.row.pageNumber with
  | none =>
    cases b.row.pageNumber with
    | none => simpa using le_total a.locator b.locator
    | some q => exact .inr rfl
  | some p =>
    cases b.row.pageNumber with
    | none => exact .inl rfl
    | some q =>
      have hlocator := le_total a.locator b.locator
      simp only [Bool.or_eq_true, decide_eq_true_eq, Bool.and_eq_true]
      rcases Nat.lt_trichotomy p q with h | h | h
      · exact .inl (.inl h)
      · exact hlocator.imp (fun hle => .inr ⟨h, hle⟩) fun hle => .inr ⟨h.symm, hle⟩
      · exact .inr (.inl h)

theorem before_trans (h : a.before b) (h' : b.before c) : a.before c := by
  unfold DocumentPartRecord.before at *
  cases hc : c.row.pageNumber with
  | none =>
    cases ha : a.row.pageNumber with
    | some p => rfl
    | none =>
      cases hb : b.row.pageNumber with
      | some q => simp [ha, hb] at h
      | none =>
        simp only [ha, hb, hc, decide_eq_true_eq] at h h' ⊢
        exact h.trans h'
  | some r =>
    cases hb : b.row.pageNumber with
    | none => simp [hb, hc] at h'
    | some q =>
      cases ha : a.row.pageNumber with
      | none => simp [ha, hb] at h
      | some p =>
        simp only [ha, hb, hc, Bool.or_eq_true, decide_eq_true_eq, Bool.and_eq_true] at h h' ⊢
        rcases h with h | ⟨rfl, hle⟩
        · exact .inl (h'.elim h.trans fun h' => h'.1 ▸ h)
        · exact h'.imp_right fun h' => ⟨h'.1, hle.trans h'.2⟩

instance : Std.Total fun a b : DocumentPartRecord => a.before b := ⟨before_total⟩

instance : IsTrans DocumentPartRecord fun a b => a.before b := ⟨fun _ _ _ => before_trans⟩

theorem parts_ordered : (s.parts id).Pairwise fun a b => a.before b :=
  List.pairwise_insertionSort _ _

end Order

section View

variable {S : System DocReply Exc Store CallTag StoreEvent} {url : ObjectKey → String}
  {c d : Config DocReply Exc Store CallTag} {looks : List (ViewCmd × Store)} {s : Store}
  {id : DocumentId} {m : MediaId} {ids ids' : List MediaId} {parts : List DocumentPartRecord}

theorem look_total (q : ViewCmd) (s : Store) : ∃ value, Store.look url q s = .ok value := by
  cases q <;> exact ⟨_, rfl⟩

theorem viewUrls_result {keys : List ObjectKey} {result : Except Exc (List String)}
    (h : (viewUrls keys).Beside S (Store.look url) c looks d result) :
    result = .ok (keys.map url) := by
  induction keys generalizing c d looks result with
  | nil => exact h.of_ret.2
  | cons key keys ih =>
    obtain ⟨_, _, text, _, htext, hrest, _⟩ := Prog.Beside.of_look h (look_total _)
    obtain rfl : url key = text := Except.ok.inj htext
    rcases Prog.Beside.of_bind hrest with ⟨_, _, texts, _, htexts, hend, _⟩ | ⟨e, htexts, _⟩
    · obtain rfl : texts = keys.map url := Except.ok.inj (ih htexts)
      exact hend.of_ret.2
    · exact nomatch ih htexts

theorem viewUrls_uses (keys : List ObjectKey) :
    (viewUrls keys).Uses fun q => ∃ key, q = ViewCmd.viewUrl key := by
  induction keys with
  | nil => trivial
  | cons key keys ih => exact (uses_perform ⟨key, rfl⟩).bind fun _ => ih.bind fun _ => trivial

theorem viewOf_uses (records : List MediaRecord) :
    (viewOf records).Uses fun q => ∃ key, q = ViewCmd.viewUrl key := by
  refine (viewUrls_uses _).bind fun urls => ?_
  split <;> trivial

theorem children_eq (records : List MediaRecord) :
    (records.zip ((records.map MediaRecord.objectKey).map url)).map
      (fun r => ({ media := r.1, viewUrl := r.2 } : MediaView)) = records.map (leaf url) := by
  induction records with
  | nil => rfl
  | cons media records ih => exact congrArg (leaf url media :: ·) ih

theorem viewOf_result {records : List MediaRecord} {result : Except Exc MediaView}
    (h : (viewOf records).Beside S (Store.look url) c looks d result) :
    result = headed url records := by
  rcases Prog.Beside.of_bind h with ⟨_, _, urls, _, hurls, hend, _⟩ | ⟨e, hurls, _⟩
  · obtain rfl := Except.ok.inj (viewUrls_result hurls)
    cases records with
    | nil => exact hend.of_throw.2
    | cons media rest =>
      refine hend.of_ret.2.trans ?_
      rw [headed, ← children_eq]
      rfl
  · exact nomatch viewUrls_result hurls

theorem viewUrls_beside (c : Config DocReply Exc Store CallTag) (keys : List ObjectKey) :
    ∃ looks, (viewUrls keys).Beside S (Store.look url) c looks c (.ok (keys.map url)) := by
  induction keys with
  | nil => exact ⟨[], .ret c []⟩
  | cons key keys ih =>
    obtain ⟨looks, hlooks⟩ := ih
    exact ⟨_, .await .start (hlooks.settle (.ret c _))⟩

theorem viewOf_beside (c : Config DocReply Exc Store CallTag) (records : List MediaRecord) :
    ∃ looks, (viewOf records).Beside S (Store.look url) c looks c (headed url records) := by
  have hurls : ∃ looks, (viewUrls (records.map MediaRecord.objectKey)).Beside S (Store.look url) c
      looks c (.ok ((records.map MediaRecord.objectKey).map url)) := viewUrls_beside c _
  obtain ⟨looks, hlooks⟩ := hurls
  refine ⟨looks ++ [], hlooks.settle ?_⟩
  cases records with
  | nil => exact .throw c _
  | cons media rest =>
    rw [headed, ← children_eq]
    exact .ret c _

/-- A call that finds the document and reads the rest in a later state. -/
theorem getView_beside {doc : DocumentRecord} (reach : Reach S (fun _ _ => True) c d)
    (hdoc : c.shared.fetchDocument id false = some doc)
    (hids : ids = doc.row.mediaId :: pageIds doc.row.mediaId (d.shared.parts id)) :
    ∃ urls, (getView id).Beside S (Store.look url) c ((.fetchDocument id, c.shared) ::
      (.parts id, d.shared) :: (.getMany ids, d.shared) :: urls) d
      (headed url (ids.filterMap (d.shared.getMany ids))) ∧
      ∀ look ∈ urls, ∃ key, look.1 = .viewUrl key := by
  have hview : ∃ urls, (viewOf (ids.filterMap (d.shared.getMany ids))).Beside S (Store.look url) d
      urls d (headed url (ids.filterMap (d.shared.getMany ids))) := viewOf_beside d _
  obtain ⟨urls, hurls⟩ := hview
  refine ⟨urls, .await .start ?_, hurls.uses (viewOf_uses _)⟩
  simp only [Store.look, hdoc]
  subst hids
  exact .await reach (.await .start hurls)

/-- The three reads of `get_view` and what comes of them. -/
theorem getView_cases {result : Except Exc MediaView}
    (h : (getView id).Beside S (Store.look url) c looks d result) :
    (∃ s, looks = [(.fetchDocument id, s)] ∧ s.fetchDocument id false = none ∧
      result = .error (.documentNotFound id)) ∨
    ∃ s₁ s₂ s₃ doc urls ids, ids = doc.row.mediaId :: pageIds doc.row.mediaId (s₂.parts id) ∧
      looks = (.fetchDocument id, s₁) :: (.parts id, s₂) :: (.getMany ids, s₃) :: urls ∧
      (∀ look ∈ urls, ∃ key, look.1 = .viewUrl key) ∧ s₁.fetchDocument id false = some doc ∧
      result = headed url (ids.filterMap (s₃.getMany ids)) := by
  obtain ⟨s₁, _, found, _, hfound, hfetched, rfl⟩ := Prog.Beside.of_look h (look_total _)
  obtain rfl : s₁.fetchDocument id false = found := Except.ok.inj hfound
  cases hdoc : s₁.fetchDocument id false with
  | none =>
    rw [hdoc] at hfetched
    obtain ⟨rfl, rfl⟩ := hfetched.of_throw
    exact .inl ⟨s₁, rfl, hdoc, rfl⟩
  | some doc =>
    rw [hdoc] at hfetched
    obtain ⟨s₂, _, parts, _, hparts, hrest, rfl⟩ := Prog.Beside.of_look hfetched (look_total _)
    obtain rfl : s₂.parts id = parts := Except.ok.inj hparts
    obtain ⟨s₃, _, byId, urls, hbyId, hview, rfl⟩ := Prog.Beside.of_look hrest (look_total _)
    obtain rfl := Except.ok.inj hbyId
    exact .inr ⟨s₁, s₂, s₃, doc, urls, _, rfl, rfl, hview.uses (viewOf_uses _), hdoc,
      viewOf_result hview⟩

theorem mediaById_id {record : MediaRecord} (h : s.mediaById m = some record) :
    record.row.id = m := by
  obtain ⟨found, hfound, rfl⟩ := Option.map_eq_some_iff.mp h
  obtain ⟨key, _, hview⟩ := Option.bind_eq_some_iff.mp (Option.filter_eq_some_iff.mp hfound).1
  obtain ⟨row, hrow, rfl⟩ := Option.map_eq_some_iff.mp hview
  exact of_decide_eq_true (Option.filter_eq_some_iff.mp hrow).2

theorem getMany_eq (h : m ∈ ids) : s.getMany ids m = s.mediaById m := if_pos h

/-- The records are of the ids that are left, in their order. -/
theorem records_sublist (ids : List MediaId) (hsub : ids ⊆ ids') :
    ((ids.filterMap (s.getMany ids')).map fun r => r.row.id).Sublist ids := by
  induction ids with
  | nil => simp
  | cons m ids ih =>
    obtain ⟨hm, hrest⟩ := List.cons_subset.mp hsub
    rw [List.filterMap_cons, getMany_eq hm]
    cases hrecord : s.mediaById m with
    | none => exact (ih hrest).cons m
    | some record =>
      rw [List.map_cons, mediaById_id hrecord]
      exact (ih hrest).cons_cons m

theorem pageIds_ne {original : MediaId} {parts : List DocumentPartRecord}
    (h : m ∈ pageIds original parts) : m ≠ original := by
  obtain ⟨p, _, hp⟩ := List.mem_filterMap.mp h
  exact of_decide_eq_true (Option.filter_eq_some_iff.mp hp).2

theorem records_cons (hm : m ∈ ids') (ids : List MediaId) : (m :: ids).filterMap (s.getMany ids') =
    (s.mediaById m).toList ++ ids.filterMap (s.getMany ids') := by
  rw [List.filterMap_cons, getMany_eq hm]
  cases s.mediaById m <;> rfl

theorem headed_right (hids : ids = m :: pageIds m parts) {record : MediaRecord}
    (hrecord : s.mediaById m = some record) (url : ObjectKey → String) :
    ∃ view, headed url (ids.filterMap (s.getMany ids)) = .ok view ∧ view.media.row.id = m ∧
      (view.children.map fun child => child.media.row.id).Sublist (pageIds m parts) := by
  have hpages : pageIds m parts ⊆ ids := hids ▸ List.subset_cons_self _ _
  have hmem : m ∈ ids := hids ▸ List.mem_cons_self ..
  have hrecords := records_cons (s := s) hmem (pageIds m parts)
  rw [← hids, hrecord] at hrecords
  refine ⟨_, by rw [hrecords]; rfl, mediaById_id hrecord, ?_⟩
  rw [List.map_map]
  exact records_sublist _ hpages

/-- Without the original blob a page is the head, or there is none. -/
theorem headed_wrong (hids : ids = m :: pageIds m parts) (hgone : s.mediaById m = none)
    (url : ObjectKey → String) :
    match headed url (ids.filterMap (s.getMany ids)) with
    | .error e => e = .external "list index out of range"
    | .ok view => view.media.row.id ≠ m := by
  have hpages : pageIds m parts ⊆ ids := hids ▸ List.subset_cons_self _ _
  have hmem : m ∈ ids := hids ▸ List.mem_cons_self ..
  have hrecords := records_cons (s := s) hmem (pageIds m parts)
  rw [← hids, hgone] at hrecords
  rw [hrecords, Option.toList_none, List.nil_append]
  cases hrest : (pageIds m parts).filterMap (s.getMany ids) with
  | nil => rfl
  | cons record rest =>
    have hsub := (records_sublist (s := s) _ hpages).subset
    rw [hrest] at hsub
    exact pageIds_ne (hsub (List.mem_cons_self ..))

section Looks

variable {s₁ s₂ s₃ : Store} {urls : List (ViewCmd × Store)}

theorem fetched_once (hurls : ∀ look ∈ urls, ∃ key, look.1 = ViewCmd.viewUrl key)
    (h : (ViewCmd.fetchDocument id, s) ∈ (ViewCmd.fetchDocument id, s₁) ::
      (ViewCmd.parts id, s₂) :: (ViewCmd.getMany ids, s₃) :: urls) : s = s₁ := by
  simp only [List.mem_cons, Prod.mk.injEq, reduceCtorEq, false_and, false_or, true_and] at h
  refine h.resolve_right fun hs => ?_
  obtain ⟨key, hkey⟩ := hurls _ hs
  cases hkey

theorem read_once (hurls : ∀ look ∈ urls, ∃ key, look.1 = ViewCmd.viewUrl key)
    (h : (ViewCmd.getMany ids', s) ∈ (ViewCmd.fetchDocument id, s₁) ::
      (ViewCmd.parts id, s₂) :: (ViewCmd.getMany ids, s₃) :: urls) : s = s₃ := by
  simp only [List.mem_cons, Prod.mk.injEq, reduceCtorEq, false_and, false_or] at h
  refine (h.resolve_right fun hs => ?_).2
  obtain ⟨key, hkey⟩ := hurls _ hs
  cases hkey

end Looks

/-- `get_view` beside any other calls is right exactly when the original blob is not deleted by the
time the blobs are read. -/
theorem view_right_iff {cfg : MediaConfig} {result : Except Exc MediaView}
    (h : (getView id).Beside (serviceCalls cfg) (Store.look url) c looks d result) :
    RightView id looks result ↔ OriginalKept id looks := by
  rcases getView_cases h with ⟨s, rfl, hnone, rfl⟩ |
    ⟨s₁, s₂, s₃, doc, urls, ids, hids, rfl, hurls, hdoc, rfl⟩
  · simp [RightView, OriginalKept]
  · have hkept : OriginalKept id ((ViewCmd.fetchDocument id, s₁) :: (ViewCmd.parts id, s₂) ::
        (ViewCmd.getMany ids, s₃) :: urls) ↔ (s₃.mediaById doc.row.mediaId).isSome := by
      constructor
      · exact fun hall => hall s₁ doc ids s₃ (by simp) hdoc (by simp)
      · intro hsome s doc' ids' s' hs hdoc' hs'
        obtain rfl := fetched_once hurls hs
        obtain rfl := read_once hurls hs'
        obtain rfl := Option.some.inj (hdoc.symm.trans hdoc')
        exact hsome
    rw [hkept]
    cases hrecord : s₃.mediaById doc.row.mediaId with
    | some record =>
      obtain ⟨view, hview, hhead, hchildren⟩ := headed_right hids hrecord url
      rw [hview]
      simp only [Option.isSome_some, iff_true]
      exact ⟨s₁, doc, s₂, by simp, hdoc, hhead, by simp, parts_ordered, hchildren⟩
    | none =>
      have hwrong := headed_wrong hids hrecord url
      simp only [Option.isSome_none, Bool.false_eq_true, iff_false]
      cases hresult : headed url (ids.filterMap (s₃.getMany ids)) with
      | error e =>
        rw [hresult] at hwrong
        intro hright
        exact nomatch hwrong.symm.trans hright
      | ok view =>
        rw [hresult] at hwrong
        rintro ⟨s, doc', _, hs, hdoc', hhead, _⟩
        obtain rfl := fetched_once hurls hs
        obtain rfl := Option.some.inj (hdoc.symm.trans hdoc')
        exact hwrong hhead

end View

section Example

/-- The document is deleted and a first page is stored late. -/
def latePage : List (Move Exc StoreEvent) :=
  inTurn (.delete [1]) 5 ++ inTurn (.ensurePart 1 (pageLocator 1) .image [8] (some .png) (some 1)) 7

def viewedIds (s : Store) : List MediaId := 2 :: pageIds 2 (s.parts 1)

def pageAhead (c : Config DocReply Exc Store CallTag) : Bool :=
  match headed ObjectKey.text ((viewedIds c.shared).filterMap (c.shared.getMany (viewedIds c.shared))) with
  | .ok view => view.media.objectKey = .region 1 (pageLocator 1) && view.media.row.id ≠ 2
  | .error _ => false

def secondPage : List (Move Exc StoreEvent) :=
  inTurn (.ensurePart 1 (pageLocator 2) .image [10] (some .png) (some 2)) 7

/-- The original with two pages. -/
def bothPages (c : Config DocReply Exc Store CallTag) : Bool :=
  match headed ObjectKey.text ((viewedIds c.shared).filterMap (c.shared.getMany (viewedIds c.shared))) with
  | .ok view => view.media.objectKey = .original 1 && (view.children.length = 2 &&
      (c.shared.mediaById 2).isSome)
  | .error _ => false

/-- The second page is stored between the view's reads. -/
theorem original_shown : ∃ looks c view,
    (getView 1).Beside (serviceCalls plainConfig) (Store.look ObjectKey.text) ⟨pagedStore, []⟩ looks c
      (.ok view) ∧
    view.media.objectKey = .original 1 ∧ view.children.length = 2 ∧ RightView 1 looks (.ok view) := by
  have hrun : ((serviceCalls plainConfig).exec secondPage ⟨pagedStore, []⟩).any bothPages = true := by
    decide +kernel
  obtain ⟨c, hc, hpages⟩ := (Option.any_eq_true _ _).mp hrun
  have hreach : Reach (serviceCalls plainConfig) (fun _ _ => True) ⟨pagedStore, []⟩ c :=
    Reach.start.exec (fun _ _ => trivial) hc
  have hviewed : ∃ urls, (getView 1).Beside (serviceCalls plainConfig) (Store.look ObjectKey.text)
      ⟨pagedStore, []⟩ ((.fetchDocument 1, pagedStore) :: (.parts 1, c.shared) ::
        (.getMany (viewedIds c.shared), c.shared) :: urls) c
      (headed ObjectKey.text
        ((viewedIds c.shared).filterMap (c.shared.getMany (viewedIds c.shared)))) ∧
      ∀ look ∈ urls, ∃ key, look.1 = .viewUrl key := getView_beside hreach rfl rfl
  obtain ⟨urls, h, hurls⟩ := hviewed
  cases hview : headed ObjectKey.text
      ((viewedIds c.shared).filterMap (c.shared.getMany (viewedIds c.shared))) with
  | error e => simp [bothPages, hview] at hpages
  | ok view =>
    simp only [bothPages, hview, Bool.and_eq_true, decide_eq_true_eq] at hpages
    rw [hview] at h
    refine ⟨_, c, view, h, hpages.1, hpages.2.1, (view_right_iff h).mpr fun s₁ doc ids s₃ hs₁ hdoc hs₃ => ?_⟩
    obtain rfl := fetched_once hurls hs₁
    obtain rfl := read_once hurls hs₃
    cases hdoc
    exact hpages.2.2

theorem page_shown_as_head : ∃ looks c view,
    (getView 1).Beside (serviceCalls plainConfig) (Store.look ObjectKey.text) ⟨filedStore, []⟩ looks c
      (.ok view) ∧
    view.media.objectKey = .region 1 (pageLocator 1) ∧ ¬ RightView 1 looks (.ok view) := by
  have hrun : ((serviceCalls plainConfig).exec latePage ⟨filedStore, []⟩).any pageAhead = true := by
    decide +kernel
  obtain ⟨c, hc, hahead⟩ := (Option.any_eq_true _ _).mp hrun
  have hreach : Reach (serviceCalls plainConfig) (fun _ _ => True) ⟨filedStore, []⟩ c :=
    Reach.start.exec (fun _ _ => trivial) hc
  have hviewed : ∃ urls, (getView 1).Beside (serviceCalls plainConfig) (Store.look ObjectKey.text)
      ⟨filedStore, []⟩ ((.fetchDocument 1, filedStore) :: (.parts 1, c.shared) ::
        (.getMany (viewedIds c.shared), c.shared) :: urls) c
      (headed ObjectKey.text
        ((viewedIds c.shared).filterMap (c.shared.getMany (viewedIds c.shared)))) ∧
      ∀ look ∈ urls, ∃ key, look.1 = .viewUrl key := getView_beside hreach rfl rfl
  obtain ⟨urls, h, hurls⟩ := hviewed
  cases hview : headed ObjectKey.text
      ((viewedIds c.shared).filterMap (c.shared.getMany (viewedIds c.shared))) with
  | error e => simp [pageAhead, hview] at hahead
  | ok view =>
    simp only [pageAhead, hview, Bool.and_eq_true, decide_eq_true_eq] at hahead
    refine ⟨_, c, view, hview ▸ h, hahead.1, ?_⟩
    rintro ⟨s₁, doc, _, hs₁, hdoc, hhead, _⟩
    obtain rfl := fetched_once hurls hs₁
    cases hdoc
    exact hahead.2 hhead

end Example

end Doci
