import Doci.Custody

/-! The rows that a session sees, as one picture of the tables, and the foreign keys and marks that
every statement keeps in order there. -/

namespace Doci

open ReadCommitted

structure Rows where
  media : ObjectKey → Option MediaRow
  document : DocumentId → Option DocumentRow
  part : DocumentId × String → Option DocumentPartRow

namespace Rows

variable (r : Rows)

def Live (d : DocumentId) : Prop := ∃ row, r.document d = some row ∧ row.deletedAt = none

def Refers (d : DocumentId) (m : MediaId) : Prop :=
  (∃ row, r.document d = some row ∧ row.mediaId = m) ∨
    ∃ locator row, r.part (d, locator) = some row ∧ (row.mediaId = some m ∨ row.thumbMediaId = some m)

/-- A media row with this id, under a key of the document. -/
def Blob (d : DocumentId) (m : MediaId) : Prop :=
  ∃ k v, r.media k = some v ∧ v.id = m ∧ k.document = d

/-- `keys` are the primary keys of the media rows. The marks of a document that `marking` holds of
may be ahead of its own. -/
structure Whole (keys : MediaId → Option ObjectKey) (marking : DocumentId → Prop) : Prop where
  keyed : ∀ k v, r.media k = some v → keys v.id = some k
  refers : ∀ d m, r.Refers d m → r.Blob d m
  owner : ∀ d locator row, r.part (d, locator) = some row → (r.document d).isSome
  live : ∀ d, r.Live d → ¬ marking d → ∀ k v, k.document = d → r.media k = some v → v.deletedAt = none
  paired : ∀ k v, r.media k = some v → v.purgeAfter.isSome → v.deletedAt.isSome

/-- What calls of session `a` other than a sweep make of the rows: none is lost, and no document
but its own becomes live. -/
structure Grows (a : Session) (r' : Rows) : Prop where
  media : ∀ k v, r.media k = some v → ∃ v', r'.media k = some v' ∧ v'.id = v.id
  refers : ∀ d m, r.Refers d m → r'.Refers d m
  live : ∀ d, r'.Live d → r.Live d ∨ d = a

end Rows

section Rows

variable {r r' : Rows} {keys keys' : MediaId → Option ObjectKey} {marking marking' : DocumentId → Prop}
  {a : Session} {d : DocumentId} {locator : String} {m : MediaId}

theorem Rows.Grows.refl (a : Session) (r : Rows) : r.Grows a r :=
  ⟨fun _ v hv => ⟨v, hv, rfl⟩, fun _ _ h => h, fun _ h => .inl h⟩

theorem Rows.Grows.trans {r'' : Rows} (h : r.Grows a r') (h' : r'.Grows a r'') : r.Grows a r'' := by
  refine ⟨fun k v hv => ?_, fun d m hd => h'.refers d m (h.refers d m hd), fun d hd => ?_⟩
  · obtain ⟨v', hv', hid⟩ := h.media k v hv
    obtain ⟨v'', hv'', hid'⟩ := h'.media k v' hv'
    exact ⟨v'', hv'', hid'.trans hid⟩
  · rcases h'.live d hd with hd | hd
    · exact h.live d hd
    · exact .inr hd

theorem Rows.Grows.blob (h : r.Grows a r') (hblob : r.Blob d m) : r'.Blob d m := by
  obtain ⟨k, v, hv, rfl, hk⟩ := hblob
  obtain ⟨v', hv', hid⟩ := h.media k v hv
  exact ⟨k, v', hv', hid, hk⟩

/-- The media row of a blob is the one its primary key leads to. -/
theorem Rows.Whole.key_of_blob (h : r.Whole keys marking) (hblob : r.Blob d m) :
    ∃ k, keys m = some k ∧ k.document = d := by
  obtain ⟨k, v, hv, rfl, hk⟩ := hblob
  exact ⟨k, h.keyed k v hv, hk⟩

theorem Rows.Whole.rekeyed (h : r.Whole keys marking)
    (hkeys : ∀ k v, r.media k = some v → keys' v.id = keys v.id) : r.Whole keys' marking :=
  ⟨fun k v hv => (hkeys k v hv).trans (h.keyed k v hv), h.refers, h.owner, h.live, h.paired⟩

theorem Rows.Whole.media_updated (h : r.Whole keys marking) {media : ObjectKey → Option MediaRow}
    {g : ObjectKey → MediaRow → MediaRow} (hmedia : ∀ k, media k = (r.media k).map (g k))
    (hid : ∀ k v, (g k v).id = v.id)
    (hmark : ∀ k v, r.media k = some v → (g k v).deletedAt = v.deletedAt ∧
      (g k v).purgeAfter = v.purgeAfter ∨
      marking' k.document ∧ (g k v).deletedAt.isSome)
    (himp : ∀ d, marking d → marking' d) :
    Rows.Whole { r with media := media } keys marking' ∧ r.Grows a { r with media := media } := by
  have hback : ∀ k v', media k = some v' → ∃ v, r.media k = some v ∧ g k v = v' := by
    intro k v' hv'
    rw [hmedia k] at hv'
    exact Option.map_eq_some_iff.mp hv'
  have hforth : ∀ k v, r.media k = some v → media k = some (g k v) := by
    intro k v hv
    rw [hmedia k, hv, Option.map_some]
  refine ⟨⟨fun k v' hv' => ?_, fun d m hd => ?_, h.owner, fun d hlive hnot k v' hk hv' => ?_,
    fun k v' hv' hpurge => ?_⟩, fun k v hv => ⟨g k v, hforth k v hv, hid k v⟩, fun _ _ hd => hd,
    fun _ hd => .inl hd⟩
  · obtain ⟨v, hv, rfl⟩ := hback k v' hv'
    rw [hid]
    exact h.keyed k v hv
  · obtain ⟨k, v, hv, rfl, hk⟩ := h.refers d m hd
    exact ⟨k, g k v, hforth k v hv, hid k v, hk⟩
  · obtain ⟨v, hv, rfl⟩ := hback k v' hv'
    rcases hmark k v hv with ⟨hsame, _⟩ | ⟨hmarking, _⟩
    · rw [hsame]
      exact h.live d hlive (fun hd => hnot (himp d hd)) k v hk hv
    · exact absurd (hk ▸ hmarking) hnot
  · obtain ⟨v, hv, rfl⟩ := hback k v' hv'
    rcases hmark k v hv with ⟨hdeleted, hsame⟩ | ⟨_, hdeleted⟩
    · rw [hdeleted]
      exact h.paired k v hv (hsame ▸ hpurge)
    · exact hdeleted

theorem Rows.Whole.media_inserted (h : r.Whole keys marking) (keys' : MediaId → Option ObjectKey)
    {key : ObjectKey} {v : MediaRow} (hnone : r.media key = none) (hlive : v.deletedAt = none) (hpurge : v.purgeAfter = none)
    (hkey : keys' v.id = some key) (hkeys : ∀ k w, r.media k = some w → keys' w.id = keys w.id) :
    Rows.Whole { r with media := fun k => if k = key then some v else r.media k } keys' marking ∧
      r.Grows a { r with media := fun k => if k = key then some v else r.media k } := by
  have hforth : ∀ k w, r.media k = some w → (if k = key then some v else r.media k) = some w := by
    intro k w hw
    rw [if_neg, hw]
    rintro rfl
    cases hnone.symm.trans hw
  refine ⟨⟨fun k w hw => ?_, fun d m hd => ?_, h.owner, fun d hd hnot k w hk hw => ?_,
    fun k w hw hmark => ?_⟩, fun k w hw => ⟨w, hforth k w hw, rfl⟩, fun _ _ hd => hd,
    fun _ hd => .inl hd⟩
  · dsimp only at hw
    split_ifs at hw with heq
    · obtain rfl := Option.some.inj hw
      exact heq ▸ hkey
    · exact (hkeys k w hw).trans (h.keyed k w hw)
  · obtain ⟨k, w, hw, rfl, hk⟩ := h.refers d m hd
    exact ⟨k, w, hforth k w hw, rfl, hk⟩
  · dsimp only at hw
    split_ifs at hw with heq
    · obtain rfl := Option.some.inj hw
      exact hlive
    · exact h.live d hd hnot k w hk hw
  · dsimp only at hw
    split_ifs at hw with heq
    · obtain rfl := Option.some.inj hw
      rw [hpurge] at hmark
      cases hmark
    · exact h.paired k w hw hmark

theorem Rows.Whole.document_updated (h : r.Whole keys marking)
    {document : DocumentId → Option DocumentRow} {g : DocumentId → DocumentRow → DocumentRow}
    (hdocument : ∀ d, document d = (r.document d).map (g d))
    (hmedia : ∀ d row, (g d row).mediaId = row.mediaId)
    (hmark : ∀ d row, (g d row).deletedAt = none → row.deletedAt = none)
    (hdone : ∀ d row, r.document d = some row → marking d → ¬ marking' d → (g d row).deletedAt ≠ none) :
    Rows.Whole { r with document := document } keys marking' ∧
      r.Grows a { r with document := document } := by
  have hback : ∀ d row', document d = some row' → ∃ row, r.document d = some row ∧ g d row = row' := by
    intro d row' hrow'
    rw [hdocument d] at hrow'
    exact Option.map_eq_some_iff.mp hrow'
  have hlive : ∀ d, Rows.Live { r with document := document } d → r.Live d := by
    rintro d ⟨row', hrow', hdeleted⟩
    obtain ⟨row, hrow, rfl⟩ := hback d row' hrow'
    exact ⟨row, hrow, hmark d row hdeleted⟩
  refine ⟨⟨h.keyed, fun d m hd => ?_, fun d locator row hrow => ?_, fun d hd hnot k v hk hv => ?_,
    h.paired⟩, fun k v hv => ⟨v, hv, rfl⟩, fun d m hd => ?_, fun d hd => .inl (hlive d hd)⟩
  · rcases hd with ⟨row', hrow', hm⟩ | hd
    · obtain ⟨row, hrow, rfl⟩ := hback d row' hrow'
      exact h.refers d m (.inl ⟨row, hrow, (hmedia d row).symm.trans hm⟩)
    · exact h.refers d m (.inr hd)
  · have howner := h.owner d locator row hrow
    show (document d).isSome = true
    rwa [hdocument d, Option.isSome_map]
  · refine h.live d (hlive d hd) (fun hmarking => ?_) k v hk hv
    obtain ⟨row', hrow', hdeleted⟩ := hd
    obtain ⟨row, hrow, rfl⟩ := hback d row' hrow'
    exact hdone d row hrow hmarking hnot hdeleted
  · rcases hd with ⟨row, hrow, hm⟩ | hd
    · refine .inl ⟨g d row, ?_, (hmedia d row).trans hm⟩
      show document d = some (g d row)
      rw [hdocument d, hrow, Option.map_some]
    · exact .inr hd

theorem Rows.Whole.document_inserted (h : r.Whole keys marking) (row : DocumentRow)
    (hnone : r.document d = none) (hblob : r.Blob d row.mediaId)
    (hlive : ∀ k v, k.document = d → r.media k = some v → v.deletedAt = none) :
    Rows.Whole { r with document := fun e => if e = d then some row else r.document e } keys marking ∧
      r.Grows d { r with document := fun e => if e = d then some row else r.document e } := by
  refine ⟨⟨h.keyed, fun e m he => ?_, fun e locator part hpart => ?_, fun e he hnot k v hk hv => ?_,
    h.paired⟩, fun k v hv => ⟨v, hv, rfl⟩, fun e m he => ?_, fun e he => ?_⟩
  · rcases he with ⟨row', hrow', rfl⟩ | he
    · dsimp only at hrow'
      split_ifs at hrow' with heq
      · obtain rfl := Option.some.inj hrow'
        exact heq ▸ hblob
      · exact h.refers e _ (.inl ⟨row', hrow', rfl⟩)
    · exact h.refers e m (.inr he)
  · have howner := h.owner e locator part hpart
    dsimp only
    split_ifs
    · rfl
    · exact howner
  · by_cases heq : e = d
    · exact hlive k v (hk.trans heq) hv
    · obtain ⟨row', hrow', hdeleted⟩ := he
      dsimp only at hrow'
      rw [if_neg heq] at hrow'
      exact h.live e ⟨row', hrow', hdeleted⟩ hnot k v hk hv
  · rcases he with ⟨row', hrow', hm⟩ | he
    · refine .inl ⟨row', ?_, hm⟩
      have hne : e ≠ d := by
        rintro rfl
        cases hnone.symm.trans hrow'
      exact (if_neg hne).trans hrow'
    · exact .inr he
  · by_cases heq : e = d
    · exact .inr heq
    · obtain ⟨row', hrow', hdeleted⟩ := he
      exact .inl ⟨row', (if_neg heq).symm.trans hrow', hdeleted⟩

/-- A part is written that refers at least to the blobs that it referred to. -/
theorem Rows.Whole.part_written (h : r.Whole keys marking) {row : DocumentPartRow}
    (howner : (r.document d).isSome)
    (hblob : ∀ m, row.mediaId = some m ∨ row.thumbMediaId = some m → r.Blob d m)
    (hkept : ∀ old m, r.part (d, locator) = some old →
      old.mediaId = some m ∨ old.thumbMediaId = some m → row.mediaId = some m ∨ row.thumbMediaId = some m) :
    Rows.Whole { r with part := fun k => if k = (d, locator) then some row else r.part k } keys marking ∧
      r.Grows a { r with part := fun k => if k = (d, locator) then some row else r.part k } := by
  refine ⟨⟨h.keyed, fun e m he => ?_, fun e place part hpart => ?_, h.live, h.paired⟩,
    fun k v hv => ⟨v, hv, rfl⟩, fun e m he => ?_, fun _ he => .inl he⟩
  · rcases he with he | ⟨place, part, hpart, hm⟩
    · exact h.refers e m (.inl he)
    · dsimp only at hpart
      split_ifs at hpart with heq
      · obtain rfl := Option.some.inj hpart
        exact (Prod.mk.inj heq).1 ▸ hblob m hm
      · exact h.refers e m (.inr ⟨place, part, hpart, hm⟩)
  · dsimp only at hpart
    split_ifs at hpart with heq
    · exact (Prod.mk.inj heq).1 ▸ howner
    · exact h.owner e place part hpart
  · rcases he with he | ⟨place, part, hpart, hm⟩
    · exact .inl he
    · by_cases heq : (e, place) = (d, locator)
      · obtain ⟨rfl, rfl⟩ := Prod.mk.inj heq
        exact .inr ⟨_, row, if_pos rfl, hkept part m hpart hm⟩
      · exact .inr ⟨place, part, (if_neg heq).trans hpart, hm⟩

/-- `DELETE FROM media`: documents and parts go with their blobs, a part without its thumbnail
stays. -/
def Rows.without (r : Rows) (ids : List MediaId) : Rows where
  media := fun k => (r.media k).filter fun v => ¬ ids.contains v.id
  document := fun d => (r.document d).filter fun row => ¬ ids.contains row.mediaId
  part := fun k => (r.part k).bind fun row =>
    if (r.document k.1).any (fun row => ids.contains row.mediaId) || row.mediaId.any ids.contains then none
    else if row.thumbMediaId.any ids.contains then some { row with thumbMediaId := none }
    else some row

theorem Rows.without_media {ids : List MediaId} {k : ObjectKey} {v : MediaRow} :
    (r.without ids).media k = some v ↔ r.media k = some v ∧ v.id ∉ ids := by
  simp [without, Option.filter_eq_some_iff]

theorem Rows.without_document {ids : List MediaId} {row : DocumentRow} :
    (r.without ids).document d = some row ↔ r.document d = some row ∧ row.mediaId ∉ ids := by
  simp [without, Option.filter_eq_some_iff]

theorem Rows.without_part {ids : List MediaId} {row : DocumentPartRow}
    (h : (r.without ids).part (d, locator) = some row) : ∃ old, r.part (d, locator) = some old ∧
      (∀ owner, r.document d = some owner → owner.mediaId ∉ ids) ∧
      row.mediaId = old.mediaId ∧ (∀ m, old.mediaId = some m → m ∉ ids) ∧
      ∀ m, row.thumbMediaId = some m → old.thumbMediaId = some m ∧ m ∉ ids := by
  obtain ⟨old, hold, hrow⟩ := Option.bind_eq_some_iff.mp h
  split_ifs at hrow with hgone hthumb
  all_goals
    obtain rfl := Option.some.inj hrow
    simp only [Bool.or_eq_true, not_or, Bool.not_eq_true, Option.any_eq_false, List.contains_eq_mem,
      decide_eq_false_iff_not] at hgone
  · exact ⟨old, hold, hgone.1, rfl, hgone.2, fun m hm => by cases hm⟩
  · simp only [Bool.not_eq_true, Option.any_eq_false, List.contains_eq_mem,
      decide_eq_false_iff_not] at hthumb
    exact ⟨old, hold, hgone.1, rfl, hgone.2, fun m hm => ⟨hm, hthumb m hm⟩⟩

theorem Rows.without_blob {ids : List MediaId} (h : r.Blob d m) (hm : m ∉ ids) :
    (r.without ids).Blob d m := by
  obtain ⟨k, v, hv, rfl, hk⟩ := h
  exact ⟨k, v, Rows.without_media.mpr ⟨hv, hm⟩, rfl, hk⟩

theorem Rows.live_of_without {ids : List MediaId} (h : (r.without ids).Live d) : r.Live d := by
  obtain ⟨row, hrow, hlive⟩ := h
  exact ⟨row, (Rows.without_document.mp hrow).1, hlive⟩

theorem Rows.Whole.without (h : r.Whole keys marking) (ids : List MediaId) :
    (r.without ids).Whole keys marking := by
  refine ⟨fun k v hv => h.keyed k v (Rows.without_media.mp hv).1, fun d m hd => ?_,
    fun d locator row hrow => ?_, fun d hd hnot k v hk hv => ?_,
    fun k v hv => h.paired k v (Rows.without_media.mp hv).1⟩
  · rcases hd with ⟨row, hrow, rfl⟩ | ⟨locator, row, hrow, hm⟩
    · obtain ⟨hrow, hkept⟩ := Rows.without_document.mp hrow
      exact Rows.without_blob (h.refers d _ (.inl ⟨row, hrow, rfl⟩)) hkept
    · obtain ⟨old, hold, _, hmedia, hkept, hthumb⟩ := Rows.without_part hrow
      rcases hm with hm | hm
      · rw [hmedia] at hm
        exact Rows.without_blob (h.refers d m (.inr ⟨locator, old, hold, .inl hm⟩)) (hkept m hm)
      · obtain ⟨hm, hkept⟩ := hthumb m hm
        exact Rows.without_blob (h.refers d m (.inr ⟨locator, old, hold, .inr hm⟩)) hkept
  · obtain ⟨old, hold, howner, _⟩ := Rows.without_part hrow
    obtain ⟨doc, hdoc⟩ := Option.isSome_iff_exists.mp (h.owner d locator old hold)
    exact Option.isSome_iff_exists.mpr ⟨doc, Rows.without_document.mpr ⟨hdoc, howner doc hdoc⟩⟩
  · exact h.live d (Rows.live_of_without hd) hnot k v hk (Rows.without_media.mp hv).1

/-- Only marked blobs are removed: what a live document refers to stays. -/
theorem Rows.Whole.without_refers (h : r.Whole keys marking) {ids : List MediaId}
    (hids : ∀ k v, r.media k = some v → v.id ∈ ids → v.deletedAt.isSome) (hlive : r.Live d)
    (hnot : ¬ marking d) (hd : r.Refers d m) : (r.without ids).Refers d m := by
  have hkept : ∀ m, r.Refers d m → m ∉ ids := by
    intro m hm hmem
    obtain ⟨k, v, hv, rfl, hk⟩ := h.refers d m hm
    have hmarked := hids k v hv hmem
    rw [h.live d hlive hnot k v hk hv] at hmarked
    cases hmarked
  rcases hd with ⟨row, hrow, rfl⟩ | ⟨locator, row, hrow, hm⟩
  · exact .inl ⟨row, Rows.without_document.mpr ⟨hrow, hkept _ (.inl ⟨row, hrow, rfl⟩)⟩, rfl⟩
  · refine .inr ⟨locator, row, ?_, hm⟩
    obtain ⟨doc, hdoc, _⟩ := hlive
    have howner := hkept doc.mediaId (.inl ⟨doc, hdoc, rfl⟩)
    have hmedia : row.mediaId.any ids.contains = false := by
      rw [Option.any_eq_false]
      intro m hm
      simpa using hkept m (.inr ⟨locator, row, hrow, .inl hm⟩)
    have hthumb : row.thumbMediaId.any ids.contains = false := by
      rw [Option.any_eq_false]
      intro m hm
      simpa using hkept m (.inr ⟨locator, row, hrow, .inr hm⟩)
    simp [Rows.without, hrow, hdoc, howner, hmedia, hthumb]

end Rows

namespace Store

def rows (s : Store) (session : Option Session) : Rows where
  media := s.media.view session
  document := s.document.view session
  part := s.part.view session

section Views

variable {s : Store} {session : Option Session} {a : Session}

theorem live_rows {d : DocumentId} : (s.rows none).Live d ↔ Doci.Live s d := by
  simp only [Rows.Live, rows, Table.view_none, Doci.Live]

theorem rows_setStatus (id : DocumentId) (status : DocumentStatus) :
    (s.setStatus session id status).rows session = { s.rows session with
      document := fun d => ((s.rows session).document d).map fun row =>
        if d = id then { row with status := status } else row } := by
  have hview := funext fun d => s.document.view_update session (fun k _ => k = id)
    (fun row => { row with status := status }) d
  simp only [rows, setStatus]
  rw [hview]

theorem rows_setPageCount (id : DocumentId) (count : Nat) :
    (s.setPageCount id count).rows none = { s.rows none with
      document := fun d => ((s.rows none).document d).map fun row =>
        if d = id then { row with pageCount := some count } else row } := by
  have hview := funext fun d => s.document.view_update none (fun k _ => k = id)
    (fun row => { row with pageCount := some count }) d
  simp only [rows, setPageCount]
  rw [hview]

theorem rows_setContent (id : MediaId) (mime : Mime) (size : Nat) :
    (s.setContent session id mime size).rows session = { s.rows session with
      media := fun k => ((s.rows session).media k).map fun row =>
        if row.id = id then { row with mimeType := some mime, sizeBytes := some size } else row } := by
  have hview := funext fun k => s.media.view_update session (fun _ row => row.id = id)
    (fun row => { row with mimeType := some mime, sizeBytes := some size }) k
  simp only [rows, setContent]
  rw [hview]

theorem rows_markMedia (blobs : List MediaId) (now : Time) (purge : Nat) :
    (s.markMedia a blobs now purge).rows (some a) = { s.rows (some a) with
      media := fun k => ((s.rows (some a)).media k).map fun row =>
        if blobs.contains row.id && row.deletedAt.isNone then
          { row with deletedAt := some now, purgeAfter := some (deadline now purge) } else row } := by
  have hview := funext fun k => s.media.view_update (some a)
    (fun _ row => (blobs.contains row.id && row.deletedAt.isNone) = true)
    (fun row => { row with deletedAt := some now, purgeAfter := some (deadline now purge) }) k
  simp only [rows, markMedia]
  rw [hview]

theorem rows_markDocuments (ids : List DocumentId) (now : Time) (purge : Nat) :
    (s.markDocuments a ids now purge).2.rows (some a) = { s.rows (some a) with
      document := fun d => ((s.rows (some a)).document d).map fun row =>
        if ids.contains d && row.deletedAt.isNone then
          { row with deletedAt := some now, purgeAfter := some (deadline now purge) } else row } := by
  have hview := funext fun d => s.document.view_update (some a)
    (fun k row => (ids.contains k && row.deletedAt.isNone) = true)
    (fun row => { row with deletedAt := some now, purgeAfter := some (deadline now purge) }) d
  simp only [rows, markDocuments]
  rw [hview]

theorem rows_deleteMedia (ids : List MediaId) :
    (s.deleteMedia ids).2.rows none = (s.rows none).without ids := by
  have hmedia := funext fun k => s.media.view_delete none (fun _ row => ids.contains row.id = true) k
  have hdocument := funext fun d => s.document.view_delete none
    (fun _ row => ids.contains row.mediaId = true) d
  have hpart : ∀ k, (s.part.rewrite none (s.cascadePart ids)).view none k =
      ((s.rows none).without ids).part k := by
    intro k
    rw [Table.view_rewrite]
    show _ = (s.part.view none k).bind _
    cases s.part.view none k with
    | none => rfl
    | some row =>
      show (s.cascadePart ids k row).getD (some row) =
        if ((s.document.view none k.1).any fun row => ids.contains row.mediaId) ||
          row.mediaId.any ids.contains then none
        else if row.thumbMediaId.any ids.contains then some { row with thumbMediaId := none }
        else some row
      unfold cascadePart cascades
      split_ifs <;> rfl
  simp only [rows, deleteMedia, Rows.without, Rows.mk.injEq]
  refine ⟨by simpa using hmedia, by simpa using hdocument, funext hpart⟩

theorem rows_commit : (s.commit a).rows none = s.rows (some a) := by
  simp only [rows, commit, Rows.mk.injEq]
  refine ⟨funext fun k => ?_, funext fun d => ?_, funext fun k => ?_⟩ <;>
    rw [Table.view_none, Table.slot_commit, Slot.committed_commit] <;> rfl

theorem rows_rollback : (s.rollback a).rows none = s.rows none := by
  simp only [rows, rollback, Rows.mk.injEq]
  refine ⟨funext fun k => ?_, funext fun d => ?_, funext fun k => ?_⟩ <;>
    rw [Table.view_none, Table.view_none, Table.slot_rollback, Slot.committed_rollback]

/-- Only the session itself sees what its statement changes before it commits. -/
theorem rows_none_of_committed {t : Store}
    (hmedia : ∀ k, (t.media.slot k).committed = (s.media.slot k).committed)
    (hdocument : ∀ d, (t.document.slot d).committed = (s.document.slot d).committed)
    (hpart : ∀ k, (t.part.slot k).committed = (s.part.slot k).committed) :
    t.rows none = s.rows none := by
  simp only [rows, Rows.mk.injEq]
  refine ⟨funext fun k => ?_, funext fun d => ?_, funext fun k => ?_⟩
  · rw [Table.view_none, Table.view_none, hmedia]
  · rw [Table.view_none, Table.view_none, hdocument]
  · rw [Table.view_none, Table.view_none, hpart]

/-- Session `a` holds a lock. -/
def Locks (s : Store) (a : Session) : Prop :=
  s.media.Locked a ∨ s.document.Locked a ∨ s.part.Locked a

theorem rows_of_unlocked (h : ¬ s.Locks a) : s.rows (some a) = s.rows none := by
  simp only [Locks, not_or] at h
  obtain ⟨hmedia, hdocument, hpart⟩ := h
  simp only [rows, Rows.mk.injEq]
  exact ⟨funext fun k => Table.view_of_unlocked hmedia k,
    funext fun d => Table.view_of_unlocked hdocument d, funext fun k => Table.view_of_unlocked hpart k⟩

end Views

end Store

end Doci
