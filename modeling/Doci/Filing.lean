import Doci.PageRuns

/-! The parts of one document: what is put for it, what may be filed as a part of it and what that
part's blob holds, and that no statement but a purge takes a part away again. -/

namespace Doci

open Coroutine ReadCommitted

/-- `files` tells which kind, page number and blob a part at a locator may have, `holds` what is
stored as the region there. -/
structure Filing where
  document : DocumentId
  put : Bytes → Prop
  recorded : Mime → Prop
  files : String → PartKind → Option Nat → ObjectKey → Prop
  holds : String → Bytes → Prop

/-- Primary keys and foreign keys point at the rows that they were made for. -/
structure KeysSound (s : Store) : Prop where
  key_lt : ∀ m k, s.mediaKey m = some k → m < s.fresh
  part_lt : ∀ p k, s.partKey p = some k → p < s.fresh
  keyed : ∀ k v, (s.media.slot k).Has v → s.mediaKey v.id = some k
  original : ∀ e row, (s.document.slot e).Has row → s.mediaKey row.mediaId = some (.original e)

/-- The columns of a part that no statement changes. -/
def DocumentPartRow.stem (row : DocumentPartRow) : PartId × PartKind × Option Nat × Option MediaId :=
  (row.id, row.kind, row.pageNumber, row.mediaId)

namespace Filing

variable (F : Filing)

structure PartsSound (s : Store) : Prop where
  row_key : ∀ place row, (s.part.slot (F.document, place)).Has row →
    s.partKey row.id = some (F.document, place)
  row_files : ∀ place row, (s.part.slot (F.document, place)).Has row →
    ∃ m key, row.mediaId = some m ∧ s.mediaKey m = some key ∧ F.files place row.kind row.pageNumber key
  inserting : ∀ place a v, (s.part.slot (F.document, place)).dirty = some (a, v) →
    (s.part.slot (F.document, place)).committed = none ∧ v.isSome

structure BlobsSound (s : Store) : Prop where
  uploaded : ∀ v, (s.media.slot (.original F.document)).Has v →
    ∀ mime, v.mimeType = some mime → F.recorded mime
  object : ∀ data, s.objects (.original F.document) = some data → F.put data
  region : ∀ place data, s.objects (.region F.document place) = some data → F.holds place data

structure Sound (s : Store) : Prop where
  keys : KeysSound s
  parts : F.PartsSound s
  blobs : F.BlobsSound s

/-- The cascade of a `DELETE FROM media` leaves the document's parts. -/
def Spares (ids : List MediaId) (s : Store) : Prop :=
  ∀ place row, (s.part.slot (F.document, place)).committed = some row →
    s.cascadePart ids (F.document, place) row ≠ some none

/-- The statement files nothing else for the document. -/
def Fits (s : Store) : DocCmd → Prop
  | .insertBlob _ key mime _ => key = .original F.document → ∀ m, mime = some m → F.recorded m
  | .insertDocument _ id media _ => s.mediaKey media = some (.original id)
  | .insertPart _ id place kind page media => id = F.document →
      ∃ key, s.mediaKey media = some key ∧ F.files place kind page key
  | .setContent _ id mime _ => s.mediaKey id = some (.original F.document) → F.recorded mime
  | .uploadObject key data => key ≠ .original F.document ∧
      ∀ place, key = .region F.document place → F.holds place data
  | .deleteMedia ids => F.Spares ids s
  | _ => True

/-- No primary key and no part of the document is lost. -/
structure Kept (s t : Store) : Prop where
  keys : KeysKept s t
  parts : ∀ place row, (s.part.slot (F.document, place)).committed = some row →
    ∃ row', (t.part.slot (F.document, place)).committed = some row' ∧ row'.stem = row.stem

end Filing

section Effects

variable {F : Filing} {s t u : Store} {c : DocCmd}

theorem Filing.Kept.refl (s : Store) : F.Kept s s := ⟨KeysKept.refl s, fun _ row h => ⟨row, h, rfl⟩⟩

theorem Filing.Kept.trans (h : F.Kept s t) (h' : F.Kept t u) : F.Kept s u := by
  refine ⟨h.keys.trans h'.keys, fun place row hrow => ?_⟩
  obtain ⟨middle, hmiddle, hstem⟩ := h.parts place row hrow
  obtain ⟨last, hlast, hstem'⟩ := h'.parts place middle hmiddle
  exact ⟨last, hlast, hstem'.trans hstem⟩

section Keys

theorem KeysSound.media_changed (h : KeysSound s) {media : Table ObjectKey Session MediaRow}
    (hrows : ∀ k v, (media.slot k).Has v → ∃ w, (s.media.slot k).Has w ∧ v.id = w.id) :
    KeysSound { s with media := media } := by
  refine ⟨h.key_lt, h.part_lt, fun k v hv => ?_, h.original⟩
  obtain ⟨w, hw, hid⟩ := hrows k v hv
  rw [hid]
  exact h.keyed k w hw

theorem KeysSound.document_changed (h : KeysSound s) {documents : Table DocumentId Session DocumentRow}
    (hrows : ∀ e row, (documents.slot e).Has row → s.mediaKey row.mediaId = some (.original e)) :
    KeysSound { s with document := documents } := ⟨h.key_lt, h.part_lt, h.keyed, hrows⟩

theorem KeysSound.insertBlob (h : KeysSound s) (session : Option Session) (key : ObjectKey)
    (mime : Option Mime) (size : Option Nat) :
    KeysSound (s.insertBlob session key mime size).2 ∧ KeysKept s (s.insertBlob session key mime size).2 ∧
      (s.insertBlob session key mime size).2.mediaKey
        (s.insertBlob session key mime size).1.row.id = some key := by
  unfold Store.insertBlob
  split
  · next row hview =>
    refine ⟨h.media_changed fun k v hv => ?_, ⟨fun _ _ hk => hk, fun _ _ hp => hp⟩,
      h.keyed key row (Slot.has_of_view hview)⟩
    rcases Table.has_rewrite hv with hv | ⟨w, hw, heq⟩
    · exact ⟨v, hv, rfl⟩
    · rw [Option.ite_none_right_eq_some] at heq
      exact ⟨w, Slot.has_of_view hw, by rw [← Option.some.inj (Option.some.inj heq.2)]⟩
  · have hkeys : ∀ m k, s.mediaKey m = some k →
        (if m = s.fresh then some key else s.mediaKey m) = some k := by
      intro m k hk
      rw [if_neg (h.key_lt m k hk).ne, hk]
    refine ⟨⟨fun m k hk => ?_, fun p k hp => (h.part_lt p k hp).trans (Nat.lt_succ_self _),
      fun k v hv => ?_, fun e row hrow => hkeys _ _ (h.original e row hrow)⟩,
      ⟨hkeys, fun _ _ hp => hp⟩, if_pos rfl⟩
    · by_cases hm : m = s.fresh
      · rw [hm]
        exact Nat.lt_succ_self _
      · exact (h.key_lt m k ((if_neg hm).symm.trans hk)).trans (Nat.lt_succ_self _)
    · rcases Table.has_insert hv with hv | ⟨rfl, rfl⟩
      · exact hkeys _ _ (h.keyed k v hv)
      · exact if_pos rfl

theorem KeysSound.insertPart (h : KeysSound s) (session : Option Session) (id : DocumentId)
    (place : String) (kind : PartKind) (page : Option Nat) (media : MediaId) :
    KeysSound (s.insertPart session id place kind page media).2 ∧
      KeysKept s (s.insertPart session id place kind page media).2 := by
  unfold Store.insertPart
  split_ifs
  · exact ⟨h, KeysKept.refl s⟩
  · exact ⟨h, KeysKept.refl s⟩
  · refine ⟨⟨fun m k hk => (h.key_lt m k hk).trans (Nat.lt_succ_self _), fun p k hp => ?_, h.keyed,
      h.original⟩, ⟨fun _ _ hk => hk, fun p k hp => (if_neg (h.part_lt p k hp).ne).trans hp⟩⟩
    by_cases hp' : p = s.fresh
    · rw [hp']
      exact Nat.lt_succ_self _
    · exact (h.part_lt p k ((if_neg hp').symm.trans hp)).trans (Nat.lt_succ_self _)

/-- No new version of a row. -/
theorem KeysSound.fewer (h : KeysSound s) (hmedia : ∀ k v, (t.media.slot k).Has v → (s.media.slot k).Has v)
    (hdocument : ∀ e row, (t.document.slot e).Has row → (s.document.slot e).Has row)
    (hmediaKey : t.mediaKey = s.mediaKey) (hpartKey : t.partKey = s.partKey) (hfresh : s.fresh ≤ t.fresh) :
    KeysSound t ∧ KeysKept s t := by
  refine ⟨⟨fun m k hk => (h.key_lt m k (hmediaKey ▸ hk)).trans_le hfresh,
    fun p k hp => (h.part_lt p k (hpartKey ▸ hp)).trans_le hfresh, fun k v hv => ?_, fun e row hrow => ?_⟩,
    fun m k hk => ?_, fun p k hp => ?_⟩
  · rw [hmediaKey]
    exact h.keyed k v (hmedia k v hv)
  · rw [hmediaKey]
    exact h.original e row (hdocument e row hrow)
  · rw [hmediaKey, hk]
  · rw [hpartKey, hp]

theorem KeysSound.media_rewritten (h : KeysSound s) (session : Option Session)
    {f : ObjectKey → MediaRow → Option (Option MediaRow)}
    (hf : ∀ k v w, f k v = some (some w) → w.id = v.id) :
    KeysSound { s with media := s.media.rewrite session f } :=
  h.media_changed fun _ _ hv => has_updated MediaRow.id hf hv

theorem KeysSound.document_rewritten (h : KeysSound s) (session : Option Session)
    {f : DocumentId → DocumentRow → Option (Option DocumentRow)}
    (hf : ∀ k v w, f k v = some (some w) → w.mediaId = v.mediaId) :
    KeysSound { s with document := s.document.rewrite session f } := by
  refine h.document_changed fun e row hrow => ?_
  obtain ⟨w, hw, hmedia⟩ := has_updated DocumentRow.mediaId hf hrow
  rw [hmedia]
  exact h.original e w hw

theorem KeysSound.step (h : KeysSound s)
    (hdocument : ∀ session id media name, c = .insertDocument session id media name →
      s.mediaKey media = some (.original id)) :
    KeysSound (Store.meaning c s).2 ∧ KeysKept s (Store.meaning c s).2 := by
  have hsame : ∀ t : Store, t.mediaKey = s.mediaKey → t.partKey = s.partKey → KeysKept s t :=
    fun t hm hp => ⟨fun m k hk => by rw [hm, hk], fun p k hk => by rw [hp, hk]⟩
  cases c with
  | insertBlob session key mime size =>
    obtain ⟨hsound, hkept, _⟩ := h.insertBlob session key mime size
    exact ⟨hsound, hkept⟩
  | insertPart session id place kind page media => exact h.insertPart session id place kind page media
  | insertDocument session id media name =>
    simp only [Store.meaning, Store.insertDocument]
    split
    · exact ⟨h, KeysKept.refl s⟩
    · refine ⟨h.document_changed fun e row hrow => ?_, hsame _ rfl rfl⟩
      rcases Table.has_insert hrow with hrow | ⟨rfl, rfl⟩
      · exact h.original e row hrow
      · exact hdocument _ _ _ _ rfl
  | setPartThumb id thumb =>
    simp only [Store.meaning, Store.setPartThumb]
    split
    · exact ⟨h, KeysKept.refl s⟩
    · split_ifs
      · exact ⟨h, KeysKept.refl s⟩
      · exact ⟨⟨h.key_lt, h.part_lt, h.keyed, h.original⟩, hsame _ rfl rfl⟩
  | setContent session id mime size =>
    refine ⟨h.media_rewritten session fun k v w hw => ?_, hsame _ rfl rfl⟩
    rw [Option.ite_none_right_eq_some] at hw
    rw [← Option.some.inj (Option.some.inj hw.2)]
  | markMedia session blobs now purge =>
    refine ⟨h.media_rewritten session fun k v w hw => ?_, hsame _ rfl rfl⟩
    rw [Option.ite_none_right_eq_some] at hw
    rw [← Option.some.inj (Option.some.inj hw.2)]
  | setStatus session id status =>
    refine ⟨h.document_rewritten session fun k v w hw => ?_, hsame _ rfl rfl⟩
    rw [Option.ite_none_right_eq_some] at hw
    rw [← Option.some.inj (Option.some.inj hw.2)]
  | setPageCount id count =>
    refine ⟨h.document_rewritten none fun k v w hw => ?_, hsame _ rfl rfl⟩
    rw [Option.ite_none_right_eq_some] at hw
    rw [← Option.some.inj (Option.some.inj hw.2)]
  | markDocuments session ids now purge =>
    refine ⟨h.document_rewritten session fun k v w hw => ?_, hsame _ rfl rfl⟩
    rw [Option.ite_none_right_eq_some] at hw
    rw [← Option.some.inj (Option.some.inj hw.2)]
  | deleteMedia ids =>
    have hmedia := h.media_rewritten none
      (f := fun _ row => if ids.contains row.id then some none else none) fun k v w hw => by
        rw [Option.ite_none_right_eq_some] at hw
        cases hw.2
    have hdocuments := hmedia.document_rewritten none
      (f := fun _ row => if ids.contains row.mediaId then some none else none) fun k v w hw => by
        rw [Option.ite_none_right_eq_some] at hw
        cases hw.2
    exact ⟨⟨hdocuments.key_lt, hdocuments.part_lt, hdocuments.keyed, hdocuments.original⟩, hsame _ rfl rfl⟩
  | commit session =>
    exact h.fewer (fun k v hv => Slot.Has.commit (Table.slot_commit s.media session k ▸ hv))
      (fun e row hrow => Slot.Has.commit (Table.slot_commit s.document session e ▸ hrow)) rfl rfl le_rfl
  | rollback session =>
    exact h.fewer (fun k v hv => Slot.Has.rollback (Table.slot_rollback s.media session k ▸ hv))
      (fun e row hrow => Slot.Has.rollback (Table.slot_rollback s.document session e ▸ hrow)) rfl rfl le_rfl
  | streamObject key =>
    simp only [Store.meaning]
    split <;> exact ⟨h, KeysKept.refl s⟩
  | _ => exact h.fewer (fun _ _ hv => hv) (fun _ _ hrow => hrow) rfl rfl le_rfl

end Keys

section Parts

theorem Filing.PartsSound.carried (h : F.PartsSound s) (hkept : KeysKept s t) (hpart : t.part = s.part) :
    F.PartsSound t := by
  refine ⟨fun place row hrow => ?_, fun place row hrow => ?_, fun place a v hv => ?_⟩
  · exact hkept.part _ _ (h.row_key place row (hpart ▸ hrow))
  · obtain ⟨m, key, hm, hkey, hfiles⟩ := h.row_files place row (hpart ▸ hrow)
    exact ⟨m, key, hm, hkept.media _ _ hkey, hfiles⟩
  · rw [hpart] at hv ⊢
    exact h.inserting place a v hv

/-- Versions of the parts come from versions with the same stem. -/
theorem Filing.PartsSound.restemmed (h : F.PartsSound s)
    {parts : Table (DocumentId × String) Session DocumentPartRow}
    (hrows : ∀ place row, (parts.slot (F.document, place)).Has row →
      ∃ old, (s.part.slot (F.document, place)).Has old ∧ row.stem = old.stem)
    (hdirty : ∀ place a v, (parts.slot (F.document, place)).dirty = some (a, v) →
      (parts.slot (F.document, place)).committed = none ∧ v.isSome) :
    F.PartsSound { s with part := parts } := by
  refine ⟨fun place row hrow => ?_, fun place row hrow => ?_, hdirty⟩
  · obtain ⟨old, hold, hstem⟩ := hrows place row hrow
    obtain ⟨hid, _⟩ := Prod.mk.inj hstem
    rw [hid]
    exact h.row_key place old hold
  · obtain ⟨old, hold, hstem⟩ := hrows place row hrow
    obtain ⟨_, hrest⟩ := Prod.mk.inj hstem
    obtain ⟨hkind, hrest⟩ := Prod.mk.inj hrest
    obtain ⟨hpage, hmedia⟩ := Prod.mk.inj hrest
    rw [hkind, hpage, hmedia]
    exact h.row_files place old hold

/-- Some committed parts get new versions at once. -/
theorem Filing.PartsSound.updated (h : F.PartsSound s)
    {parts : Table (DocumentId × String) Session DocumentPartRow}
    (hslots : ∀ place, parts.slot (F.document, place) = s.part.slot (F.document, place) ∨
      ∃ old row, (s.part.slot (F.document, place)).committed = some old ∧
        parts.slot (F.document, place) = { committed := some row } ∧ row.stem = old.stem) :
    F.PartsSound { s with part := parts } ∧
      ∀ place row, (s.part.slot (F.document, place)).committed = some row →
        ∃ row', (parts.slot (F.document, place)).committed = some row' ∧ row'.stem = row.stem := by
  refine ⟨h.restemmed (fun place row hrow => ?_) fun place a v hv => ?_, fun place row hrow => ?_⟩
  · rcases hslots place with hsame | ⟨old, new, hold, hnew, hstem⟩
    · exact ⟨row, hsame ▸ hrow, rfl⟩
    · rw [hnew] at hrow
      rcases hrow with hrow | ⟨_, hrow⟩
      · obtain rfl := Option.some.inj hrow
        exact ⟨old, .inl hold, hstem⟩
      · cases hrow
  · rcases hslots place with hsame | ⟨old, new, _, hnew, _⟩
    · rw [hsame] at hv ⊢
      exact h.inserting place a v hv
    · rw [hnew] at hv
      cases hv
  · rcases hslots place with hsame | ⟨old, new, hold, hnew, hstem⟩
    · exact ⟨row, hsame ▸ hrow, rfl⟩
    · obtain rfl := Option.some.inj (hold.symm.trans hrow)
      exact ⟨new, by rw [hnew], hstem⟩

/-- Sessions see their insert of a part only where there is none yet. -/
theorem Filing.PartsSound.empty (h : F.PartsSound s) {session : Option Session} {place : String}
    (hview : (s.part.slot (F.document, place)).view session = none)
    (hfree : (s.part.slot (F.document, place)).free session = true) :
    s.part.slot (F.document, place) = {} := by
  obtain ⟨_, hempty, _⟩ | ⟨owner, _, hempty | hdirty, _⟩ :=
    Slot.insert_cases { id := 0, kind := .text, pageNumber := none, mediaId := none } hview hfree
  · exact hempty
  · exact hempty
  · exact absurd (h.inserting place owner none hdirty).2 Bool.false_ne_true

theorem Filing.PartsSound.insertPart (h : F.PartsSound s) (hkeys : KeysSound s) {session : Option Session}
    {id : DocumentId} {place : String} {kind : PartKind} {page : Option Nat} {media : MediaId}
    (hfits : F.Fits s (.insertPart session id place kind page media))
    (hfree : (s.part.slot (id, place)).free session = true) :
    F.PartsSound (s.insertPart session id place kind page media).2 ∧
      ∀ locator row, (s.part.slot (F.document, locator)).committed = some row →
        ∃ row', ((s.insertPart session id place kind page media).2.part.slot
          (F.document, locator)).committed = some row' ∧ row'.stem = row.stem := by
  have hkept := (hkeys.insertPart session id place kind page media).2
  unfold Store.insertPart at hkept ⊢
  split_ifs at hkept ⊢ with hsome hbad
  · exact ⟨h, fun _ row hrow => ⟨row, hrow, rfl⟩⟩
  · exact ⟨h, fun _ row hrow => ⟨row, hrow, rfl⟩⟩
  · have hview : (s.part.slot (id, place)).view session = none := Option.not_isSome_iff_eq_none.mp hsome
    have hempty : id = F.document → s.part.slot (F.document, place) = {} := by
      rintro rfl
      exact h.empty hview hfree
    refine ⟨⟨fun locator row hrow => ?_, fun locator row hrow => ?_, fun locator a v hv => ?_⟩,
      fun locator row hrow => ?_⟩
    · rcases Table.has_insert hrow with hrow | ⟨hplace, rfl⟩
      · exact hkept.part _ _ (h.row_key locator row hrow)
      · rw [hplace]
        exact if_pos rfl
    · rcases Table.has_insert hrow with hrow | ⟨hplace, rfl⟩
      · exact h.row_files locator row hrow
      · obtain ⟨hid, rfl⟩ := Prod.mk.inj hplace
        obtain ⟨key, hkey, hfiles⟩ := hfits hid.symm
        exact ⟨media, key, rfl, hkey, hfiles⟩
    · simp only [Table.slot_insert] at hv ⊢
      split_ifs at hv ⊢ with hplace
      · obtain ⟨hid, rfl⟩ := Prod.mk.inj hplace
        rw [← hplace, hempty hid.symm] at hv ⊢
        cases session with
        | none => cases hv
        | some owner =>
          obtain ⟨_, rfl⟩ := Prod.mk.inj (Option.some.inj hv)
          exact ⟨rfl, rfl⟩
      · exact h.inserting locator a v hv
    · simp only [Table.slot_insert]
      split_ifs with hplace
      · obtain ⟨hid, rfl⟩ := Prod.mk.inj hplace
        rw [hempty hid.symm] at hrow
        cases hrow
      · exact ⟨row, hrow, rfl⟩

theorem Filing.PartsSound.setPartThumb (h : F.PartsSound s) {id : PartId} {thumb : MediaId}
    (hfree : s.waits (.setPartThumb id thumb) = false) :
    F.PartsSound (s.setPartThumb id thumb).2 ∧
      ∀ place row, (s.part.slot (F.document, place)).committed = some row →
        ∃ row', ((s.setPartThumb id thumb).2.part.slot (F.document, place)).committed = some row' ∧
          row'.stem = row.stem := by
  unfold Store.setPartThumb
  split
  · exact ⟨h, fun _ row hrow => ⟨row, hrow, rfl⟩⟩
  · next key found hfound =>
    split_ifs
    · exact ⟨h, fun _ row hrow => ⟨row, hrow, rfl⟩⟩
    · obtain ⟨hrow, hthumb⟩ := Option.filter_eq_some_iff.mp hfound
      obtain ⟨key', hkey, hrow⟩ := Option.bind_eq_some_iff.mp hrow
      obtain ⟨row, hview, heq⟩ := Option.map_eq_some_iff.mp hrow
      obtain ⟨rfl, rfl⟩ := Prod.mk.inj heq
      obtain ⟨hview, hid⟩ := Option.filter_eq_some_iff.mp hview
      have hslot : (s.part.slot key').free none = true := by
        simp only [Store.waits, Bool.not_eq_false'] at hfree
        refine Table.free_of_freeWhere hfree hview ?_
        simp only [Bool.and_eq_true]
        exact ⟨hid, hthumb⟩
      refine h.updated fun place => ?_
      by_cases hplace : (F.document, place) = key'
      · obtain ⟨_, hcommitted, _, hwrite⟩ | ⟨owner, howner, _⟩ :=
          Slot.write_cases (some { row with thumbMediaId := some thumb }) hview hslot
        · refine .inr ⟨row, { row with thumbMediaId := some thumb }, by rw [hplace, hcommitted], ?_, rfl⟩
          have hview' : (s.part.slot key').view none = some row := hview
          rw [hplace, Table.slot_rewrite, hview', Option.bind_some, if_pos rfl]
          exact hwrite
        · cases howner
      · refine .inl ?_
        rw [Table.slot_rewrite]
        have hnone : (((s.part.slot (F.document, place)).view none).bind fun row =>
            if (F.document, place) = key' then some (some { row with thumbMediaId := some thumb })
            else none) = none := by
          simp [hplace]
        rw [hnone]

theorem Filing.PartsSound.deleteMedia (h : F.PartsSound s) {ids : List MediaId} (hspares : F.Spares ids s)
    (hfree : s.waits (.deleteMedia ids) = false) :
    F.PartsSound { s with part := s.part.rewrite none (s.cascadePart ids) } ∧
      ∀ place row, (s.part.slot (F.document, place)).committed = some row →
        ∃ row', ((s.part.rewrite none (s.cascadePart ids)).slot (F.document, place)).committed =
          some row' ∧ row'.stem = row.stem := by
  simp only [Store.waits, Bool.or_eq_false_iff, Bool.not_eq_false'] at hfree
  refine h.updated fun place => ?_
  rcases Table.rewrite_none_cases hfree.1.1.2 (fun _ _ hk => hk) (F.document, place) with
    hsame | ⟨row, w, hrow, hw, _, hnew⟩
  · exact .inl hsame
  · have hnot := hspares place row hrow
    unfold Store.cascadePart at hw hnot
    split_ifs at hw hnot
    · exact absurd rfl hnot
    · obtain rfl := Option.some.inj hw
      exact .inr ⟨row, _, hrow, hnew, rfl⟩

theorem Filing.PartsSound.commit (h : F.PartsSound s) (session : Session) :
    F.PartsSound { s with part := s.part.commit session } ∧
      ∀ place row, (s.part.slot (F.document, place)).committed = some row →
        ∃ row', ((s.part.commit session).slot (F.document, place)).committed = some row' ∧
          row'.stem = row.stem := by
  refine ⟨h.restemmed (fun place row hrow => ⟨row, ?_, rfl⟩) fun place a v hv => ?_, fun place row hrow => ?_⟩
  · rw [Table.slot_commit] at hrow
    exact hrow.commit
  · rw [Table.slot_commit] at hv ⊢
    obtain ⟨w, _, hnew⟩ | ⟨_, hsame⟩ := Slot.commit_cases session (s.part.slot (F.document, place))
    · rw [hnew] at hv
      cases hv
    · rw [hsame] at hv ⊢
      exact h.inserting place a v hv
  · rw [Table.slot_commit]
    obtain ⟨w, hdirty, _⟩ | ⟨_, hsame⟩ := Slot.commit_cases session (s.part.slot (F.document, place))
    · have hnone := (h.inserting place session w hdirty).1
      rw [hnone] at hrow
      cases hrow
    · exact ⟨row, by rw [hsame, hrow], rfl⟩

theorem Filing.PartsSound.rollback (h : F.PartsSound s) (session : Session) :
    F.PartsSound { s with part := s.part.rollback session } ∧
      ∀ place row, (s.part.slot (F.document, place)).committed = some row →
        ∃ row', ((s.part.rollback session).slot (F.document, place)).committed = some row' ∧
          row'.stem = row.stem := by
  refine ⟨h.restemmed (fun place row hrow => ⟨row, ?_, rfl⟩) fun place a v hv => ?_, fun place row hrow => ?_⟩
  · rw [Table.slot_rollback] at hrow
    exact hrow.rollback
  · rw [Table.slot_rollback, Slot.committed_rollback] at *
    exact h.inserting place a v (Slot.dirty_rollback.mp hv).1
  · rw [Table.slot_rollback, Slot.committed_rollback]
    exact ⟨row, hrow, rfl⟩

end Parts

section Blobs

theorem Filing.BlobsSound.media_changed (h : F.BlobsSound s) {media : Table ObjectKey Session MediaRow}
    (hrows : ∀ v, (media.slot (.original F.document)).Has v →
      (∃ w, (s.media.slot (.original F.document)).Has w ∧ v.mimeType = w.mimeType) ∨
        ∀ mime, v.mimeType = some mime → F.recorded mime) : F.BlobsSound { s with media := media } := by
  refine ⟨fun v hv => ?_, h.object, h.region⟩
  rcases hrows v hv with ⟨w, hw, hmime⟩ | hmime
  · rw [hmime]
    exact h.uploaded w hw
  · exact hmime

theorem Filing.BlobsSound.remarked (h : F.BlobsSound s) (session : Option Session)
    {f : ObjectKey → MediaRow → Option (Option MediaRow)}
    (hf : ∀ k v w, f k v = some (some w) → w.mimeType = v.mimeType) :
    F.BlobsSound { s with media := s.media.rewrite session f } :=
  h.media_changed fun _ hv => .inl (has_updated MediaRow.mimeType hf hv)

theorem Filing.BlobsSound.insertBlob (h : F.BlobsSound s) {session : Option Session} {key : ObjectKey}
    {mime : Option Mime} {size : Option Nat} (hfits : F.Fits s (.insertBlob session key mime size)) :
    F.BlobsSound (s.insertBlob session key mime size).2 := by
  unfold Store.insertBlob
  split
  · refine h.media_changed fun v hv => ?_
    rcases Table.has_rewrite hv with hv | ⟨w, _, heq⟩
    · exact .inl ⟨v, hv, rfl⟩
    · rw [Option.ite_none_right_eq_some] at heq
      obtain ⟨hkey, heq⟩ := heq
      obtain rfl := Option.some.inj (Option.some.inj heq)
      exact .inr (hfits hkey.symm)
  · refine ⟨fun v hv => ?_, h.object, h.region⟩
    rcases Table.has_insert hv with hv | ⟨hkey, rfl⟩
    · exact h.uploaded v hv
    · exact hfits hkey.symm

theorem Filing.BlobsSound.setContent (h : F.BlobsSound s) (hkeys : KeysSound s)
    {session : Option Session} {id : MediaId} {mime : Mime} {size : Nat}
    (hfits : F.Fits s (.setContent session id mime size)) :
    F.BlobsSound (s.setContent session id mime size) := by
  refine h.media_changed fun v hv => ?_
  rcases Table.has_rewrite hv with hv | ⟨w, hw, heq⟩
  · exact .inl ⟨v, hv, rfl⟩
  · rw [Option.ite_none_right_eq_some] at heq
    obtain ⟨hid, heq⟩ := heq
    obtain rfl := Option.some.inj (Option.some.inj heq)
    refine .inr fun m hm => ?_
    obtain rfl := Option.some.inj hm
    exact hfits (hid ▸ hkeys.keyed _ w (Slot.has_of_view hw))

theorem Filing.BlobsSound.fewer (h : F.BlobsSound s)
    (hmedia : ∀ v, (t.media.slot (.original F.document)).Has v →
      (s.media.slot (.original F.document)).Has v)
    (hobjects : ∀ key data, t.objects key = some data → key = .original F.document ∨
      (∃ place, key = .region F.document place) → s.objects key = some data) : F.BlobsSound t :=
  ⟨fun v hv => h.uploaded v (hmedia v hv),
    fun data hdata => h.object data (hobjects _ data hdata (.inl rfl)),
    fun place data hdata => h.region place data (hobjects _ data hdata (.inr ⟨place, rfl⟩))⟩

theorem Filing.BlobsSound.uploadObject (h : F.BlobsSound s) {key : ObjectKey} {data : Bytes}
    (hfits : F.Fits s (.uploadObject key data)) :
    F.BlobsSound (Store.meaning (.uploadObject key data) s).2 := by
  obtain ⟨horiginal, hregion⟩ := hfits
  refine ⟨h.uploaded, fun object hobject => ?_, fun place object hobject => ?_⟩
  · exact h.object object ((if_neg horiginal.symm).symm.trans hobject)
  · by_cases hkey : ObjectKey.region F.document place = key
    · obtain rfl := Option.some.inj ((if_pos hkey).symm.trans hobject)
      exact hregion place hkey.symm
    · exact h.region place object ((if_neg hkey).symm.trans hobject)

end Blobs

theorem Filing.PartsSound.step (h : F.PartsSound s) (hkeys : KeysSound s) (hfits : F.Fits s c)
    (hkept : KeysKept s (Store.meaning c s).2) (hfree : s.waits c = false) :
    F.PartsSound (Store.meaning c s).2 ∧
      ∀ place row, (s.part.slot (F.document, place)).committed = some row →
        ∃ row', ((Store.meaning c s).2.part.slot (F.document, place)).committed = some row' ∧
          row'.stem = row.stem := by
  have hsame : (Store.meaning c s).2.part = s.part → F.PartsSound (Store.meaning c s).2 ∧
      ∀ place row, (s.part.slot (F.document, place)).committed = some row →
        ∃ row', ((Store.meaning c s).2.part.slot (F.document, place)).committed = some row' ∧
          row'.stem = row.stem := by
    intro hpart
    refine ⟨h.carried hkept hpart, fun place row hrow => ⟨row, ?_, rfl⟩⟩
    rw [hpart, hrow]
  cases c with
  | commit session =>
    obtain ⟨hparts, hstems⟩ := h.commit session
    exact ⟨⟨hparts.row_key, hparts.row_files, hparts.inserting⟩, hstems⟩
  | rollback session =>
    obtain ⟨hparts, hstems⟩ := h.rollback session
    exact ⟨⟨hparts.row_key, hparts.row_files, hparts.inserting⟩, hstems⟩
  | insertPart session id place kind page media =>
    simp only [Store.waits, Bool.not_eq_false'] at hfree
    exact h.insertPart hkeys hfits hfree
  | setPartThumb id thumb => exact h.setPartThumb hfree
  | deleteMedia ids =>
    obtain ⟨hparts, hstems⟩ := h.deleteMedia hfits hfree
    exact ⟨⟨hparts.row_key, hparts.row_files, hparts.inserting⟩, hstems⟩
  | insertBlob session key mime size =>
    apply hsame
    simp only [Store.meaning, Store.insertBlob]
    split <;> rfl
  | insertDocument session id media name =>
    apply hsame
    simp only [Store.meaning, Store.insertDocument]
    split <;> rfl
  | streamObject key =>
    apply hsame
    simp only [Store.meaning]
    split <;> rfl
  | _ => exact hsame rfl

theorem Filing.BlobsSound.step (h : F.BlobsSound s) (hkeys : KeysSound s) (hfits : F.Fits s c) :
    F.BlobsSound (Store.meaning c s).2 := by
  have hsame : ∀ t : Store, t.media = s.media → t.objects = s.objects → F.BlobsSound t := by
    intro t hmedia hobjects
    exact h.fewer (fun v hv => hmedia ▸ hv) fun key data hdata _ => hobjects ▸ hdata
  cases c with
  | insertBlob session key mime size => exact h.insertBlob hfits
  | setContent session id mime size => exact h.setContent hkeys hfits
  | uploadObject key data => exact h.uploadObject hfits
  | markMedia session blobs now purge =>
    refine h.remarked session fun k v w hw => ?_
    rw [Option.ite_none_right_eq_some] at hw
    rw [← Option.some.inj (Option.some.inj hw.2)]
  | deleteMedia ids =>
    have hmedia := h.remarked none
      (f := fun _ row => if ids.contains row.id then some none else none) fun k v w hw => by
        rw [Option.ite_none_right_eq_some] at hw
        cases hw.2
    exact ⟨hmedia.uploaded, hmedia.object, hmedia.region⟩
  | commit session =>
    exact h.fewer (fun v hv => Slot.Has.commit (Table.slot_commit s.media session _ ▸ hv))
      fun _ _ hdata _ => hdata
  | rollback session =>
    exact h.fewer (fun v hv => Slot.Has.rollback (Table.slot_rollback s.media session _ ▸ hv))
      fun _ _ hdata _ => hdata
  | deleteObject key =>
    exact h.fewer (fun _ hv => hv) fun _ _ hdata _ => (Option.ite_none_left_eq_some.mp hdata).2
  | insertDocument session id media name =>
    simp only [Store.meaning, Store.insertDocument]
    split <;> exact hsame _ rfl rfl
  | insertPart session id place kind page media =>
    simp only [Store.meaning, Store.insertPart]
    split_ifs <;> exact hsame _ rfl rfl
  | setPartThumb id thumb =>
    simp only [Store.meaning, Store.setPartThumb]
    split
    · exact h
    · split_ifs <;> exact hsame _ rfl rfl
  | streamObject key =>
    simp only [Store.meaning]
    split <;> exact h
  | _ => exact hsame _ rfl rfl

/-- What a statement that fits the filing does. -/
theorem Filing.Sound.step (h : F.Sound s) (hfits : F.Fits s c) (hfree : s.waits c = false) :
    F.Sound (Store.meaning c s).2 ∧ F.Kept s (Store.meaning c s).2 := by
  obtain ⟨hkeys, hkept⟩ := h.keys.step (c := c) fun session id media name hc => by
    subst hc
    exact hfits
  obtain ⟨hparts, hstems⟩ := h.parts.step h.keys hfits hkept hfree
  exact ⟨⟨hkeys, hparts, h.blobs.step h.keys hfits⟩, hkept, hstems⟩

end Effects

end Doci
