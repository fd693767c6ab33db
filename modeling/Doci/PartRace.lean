import Doci.PurgeWindow

/-! Calls of `ensure_part` for one region of a document, side by side: each may upload the object,
and whatever becomes of them there is one part. -/

namespace Doci

open Coroutine ReadCommitted

inductive PartCmd where
  | store (c : DocCmd)
  | answer (part : DocumentPartRecord)

abbrev PartReply : PartCmd → Type
  | .store c => DocReply c
  | .answer _ => Unit

/-- The store, and the parts that calls have returned. -/
structure PartPool where
  store : Store
  answers : List DocumentPartRecord := []

def PartPool.meaning : (c : PartCmd) → PartPool → Except Exc (PartReply c) × PartPool
  | .store c, p => ((Store.meaning c p.store).1, { p with store := (Store.meaning c p.store).2 })
  | .answer part, p => (.ok (), { p with answers := part :: p.answers })

def PartPool.admits : PartCmd → PartPool → Fate Exc → Bool
  | .store c, p, fate => Store.admits c p.store fate
  | .answer _, _, fate => fate = .done

/-- What a call is given besides the document and the locator. -/
structure PartRequest where
  kind : PartKind
  data : Bytes
  mime : Option Mime
  page : Option Nat

inductive PartEvent where
  | call (request : PartRequest)
  | tick (duration : Time)

section Pool

variable (document : DocumentId) (locator : String)

def PartRequest.run (request : PartRequest) (session : Session) : DocProg DocumentPartRecord :=
  ensurePart session document locator request.kind request.data request.mime request.page

def PartRequest.prog (request : PartRequest) (session : Session) : Prog PartReply Exc Unit :=
  ((request.run document locator session).expand
      fun c => (perform (PartCmd.store c) : Prog PartReply Exc (DocReply c))).bind
    fun part => perform (PartCmd.answer part)

def partEvent (p : PartPool) :
    PartEvent → Option (PartPool × List (Thread PartReply Exc Session))
  | .call request => some ({ p with store := { p.store with fresh := p.store.fresh + 1 } },
      [⟨p.store.fresh, request.prog document locator p.store.fresh⟩])
  | .tick duration =>
    some ({ p with store := { p.store with now := p.store.now + duration } }, [])

/-- Calls of `ensure_part` for the region; one that dies is rolled back. -/
def partCalls : System PartReply Exc PartPool Session PartEvent where
  meaning := PartPool.meaning
  admits := PartPool.admits
  env := fun e p => partEvent document locator p e
  exit := fun _ _ => []
  death := fun session p => { p with store := p.store.rollback session }

/-- The slot of the region's blob. -/
def Store.blob (s : Store) : Slot Session MediaRow := s.media.slot (.region document locator)

def Store.piece (s : Store) : Slot Session DocumentPartRow := s.part.slot (document, locator)

def Store.Uploaded (s : Store) : Prop := (s.objects (.region document locator)).isSome

/-- What holds of the region at all times. A session that inserts the part has written the blob
that it refers to. -/
structure PartSound (s : Store) : Prop where
  uploaded : ∀ v, (s.blob document locator).Has v → s.Uploaded document locator
  same_id : ∀ v v' t, (s.blob document locator).committed = some v →
    (s.blob document locator).dirty = some (t, some v') → v'.id = v.id
  written : ∀ t, (s.blob document locator).dirty ≠ some (t, none)
  part_written : ∀ t, (s.piece document locator).dirty ≠ some (t, none)
  part_lt : ∀ t v, (s.piece document locator).dirty = some (t, v) → t < s.fresh
  refers : ∀ row, (s.piece document locator).committed = some row →
    ∃ v, (s.blob document locator).committed = some v ∧ row.mediaId = some v.id
  inserting : ∀ t row, (s.piece document locator).dirty = some (t, some row) →
    (s.piece document locator).committed = none ∧
      ∃ v, (s.blob document locator).dirty = some (t, some v) ∧ row.mediaId = some v.id

/-- What session `a` relies on: the object and the part stay, and nobody touches its locks. -/
structure PartRely (a : Session) (s t : Store) : Prop where
  uploaded : s.Uploaded document locator → t.Uploaded document locator
  filed : ∀ row, (s.piece document locator).committed = some row →
    (t.piece document locator).committed = some row
  blob_lock : ∀ v, (s.blob document locator).dirty = some (a, v) →
    (t.blob document locator).dirty = some (a, v)
  part_lock : ∀ v, (t.piece document locator).dirty = some (a, v) ↔
    (s.piece document locator).dirty = some (a, v)

def PartGuar (a : Session) (s t : Store) : Prop := ∀ b, b ≠ a → PartRely document locator b s t

end Pool

section Effects

variable {document : DocumentId} {locator : String} {a b : Session} {s t u : Store}

theorem PartRely.refl (a : Session) (s : Store) : PartRely document locator a s s :=
  ⟨fun h => h, fun _ h => h, fun _ h => h, fun _ => Iff.rfl⟩

theorem PartRely.trans (h : PartRely document locator a s t) (h' : PartRely document locator a t u) :
    PartRely document locator a s u :=
  ⟨fun hs => h'.uploaded (h.uploaded hs), fun row hrow => h'.filed row (h.filed row hrow),
    fun v hv => h'.blob_lock v (h.blob_lock v hv), fun v => (h'.part_lock v).trans (h.part_lock v)⟩

/-- Nothing that concerns the region changes. -/
structure SameRegion (document : DocumentId) (locator : String) (s t : Store) : Prop where
  blob : t.blob document locator = s.blob document locator
  piece : t.piece document locator = s.piece document locator
  uploaded : s.Uploaded document locator → t.Uploaded document locator
  fresh : s.fresh ≤ t.fresh

theorem SameRegion.sound (hsame : SameRegion document locator s t)
    (h : PartSound document locator s) : PartSound document locator t := by
  have hblob := hsame.blob
  have hpiece := hsame.piece
  refine ⟨fun v hv => hsame.uploaded (h.uploaded v (hblob ▸ hv)), ?_, ?_, ?_, fun t v hv => ?_, ?_, ?_⟩
  · rw [hblob]
    exact h.same_id
  · rw [hblob]
    exact h.written
  · rw [hpiece]
    exact h.part_written
  · exact (h.part_lt t v (hpiece ▸ hv)).trans_le hsame.fresh
  · rw [hblob, hpiece]
    exact h.refers
  · rw [hblob, hpiece]
    exact h.inserting

theorem SameRegion.rely (hsame : SameRegion document locator s t) (a : Session) :
    PartRely document locator a s t :=
  ⟨hsame.uploaded, fun _ h => hsame.piece ▸ h, fun _ h => hsame.blob ▸ h,
    fun _ => by rw [hsame.piece]⟩

theorem SameRegion.refl (s : Store) : SameRegion document locator s s :=
  ⟨rfl, rfl, fun h => h, le_rfl⟩

theorem SameRegion.upload (data : Bytes) :
    SameRegion document locator s
      (Store.meaning (.uploadObject (.region document locator) data) s).2 :=
  ⟨rfl, rfl, fun _ => by simp [Store.meaning, Store.Uploaded], le_rfl⟩

/-- The upsert leaves a row of its session with the id that it returns. -/
theorem insertBlob_blob (mime : Option Mime) (size : Option Nat)
    (h : PartSound document locator s)
    (hfree : (s.media.slot (.region document locator)).free (some a) = true) :
    ∃ v, (s.insertBlob (some a) (.region document locator) mime size).1.row.id = v.id ∧
      (s.insertBlob (some a) (.region document locator) mime size).2.blob document locator =
        { committed := (s.blob document locator).committed, dirty := some (a, some v) } ∧
      ∀ u, (s.blob document locator).committed = some u → v.id = u.id := by
  unfold Store.insertBlob
  split
  · next row hview =>
    have hview : (s.media.slot (.region document locator)).view (some a) = some row := hview
    let v : MediaRow := { row with mimeType := mime, sizeBytes := size }
    refine ⟨v, rfl, ?_, fun u hu => ?_⟩
    · show (s.media.rewrite (some a) _).slot (.region document locator) = _
      rw [Table.slot_rewrite, hview, Option.bind_some, if_pos rfl]
      rfl
    · obtain ⟨_, _⟩ | ⟨owner, howner, _, ⟨_, hrow⟩ | hrow⟩ := Slot.write_cases none hview hfree
      · contradiction
      · have hid : row.id = u.id := congrArg MediaRow.id (Option.some.inj (hrow.symm.trans hu))
        exact hid
      · exact h.same_id u row owner hu hrow
  · next hview =>
    have hview : (s.media.slot (.region document locator)).view (some a) = none := hview
    let v : MediaRow := { id := s.fresh, mimeType := mime, sizeBytes := size }
    refine ⟨v, rfl, ?_, fun u hu => ?_⟩
    · show (s.media.insert (some a) (.region document locator) v).slot (.region document locator) = _
      rw [Table.slot_insert, if_pos rfl]
      rfl
    · obtain ⟨_, _⟩ | ⟨owner, _, hempty | hdirty, _⟩ := Slot.insert_cases v hview hfree
      · contradiction
      · simp [Store.blob, hempty] at hu
      · exact absurd hdirty (h.written owner)

/-- The effect of the upsert on everything else. -/
theorem insertBlob_rest (a : Session) (s : Store) (key : ObjectKey) (mime : Option Mime)
    (size : Option Nat) :
    (s.insertBlob (some a) key mime size).2.part = s.part ∧
      (s.insertBlob (some a) key mime size).2.objects = s.objects ∧
      s.fresh ≤ (s.insertBlob (some a) key mime size).2.fresh := by
  unfold Store.insertBlob
  split
  · exact ⟨rfl, rfl, le_rfl⟩
  · exact ⟨rfl, rfl, Nat.le_succ _⟩

/-- Session `a` has written a version of the blob. -/
theorem PartSound.write_blob (h : PartSound document locator s) {v : MediaRow}
    (hfree : (s.blob document locator).free (some a) = true)
    (hblob : t.blob document locator =
      { committed := (s.blob document locator).committed, dirty := some (a, some v) })
    (hid : ∀ u, (s.blob document locator).committed = some u → v.id = u.id)
    (hpiece : t.piece document locator = s.piece document locator)
    (huploaded : t.Uploaded document locator) (hfresh : s.fresh ≤ t.fresh)
    (hnot : ∀ w, (s.piece document locator).dirty ≠ some (a, w)) :
    PartSound document locator t ∧ PartGuar document locator a s t := by
  have hmine : ∀ b w, (s.blob document locator).dirty = some (b, w) → b = a := by
    intro b w hdirty
    exact (Option.some.inj (Slot.free_iff.mp hfree b w hdirty)).symm
  refine ⟨⟨fun _ _ => huploaded, fun u w b hu hw => ?_, fun b hb => ?_, ?_, fun b w hw => ?_, ?_,
    fun b row hrow => ?_⟩, fun b hb => ⟨fun _ => huploaded, fun row hrow => ?_, fun w hw => ?_,
      fun w => ?_⟩⟩
  · rw [hblob] at hu hw
    obtain ⟨_, hvw⟩ := Prod.mk.inj (Option.some.inj hw)
    rw [← Option.some.inj hvw]
    exact hid u hu
  · rw [hblob] at hb
    exact nomatch (Prod.mk.inj (Option.some.inj hb)).2
  · rw [hpiece]
    exact h.part_written
  · exact (h.part_lt b w (hpiece ▸ hw)).trans_le hfresh
  · rw [hpiece, hblob]
    exact h.refers
  · rw [hpiece] at hrow
    obtain ⟨_, u, hu, _⟩ := h.inserting b row hrow
    obtain rfl := hmine b _ hu
    exact absurd hrow (hnot _)
  · rw [hpiece]
    exact hrow
  · exact absurd (hmine b w hw) hb
  · rw [hpiece]

/-- Session `a` has inserted the part beside its version of the blob. -/
theorem PartSound.write_piece (h : PartSound document locator s) {v : MediaRow}
    {row : DocumentPartRow} (hlt : a < t.fresh)
    (hempty : s.piece document locator = {})
    (hdirty : (s.blob document locator).dirty = some (a, some v)) (hrow : row.mediaId = some v.id)
    (hpiece : t.piece document locator = { dirty := some (a, some row) })
    (hblob : t.blob document locator = s.blob document locator)
    (hobjects : t.objects = s.objects) :
    PartSound document locator t ∧ PartGuar document locator a s t := by
  have huploaded : s.Uploaded document locator → t.Uploaded document locator := by
    intro hs
    rwa [Store.Uploaded, hobjects]
  refine ⟨⟨fun w hw => huploaded (h.uploaded w (hblob ▸ hw)), ?_, ?_, fun b hb => ?_,
    fun b w hw => ?_, fun r hr => ?_, fun b r hr => ?_⟩, fun b hb => ⟨huploaded, fun r hr => ?_,
      fun w hw => hblob ▸ hw, fun w => ?_⟩⟩
  · rw [hblob]
    exact h.same_id
  · rw [hblob]
    exact h.written
  · rw [hpiece] at hb
    exact nomatch (Prod.mk.inj (Option.some.inj hb)).2
  · rw [hpiece] at hw
    rwa [← (Prod.mk.inj (Option.some.inj hw)).1]
  · simp [hpiece] at hr
  · rw [hpiece] at hr ⊢
    obtain ⟨rfl, heq⟩ := Prod.mk.inj (Option.some.inj hr)
    rw [hblob, ← Option.some.inj heq]
    exact ⟨rfl, v, hdirty, hrow⟩
  · simp [hempty] at hr
  · rw [hpiece, hempty]
    constructor
    · intro hw
      exact absurd (Prod.mk.inj (Option.some.inj hw)).1.symm hb
    · exact nofun

/-- What `INSERT ... ON CONFLICT DO NOTHING` does: nothing where there is a part, else it inserts
one, or it fails. -/
theorem insertPart_cases (kind : PartKind) (page : Option Nat) {media : MediaId} {v : MediaRow}
    (h : PartSound document locator s) (hlt : a < s.fresh)
    (hfree : (s.piece document locator).free (some a) = true)
    (hnot : ∀ w, (s.piece document locator).dirty ≠ some (a, w))
    (hdirty : (s.blob document locator).dirty = some (a, some v)) (hid : media = v.id) :
    PartSound document locator (s.insertPart (some a) document locator kind page media).2 ∧
      PartGuar document locator a s (s.insertPart (some a) document locator kind page media).2 ∧
      match (s.insertPart (some a) document locator kind page media).1 with
      | .ok none => ∃ row, (s.piece document locator).committed = some row
      | .ok (some part) => part.documentId = document ∧ part.locator = locator ∧
        ((s.insertPart (some a) document locator kind page media).2.piece document locator).dirty =
          some (a, some part.row)
      | .error _ => True := by
  have hunlocked : (s.piece document locator).dirty = none := by
    cases hd : (s.piece document locator).dirty with
    | none => rfl
    | some lock =>
      obtain ⟨owner, w⟩ := lock
      have howner : a = owner := Option.some.inj (Slot.free_iff.mp hfree owner w hd)
      exact absurd (howner ▸ hd) (hnot w)
  have hview : s.part.view (some a) (document, locator) =
      (s.piece document locator).committed := by
    show (s.piece document locator).view (some a) = _
    simp [Slot.view, hunlocked]
  unfold Store.insertPart
  rw [hview]
  cases hcommitted : (s.piece document locator).committed with
  | some row =>
    have hsome : (some row).isSome = true := rfl
    rw [if_pos hsome]
    exact ⟨h, fun b _ => PartRely.refl b s, row, rfl⟩
  | none =>
    have hempty : s.piece document locator = {} := by
      cases hslot : s.piece document locator
      simp_all
    have hnone : ¬ (none : Option DocumentPartRow).isSome = true := Bool.false_ne_true
    rw [if_neg hnone]
    by_cases hbad : ((s.document.view (some a) document).isNone ||
        (s.mediaRow (some a) media).isNone) = true
    · rw [if_pos hbad]
      exact ⟨h, fun b _ => PartRely.refl b s, trivial⟩
    · rw [if_neg hbad]
      let row : DocumentPartRow :=
        { id := s.fresh, kind := kind, pageNumber := page, mediaId := some media }
      have hpiece : (s.part.insert (some a) (document, locator) row).slot (document, locator) =
          { dirty := some (a, some row) } := by
        rw [Table.slot_insert, if_pos rfl]
        show (s.piece document locator).write (some a) (some row) = _
        rw [hempty]
        rfl
      let t : Store := { s with
        part := s.part.insert (some a) (document, locator) row
        partKey := fun id => if id = s.fresh then some (document, locator) else s.partKey id
        fresh := s.fresh + 1 }
      have hwritten : PartSound document locator t ∧ PartGuar document locator a s t :=
        h.write_piece (Nat.lt_succ_of_lt hlt) hempty hdirty (congrArg some hid) hpiece rfl rfl
      exact ⟨hwritten.1, hwritten.2, rfl, rfl, congrArg Slot.dirty hpiece⟩

theorem blob_commit : (s.commit a).blob document locator = (s.blob document locator).commit a :=
  Table.slot_commit _ _ _

theorem piece_commit : (s.commit a).piece document locator = (s.piece document locator).commit a :=
  Table.slot_commit _ _ _

theorem blob_rollback :
    (s.rollback a).blob document locator = (s.blob document locator).rollback a :=
  Table.slot_rollback _ _ _

theorem piece_rollback :
    (s.rollback a).piece document locator = (s.piece document locator).rollback a :=
  Table.slot_rollback _ _ _

/-- A commit files the part together with its blob. -/
theorem PartSound.commit (h : PartSound document locator s) :
    PartSound document locator (s.commit a) ∧ PartGuar document locator a s (s.commit a) := by
  have hpart : ∀ w row, (s.piece document locator).committed = some row →
      (s.piece document locator).dirty ≠ some (a, w) := by
    intro w row hrow hdirty
    cases w with
    | none => exact h.part_written a hdirty
    | some new => exact nomatch (h.inserting a new hdirty).1.symm.trans hrow
  have hstays : ∀ row, (s.piece document locator).committed = some row →
      ((s.piece document locator).commit a).committed = some row := by
    intro row hrow
    obtain ⟨w, hdirty, _⟩ | ⟨_, hsame⟩ := Slot.commit_cases a (s.piece document locator)
    · exact absurd hdirty (hpart w row hrow)
    · rw [hsame, hrow]
  have hblob : ∀ v, (s.blob document locator).committed = some v →
      ∃ v', ((s.blob document locator).commit a).committed = some v' ∧ v'.id = v.id := by
    intro v hv
    obtain ⟨w, hdirty, hnew⟩ | ⟨_, hsame⟩ := Slot.commit_cases a (s.blob document locator)
    · cases w with
      | none => exact absurd hdirty (h.written a)
      | some v' => exact ⟨v', by rw [hnew], h.same_id v v' a hv hdirty⟩
    · exact ⟨v, by rw [hsame, hv], rfl⟩
  refine ⟨⟨fun v hv => ?_, fun v v' t hv hv' => ?_, fun t ht => ?_, fun t ht => ?_,
    fun t v hv => ?_, fun row hrow => ?_, fun t row hrow => ?_⟩, fun b hb => ⟨fun ho => ho,
      fun row hrow => ?_, fun v hv => ?_, fun v => ?_⟩⟩
  · rw [blob_commit] at hv
    exact h.uploaded v hv.commit
  · rw [blob_commit] at hv hv'
    obtain ⟨w, _, hnew⟩ | ⟨_, hsame⟩ := Slot.commit_cases a (s.blob document locator)
    · simp [hnew] at hv'
    · rw [hsame] at hv hv'
      exact h.same_id v v' t hv hv'
  · rw [blob_commit] at ht
    exact h.written t (Slot.dirty_commit.mp ht).1
  · rw [piece_commit] at ht
    exact h.part_written t (Slot.dirty_commit.mp ht).1
  · rw [piece_commit] at hv
    exact h.part_lt t v (Slot.dirty_commit.mp hv).1
  · rw [piece_commit] at hrow
    rw [blob_commit]
    obtain ⟨w, hdirty, hnew⟩ | ⟨_, hsame⟩ := Slot.commit_cases a (s.piece document locator)
    · obtain rfl : w = some row := by simpa [hnew] using hrow
      obtain ⟨_, v, hv, hid⟩ := h.inserting a row hdirty
      refine ⟨v, ?_, hid⟩
      simp [Slot.commit, hv]
    · rw [hsame] at hrow
      obtain ⟨v, hv, hid⟩ := h.refers row hrow
      obtain ⟨v', hv', hsame'⟩ := hblob v hv
      exact ⟨v', hv', hsame' ▸ hid⟩
  · rw [piece_commit] at hrow ⊢
    rw [blob_commit]
    obtain ⟨hdirty, hne⟩ := Slot.dirty_commit.mp hrow
    obtain ⟨hnone, v, hv, hid⟩ := h.inserting t row hdirty
    refine ⟨?_, v, Slot.dirty_commit.mpr ⟨hv, hne⟩, hid⟩
    obtain ⟨w, hmine, _⟩ | ⟨_, hsame⟩ := Slot.commit_cases a (s.piece document locator)
    · exact absurd (Prod.mk.inj (Option.some.inj (hdirty.symm.trans hmine))).1 hne
    · rw [hsame, hnone]
  · rw [piece_commit]
    exact hstays row hrow
  · rw [blob_commit]
    exact Slot.dirty_commit.mpr ⟨hv, hb⟩
  · rw [piece_commit, Slot.dirty_commit]
    exact and_iff_left hb

theorem PartSound.rollback (h : PartSound document locator s) :
    PartSound document locator (s.rollback a) ∧ PartGuar document locator a s (s.rollback a) := by
  refine ⟨⟨fun v hv => ?_, fun v v' t hv hv' => ?_, fun t ht => ?_, fun t ht => ?_,
    fun t v hv => ?_, fun row hrow => ?_, fun t row hrow => ?_⟩, fun b hb => ⟨fun ho => ho,
      fun row hrow => ?_, fun v hv => ?_, fun v => ?_⟩⟩
  · rw [blob_rollback] at hv
    exact h.uploaded v hv.rollback
  · rw [blob_rollback] at hv hv'
    rw [Slot.committed_rollback] at hv
    exact h.same_id v v' t hv (Slot.dirty_rollback.mp hv').1
  · rw [blob_rollback] at ht
    exact h.written t (Slot.dirty_rollback.mp ht).1
  · rw [piece_rollback] at ht
    exact h.part_written t (Slot.dirty_rollback.mp ht).1
  · rw [piece_rollback] at hv
    exact h.part_lt t v (Slot.dirty_rollback.mp hv).1
  · rw [piece_rollback, Slot.committed_rollback] at hrow
    rw [blob_rollback, Slot.committed_rollback]
    exact h.refers row hrow
  · rw [piece_rollback] at hrow ⊢
    rw [blob_rollback, Slot.committed_rollback]
    obtain ⟨hdirty, hne⟩ := Slot.dirty_rollback.mp hrow
    obtain ⟨hnone, v, hv, hid⟩ := h.inserting t row hdirty
    exact ⟨hnone, v, Slot.dirty_rollback.mpr ⟨hv, hne⟩, hid⟩
  · rw [piece_rollback, Slot.committed_rollback]
    exact hrow
  · rw [blob_rollback]
    exact Slot.dirty_rollback.mpr ⟨hv, hb⟩
  · rw [piece_rollback, Slot.dirty_rollback]
    exact and_iff_left hb

end Effects

end Doci
