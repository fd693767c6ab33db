import Doci.StoreRows
import Doci.Deletion

/-! What each statement makes of the rows when the calls run one after another. -/

namespace Doci

open Coroutine ReadCommitted

def Nobody (_ : DocumentId) : Prop := False

/-- The session sees whole rows. `adding` are documents whose blobs it has inserted without knowing
that they exist. -/
structure Store.Sound (s : Store) (session : Option Session) (marking adding : DocumentId → Prop) :
    Prop where
  whole : (s.rows session).Whole s.mediaKey marking
  media_lt : ∀ k v, (s.rows session).media k = some v → k.document < s.fresh ∨ adding k.document
  document_lt : ∀ d row, (s.rows session).document d = some row → d < s.fresh

/-- Between statements every transaction is one's own or gone: what is committed is whole. -/
structure Intact (s : Store) : Prop where
  sound : s.Sound none Nobody Nobody
  key_lt : ∀ m k, s.mediaKey m = some k → m < s.fresh
  lock_lt : ∀ a, s.Locks a → a < s.fresh

/-- The document is not live, and session `a` will not make it so. -/
def Departed (a : Session) (s : Store) (d : DocumentId) : Prop :=
  d < s.fresh ∧ d ≠ a ∧ ¬ (s.rows none).Live d

/-- What an await of session `a` may do to the committed rows and the objects. -/
structure Passed (a : Session) (s t : Store) : Prop where
  media : ∀ k v, (s.rows none).media k = some v →
    (∃ v', (t.rows none).media k = some v' ∧ v'.id = v.id) ∨ s.objects k = none ∧ t.objects k = none
  refers : ∀ d m, (s.rows none).Refers d m → (t.rows none).Refers d m ∨ Departed a s d
  live : ∀ d, (t.rows none).Live d → (s.rows none).Live d ∨ d = a
  objects : ∀ k, s.objects k ≠ none → t.objects k ≠ none ∨ Departed a s k.document
  fresh : s.fresh ≤ t.fresh

/-- Session `a` is in no transaction. -/
structure Idle (a : Session) (s : Store) : Prop where
  unlocked : ¬ s.Locks a
  lt : a < s.fresh

/-- Session `a` is in a transaction that has lost nothing so far. -/
structure Inside (a : Session) (marking adding : DocumentId → Prop) (s : Store) : Prop where
  sound : s.Sound (some a) marking adding
  grows : (s.rows none).Grows a (s.rows (some a))
  lt : a < s.fresh

/-- What a statement of session `a`, run in `session`, makes of a store: it takes no row, key or
object away, and in a transaction nobody else sees it. -/
structure Wrote (session : Option Session) (a : Session) (marking adding : DocumentId → Prop)
    (s t : Store) : Prop where
  sound : t.Sound session marking adding
  grows : (s.rows session).Grows a (t.rows session)
  keys : ∀ m k, s.mediaKey m = some k → t.mediaKey m = some k
  key_lt : (∀ m k, s.mediaKey m = some k → m < s.fresh) → ∀ m k, t.mediaKey m = some k → m < t.fresh
  fresh : s.fresh ≤ t.fresh
  objects : ∀ k, s.objects k ≠ none → t.objects k ≠ none
  locks : ∀ b, t.Locks b → s.Locks b ∨ session = some b
  unseen : ∀ b, session = some b → t.rows none = s.rows none

section Statements

variable {s t : Store} {session : Option Session} {a : Session}
  {marking marking' adding adding' : DocumentId → Prop}

theorem Passed.refl (a : Session) (s : Store) : Passed a s s :=
  ⟨fun _ v hv => .inl ⟨v, hv, rfl⟩, fun _ _ hd => .inl hd, fun _ hd => .inl hd, fun _ hk => .inl hk,
    le_rfl⟩

theorem Passed.of_grows (hgrows : (s.rows none).Grows a (t.rows none))
    (hobjects : ∀ k, s.objects k ≠ none → t.objects k ≠ none) (hfresh : s.fresh ≤ t.fresh) :
    Passed a s t :=
  ⟨fun k v hv => .inl (hgrows.media k v hv), fun d m hd => .inl (hgrows.refers d m hd), hgrows.live,
    fun k hk => .inl (hobjects k hk), hfresh⟩

theorem Store.Sound.mono (h : s.Sound session marking adding)
    (hadding : ∀ d, adding d → d < s.fresh ∨ adding' d) : s.Sound session marking adding' := by
  refine ⟨h.whole, fun k v hv => ?_, h.document_lt⟩
  rcases h.media_lt k v hv with hlt | hd
  · exact .inl hlt
  · exact hadding _ hd

theorem Wrote.refl (h : s.Sound session marking adding) : Wrote session a marking adding s s :=
  ⟨h, Rows.Grows.refl a _, fun _ _ hk => hk, fun hlt => hlt, le_rfl, fun _ hk => hk,
    fun _ hb => .inl hb, fun _ _ => rfl⟩

/-- What leaves the tables alone and removes no object. -/
theorem Store.Sound.rows_kept (h : s.Sound session marking adding)
    {objects : ObjectKey → Option Bytes} {snapshots : Session → List DocumentId} {now : Time}
    {fresh : Nat} (hobjects : ∀ k, s.objects k ≠ none → objects k ≠ none) (hfresh : s.fresh ≤ fresh) :
    Wrote session a marking adding s
      { s with objects := objects, snapshots := snapshots, now := now, fresh := fresh } :=
  ⟨⟨h.whole, fun k v hv => (h.media_lt k v hv).imp_left fun hlt => hlt.trans_le hfresh,
    fun d row hrow => (h.document_lt d row hrow).trans_le hfresh⟩, Rows.Grows.refl a _,
    fun _ _ hk => hk, fun hlt m k hm => (hlt m k hm).trans_le hfresh, hfresh, hobjects,
    fun _ hb => .inl hb, fun _ _ => rfl⟩

theorem Intact.rows_kept (h : Intact s) {objects : ObjectKey → Option Bytes} {now : Time} {fresh : Nat}
    (hfresh : s.fresh ≤ fresh) : Intact { s with objects := objects, now := now, fresh := fresh } :=
  ⟨⟨h.sound.whole, fun k v hv => (h.sound.media_lt k v hv).imp_left fun hlt => hlt.trans_le hfresh,
    fun d row hrow => (h.sound.document_lt d row hrow).trans_le hfresh⟩,
    fun m k hm => (h.key_lt m k hm).trans_le hfresh, fun b hb => (h.lock_lt b hb).trans_le hfresh⟩

theorem Store.object_kept {objects : ObjectKey → Option Bytes} {key : ObjectKey} {data : Bytes}
    (k : ObjectKey) (hk : objects k ≠ none) : (if k = key then some data else objects k) ≠ none := by
  split_ifs
  · exact Option.some_ne_none data
  · exact hk

theorem Wrote.mono (h : Wrote session a marking adding s t)
    (hadding : ∀ d, adding d → d < t.fresh ∨ adding' d) : Wrote session a marking adding' s t :=
  { h with sound := h.sound.mono hadding }

/-- Committed at once. -/
theorem Wrote.passed (h : Wrote none a Nobody Nobody s t) (hinv : Intact s) (hidle : Idle a s) :
    Intact t ∧ Passed a s t ∧ Idle a t := by
  have hlocks : ∀ b, t.Locks b → s.Locks b := by
    intro b hb
    rcases h.locks b hb with hb | hb
    · exact hb
    · cases hb
  exact ⟨⟨h.sound, h.key_lt hinv.key_lt, fun b hb => (hinv.lock_lt b (hlocks b hb)).trans_le h.fresh⟩,
    Passed.of_grows h.grows h.objects h.fresh, fun hb => hidle.unlocked (hlocks a hb),
    hidle.lt.trans_le h.fresh⟩

/-- In the transaction of session `a`. -/
theorem Wrote.inside (h : Wrote (some a) a marking' adding' s t) (hinv : Intact s)
    (hin : Inside a marking adding s) :
    Intact t ∧ Passed a s t ∧ Inside a marking' adding' t := by
  have hsame := h.unseen a rfl
  have hkeys : ∀ k v, (s.rows none).media k = some v → t.mediaKey v.id = s.mediaKey v.id := by
    intro k v hv
    have hkey := hinv.sound.whole.keyed k v hv
    rw [hkey, h.keys v.id k hkey]
  refine ⟨⟨⟨?_, ?_, ?_⟩, h.key_lt hinv.key_lt, fun b hb => ?_⟩, ?_, h.sound, ?_, hin.lt.trans_le h.fresh⟩
  · rw [hsame]
    exact hinv.sound.whole.rekeyed hkeys
  · rw [hsame]
    exact fun k v hv => (hinv.sound.media_lt k v hv).imp_left fun hlt => hlt.trans_le h.fresh
  · rw [hsame]
    exact fun d row hrow => (hinv.sound.document_lt d row hrow).trans_le h.fresh
  · rcases h.locks b hb with hb | hb
    · exact (hinv.lock_lt b hb).trans_le h.fresh
    · obtain rfl := Option.some.inj hb
      exact hin.lt.trans_le h.fresh
  · exact Passed.of_grows (hsame ▸ Rows.Grows.refl a _) h.objects h.fresh
  · rw [hsame]
    exact hin.grows.trans h.grows

/-- An `UPDATE` of documents. -/
theorem Store.Sound.documents_rewritten (h : s.Sound session marking adding)
    {f : DocumentId → DocumentRow → Option (Option DocumentRow)}
    {g : DocumentId → DocumentRow → DocumentRow}
    (hrows : Store.rows { s with document := s.document.rewrite session f } session =
      { s.rows session with document := fun d => ((s.rows session).document d).map (g d) })
    (hmedia : ∀ d row, (g d row).mediaId = row.mediaId)
    (hmark : ∀ d row, (g d row).deletedAt = none → row.deletedAt = none)
    (hdone : ∀ d row, marking d → ¬ marking' d → (g d row).deletedAt ≠ none) :
    Wrote session a marking' adding s { s with document := s.document.rewrite session f } := by
  obtain ⟨hwhole, hgrows⟩ := h.whole.document_updated (a := a) (fun _ => rfl)
    hmedia hmark fun d row _ => hdone d row
  refine ⟨⟨?_, ?_, ?_⟩, ?_, fun _ _ hk => hk, fun hlt => hlt, le_rfl, fun _ hk => hk, fun b hb => ?_,
    fun b hb => ?_⟩
  · rw [hrows]
    exact hwhole
  · rw [hrows]
    exact h.media_lt
  · rw [hrows]
    intro d row hrow
    obtain ⟨old, hold, _⟩ := Option.map_eq_some_iff.mp hrow
    exact h.document_lt d old hold
  · rw [hrows]
    exact hgrows
  · rcases hb with hb | hb | hb
    · exact .inl (.inl hb)
    · exact hb.of_rewrite.imp_left fun hb => .inr (.inl hb)
    · exact .inl (.inr (.inr hb))
  · subst hb
    exact Store.rows_none_of_committed (fun _ => rfl) (fun d => Table.committed_rewrite _ b f d)
      fun _ => rfl

/-- An `UPDATE` of media rows. -/
theorem Store.Sound.media_rewritten (h : s.Sound session marking adding)
    {f : ObjectKey → MediaRow → Option (Option MediaRow)} {g : ObjectKey → MediaRow → MediaRow}
    (hrows : Store.rows { s with media := s.media.rewrite session f } session =
      { s.rows session with media := fun k => ((s.rows session).media k).map (g k) })
    (hid : ∀ k v, (g k v).id = v.id)
    (hmark : ∀ k v, (s.rows session).media k = some v → (g k v).deletedAt = v.deletedAt ∧
      (g k v).purgeAfter = v.purgeAfter ∨ marking' k.document ∧ (g k v).deletedAt.isSome)
    (himp : ∀ d, marking d → marking' d) :
    Wrote session a marking' adding s { s with media := s.media.rewrite session f } := by
  obtain ⟨hwhole, hgrows⟩ := h.whole.media_updated (a := a) (fun _ => rfl) hid hmark himp
  refine ⟨⟨?_, ?_, ?_⟩, ?_, fun _ _ hk => hk, fun hlt => hlt, le_rfl, fun _ hk => hk, fun b hb => ?_,
    fun b hb => ?_⟩
  · rw [hrows]
    exact hwhole
  · rw [hrows]
    intro k v hv
    obtain ⟨old, hold, _⟩ := Option.map_eq_some_iff.mp hv
    exact h.media_lt k old hold
  · rw [hrows]
    exact h.document_lt
  · rw [hrows]
    exact hgrows
  · rcases hb with hb | hb | hb
    · exact hb.of_rewrite.imp_left .inl
    · exact .inl (.inr (.inl hb))
    · exact .inl (.inr (.inr hb))
  · subst hb
    exact Store.rows_none_of_committed (fun k => Table.committed_rewrite _ b f k) (fun _ => rfl)
      fun _ => rfl

theorem Store.Sound.setStatus (h : s.Sound session marking adding) (id : DocumentId)
    (status : DocumentStatus) : Wrote session a marking adding s (s.setStatus session id status) := by
  refine h.documents_rewritten (Store.rows_setStatus id status) (fun d row => ?_) (fun d row hd => ?_)
    fun d row hd hnot => absurd hd hnot
  · split_ifs <;> rfl
  · split_ifs at hd <;> exact hd

theorem Store.Sound.setPageCount (h : s.Sound none marking adding) (id : DocumentId) (count : Nat) :
    Wrote none a marking adding s (s.setPageCount id count) := by
  refine h.documents_rewritten (Store.rows_setPageCount id count) (fun d row => ?_)
    (fun d row hd => ?_) fun d row hd hnot => absurd hd hnot
  · split_ifs <;> rfl
  · split_ifs at hd <;> exact hd

theorem Store.Sound.setContent (h : s.Sound session marking adding) (id : MediaId) (mime : Mime)
    (size : Nat) : Wrote session a marking adding s (s.setContent session id mime size) := by
  refine h.media_rewritten (Store.rows_setContent id mime size) (fun k v => ?_)
    (fun k v _ => .inl ?_) fun d hd => hd
  · split_ifs <;> rfl
  · split_ifs <;> exact ⟨rfl, rfl⟩

/-- The blobs that the documents refer to are marked with them. -/
theorem Store.Sound.markMedia (h : s.Sound (some a) Nobody adding) {ids : List DocumentId}
    {blobs : List MediaId} (hblobs : ∀ m ∈ blobs, ∃ d ∈ ids, (s.rows (some a)).Refers d m)
    (now : Time) (purge : Nat) :
    Wrote (some a) a (· ∈ ids) adding s (s.markMedia a blobs now purge) := by
  refine h.media_rewritten (Store.rows_markMedia blobs now purge) (fun k v => ?_)
    (fun k v hv => ?_) fun d hd => hd.elim
  · split_ifs <;> rfl
  · split_ifs with hmarked
    · refine .inr ⟨?_, rfl⟩
      simp only [Bool.and_eq_true, List.contains_eq_mem, decide_eq_true_eq] at hmarked
      obtain ⟨d, hd, hrefers⟩ := hblobs v.id hmarked.1
      obtain ⟨key, hkey, rfl⟩ := h.whole.key_of_blob (h.whole.refers d v.id hrefers)
      obtain rfl := Option.some.inj ((h.whole.keyed k v hv).symm.trans hkey)
      exact hd
    · exact .inl ⟨rfl, rfl⟩

theorem Store.Sound.markDocuments (ids : List DocumentId)
    (h : s.Sound (some a) (· ∈ ids) adding) (now : Time) (purge : Nat) :
    Wrote (some a) a Nobody adding s (s.markDocuments a ids now purge).2 := by
  refine h.documents_rewritten (Store.rows_markDocuments ids now purge) (fun d row => ?_)
    (fun d row hd => ?_) fun d row hd _ => ?_
  · split_ifs <;> rfl
  · split_ifs at hd
    exact hd
  · have hmem : ids.contains d = true := by simpa using hd
    simp only [hmem, Bool.true_and, Option.isNone_iff_eq_none]
    split_ifs with hlive
    · simp
    · exact hlive

/-- The upsert on a row that exists. -/
theorem Store.Sound.rewrite_blob (h : s.Sound session marking adding) (key : ObjectKey)
    (mime : Option Mime) (size : Option Nat) :
    Wrote session a marking adding s
      { s with
        media := s.media.rewrite session fun k row =>
          if k = key then some (some { row with mimeType := mime, sizeBytes := size }) else none } := by
  have hview := funext fun k => s.media.view_update session (fun k _ => k = key)
    (fun row => { row with mimeType := mime, sizeBytes := size }) k
  refine h.media_rewritten (g := fun k row =>
    if k = key then { row with mimeType := mime, sizeBytes := size } else row) ?_ (fun k v => ?_)
    (fun k v _ => .inl ?_) fun d hd => hd
  · simp only [Store.rows]
    rw [hview]
  · split_ifs <;> rfl
  · split_ifs <;> exact ⟨rfl, rfl⟩

/-- The upsert of a new row. -/
theorem Store.Sound.insert_blob (h : s.Sound session marking adding)
    (hlt : ∀ m k, s.mediaKey m = some k → m < s.fresh) {key : ObjectKey}
    (hnone : (s.rows session).media key = none) (mime : Option Mime) (size : Option Nat) :
    Wrote session a marking (fun d => adding d ∨ d = key.document) s
      { s with
        media := s.media.insert session key { id := s.fresh, mimeType := mime, sizeBytes := size }
        mediaKey := fun id => if id = s.fresh then some key else s.mediaKey id
        fresh := s.fresh + 1 } := by
  have hview := funext fun k => s.media.view_insert session key k
    { id := s.fresh, mimeType := mime, sizeBytes := size }
  have hkeys : ∀ m k, s.mediaKey m = some k →
      (if m = s.fresh then some key else s.mediaKey m) = some k := by
    intro m k hm
    rw [if_neg (Nat.ne_of_lt (hlt m k hm)), hm]
  obtain ⟨hwhole, hgrows⟩ := h.whole.media_inserted (a := a)
    (v := { id := s.fresh, mimeType := mime, sizeBytes := size })
    (fun id => if id = s.fresh then some key else s.mediaKey id) hnone rfl rfl (if_pos rfl)
    fun k w hw => by
      have hkey := h.whole.keyed k w hw
      exact (hkeys w.id k hkey).trans hkey.symm
  have hrows : ∀ keys fresh, Store.rows { s with
        media := s.media.insert session key { id := s.fresh, mimeType := mime, sizeBytes := size }
        mediaKey := keys
        fresh := fresh } session = { s.rows session with
      media := fun k => if k = key then some { id := s.fresh, mimeType := mime, sizeBytes := size }
        else (s.rows session).media k } := by
    intro keys fresh
    simp only [Store.rows]
    rw [hview]
  refine ⟨⟨?_, ?_, ?_⟩, ?_, hkeys, fun _ m k hm => ?_, Nat.le_succ _, fun _ hk => hk, fun b hb => ?_,
    fun b hb => ?_⟩
  · rw [hrows]
    exact hwhole
  · rw [hrows]
    intro k v hv
    dsimp only at hv
    split_ifs at hv with hk
    · exact .inr (.inr (congrArg ObjectKey.document hk))
    · rcases h.media_lt k v hv with hk | hk
      · exact .inl (hk.trans (Nat.lt_succ_self _))
      · exact .inr (.inl hk)
  · rw [hrows]
    exact fun d row hrow => (h.document_lt d row hrow).trans (Nat.lt_succ_self _)
  · rw [hrows]
    exact hgrows
  · dsimp only at hm
    split_ifs at hm with heq
    · exact heq ▸ Nat.lt_succ_self _
    · exact (hlt m k hm).trans (Nat.lt_succ_self _)
  · rcases hb with hb | hb | hb
    · exact hb.of_insert.imp_left .inl
    · exact .inl (.inr (.inl hb))
    · exact .inl (.inr (.inr hb))
  · subst hb
    exact Store.rows_none_of_committed (fun k => Table.committed_insert _ b key k _) (fun _ => rfl)
      fun _ => rfl

theorem Store.Sound.insertBlob (h : s.Sound session marking adding)
    (hlt : ∀ m k, s.mediaKey m = some k → m < s.fresh) (key : ObjectKey) (mime : Option Mime)
    (size : Option Nat) : Wrote session a marking (fun d => adding d ∨ d = key.document) s
      (s.insertBlob session key mime size).2 := by
  unfold Store.insertBlob
  split
  · exact (h.rewrite_blob key mime size).mono fun d hd => .inr (.inl hd)
  · next hnone => exact h.insert_blob hlt hnone mime size

/-- The upsert answers with the row that it leaves. -/
theorem Store.media_insertBlob (s : Store) (session : Option Session) (key : ObjectKey)
    (mime : Option Mime) (size : Option Nat) (k : ObjectKey) :
    ((s.insertBlob session key mime size).2.rows session).media k =
      if k = key then some (s.insertBlob session key mime size).1.row else (s.rows session).media k := by
  unfold Store.insertBlob
  split
  · next row hview =>
    refine (s.media.view_update session (fun k _ => k = key)
      (fun row => { row with mimeType := mime, sizeBytes := size }) k).trans ?_
    by_cases hk : k = key
    · subst hk
      simp [hview]
    · simp [hk, Store.rows]
  · exact s.media.view_insert session key k _

theorem Store.blob_insertBlob (s : Store) (session : Option Session) (key : ObjectKey)
    (mime : Option Mime) (size : Option Nat) :
    ((s.insertBlob session key mime size).2.rows session).Blob key.document
      (s.insertBlob session key mime size).1.row.id :=
  ⟨key, _, (s.media_insertBlob session key mime size key).trans (if_pos rfl), rfl, rfl⟩

theorem Store.deletedAt_insertBlob (s : Store) {session : Option Session} {key : ObjectKey}
    (hnone : (s.rows session).media key = none) (mime : Option Mime) (size : Option Nat) :
    (s.insertBlob session key mime size).1.row.deletedAt = none := by
  have hview : s.media.view session key = none := hnone
  unfold Store.insertBlob
  rw [hview]

theorem Store.Sound.insertDocument (h : s.Sound session marking adding) {d : DocumentId}
    {media : MediaId} (hblob : (s.rows session).Blob d media)
    (hlive : ∀ k v, k.document = d → (s.rows session).media k = some v → v.deletedAt = none)
    (hlt : d < s.fresh) (name : Option String) :
    Wrote session d marking adding s (s.insertDocument session d media name).2 := by
  unfold Store.insertDocument
  split_ifs with hviolated
  · exact Wrote.refl h
  simp only [Bool.or_eq_true, not_or, Bool.not_eq_true, Option.isSome_eq_false_iff,
    Option.isNone_iff_eq_none] at hviolated
  have hview := funext fun e => s.document.view_insert session d e { mediaId := media, name := name }
  have hrows : Store.rows { s with
        document := s.document.insert session d { mediaId := media, name := name } } session =
      { s.rows session with
        document := fun e => if e = d then some { mediaId := media, name := name }
          else (s.rows session).document e } := by
    simp only [Store.rows]
    rw [hview]
  obtain ⟨hwhole, hgrows⟩ := h.whole.document_inserted
    { mediaId := media, name := name } hviolated.1 hblob hlive
  refine ⟨⟨?_, ?_, ?_⟩, ?_, fun _ _ hk => hk, fun hlt => hlt, le_rfl, fun _ hk => hk, fun b hb => ?_,
    fun b hb => ?_⟩
  · rw [hrows]
    exact hwhole
  · rw [hrows]
    exact h.media_lt
  · rw [hrows]
    intro e row hrow
    dsimp only at hrow
    split_ifs at hrow with he
    · exact he ▸ hlt
    · exact h.document_lt e row hrow
  · rw [hrows]
    exact hgrows
  · rcases hb with hb | hb | hb
    · exact .inl (.inl hb)
    · exact hb.of_insert.imp_left fun hb => .inr (.inl hb)
    · exact .inl (.inr (.inr hb))
  · subst hb
    exact Store.rows_none_of_committed (fun _ => rfl) (fun e => Table.committed_insert _ b d e _)
      fun _ => rfl

/-- A part refers at least to the blobs that it referred to. -/
theorem Store.Sound.part_changed (h : s.Sound session marking adding)
    {part : Table (DocumentId × String) Session DocumentPartRow}
    {partKey : PartId → Option (DocumentId × String)} {fresh : Nat} (d : DocumentId) (locator : String)
    (row : DocumentPartRow) (hfresh : s.fresh ≤ fresh)
    (hview : ∀ k, part.view session k = if k = (d, locator) then some row else s.part.view session k)
    (howner : ((s.rows session).document d).isSome)
    (hblob : ∀ m, row.mediaId = some m ∨ row.thumbMediaId = some m → (s.rows session).Blob d m)
    (hkept : ∀ old m, (s.rows session).part (d, locator) = some old →
      old.mediaId = some m ∨ old.thumbMediaId = some m → row.mediaId = some m ∨ row.thumbMediaId = some m)
    (hlocks : ∀ b, part.Locked b → s.part.Locked b ∨ session = some b)
    (hunseen : ∀ b, session = some b → ∀ k, (part.slot k).committed = (s.part.slot k).committed) :
    Wrote session a marking adding s { s with part := part, partKey := partKey, fresh := fresh } := by
  have hrows : Store.rows { s with part := part, partKey := partKey, fresh := fresh } session =
      { s.rows session with
        part := fun k => if k = (d, locator) then some row else (s.rows session).part k } := by
    simp only [Store.rows]
    rw [show part.view session = _ from funext hview]
  obtain ⟨hwhole, hgrows⟩ := h.whole.part_written (a := a) howner hblob hkept
  refine ⟨⟨?_, ?_, ?_⟩, ?_, fun _ _ hk => hk, fun hlt m k hm => (hlt m k hm).trans_le hfresh, hfresh,
    fun _ hk => hk, fun b hb => ?_, fun b hb => ?_⟩
  · rw [hrows]
    exact hwhole
  · rw [hrows]
    exact fun k v hv => (h.media_lt k v hv).imp_left fun hlt => hlt.trans_le hfresh
  · rw [hrows]
    exact fun e doc hdoc => (h.document_lt e doc hdoc).trans_le hfresh
  · rw [hrows]
    exact hgrows
  · rcases hb with hb | hb | hb
    · exact .inl (.inl hb)
    · exact .inl (.inr (.inl hb))
    · exact (hlocks b hb).imp_left fun hb => .inr (.inr hb)
  · subst hb
    exact Store.rows_none_of_committed (fun _ => rfl) (fun _ => rfl) (hunseen b rfl)

theorem Store.Sound.insertPart (h : s.Sound session marking adding) {d : DocumentId} {media : MediaId}
    (hblob : (s.rows session).Blob d media) (locator : String) (kind : PartKind) (page : Option Nat) :
    Wrote session a marking adding s (s.insertPart session d locator kind page media).2 := by
  unfold Store.insertPart
  split_ifs with hpart hviolated
  · exact Wrote.refl h
  · exact Wrote.refl h
  simp only [Bool.or_eq_true, not_or, Bool.not_eq_true, Option.isNone_eq_false_iff] at hviolated
  simp only [Bool.not_eq_true, Option.isSome_eq_false_iff, Option.isNone_iff_eq_none] at hpart
  refine h.part_changed d locator _ (Nat.le_succ _) (fun k => s.part.view_insert session (d, locator) k _)
    hviolated.1 (fun m hm => ?_) (fun old m hold _ => ?_) (fun b hb => hb.of_insert) fun b hb k => ?_
  · rcases hm with hm | hm
    · exact Option.some.inj hm ▸ hblob
    · cases hm
  · cases hpart.symm.trans hold
  · subst hb
    exact Table.committed_insert _ b (d, locator) k _

/-- A thumbnail of the part's own document. -/
theorem Store.Sound.setPartThumb (h : s.Sound none marking adding) {part : PartId} {thumb : MediaId}
    (hthumb : ∀ key, s.partKey part = some key → BlobOf s key.1 thumb) :
    Wrote none a marking adding s (s.setPartThumb part thumb).2 := by
  unfold Store.setPartThumb
  split
  · exact Wrote.refl h
  next key row hfound =>
  split_ifs with hviolated
  · exact Wrote.refl h
  obtain ⟨hpart, hunset⟩ := Option.filter_eq_some_iff.mp hfound
  obtain ⟨place, hplace, hrow⟩ := Option.bind_eq_some_iff.mp hpart
  obtain ⟨row', hview, heq⟩ := Option.map_eq_some_iff.mp hrow
  obtain ⟨rfl, rfl⟩ := Prod.mk.inj heq
  have hrow : s.part.view none place = some row' := (Option.filter_eq_some_iff.mp hview).1
  have hblob : (s.rows none).Blob place.1 thumb := by
    obtain ⟨found, hfound⟩ := Option.ne_none_iff_exists'.mp (mt Option.isNone_iff_eq_none.mpr hviolated)
    obtain ⟨k, hk, hmedia⟩ := Option.bind_eq_some_iff.mp hfound
    obtain ⟨v, hv, _⟩ := Option.map_eq_some_iff.mp hmedia
    obtain ⟨hv, hid⟩ := Option.filter_eq_some_iff.mp hv
    obtain ⟨k', hk', hdocument⟩ := hthumb place hplace
    obtain rfl := Option.some.inj (hk.symm.trans hk')
    exact ⟨k, v, hv, of_decide_eq_true hid, hdocument⟩
  refine h.part_changed place.1 place.2
    { row' with thumbMediaId := some thumb } le_rfl (fun k => ?_) ?_ (fun m hm => ?_)
    (fun old m hold hm => ?_) (fun b hb => hb.of_rewrite) fun b hb => by cases hb
  · refine (s.part.view_update none (fun k _ => k = place)
      (fun row => { row with thumbMediaId := some thumb }) k).trans ?_
    by_cases hk : k = place
    · subst hk
      simp [hrow]
    · simp [hk]
  · exact h.whole.owner place.1 place.2 row' hrow
  · rcases hm with hm | hm
    · exact h.whole.refers place.1 m (.inr ⟨place.2, row', hrow, .inl hm⟩)
    · exact Option.some.inj hm ▸ hblob
  · obtain rfl := Option.some.inj (hrow.symm.trans hold)
    rcases hm with hm | hm
    · exact .inl hm
    · rw [Option.isNone_iff_eq_none.mp hunset] at hm
      cases hm

theorem Store.not_locks_commit (s : Store) (a : Session) : ¬ (s.commit a).Locks a := by
  rintro (hb | hb | hb)
  · exact s.media.not_locked_commit a hb
  · exact s.document.not_locked_commit a hb
  · exact s.part.not_locked_commit a hb

theorem Store.not_locks_rollback (s : Store) (a : Session) : ¬ (s.rollback a).Locks a := by
  rintro (hb | hb | hb)
  · exact s.media.not_locked_rollback a hb
  · exact s.document.not_locked_rollback a hb
  · exact s.part.not_locked_rollback a hb

theorem Store.Locks.of_commit {b : Session} (h : (s.commit a).Locks b) : s.Locks b :=
  h.imp Table.Locked.of_commit (Or.imp Table.Locked.of_commit Table.Locked.of_commit)

theorem Store.Locks.of_rollback {b : Session} (h : (s.rollback a).Locks b) : s.Locks b :=
  h.imp Table.Locked.of_rollback (Or.imp Table.Locked.of_rollback Table.Locked.of_rollback)

/-- A transaction that ends with everything in order may commit. -/
theorem Inside.commit (h : Inside a Nobody Nobody s) (hinv : Intact s) :
    Intact (s.commit a) ∧ Passed a s (s.commit a) ∧ Idle a (s.commit a) := by
  refine ⟨⟨⟨?_, ?_, ?_⟩, hinv.key_lt, fun b hb => hinv.lock_lt b hb.of_commit⟩, ?_,
    s.not_locks_commit a, h.lt⟩
  · rw [Store.rows_commit]
    exact h.sound.whole
  · rw [Store.rows_commit]
    exact h.sound.media_lt
  · rw [Store.rows_commit]
    exact h.sound.document_lt
  · refine Passed.of_grows ?_ (fun _ hk => hk) le_rfl
    rw [Store.rows_commit]
    exact h.grows

theorem Intact.rollback (h : Intact s) (a b : Session) :
    Intact (s.rollback a) ∧ Passed b s (s.rollback a) := by
  refine ⟨⟨⟨?_, ?_, ?_⟩, h.key_lt, fun c hc => h.lock_lt c hc.of_rollback⟩,
    Passed.of_grows ?_ (fun _ hk => hk) le_rfl⟩
  · rw [Store.rows_rollback]
    exact h.sound.whole
  · rw [Store.rows_rollback]
    exact h.sound.media_lt
  · rw [Store.rows_rollback]
    exact h.sound.document_lt
  · rw [Store.rows_rollback]
    exact Rows.Grows.refl b _

theorem Idle.inside (h : Idle a s) (hinv : Intact s) : Inside a Nobody Nobody s := by
  have hrows := Store.rows_of_unlocked h.unlocked
  refine ⟨⟨?_, ?_, ?_⟩, ?_, h.lt⟩
  · rw [hrows]
    exact hinv.sound.whole
  · rw [hrows]
    exact hinv.sound.media_lt
  · rw [hrows]
    exact hinv.sound.document_lt
  · rw [hrows]
    exact Rows.Grows.refl a _

end Statements

end Doci
