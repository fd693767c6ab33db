import Doci.PartRace

/-! A call of `ensure_part` against all the others: whatever they do it returns the part that is
in the table, and no call ever changes that one. -/

namespace Doci

open Coroutine ReadCommitted

section Contract

variable (document : DocumentId) (locator : String)

/-- The part is the one in the table. -/
structure Filed (s : Store) (part : DocumentPartRecord) : Prop where
  same_document : part.documentId = document
  same_locator : part.locator = locator
  row : (s.piece document locator).committed = some part.row

def partContract (a : Session) : Contract DocReply Exc Store where
  meaning := Store.meaning
  inv := PartSound document locator
  rely := PartRely document locator a
  guar := PartGuar document locator a
  fate := fun c s fate => Store.admits c s fate = true ∧ a < s.fresh
  rely_refl := PartRely.refl a
  rely_trans := PartRely.trans

/-- The session has no uncommitted version of the part. -/
def NoPiece (a : Session) (s : Store) : Prop :=
  ∀ w, (s.piece document locator).dirty ≠ some (a, w)

/-- The session holds the lock of the blob, whose id it knows. -/
def HoldsBlob (a : Session) (media : MediaId) (s : Store) : Prop :=
  NoPiece document locator a s ∧
    ∃ v, (s.blob document locator).dirty = some (a, some v) ∧ media = v.id

/-- What the call knows after its insert: another part is there, or its own is on the way. -/
def Decided (a : Session) (inserted : Option DocumentPartRecord) (s : Store) : Prop :=
  match inserted with
  | none => ∃ row, (s.piece document locator).committed = some row
  | some part => part.documentId = document ∧ part.locator = locator ∧
    (s.piece document locator).dirty = some (a, some part.row)

def Settles (inserted : Option DocumentPartRecord) (s : Store) : Prop :=
  match inserted with
  | none => ∃ row, (s.piece document locator).committed = some row
  | some part => Filed document locator s part

end Contract

section Stages

variable {document : DocumentId} {locator : String} {a : Session} {s t u : Store}
  {part : DocumentPartRecord}

theorem Filed.later (h : Filed document locator s part) (hrely : PartRely document locator a s t) :
    Filed document locator t part :=
  ⟨h.same_document, h.same_locator, hrely.filed _ h.row⟩

theorem NoPiece.later (h : NoPiece document locator a s) (hrely : PartRely document locator a s t) :
    NoPiece document locator a t :=
  fun w hw => h w ((hrely.part_lock w).mp hw)

theorem HoldsBlob.later {media : MediaId} (h : HoldsBlob document locator a media s)
    (hrely : PartRely document locator a s t) : HoldsBlob document locator a media t := by
  obtain ⟨hno, v, hv, hid⟩ := h
  exact ⟨hno.later hrely, v, hrely.blob_lock _ hv, hid⟩

theorem Decided.later {inserted : Option DocumentPartRecord}
    (h : Decided document locator a inserted s) (hrely : PartRely document locator a s t) :
    Decided document locator a inserted t := by
  cases inserted with
  | none =>
    obtain ⟨row, hrow⟩ := h
    exact ⟨row, hrely.filed row hrow⟩
  | some part => exact ⟨h.1, h.2.1, (hrely.part_lock _).mpr h.2.2⟩

theorem Settles.later {inserted : Option DocumentPartRecord}
    (h : Settles document locator inserted s) (hrely : PartRely document locator a s t) :
    Settles document locator inserted t := by
  cases inserted with
  | none =>
    obtain ⟨row, hrow⟩ := h
    exact ⟨row, hrely.filed row hrow⟩
  | some part => exact Filed.later h hrely

/-- A statement that leaves the region as it is. -/
theorem keeps_aside {c : DocCmd} {A : DocReply c → Store → Prop}
    (hsame : ∀ t, SameRegion document locator t (Store.meaning c t).2)
    (hpost : ∀ t reply u, PartRely document locator a s t → (Store.meaning c t).1 = .ok reply →
      PartRely document locator a (Store.meaning c t).2 u → A reply u) :
    Keeps (partContract document locator a) (Ends A fun _ => True) (statement c) s := by
  apply Keeps.perform
  intro t hrely hinv fate _
  have hstill : SameRegion document locator t t := SameRegion.refl t
  cases fate with
  | lost e => exact ⟨hinv, fun b _ => hstill.rely b, fun u _ _ => trivial⟩
  | late e => exact ⟨(hsame t).sound hinv, fun b _ => (hsame t).rely b, fun u _ _ => trivial⟩
  | done =>
    refine ⟨(hsame t).sound hinv, fun b _ => (hsame t).rely b, fun u hu _ => ?_⟩
    exact Ends.intro (fun reply hr => hpost t reply u hrely hr hu) fun _ _ => trivial

theorem SameRegion.partByLocator {id : DocumentId} {place : String} (t : Store) :
    SameRegion document locator t (Store.meaning (.partByLocator id place) t).2 :=
  SameRegion.refl t

theorem filed_of_partByLocator (h : s.partByLocator document locator = some part) :
    Filed document locator s part := by
  obtain ⟨row, hrow, rfl⟩ := Option.map_eq_some_iff.mp h
  exact ⟨rfl, rfl, (Slot.view_none _).symm.trans hrow⟩

theorem keeps_partByLocator (hno : NoPiece document locator a s) :
    Keeps (partContract document locator a)
      (Ends (fun found t => NoPiece document locator a t ∧
        ∀ part, found = some part → Filed document locator t part) fun _ => True)
      (statement (.partByLocator document locator)) s := by
  apply keeps_aside SameRegion.partByLocator
  intro t found u hrely hr hu
  refine ⟨(hno.later hrely).later hu, fun part hpart => ?_⟩
  obtain rfl : t.partByLocator document locator = found := Except.ok.inj hr
  exact (filed_of_partByLocator hpart).later hu

/-- The second read finds the part that was in the way of the insert. -/
theorem keeps_reread (h : ∃ row, (s.piece document locator).committed = some row) :
    Keeps (partContract document locator a)
      (Ends (fun found t => ∃ part, found = some part ∧ Filed document locator t part) fun _ => True)
      (statement (.partByLocator document locator)) s := by
  apply keeps_aside SameRegion.partByLocator
  intro t found u hrely hr hu
  obtain ⟨row, hrow⟩ := h
  have hfound : t.partByLocator document locator = found := Except.ok.inj hr
  have hview : t.part.view none (document, locator) = some row := by
    exact (Slot.view_none _).trans (hrely.filed row hrow)
  refine ⟨⟨document, locator, row⟩, ?_, ?_⟩
  · rw [← hfound, Store.partByLocator, hview]
    rfl
  · exact ⟨rfl, rfl, hu.filed row (hrely.filed row hrow)⟩

theorem keeps_upload {data : Bytes} (hno : NoPiece document locator a s) :
    Keeps (partContract document locator a)
      (Ends (fun _ t => NoPiece document locator a t ∧ t.Uploaded document locator) fun _ => True)
      (statement (.uploadObject (.region document locator) data)) s := by
  apply keeps_aside fun t => SameRegion.upload data
  intro t _ u hrely _ hu
  have hstill : NoPiece document locator a
      (Store.meaning (.uploadObject (.region document locator) data) t).2 :=
    fun w hw => (hno.later hrely) w hw
  refine ⟨hstill.later hu, hu.uploaded ?_⟩
  simp [Store.meaning, Store.Uploaded]

/-- The effect of the upsert. -/
theorem PartSound.insertBlob (h : PartSound document locator s) (mime : Option Mime)
    (size : Option Nat) (hfree : (s.media.slot (.region document locator)).free (some a) = true)
    (hno : NoPiece document locator a s) (huploaded : s.Uploaded document locator) :
    PartSound document locator (s.insertBlob (some a) (.region document locator) mime size).2 ∧
      PartGuar document locator a s
        (s.insertBlob (some a) (.region document locator) mime size).2 ∧
      HoldsBlob document locator a
        (s.insertBlob (some a) (.region document locator) mime size).1.row.id
        (s.insertBlob (some a) (.region document locator) mime size).2 := by
  obtain ⟨v, hid, hblob, hsame⟩ := insertBlob_blob mime size h hfree
  obtain ⟨hpart, hobjects, hfresh⟩ :=
    insertBlob_rest a s (.region document locator) mime size
  have hpiece : (s.insertBlob (some a) (.region document locator) mime size).2.piece document locator =
      s.piece document locator := by
    rw [Store.piece, hpart]
    rfl
  have hup : (s.insertBlob (some a) (.region document locator) mime size).2.Uploaded document locator := by
    rwa [Store.Uploaded, hobjects]
  obtain ⟨hsound, hguar⟩ := h.write_blob hfree hblob hsame hpiece hup hfresh hno
  refine ⟨hsound, hguar, fun w hw => ?_, v, ?_, hid⟩
  · exact hno w (hpiece ▸ hw)
  · rw [hblob]

theorem keeps_upsert {mime : Option Mime} {size : Option Nat}
    (hno : NoPiece document locator a s) (huploaded : s.Uploaded document locator) :
    Keeps (partContract document locator a)
      (Ends (fun media t => HoldsBlob document locator a media.row.id t) fun _ => True)
      (statement (.insertBlob (some a) (.region document locator) mime size)) s := by
  apply Keeps.perform
  rintro t hrely hinv fate ⟨hadmits, _⟩
  rcases Store.admits_cases hadmits with ⟨e, rfl, _⟩ | hfree
  · exact ⟨hinv, fun b _ => PartRely.refl b t, fun _ _ _ => trivial⟩
  · have hfree : (t.media.slot (.region document locator)).free (some a) = true := by
      simpa only [Store.waits, Bool.not_eq_false'] using hfree
    obtain ⟨hsound, hguar, hholds⟩ := hinv.insertBlob mime size hfree (hno.later hrely)
      (hrely.uploaded huploaded)
    cases fate with
    | lost e => exact ⟨hinv, fun b _ => PartRely.refl b t, fun _ _ _ => trivial⟩
    | late e => exact ⟨hsound, hguar, fun _ _ _ => trivial⟩
    | done => exact ⟨hsound, hguar, fun u hu _ => hholds.later hu⟩

theorem keeps_insertPart {kind : PartKind} {page : Option Nat} {media : MediaId}
    (h : HoldsBlob document locator a media s) :
    Keeps (partContract document locator a)
      (Ends (fun inserted t => Decided document locator a inserted t) fun _ => True)
      (statement (.insertPart (some a) document locator kind page media)) s := by
  apply Keeps.perform
  rintro t hrely hinv fate ⟨hadmits, hlt⟩
  obtain ⟨hno, v, hv, hid⟩ := h.later hrely
  rcases Store.admits_cases hadmits with ⟨e, rfl, _⟩ | hfree
  · exact ⟨hinv, fun b _ => PartRely.refl b t, fun _ _ _ => trivial⟩
  · have hfree : (t.part.slot (document, locator)).free (some a) = true := by
      simpa only [Store.waits, Bool.not_eq_false'] using hfree
    obtain ⟨hsound, hguar, hreply⟩ :=
      insertPart_cases kind page hinv hlt hfree hno hv hid
    cases fate with
    | lost e => exact ⟨hinv, fun b _ => PartRely.refl b t, fun _ _ _ => trivial⟩
    | late e => exact ⟨hsound, hguar, fun _ _ _ => trivial⟩
    | done =>
      refine ⟨hsound, hguar, fun u hu _ => Ends.intro (fun inserted hr => ?_) fun _ _ => trivial⟩
      have hr : (t.insertPart (some a) document locator kind page media).1 = .ok inserted := hr
      rw [hr] at hreply
      have hdecided : Decided document locator a inserted
          (t.insertPart (some a) document locator kind page media).2 := by
        cases inserted with
        | some part => exact hreply
        | none =>
          obtain ⟨row, hrow⟩ := hreply
          exact ⟨row, (hguar (a + 1) (Nat.succ_ne_self a)).filed row hrow⟩
      exact hdecided.later hu

theorem Decided.commit {inserted : Option DocumentPartRecord}
    (h : Decided document locator a inserted s) (hinv : PartSound document locator s) :
    Settles document locator inserted (s.commit a) := by
  cases inserted with
  | none =>
    obtain ⟨row, hrow⟩ := h
    exact ⟨row, (hinv.commit.2 (a + 1) (Nat.succ_ne_self a)).filed row hrow⟩
  | some part =>
    obtain ⟨hdoc, hloc, hdirty⟩ := h
    refine ⟨hdoc, hloc, ?_⟩
    rw [piece_commit]
    simp [Slot.commit, hdirty]

theorem keeps_commitPart {inserted : Option DocumentPartRecord}
    (h : Decided document locator a inserted s) :
    Keeps (partContract document locator a)
      (Ends (fun _ t => Settles document locator inserted t) fun _ => True)
      (statement (.commit a)) s := by
  apply Keeps.perform
  intro t hrely hinv fate _
  obtain ⟨hsound, hguar⟩ : PartSound document locator (t.commit a) ∧
    PartGuar document locator a t (t.commit a) := hinv.commit
  cases fate with
  | lost e => exact ⟨hinv, fun b _ => PartRely.refl b t, fun _ _ _ => trivial⟩
  | late e => exact ⟨hsound, hguar, fun _ _ _ => trivial⟩
  | done => exact ⟨hsound, hguar, fun u hu _ => ((h.later hrely).commit hinv).later hu⟩

theorem keeps_rollbackPart :
    Keeps (partContract document locator a) (fun _ _ => True) (statement (.rollback a)) s := by
  apply Keeps.perform
  intro t _ hinv fate _
  obtain ⟨hsound, hguar⟩ : PartSound document locator (t.rollback a) ∧
    PartGuar document locator a t (t.rollback a) := hinv.rollback
  cases fate with
  | lost e => exact ⟨hinv, fun b _ => PartRely.refl b t, fun _ _ _ => trivial⟩
  | late e => exact ⟨hsound, hguar, fun _ _ _ => trivial⟩
  | done => exact ⟨hsound, hguar, fun _ _ _ => trivial⟩

/-- The transaction ends with the part in the table. -/
theorem keeps_filing {kind : PartKind} {mime : Option Mime} {size : Option Nat} {page : Option Nat}
    (hinv : PartSound document locator s) (hno : NoPiece document locator a s)
    (huploaded : s.Uploaded document locator) :
    Keeps (partContract document locator a)
      (Ends (fun inserted t => Settles document locator inserted t) fun _ => True)
      (transaction a fun _ => do
        let media ← statement (.insertBlob (some a) (.region document locator) mime size)
        statement (.insertPart (some a) document locator kind page media.row.id)) s := by
  have hbegin : Keeps (partContract document locator a)
      (Ends (fun _ t => NoPiece document locator a t ∧ t.Uploaded document locator) fun _ => True)
      (statement (.begin a)) s := by
    apply keeps_aside SameRegion.refl
    intro t _ u hrely _ hu
    exact ⟨(hno.later hrely).later hu, hu.uploaded (hrely.uploaded huploaded)⟩
  apply hbegin.andThen hinv
  rintro _ t hinv ⟨hno, huploaded⟩
  apply Keeps.orElse (E := fun _ => True) ?_ hinv
  · intro e u hinv _
    have hcaught : Keeps (partContract document locator a) (fun _ _ => True)
        ((statement (.rollback a)).tryCatch fun _ => .ret ()) u :=
      keeps_rollbackPart.tryCatch hinv (fun _ _ _ _ => trivial) fun _ _ _ _ _ _ _ => trivial
    exact hcaught.bind hinv (fun _ _ _ _ _ _ _ => trivial) fun _ _ _ _ => trivial
  · have hbody : Keeps (partContract document locator a)
        (Ends (fun inserted t => Decided document locator a inserted t) fun _ => True)
        ((statement (.insertBlob (some a) (.region document locator) mime size)).bind fun media =>
          statement (.insertPart (some a) document locator kind page media.row.id)) t :=
      (keeps_upsert hno huploaded).andThen hinv fun media _ _ hholds => keeps_insertPart hholds
    apply hbody.andThen hinv
    intro inserted u hinv hdecided
    apply (keeps_commitPart hdecided).andThen hinv
    exact fun _ v _ hsettles w hw _ => Settles.later hsettles hw

theorem keeps_ensurePart (kind : PartKind) (data : Bytes) (mime : Option Mime) (page : Option Nat)
    (hinv : PartSound document locator s) (hno : NoPiece document locator a s) :
    Keeps (partContract document locator a)
      (Ends (fun part t => Filed document locator t part) fun _ => True)
      (ensurePart a document locator kind data mime page) s := by
  have hreturn : ∀ part t, Filed document locator t part → Keeps (partContract document locator a)
      (Ends (fun part t => Filed document locator t part) fun _ => True) (.ret part) t :=
    fun part t hfiled u hu _ => hfiled.later hu
  apply (keeps_partByLocator hno).andThen hinv
  rintro existing t hinv ⟨hno, hfiled⟩
  split
  · next part hpart => exact hreturn part t (hfiled part (Option.filter_eq_some_iff.mp hpart).1)
  · have hrender : Keeps (partContract document locator a)
        (Ends (fun _ t => NoPiece document locator a t) fun _ => True)
        (statement (.render data mime)) t :=
      keeps_aside SameRegion.refl fun _ _ _ hrely _ hu => (hno.later hrely).later hu
    apply hrender.andThen hinv
    rintro ⟨data, mime⟩ t hinv hno
    apply (keeps_upload hno).andThen hinv
    rintro _ t hinv ⟨hno, huploaded⟩
    apply (keeps_filing hinv hno huploaded).andThen hinv
    intro inserted t hinv hsettles
    cases inserted with
    | some part => exact hreturn part t hsettles
    | none =>
      apply (keeps_reread hsettles).andThen hinv
      rintro _ u _ ⟨part, rfl, hfiled⟩
      exact hreturn part u hfiled

end Stages

section Pool

variable (document : DocumentId) (locator : String)

structure PoolSound (p : PartPool) : Prop where
  sound : PartSound document locator p.store
  filed : ∀ part ∈ p.answers, Filed document locator p.store part

def poolContract (a : Session) : Contract PartReply Exc PartPool where
  meaning := PartPool.meaning
  inv := PoolSound document locator
  rely := fun p q => PartRely document locator a p.store q.store
  guar := fun p q => PartGuar document locator a p.store q.store
  fate := fun c p fate => PartPool.admits c p fate = true ∧ a < p.store.fresh
  rely_refl := fun p => PartRely.refl a p.store
  rely_trans := PartRely.trans

end Pool

section Runs

variable {document : DocumentId} {locator : String} {a : Session} {p : PartPool}

theorem PoolSound.step (h : PoolSound document locator p) {s : Store}
    (hsound : PartSound document locator s) (hguar : PartGuar document locator a p.store s) :
    PoolSound document locator { p with store := s } :=
  ⟨hsound, fun part hpart => (h.filed part hpart).later (hguar (a + 1) (Nat.succ_ne_self a))⟩

theorem store_outcome (c : DocCmd) (p : PartPool) (fate : Fate Exc) :
    outcome PartPool.meaning (.store c) p fate =
      ((outcome Store.meaning c p.store fate).1,
        { p with store := (outcome Store.meaning c p.store fate).2 }) := by
  cases fate <;> rfl

theorem keeps_answer {part : DocumentPartRecord} (hfiled : Filed document locator p.store part) :
    Keeps (poolContract document locator a) (fun _ _ => True)
      (perform (PartCmd.answer part) : Prog PartReply Exc Unit) p := by
  apply Keeps.perform
  intro q hrely hinv fate _
  have hself : PartGuar document locator a q.store q.store := fun b _ => PartRely.refl b q.store
  have hanswered : PoolSound document locator { q with answers := part :: q.answers } := by
    refine ⟨hinv.sound, fun other hother => ?_⟩
    rcases List.mem_cons.mp hother with rfl | hother
    · exact hfiled.later hrely
    · exact hinv.filed other hother
  cases fate with
  | lost e => exact ⟨hinv, hself, fun _ _ _ => trivial⟩
  | late e => exact ⟨hanswered, hself, fun _ _ _ => trivial⟩
  | done => exact ⟨hanswered, hself, fun _ _ _ => trivial⟩

/-- A call among the others returns the part in the table, if it returns. -/
theorem keeps_request (request : PartRequest) (hinv : PoolSound document locator p)
    (hno : NoPiece document locator a p.store) :
    Keeps (poolContract document locator a) (fun _ _ => True)
      (request.prog document locator a) p := by
  have hcall : Keeps (poolContract document locator a)
      (fun r q => Ends (fun part t => Filed document locator t part) (fun _ => True) r q.store)
      ((request.run document locator a).expand
        fun c => (perform (PartCmd.store c) : Prog PartReply Exc (DocReply c))) p := by
    refine Keeps.inject PartCmd.store PartPool.store (partContract document locator a)
      (poolContract document locator a)
      (fun _ _ h => h) (fun _ h => h.sound) (fun _ _ _ h => h) (fun c q fate => ?_)
      (fun c q fate hq _ hsound hguar => ?_)
      (keeps_ensurePart request.kind request.data request.mime request.page hinv.sound hno)
    · have hout := store_outcome c q fate
      exact ⟨congrArg Prod.fst hout, congrArg (fun o => PartPool.store o.2) hout⟩
    · have hout := store_outcome c q fate
      show PoolSound document locator (outcome PartPool.meaning (.store c) q fate).2 ∧
        PartGuar document locator a q.store (outcome PartPool.meaning (.store c) q fate).2.store
      rw [hout]
      exact ⟨hq.step hsound hguar, hguar⟩
  exact hcall.bind hinv (fun part q _ hfiled => keeps_answer hfiled) fun _ _ _ _ => trivial

theorem partEvent_cases {e : PartEvent} {q : PartPool} {new : List (Thread PartReply Exc Session)}
    (h : partEvent document locator p e = some (q, new)) :
    SameRegion document locator p.store q.store ∧ q.answers = p.answers ∧
      (new = [] ∨ ∃ request : PartRequest,
        new = [⟨p.store.fresh, request.prog document locator p.store.fresh⟩] ∧
          p.store.fresh < q.store.fresh) := by
  cases e with
  | call request =>
    obtain ⟨rfl, rfl⟩ := Prod.mk.inj (Option.some.inj h)
    have hsame : SameRegion document locator p.store { p.store with fresh := p.store.fresh + 1 } :=
      ⟨rfl, rfl, fun h => h, Nat.le_succ _⟩
    exact ⟨hsame, rfl, .inr ⟨request, rfl, Nat.lt_succ_self _⟩⟩
  | tick duration =>
    obtain ⟨rfl, rfl⟩ := Prod.mk.inj (Option.some.inj h)
    have hsame : SameRegion document locator p.store
        { p.store with now := p.store.now + duration } := ⟨rfl, rfl, fun h => h, le_rfl⟩
    exact ⟨hsame, rfl, .inl rfl⟩

theorem PoolSound.event {e : PartEvent} {q : PartPool} {new : List (Thread PartReply Exc Session)}
    (hinv : PoolSound document locator p) (h : partEvent document locator p e = some (q, new)) :
    PoolSound document locator q := by
  obtain ⟨hsame, hanswers, _⟩ := partEvent_cases h
  refine ⟨hsame.sound hinv.sound, fun part hpart => ?_⟩
  exact (hinv.filed part (hanswers ▸ hpart)).later (hsame.rely 0)

/-- The calls that run have numbers below the next one. -/
def PartCallsNumbered (c : Config PartReply Exc PartPool Session) : Prop :=
  ∀ t ∈ c.threads, t.tag < c.shared.store.fresh

theorem partCallsNumbered_reach {start c : Config PartReply Exc PartPool Session}
    {ok : Config PartReply Exc PartPool Session → Move Exc PartEvent → Prop}
    (reach : Reach (partCalls document locator) ok start c) (h : PartCallsNumbered start) : PartCallsNumbered c := by
  refine reach.tags (K := fun n (p : PartPool) => n < p.store.fresh) h (fun n cmd q hn => ?_)
    (fun _ _ _ _ => nofun) (fun _ _ _ hn => hn) fun e q q' new henv => ?_
  · cases cmd with
    | store cmd => exact hn.trans_le (Store.fresh_le cmd q.store)
    | answer part => exact hn
  · obtain ⟨hsame, _, rfl | ⟨request, rfl, hlt⟩⟩ := partEvent_cases henv
    · exact ⟨fun n hn => hn.trans_le hsame.fresh, fun t ht => nomatch ht⟩
    · refine ⟨fun n hn => hn.trans_le hsame.fresh, fun t ht => ?_⟩
      rw [List.mem_singleton.mp ht]
      exact hlt

def partDiscipline (document : DocumentId) (locator : String) :
    Discipline (partCalls document locator) (fun c _ => PartCallsNumbered c) where
  inv := PoolSound document locator
  contract := poolContract document locator
  post := fun _ _ _ => True
  apart := fun a b => a ≠ b
  meaning_eq := fun _ => rfl
  inv_eq := fun _ => rfl
  apart_symm := Ne.symm
  others := fun hapart _ _ hguar => hguar _ hapart.symm
  fates := fun hok hi _ hadmits _ => ⟨hadmits, hok _ (List.mem_of_getElem? hi)⟩
  exit_keeps := fun _ _ _ ht => nomatch ht
  exit_apart := fun _ ht => nomatch ht
  exit_pairwise := @no_threads_apart
  death_inv := fun _ _ hinv => hinv.step hinv.sound.rollback.1 hinv.sound.rollback.2
  death_rely := fun _ _ hinv hapart => hinv.sound.rollback.2 _ hapart.symm
  env_inv := fun _ henv hinv => hinv.event henv
  env_rely := fun _ henv _ t _ => (partEvent_cases henv).1.rely t.tag
  env_keeps := by
    intro c e q new _ henv hinv t ht
    obtain ⟨hsame, _, rfl | ⟨request, rfl, _⟩⟩ := partEvent_cases henv
    · exact nomatch ht
    · obtain rfl := List.mem_singleton.mp ht
      refine keeps_request request (hinv.event henv) fun w hw => ?_
      rw [hsame.piece] at hw
      exact lt_irrefl _ (hinv.sound.part_lt _ w hw)
  env_apart := by
    intro c e q new hok henv _
    obtain ⟨_, _, rfl | ⟨request, rfl, _⟩⟩ := partEvent_cases henv
    · exact ⟨List.Pairwise.nil, fun _ _ u hu => nomatch hu⟩
    · refine ⟨List.pairwise_singleton _ _, fun t ht u hu => ?_⟩
      rw [List.mem_singleton.mp hu]
      exact (hok t ht).ne

/-- No transaction is open; a part refers to its blob, and the object of a blob is uploaded. -/
structure RegionAtRest (document : DocumentId) (locator : String) (s : Store) : Prop where
  blob_unlocked : (s.blob document locator).dirty = none
  piece_unlocked : (s.piece document locator).dirty = none
  uploaded : ∀ v, (s.blob document locator).committed = some v → s.Uploaded document locator
  refers : ∀ row, (s.piece document locator).committed = some row →
    ∃ v, (s.blob document locator).committed = some v ∧ row.mediaId = some v.id

theorem RegionAtRest.sound {s : Store} (h : RegionAtRest document locator s) :
    PartSound document locator s := by
  refine ⟨fun v hv => ?_, fun v v' t _ hv' => ?_, fun t ht => ?_, fun t ht => ?_,
    fun t v hv => ?_, h.refers, fun t row hrow => ?_⟩
  · rcases hv with hv | ⟨t, hv⟩
    · exact h.uploaded v hv
    · exact nomatch h.blob_unlocked.symm.trans hv
  · exact nomatch h.blob_unlocked.symm.trans hv'
  · exact nomatch h.blob_unlocked.symm.trans ht
  · exact nomatch h.piece_unlocked.symm.trans ht
  · exact nomatch h.piece_unlocked.symm.trans hv
  · exact nomatch h.piece_unlocked.symm.trans hrow

variable {start : Store} {c : Config PartReply Exc PartPool Session}

theorem pool_sound (hrest : RegionAtRest document locator start)
    (reach : Reach (partCalls document locator) (fun _ _ => True) ⟨{ store := start }, []⟩ c) :
    PoolSound document locator c.shared := by
  have hnumbered : ∀ d, Reach (partCalls document locator) (fun _ _ => True)
      ⟨{ store := start }, []⟩ d → PartCallsNumbered d :=
    fun d hd => partCallsNumbered_reach hd fun t ht => nomatch ht
  have hsafe : (partDiscipline document locator).Safe ⟨{ store := start }, []⟩ :=
    ⟨⟨hrest.sound, fun _ h => nomatch h⟩, fun _ ht => (nomatch ht), List.Pairwise.nil⟩
  exact (((reach.strengthen hnumbered).weaken fun _ _ h => h.2).safe _ hsafe).inv

/-- Whatever calls of `ensure_part` run side by side and wherever they fail: there is one part
and one blob at most, the part is that of the blob, whose object is uploaded, and it is what every
call returns that returns. -/
theorem one_part_for_region (hrest : RegionAtRest document locator start)
    (reach : Reach (partCalls document locator) (fun _ _ => True) ⟨{ store := start }, []⟩ c) :
    ((c.shared.store.part.rows none).filter fun r => r.1 = (document, locator)).length ≤ 1 ∧
      ((c.shared.store.media.rows none).filter fun r => r.1 = .region document locator).length ≤ 1 ∧
      (∀ row, ((document, locator), row) ∈ c.shared.store.part.rows none →
        ∃ blob, (.region document locator, blob) ∈ c.shared.store.media.rows none ∧
          row.mediaId = some blob.id) ∧
      (∀ blob, (.region document locator, blob) ∈ c.shared.store.media.rows none →
        (c.shared.store.objects (.region document locator)).isSome) ∧
      ∀ part ∈ c.shared.answers, part.documentId = document ∧ part.locator = locator ∧
        ((document, locator), part.row) ∈ c.shared.store.part.rows none := by
  have hpool := pool_sound hrest reach
  have hpart : ∀ row, ((document, locator), row) ∈ c.shared.store.part.rows none ↔
      (c.shared.store.piece document locator).committed = some row := by
    intro row
    rw [Table.mem_rows, Table.view, Slot.view_none]
    rfl
  have hblob : ∀ blob, (.region document locator, blob) ∈ c.shared.store.media.rows none ↔
      (c.shared.store.blob document locator).committed = some blob := by
    intro blob
    rw [Table.mem_rows, Table.view, Slot.view_none]
    rfl
  refine ⟨Table.rows_of_key _ _ _, Table.rows_of_key _ _ _, fun row hrow => ?_, fun blob hrow => ?_,
    fun part hanswer => ?_⟩
  · obtain ⟨blob, hcommitted, hid⟩ := hpool.sound.refers row ((hpart row).mp hrow)
    exact ⟨blob, (hblob blob).mpr hcommitted, hid⟩
  · exact hpool.sound.uploaded blob (.inl ((hblob blob).mp hrow))
  · have hfiled := hpool.filed part hanswer
    exact ⟨hfiled.same_document, hfiled.same_locator, (hpart part.row).mpr hfiled.row⟩

end Runs

def scan : PartRequest := ⟨.image, [8], some .png, some 1⟩

/-- Both calls find no part; the first is done before the second comes to its transaction. -/
def racingScans : List (Move Exc PartEvent) :=
  [.env (.call scan), .env (.call scan)] ++ List.replicate 3 (.run 0 .done) ++
    List.replicate 3 (.run 1 .done) ++ List.replicate 5 (.run 0 .done) ++
    List.replicate 6 (.run 1 .done)

theorem one_part_for_page : ∃ c part other,
    (partCalls 1 (pageLocator 1)).exec racingScans ⟨{ store := filedStore }, []⟩ = some c ∧
      c.shared.answers = [other, part] ∧
      ((1, pageLocator 1), part.row) ∈ c.shared.store.part.rows none ∧
      ((1, pageLocator 1), other.row) ∈ c.shared.store.part.rows none := by
  have hrun : ((partCalls 1 (pageLocator 1)).exec racingScans ⟨{ store := filedStore }, []⟩).any
      (fun c => c.shared.answers.length = 2) = true := by
    decide +kernel
  obtain ⟨c, hc, hlength⟩ := (Option.any_eq_true _ _).mp hrun
  obtain ⟨other, part, hanswers⟩ := List.length_eq_two.mp (of_decide_eq_true hlength)
  have hrest : RegionAtRest 1 (pageLocator 1) filedStore := ⟨rfl, rfl, nofun, nofun⟩
  obtain ⟨_, _, _, _, hfiled⟩ := one_part_for_region hrest (Reach.start.exec (fun _ _ => trivial) hc)
  exact ⟨c, part, other, hc, hanswers, (hfiled part (by simp [hanswers])).2.2,
    (hfiled other (by simp [hanswers])).2.2⟩

end Doci
