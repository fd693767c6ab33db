import Doci.PdfGraphs

/-! Mining among other calls, runs, uploads, retries and deaths: what holds of one PDF's run in
every state. -/

namespace Doci

open Coroutine ReadCommitted

abbrev MiningReplies := TaskReply MiningReply (J := PageJob) (V := PageValue) (ε := Exc)

abbrev MiningConfiguration := Config MiningReplies Exc MiningPool (TaskTag MiningTag)

/-- The blobs that the thread's next statement purges. -/
def deleting (t : Thread MiningReplies Exc (TaskTag MiningTag)) : Option (List MediaId) :=
  match t.prog with
  | .await (.cmd (.store (.deleteMedia ids))) _ => some ids
  | _ => none

namespace PdfRun

variable (P : PdfRun)

/-- Only the PDF is put for the document and only mining files parts of it; it is not purged. -/
def Admits : MiningConfiguration → Move Exc (TaskEvent MiningEvent) → Prop
  | _, .env (.env (.attempt attempt)) => P.Fits attempt
  | _, .env (.env (.store (.call call))) => P.filing.Admits call
  | _, .env (.env (.store (.put id data))) => id = P.document → data = P.pdf
  | c, .run i _ => ∀ t ids, c.threads[i]? = some t → deleting t = some ids →
      P.filing.Spares ids c.shared.shared.store
  | _, _ => True

/-- Validation takes the PDF for nothing but a PDF. -/
def Valid : Prop := P.filing.Validates P.cfg.media

/-- The document is yet to be uploaded and the run to start. -/
structure NotStarted (s : Mine) : Prop where
  unfiled : Unfiled P.document s.store
  rows : ∀ row ∈ s.results.rows, row.execution ≠ P.execution
  succeeded : ∀ entry ∈ s.succeeded, entry.1 ≠ P.execution

variable {P}

theorem NotStarted.sound {s : Mine} (h : P.NotStarted s) : P.Sound s where
  filed := Unfiled.sound h.unfiled
  rows := fun row hrow hrun => absurd hrun (h.rows row hrow)
  paired := fun row hrow hrun _ => absurd hrun (h.rows row hrow)
  succeeded := fun _ _ hentry => absurd rfl (h.succeeded _ hentry)

theorem Sound.restored {s : Mine} (h : P.Sound s) {store : Store} (hfiled : P.filing.Sound store)
    (hkept : P.filing.Kept s.store store) :
    P.Sound { s with store := store } ∧ P.Grown s { s with store := store } :=
  h.stored hfiled hkept (.inl rfl)

/-- The events from outside: a call or an attempt starts, an object is put, time passes. -/
theorem Sound.event {s t : Mine} {c : MiningConfiguration} {e : MiningEvent}
    {new : List (MiningTag × MiningTask Unit)} (h : P.Sound s) (hok : P.Admits c (.env (.env e)))
    (henv : miningEvent P.cfg s e = some (t, new)) : P.Sound t ∧ P.Grown s t := by
  cases e with
  | attempt attempt =>
    obtain ⟨rfl, _⟩ := Prod.mk.inj (Option.some.inj henv)
    obtain ⟨hfiled, hkept⟩ := h.filed.aged s.store.now (Nat.le_succ s.store.fresh)
    exact h.restored hfiled hkept
  | store e =>
    obtain ⟨⟨store, threads⟩, hstore, heq⟩ := Option.map_eq_some_iff.mp henv
    obtain ⟨rfl, _⟩ := Prod.mk.inj heq
    cases e with
    | call call =>
      obtain ⟨rfl, _⟩ := Prod.mk.inj (Option.some.inj hstore)
      obtain ⟨hfiled, hkept⟩ := h.filed.aged s.store.now (Nat.le_succ s.store.fresh)
      exact h.restored hfiled hkept
    | put id data =>
      obtain ⟨rfl, _⟩ := Prod.mk.inj (Option.some.inj hstore)
      refine h.restored (h.filed.put hok) ⟨⟨fun _ _ hm => hm, fun _ _ hp => hp⟩, fun _ row hrow =>
        ⟨row, hrow, rfl⟩⟩
    | tick duration =>
      obtain ⟨rfl, _⟩ := Prod.mk.inj (Option.some.inj hstore)
      obtain ⟨hfiled, hkept⟩ := h.filed.aged (s.store.now + duration) (Nat.le_refl s.store.fresh)
      exact h.restored hfiled hkept

theorem works_event {s : MiningPool} {t : Mine} {c : MiningConfiguration} {e : MiningEvent}
    {new : List (MiningTag × MiningTask Unit)} (hvalid : P.Valid) (hok : P.Admits c (.env (.env e)))
    (henv : miningEvent P.cfg s.shared e = some (t, new))
    (hinv : P.growth.Sound { s with shared := t }) :
    ∀ u ∈ new, P.Works (fun _ _ => True) u.2 { s with shared := t } := by
  cases e with
  | attempt attempt =>
    obtain ⟨_, rfl⟩ := Prod.mk.inj (Option.some.inj henv)
    intro u hu
    obtain rfl := List.mem_singleton.mp hu
    exact works_attempt hvalid hinv hok
  | store e =>
    obtain ⟨⟨store, threads⟩, hstore, heq⟩ := Option.map_eq_some_iff.mp henv
    obtain ⟨_, rfl⟩ := Prod.mk.inj heq
    cases e with
    | call call =>
      obtain ⟨_, rfl⟩ := Prod.mk.inj (Option.some.inj hstore)
      intro u hu
      obtain rfl := List.mem_singleton.mp hu
      apply works_lift
      have hcall : P.filing.Leaves (fun _ _ => True) (startCall P.cfg.media s.shared.store.fresh call).prog
          t.store :=
        (leaves_call hok hvalid hinv.inv.filed).bind hinv.inv.filed fun _ _ _ _ =>
          leaves_ret fun _ _ _ => trivial
      exact tells_onStore hcall
    | put id data =>
      obtain ⟨_, rfl⟩ := Prod.mk.inj (Option.some.inj hstore)
      exact fun u hu => absurd hu List.not_mem_nil
    | tick duration =>
      obtain ⟨_, rfl⟩ := Prod.mk.inj (Option.some.inj hstore)
      exact fun u hu => absurd hu List.not_mem_nil

theorem upheld (hvalid : P.Valid) : P.growth.Upheld P.Admits where
  env := fun hok henv hinv => hinv.event hok henv
  programs := fun hok henv hinv u hu =>
    Keeps.weaken (works_event hvalid hok henv hinv u hu) fun _ _ _ _ => trivial
  expects := by
    rintro c i t cmd rest fate hok hi hprog _ _ ids rfl
    exact hok t ids hi (by rw [deleting, hprog])
  death := fun {tag a} hinv => by
    obtain ⟨hfiled, hkept⟩ := hinv.filed.rollback tag.session
    exact hinv.restored hfiled hkept
  body := fun hinv hready => works_job hinv hready

theorem mining_grown (hvalid : P.Valid) {start : Mine} {c d : MiningConfiguration}
    (hstart : P.NotStarted start)
    (reach : Reach (mining P.cfg).system P.Admits ⟨⟨start, []⟩, []⟩ c)
    (later : Reach (mining P.cfg).system P.Admits c d) :
    P.Sound d.shared.shared ∧ P.Grown c.shared.shared d.shared.shared := by
  have hsafe := (Growth.reach_grown (upheld hvalid) (Growth.start_safe (upheld hvalid) hstart.sound) reach).1
  obtain ⟨hsafe', hgrown⟩ := Growth.reach_grown (upheld hvalid) hsafe later
  exact ⟨hsafe'.inv.inv, hgrown.shared⟩

end PdfRun

section Example

def plainAnswer : (q : Question) → Answer q
  | .transcribe _ => .text "A receipt."
  | .annotateText _ | .reflectText _ => {
    category := "invoice"
    description := "An invoice."
    facts := [⟨"total", "12.50", "Total: 12.50"⟩]
    itemKey := some "invoice" }
  | .annotateImage _ | .reflectImage _ => { category := "receipt", description := "A receipt." }

/-- Every file is of three pages, of which the second is scanned, and two are worked on at a time. -/
def plainMining : MiningConfig where
  media := plainConfig
  libraries := {
    pages := fun data => [(data, textPage), (data ++ [1], scannedPage), (data ++ [2], textPage)]
    png := id
    markdown := fun _ => "Total: 12.50"
    minimap := id
    shrink := id }
  answer := fun _ => plainAnswer
  concurrency := 2

def plainRun : PdfRun where
  cfg := plainMining
  document := 0
  execution := 0
  pdf := ascii "%PDF"
  sole := True

theorem plainRun_valid : plainRun.Valid := by
  rintro data name mime size rfl h
  have hpdf : validate plainConfig (.original 0) (ascii "%PDF") name = .ok (.pdf, 4) := rfl
  obtain ⟨rfl, _⟩ := Prod.mk.inj (Except.ok.inj (hpdf.symm.trans h))
  rfl

def newMine : Mine where
  store := emptyStore
  results := .empty
  asked := 0
  succeeded := []

theorem newMine_notStarted : plainRun.NotStarted newMine where
  unfiled := ⟨emptyStore_notYet 0, fun _ => rfl, fun _ => rfl⟩
  rows := fun _ hrow => absurd hrow List.not_mem_nil
  succeeded := fun _ hentry => absurd hentry List.not_mem_nil

/-- Only uploads of the PDF and its mining. -/
def pdfMove : MiningConfiguration → Move Exc (TaskEvent MiningEvent) → Bool
  | _, .env (.env (.attempt attempt)) => attempt.input.document = 0 && attempt.kind = .pdf
  | _, .env (.env (.store (.call (.requestUpload _)))) => true
  | _, .env (.env (.store (.call (.finalize _)))) => true
  | _, .env (.env (.store (.call _))) => false
  | _, .env (.env (.store (.put _ data))) => data = ascii "%PDF"
  | c, .run i _ => (c.threads[i]?).all fun t => (deleting t).isNone
  | _, _ => true

theorem pdfMove_admits {c : MiningConfiguration} {move : Move Exc (TaskEvent MiningEvent)}
    (h : pdfMove c move = true) : plainRun.Admits c move := by
  cases move with
  | env e =>
    cases e with
    | start g => trivial
    | env e =>
      cases e with
      | attempt attempt =>
        simp only [pdfMove, Bool.and_eq_true, decide_eq_true_eq] at h
        refine ⟨fun _ => ⟨h.1, fun hkind => ?_⟩, fun _ hkind => ?_⟩
        · rw [hkind] at h
          cases h.2
        · rw [hkind] at h
          cases h.2
      | store e =>
        cases e with
        | call call =>
          cases call with
          | requestUpload name => trivial
          | finalize id => trivial
          | _ => cases h
        | put id data => exact fun _ => of_decide_eq_true h
        | tick duration => trivial
  | run i fate =>
    intro t ids hi hids
    have hnone : (c.threads[i]?).all (fun t => (deleting t).isNone) = true := h
    rw [hi, Option.all_some, hids] at hnone
    cases hnone
  | exit i => trivial
  | die i => trivial

def mineCall (call : ServiceCall) (awaits : Nat) : List (Move Exc (TaskEvent MiningEvent)) :=
  .env (.env (.store (.call call))) :: List.replicate awaits (.run 0 .done) ++ [.exit 0]

/-- The PDF is uploaded and finalized. -/
def uploaded : List (Move Exc (TaskEvent MiningEvent)) :=
  mineCall (.requestUpload none) 5 ++ .env (.env (.store (.put 0 (ascii "%PDF")))) ::
    mineCall (.finalize 0) 7

def minePdf : Move Exc (TaskEvent MiningEvent) := .env (.env (.attempt ⟨.pdf, ⟨0, 0, none, false⟩⟩))

/-- Thread `i` runs through that many awaits. -/
def runs (i n : Nat) : List (Move Exc (TaskEvent MiningEvent)) := List.replicate n (.run i .done)

def startTwo (g : Nat) : List (Move Exc (TaskEvent MiningEvent)) := [.env (.start g), .env (.start g)]

/-- An attempt splits the PDF and starts on two of its pages. -/
def splitUp : List (Move Exc (TaskEvent MiningEvent)) := minePdf :: runs 0 27 ++ startTwo 0

/-- It fails with the first of them. -/
def failedAttempt : List (Move Exc (TaskEvent MiningEvent)) :=
  splitUp ++ runs 1 2 ++ [.run 1 (.lost (.external "unreachable"))] ++ runs 1 1 ++ [.exit 1] ++
    runs 0 1 ++ [.exit 0, .die 0]

/-- The next attempt mines all pages; the groups 2 and 3 are of the scanned one. -/
def secondAttempt : List (Move Exc (TaskEvent MiningEvent)) :=
  minePdf :: runs 0 9 ++ startTwo 1 ++ runs 1 13 ++ [.exit 1, .env (.start 1)] ++ runs 1 1 ++
    startTwo 2 ++ runs 3 9 ++ [.exit 3] ++ runs 3 3 ++ startTwo 3 ++ runs 4 2 ++ [.exit 4] ++
    runs 4 2 ++ [.exit 4] ++ runs 3 4 ++ [.exit 3] ++ runs 1 3 ++ [.exit 1] ++ runs 1 13 ++
    [.exit 1] ++ runs 0 2

def Mined.isPdf : Mined → Bool
  | .pdf _ _ => true
  | _ => false

/-- What is asked below of the state that the two attempts lead to. -/
structure PdfRun.Retried (P : PdfRun) (c : MiningConfiguration) (outputs : List PageOutput)
    (row : DocumentPartRow) : Prop where
  reach : Reach (mining P.cfg).system P.Admits ⟨⟨newMine, []⟩, []⟩ c
  succeeded : (P.execution, P.document, Mined.pdf 3 outputs) ∈ c.shared.shared.succeeded
  part : (c.shared.shared.store.part.slot (P.document, pageLocator 2)).committed = some row
  index : (pageIndex c.shared.shared.results c.shared.shared.store P.execution).map (fun entry =>
    (entry.pageNumber, entry.itemKey)) = [(some 1, some "invoice"), (some 2, none), (some 3, some "invoice")]
  fresh : c.shared.shared.store.fresh < 2 ^ 128

theorem plainRun_retried : ∃ c outputs row, plainRun.Retried c outputs row := by
  have hrun : ((mining plainMining).system.execWhen pdfMove (uploaded ++ failedAttempt ++ secondAttempt)
      ⟨⟨newMine, []⟩, []⟩).any (fun c => (c.shared.shared.succeeded.any fun entry =>
        entry.1 = 0 && entry.2.1 = 0 && entry.2.2.isPdf) &&
      (c.shared.shared.store.part.slot (0, pageLocator 2)).committed.isSome &&
      decide ((pageIndex c.shared.shared.results c.shared.shared.store 0).map (fun entry =>
        (entry.pageNumber, entry.itemKey)) =
          [(some 1, some "invoice"), (some 2, none), (some 3, some "invoice")]) &&
      decide (c.shared.shared.store.fresh < 2 ^ 128)) = true := by decide +kernel
  obtain ⟨c, hc, hall⟩ := (Option.any_eq_true _ _).mp hrun
  simp only [Bool.and_eq_true, decide_eq_true_eq, List.any_eq_true] at hall
  obtain ⟨⟨⟨⟨⟨execution, document, mined⟩, hmem, ⟨rfl, rfl⟩, hpdf⟩, hpart⟩, hindex⟩, hfresh⟩ := hall
  obtain ⟨row, hrow⟩ := Option.isSome_iff_exists.mp hpart
  have reach : Reach (mining plainRun.cfg).system plainRun.Admits ⟨⟨newMine, []⟩, []⟩ c :=
    Reach.start.execWhen (fun _ _ _ => pdfMove_admits) hc
  cases mined with
  | pdf count outputs =>
    have hgrown := PdfRun.mining_grown plainRun_valid newMine_notStarted reach .start
    obtain rfl : count = 3 := (hgrown.1.succeeded count outputs hmem).1
    exact ⟨c, outputs, row, reach, hmem, hrow, hindex, hfresh⟩
  | image part result => cases hpdf
  | unsupported reason => cases hpdf

end Example

end Doci
