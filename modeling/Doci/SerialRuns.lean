import Doci.SerialCalls
import Doci.DeleteCalls

/-! Runs in which the calls follow one another, from an empty store. -/

namespace Doci

open Coroutine ReadCommitted

/-- One call at a time; between two of them a client may put an object and time may pass. A
thumbnail is recorded on a part of the document that it was made of. -/
def OneByOne (c : Config DocReply Exc Store CallTag) : Move Exc StoreEvent → Prop
  | .env (.call (.setPartThumb part thumb)) =>
    c.threads = [] ∧ ∀ key, c.shared.partKey part = some key → BlobOf c.shared key.1 thumb
  | .env _ => c.threads = []
  | _ => True

section Runs

variable {cfg : MediaConfig} {s t : Store} {c d : Config DocReply Exc Store CallTag}
  {new : List (Thread DocReply Exc CallTag)} {e : DocumentId} {move : Move Exc StoreEvent}

theorem OneByOne.alone {event : StoreEvent} (h : OneByOne c (.env event)) : c.threads = [] := by
  cases event with
  | call call =>
    cases call with
    | setPartThumb part thumb => exact h.1
    | _ => exact h
  | _ => exact h

theorem Intact.event (h : Intact s) {event : StoreEvent} (henv : storeEvent cfg s event = some (t, new)) :
    Intact t ∧ (∀ a, Passed a s t) ∧ ∀ u ∈ new, s.fresh ≤ u.tag.session := by
  cases event with
  | call call =>
    obtain ⟨rfl, rfl⟩ := Prod.mk.inj (Option.some.inj henv)
    refine ⟨h.rows_kept (Nat.le_succ _), fun a => ?_, fun u hu => ?_⟩
    · exact Passed.of_grows (Rows.Grows.refl a _) (fun _ hk => hk) (Nat.le_succ _)
    · exact List.mem_singleton.mp hu ▸ le_rfl
  | put document data =>
    obtain ⟨rfl, rfl⟩ := Prod.mk.inj (Option.some.inj henv)
    exact ⟨h.rows_kept le_rfl, fun a => Passed.of_grows (Rows.Grows.refl a _) Store.object_kept le_rfl,
      fun _ hu => absurd hu List.not_mem_nil⟩
  | tick duration =>
    obtain ⟨rfl, rfl⟩ := Prod.mk.inj (Option.some.inj henv)
    exact ⟨h.rows_kept le_rfl, fun a => Passed.of_grows (Rows.Grows.refl a _) (fun _ hk => hk) le_rfl,
      fun _ hu => absurd hu List.not_mem_nil⟩

theorem serves_call {call : ServiceCall} (hinv : Intact c.shared) (hok : OneByOne c (.env (.call call))) :
    Keeps (serialContract c.shared.fresh) (fun _ _ => True) (startCall cfg c.shared.fresh call).prog
      { c.shared with fresh := c.shared.fresh + 1 } := by
  have hinv' : Intact { c.shared with fresh := c.shared.fresh + 1 } := hinv.rows_kept (Nat.le_succ _)
  have hidle : Idle c.shared.fresh { c.shared with fresh := c.shared.fresh + 1 } :=
    ⟨fun hb => absurd (hinv.lock_lt _ hb) (Nat.lt_irrefl _), Nat.lt_succ_self _⟩
  have hunborn : ∀ k v, (c.shared.rows none).media k = some v → k.document ≠ c.shared.fresh := by
    intro k v hv
    rcases hinv.sound.media_lt k v hv with hlt | hd
    · exact Nat.ne_of_lt hlt
    · exact hd.elim
  have hcall : Serves c.shared.fresh (call.run cfg c.shared.fresh)
      { c.shared with fresh := c.shared.fresh + 1 } := by
    cases call with
    | requestUpload name => exact serves_requestUpload hinv' hidle hunborn
    | finalize id => exact serves_finalize hinv' hidle
    | getDocument id => exact serves_plain (uses_fetch trivial) hidle
    | ensurePart id locator kind data mime page => exact serves_ensurePart hinv' hidle
    | ensureSourcePart id kind => exact serves_ensureSourcePart hinv' hidle
    | setPartThumb part thumb => exact serves_setPartThumb hinv' hidle hok.2
    | setPageCount id count => exact serves_plain (uses_statement trivial) hidle
    | ensureThumb source data mime => exact serves_ensureThumb hinv' hidle
    | delete ids => exact serves_delete hinv' hidle
    | softDeleteInvalid => exact serves_softDeleteInvalid hinv' hidle
    | purgeExpired => exact serves_purgeExpired hinv' hidle hunborn
  exact Keeps.bind hcall hinv' (fun _ _ _ _ _ _ _ => trivial) fun _ _ _ _ => trivial

theorem serial_env {event : StoreEvent} (hinv : Intact c.shared) (hok : OneByOne c (.env event))
    (henv : storeEvent cfg c.shared event = some (s, new)) :
    ∀ u ∈ new, Keeps (serialContract u.tag.session) (fun _ _ => True) u.prog s := by
  cases event with
  | call call =>
    obtain ⟨rfl, rfl⟩ := Prod.mk.inj (Option.some.inj henv)
    intro u hu
    exact List.mem_singleton.mp hu ▸ serves_call hinv hok
  | put document data =>
    obtain ⟨-, rfl⟩ := Prod.mk.inj (Option.some.inj henv)
    exact fun u hu => absurd hu List.not_mem_nil
  | tick duration =>
    obtain ⟨-, rfl⟩ := Prod.mk.inj (Option.some.inj henv)
    exact fun u hu => absurd hu List.not_mem_nil

theorem OneByOne.no_threads {event : StoreEvent} (h : OneByOne c (.env event))
    {u : Thread DocReply Exc CallTag} (hu : u ∈ c.threads) : False := by
  rw [h.alone] at hu
  exact List.not_mem_nil hu

theorem serial_apart {event : StoreEvent} (hok : OneByOne c (.env event))
    (henv : storeEvent cfg c.shared event = some (s, new)) :
    (new.map Thread.tag).Pairwise (fun _ _ => False) := by
  cases event with
  | call call =>
    obtain ⟨-, rfl⟩ := Prod.mk.inj (Option.some.inj henv)
    exact List.pairwise_singleton _ _
  | put document data =>
    obtain ⟨-, rfl⟩ := Prod.mk.inj (Option.some.inj henv)
    exact List.Pairwise.nil
  | tick duration =>
    obtain ⟨-, rfl⟩ := Prod.mk.inj (Option.some.inj henv)
    exact List.Pairwise.nil

def serialDiscipline (cfg : MediaConfig) : Discipline (serviceCalls cfg) OneByOne where
  inv := Intact
  contract := fun tag => serialContract tag.session
  post := fun _ _ _ => True
  apart := fun _ _ => False
  meaning_eq := fun _ => rfl
  inv_eq := fun _ => rfl
  apart_symm := fun h => h
  others := fun h => h.elim
  fates := fun _ _ _ hadmits _ => hadmits
  exit_keeps := fun _ _ _ hu => absurd hu List.not_mem_nil
  exit_apart := fun _ hu => absurd hu List.not_mem_nil
  exit_pairwise := List.Pairwise.nil
  death_inv := fun {_ _ t} _ _ hinv => (hinv.rollback t.tag.session 0).1
  death_rely := fun _ _ _ h => h.elim
  env_inv := fun _ henv hinv => (hinv.event henv).1
  env_rely := fun hok _ _ _ hu => (hok.no_threads hu).elim
  env_keeps := fun hok henv hinv => serial_env hinv hok henv
  env_apart := fun hok henv _ => ⟨serial_apart hok henv, fun _ hu => (hok.no_threads hu).elim⟩

theorem serial_start (h : Intact s) : (serialDiscipline cfg).Safe ⟨s, []⟩ :=
  ⟨h, fun _ hu => absurd hu List.not_mem_nil, List.Pairwise.nil⟩

theorem serial_only (hsafe : (serialDiscipline cfg).Safe c) {u v : Thread DocReply Exc CallTag}
    (hu : u ∈ c.threads) (hv : v ∈ c.threads) : u = v := by
  obtain ⟨i, hi⟩ := List.getElem?_of_mem hu
  obtain ⟨j, hj⟩ := List.getElem?_of_mem hv
  by_cases hij : i = j
  · subst hij
    exact Option.some.inj (hi.symm.trans hj)
  · exact ((serialDiscipline cfg).apart_of_ne hsafe.apart hi hj hij).elim

/-- A step is an await of the only call, or one that any session could have made and that starts at
most a call with a new number. -/
theorem serial_passed (hsafe : (serialDiscipline cfg).Safe c) (hok : OneByOne c move)
    (h : (serviceCalls cfg).step c move = some d) :
    (∃ u ∈ c.threads, Passed u.tag.session c.shared d.shared ∧
        ∀ v ∈ d.threads, v.tag.session = u.tag.session) ∨
      (∀ a, Passed a c.shared d.shared) ∧
        ∀ v ∈ d.threads, v ∈ c.threads ∨ c.shared.fresh ≤ v.tag.session := by
  obtain ⟨i, fate, u, cmd, rest, rfl, hi, hprog, hadmits, rfl⟩ | ⟨i, u, result, rfl, hi, hended, rfl⟩ |
    ⟨i, u, rfl, hi, rfl⟩ | ⟨event, s, new, rfl, henv, rfl⟩ := System.step_cases h
  · have hu := List.mem_of_getElem? hi
    obtain ⟨_, hpassed, _⟩ := hsafe.await hok hi hprog hadmits
    refine .inl ⟨u, hu, hpassed, fun v hv => ?_⟩
    rcases List.mem_or_eq_of_mem_set hv with hv | rfl
    · rw [serial_only hsafe hv hu]
    · rfl
  · refine .inr ⟨fun a => Passed.refl a _, fun v hv => .inl ?_⟩
    rcases List.mem_append.mp hv with hv | hv
    · exact (List.eraseIdx_sublist c.threads i).subset hv
    · exact absurd hv List.not_mem_nil
  · refine .inr ⟨fun a => (hsafe.inv.rollback u.tag.session a).2, fun v hv => .inl ?_⟩
    exact (List.eraseIdx_sublist c.threads i).subset hv
  · obtain ⟨_, hpassed, hnew⟩ := hsafe.inv.event henv
    refine .inr ⟨hpassed, fun v hv => ?_⟩
    exact (List.mem_append.mp hv).imp_right (hnew v)

/-- The document is not live, and no call will make it so. -/
structure Gone (e : DocumentId) (c : Config DocReply Exc Store CallTag) : Prop where
  lt : e < c.shared.fresh
  dead : ¬ (c.shared.rows none).Live e
  unborn : ∀ u ∈ c.threads, u.tag.session ≠ e

theorem Gone.step (hgone : Gone e c) (hsafe : (serialDiscipline cfg).Safe c) (hok : OneByOne c move)
    (h : (serviceCalls cfg).step c move = some d) : Gone e d := by
  obtain ⟨u, hu, hpassed, hthreads⟩ | ⟨hpassed, hthreads⟩ := serial_passed hsafe hok h
  · refine ⟨hgone.lt.trans_le hpassed.fresh, fun hlive => ?_, fun v hv => ?_⟩
    · rcases hpassed.live e hlive with hlive | heq
      · exact hgone.dead hlive
      · exact hgone.unborn u hu heq.symm
    · rw [hthreads v hv]
      exact hgone.unborn u hu
  · refine ⟨hgone.lt.trans_le (hpassed 0).fresh, fun hlive => ?_, fun v hv => ?_⟩
    · rcases (hpassed (e + 1)).live e hlive with hlive | heq
      · exact hgone.dead hlive
      · exact absurd heq (Nat.ne_of_lt (Nat.lt_succ_self e))
    · rcases hthreads v hv with hv | hfresh
      · exact hgone.unborn v hv
      · exact (Nat.ne_of_lt (hgone.lt.trans_le hfresh)).symm

/-- What a step takes away was a departed document's. -/
theorem Gone.of_step {P : Store → Prop} (hP : ∀ a s t, Passed a s t → P s → P t ∨ Departed a s e)
    (hsafe : (serialDiscipline cfg).Safe c) (hok : OneByOne c move)
    (h : (serviceCalls cfg).step c move = some d) (hc : P c.shared) : P d.shared ∨ Gone e d := by
  obtain ⟨u, _, hpassed, hthreads⟩ | ⟨hpassed, _⟩ := serial_passed hsafe hok h
  · refine (hP _ _ _ hpassed hc).imp_right fun ⟨hlt, hne, hdead⟩ =>
      ⟨hlt.trans_le hpassed.fresh, fun hlive => ?_, fun v hv heq => ?_⟩
    · rcases hpassed.live e hlive with hlive | heq
      · exact hdead hlive
      · exact hne heq
    · exact hne (heq.symm.trans (hthreads v hv))
  · exact (hP e _ _ (hpassed e) hc).imp_right fun ⟨_, hne, _⟩ => absurd rfl hne

variable {b : Config DocReply Exc Store CallTag}

theorem Gone.of_reach {P : Store → Prop} (hP : ∀ a s t, Passed a s t → P s → P t ∨ Departed a s e)
    (hsafe : (serialDiscipline cfg).Safe b) (reach : Reach (serviceCalls cfg) OneByOne b c)
    (hb : P b.shared) : P c.shared ∨ Gone e c := by
  induction reach with
  | start => exact .inl hb
  | step reach hok h ih =>
    have hsafe' := reach.safe (serialDiscipline cfg) hsafe
    rcases ih with hc | hgone
    · exact Gone.of_step hP hsafe' hok h hc
    · exact .inr (hgone.step hsafe' hok h)

theorem Intact.blob_live (h : Intact s) {m : MediaId} (hrefers : (s.rows none).Refers e m)
    (hlive : (s.rows none).Live e) :
    ∃ k v, (s.rows none).media k = some v ∧ v.id = m ∧ v.deletedAt = none ∧ k.document = e := by
  obtain ⟨k, v, hv, hid, hk⟩ := h.sound.whole.refers e m hrefers
  exact ⟨k, v, hv, hid, h.sound.whole.live e hlive id k v hk hv, hk⟩

theorem emptyStore_intact : Intact emptyStore := by
  have hmedia : ∀ k v, (emptyStore.rows none).media k ≠ some v := fun k v hv => by cases hv
  have hdocument : ∀ d row, (emptyStore.rows none).document d ≠ some row := fun d row hrow => by cases hrow
  have hpart : ∀ k row, (emptyStore.rows none).part k ≠ some row := fun k row hrow => by cases hrow
  refine ⟨⟨⟨fun k v hv => absurd hv (hmedia k v), fun d m hd => ?_,
    fun d locator row hrow => absurd hrow (hpart _ row), fun d _ _ k v _ hv => absurd hv (hmedia k v),
    fun k v hv => absurd hv (hmedia k v)⟩, fun k v hv => absurd hv (hmedia k v),
    fun d row hrow => absurd hrow (hdocument d row)⟩, fun m k hk => absurd hk (Option.some_ne_none k).symm,
    fun a ha => ?_⟩
  · rcases hd with ⟨row, hrow, _⟩ | ⟨locator, row, hrow, _⟩
    · exact absurd hrow (hdocument d row)
    · exact absurd hrow (hpart _ row)
  · rcases ha with ⟨k, w, hw⟩ | ⟨k, w, hw⟩ | ⟨k, w, hw⟩ <;> cases hw

theorem refers_rows {m : MediaId} : (s.rows none).Refers e m ↔ s.Refers e m := by
  simp only [Rows.Refers, Store.rows, Table.view_none, Store.Refers]

/-- While a document is not deleted it keeps its references, the media rows of its blobs stay
unmarked, and the objects that these ever had stay too. No media row is removed while its object is
stored. -/
theorem nothing_live_lost (hstart : Reach (serviceCalls cfg) OneByOne ⟨emptyStore, []⟩ b)
    (reach : Reach (serviceCalls cfg) OneByOne b c) :
    (∀ e m, Live c.shared e → (b.shared.Refers e m → c.shared.Refers e m) ∧
      (c.shared.Refers e m → ∃ k v, (c.shared.media.slot k).committed = some v ∧ v.id = m ∧
        v.deletedAt = none ∧ (b.shared.objects k ≠ none → c.shared.objects k ≠ none))) ∧
    ∀ move d, OneByOne c move → (serviceCalls cfg).step c move = some d →
      ∀ k v, (c.shared.media.slot k).committed = some v →
        (∃ v', (d.shared.media.slot k).committed = some v' ∧ v'.id = v.id) ∨
          c.shared.objects k = none ∧ d.shared.objects k = none := by
  have hsafe := hstart.safe (serialDiscipline cfg) (serial_start emptyStore_intact)
  have hsafe' := reach.safe (serialDiscipline cfg) hsafe
  simp only [← Store.live_rows, ← refers_rows, ← Table.view_none]
  refine ⟨fun e m hlive => ⟨fun hrefers => ?_, fun hrefers => ?_⟩, fun move d hok h k v hv => ?_⟩
  · rcases Gone.of_reach (P := fun s => (s.rows none).Refers e m)
      (fun _ _ _ hpassed => hpassed.refers e m) hsafe reach hrefers with hkept | hgone
    · exact hkept
    · exact absurd hlive hgone.dead
  · obtain ⟨k, v, hv, hid, hmark, hk⟩ := Intact.blob_live hsafe'.inv hrefers hlive
    refine ⟨k, v, hv, hid, hmark, fun hobject => ?_⟩
    rcases Gone.of_reach (e := k.document) (P := fun s => s.objects k ≠ none)
      (fun _ _ _ hpassed => hpassed.objects k) hsafe reach hobject with hkept | hgone
    · exact hkept
    · rw [hk] at hgone
      exact absurd hlive hgone.dead
  · obtain ⟨_, _, hpassed, _⟩ | ⟨hpassed, _⟩ := serial_passed hsafe' hok h
    · exact hpassed.media k v hv
    · exact (hpassed 0).media k v hv

end Runs

section Example

def oneByOne : Config DocReply Exc Store CallTag → Move Exc StoreEvent → Bool
  | _, .env (.call (.setPartThumb _ _)) => false
  | c, .env _ => c.threads.isEmpty
  | _, _ => true

theorem oneByOne_sound {c : Config DocReply Exc Store CallTag} {move : Move Exc StoreEvent}
    (h : oneByOne c move = true) : OneByOne c move := by
  cases move with
  | env event =>
    cases event with
    | call call =>
      cases call with
      | setPartThumb part thumb => cases h
      | _ => exact List.isEmpty_iff.mp h
    | _ => exact List.isEmpty_iff.mp h
  | _ => trivial

def twoUploads : List (Move Exc StoreEvent) :=
  inTurn (.requestUpload none) 5 ++ .env (.put 0 [1]) :: inTurn (.requestUpload none) 5 ++
    [.env (.put 2 [2])]

/-- One sweep fails to delete the object, one stops before it deletes the row. -/
def haltedSweeps : List (Move Exc StoreEvent) :=
  inTurn (.delete [0]) 5 ++ .env (.tick 700000000000) :: .env (.call .purgeExpired) ::
    .run 0 .done :: .run 0 (.lost (.external "")) :: .exit 0 :: .env (.call .purgeExpired) ::
    .run 0 .done :: .run 0 .done :: .die 0 :: inTurn .purgeExpired 3

def sweptClean (c : Config DocReply Exc Store CallTag) : Bool :=
  c.shared.media.rows none = [(.original 2, { id := 3, mimeType := none, sizeBytes := none })] &&
    c.shared.document.view none 2 = some { mediaId := 3, name := none }

theorem nothing_live_lost_swept : ∃ c : Config DocReply Exc Store CallTag,
    (c.shared.media.slot (.original 0)).committed = none ∧ ∃ v,
      (c.shared.media.slot (.original 2)).committed = some v ∧ v.deletedAt = none ∧
        c.shared.objects (.original 2) ≠ none := by
  have hrun : ((serviceCalls plainConfig).execWhen oneByOne twoUploads ⟨emptyStore, []⟩).any
      (fun b => (b.shared.objects (.original 2)).isSome &&
        ((serviceCalls plainConfig).execWhen oneByOne haltedSweeps b).any sweptClean) = true := by
    decide +kernel
  obtain ⟨b, hb, hswept⟩ := (Option.any_eq_true _ _).mp hrun
  obtain ⟨hobject, hswept⟩ := (Bool.and_eq_true _ _).mp hswept
  obtain ⟨c, hc, hswept⟩ := (Option.any_eq_true _ _).mp hswept
  obtain ⟨hrows, hdocument⟩ := (Bool.and_eq_true _ _).mp hswept
  have hrows := of_decide_eq_true hrows
  have hdocument := (Table.view_none _ _).symm.trans (of_decide_eq_true hdocument)
  have hstart : Reach (serviceCalls plainConfig) OneByOne ⟨emptyStore, []⟩ b :=
    Reach.start.execWhen (fun _ _ _ => oneByOne_sound) hb
  have reach : Reach (serviceCalls plainConfig) OneByOne b c :=
    Reach.start.execWhen (fun _ _ _ => oneByOne_sound) hc
  have honly : ∀ k v, (c.shared.media.slot k).committed = some v → k = .original 2 := by
    intro k v hv
    have hmem : (k, v) ∈ c.shared.media.rows none := Table.mem_rows.mpr ((Table.view_none _ _).trans hv)
    rw [hrows] at hmem
    exact (Prod.mk.inj (List.mem_singleton.mp hmem)).1
  obtain ⟨k, v, hv, _, hmark, hkept⟩ := ((nothing_live_lost hstart reach).1 2 3
    ⟨_, hdocument, rfl⟩).2 (.inl ⟨_, hdocument, rfl⟩)
  obtain rfl := honly k v hv
  refine ⟨c, ?_, v, hv, hmark, hkept fun hnone => ?_⟩
  · by_contra hsome
    obtain ⟨w, hw⟩ := Option.ne_none_iff_exists'.mp hsome
    cases honly _ w hw
  · rw [hnone] at hobject
    cases hobject

end Example

end Doci
