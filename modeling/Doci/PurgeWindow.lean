import Doci.Deletion
import Doci.Sweep

/-! Runs of service calls on a document that is deleted at some point: if the delete finds
its blobs settled and none comes later, every blob reaches the purge window. -/

namespace Doci

open Coroutine ReadCommitted

/-- A call that ends starts no others. -/
theorem no_threads_apart {_ : Session} {_ : Except Exc Unit} :
    ([] : List Session).Pairwise (· ≠ ·) := List.Pairwise.nil

/-- The moves that keep what `delete` relies on. -/
def OrderlyMove (d : DocumentId) (c : Config DocReply Exc Store CallTag) :
    Move Exc StoreEvent → Prop
  | .run i _ => ∀ t cmd rest, c.threads[i]? = some t → t.prog = .await cmd rest →
    Orderly d c.shared cmd
  | .env (.put e _) => e = d → c.shared.objects (.original e) = none → ¬ Closing c.shared d
  | _ => True

/-- The awaits of call `n` are successful and its process lives on. -/
def SweepSucceeds (d : DocumentId) (n : Session) (c : Config DocReply Exc Store CallTag) :
    Move Exc StoreEvent → Prop
  | .run i fate => ∀ t cmd rest, c.threads[i]? = some t → t.prog = .await cmd rest →
    t.tag.session = n → Successful d c.shared cmd fate
  | .die i => ∀ t, c.threads[i]? = some t → t.tag.session ≠ n
  | _ => True

/-- The calls that run have numbers below the next one. -/
def Numbered (c : Config DocReply Exc Store CallTag) : Prop :=
  ∀ t ∈ c.threads, t.tag.session < c.shared.fresh

section Numbers

variable {cfg : MediaConfig} {c c' : Config DocReply Exc Store CallTag} {move : Move Exc StoreEvent}

theorem serviceCalls_fresh (h : (serviceCalls cfg).step c move = some c') :
    c.shared.fresh ≤ c'.shared.fresh := by
  obtain ⟨_, fate, _, cmd, _, rfl, _, _, _, rfl⟩ | ⟨_, _, _, rfl, _, _, rfl⟩ | ⟨_, _, rfl, _, rfl⟩ |
    ⟨e, s, new, rfl, henv, rfl⟩ := System.step_cases h
  · rcases outcome_snd (serviceCalls cfg).meaning cmd c.shared fate with hs | hs
    · rw [hs]
      exact Store.fresh_le cmd c.shared
    · rw [hs]
  · exact le_rfl
  · exact le_rfl
  · cases e with
    | call call =>
      obtain ⟨rfl, _⟩ := Prod.mk.inj (Option.some.inj henv)
      exact Nat.le_succ _
    | put e data =>
      obtain ⟨rfl, _⟩ := Prod.mk.inj (Option.some.inj henv)
      exact le_rfl
    | tick duration =>
      obtain ⟨rfl, _⟩ := Prod.mk.inj (Option.some.inj henv)
      exact le_rfl

theorem storeEvent_new {s s' : Store} {e : StoreEvent} {new : List (Thread DocReply Exc CallTag)}
    {t : Thread DocReply Exc CallTag} (henv : storeEvent cfg s e = some (s', new)) (ht : t ∈ new) :
    ∃ call, t = startCall cfg s.fresh call ∧ s.fresh < s'.fresh := by
  cases e with
  | call call =>
    obtain ⟨rfl, rfl⟩ := Prod.mk.inj (Option.some.inj henv)
    exact ⟨call, List.mem_singleton.mp ht, Nat.lt_succ_self _⟩
  | put e data =>
    obtain ⟨_, rfl⟩ := Prod.mk.inj (Option.some.inj henv)
    simp at ht
  | tick duration =>
    obtain ⟨_, rfl⟩ := Prod.mk.inj (Option.some.inj henv)
    simp at ht

theorem Numbered.step (hc : Numbered c) (h : (serviceCalls cfg).step c move = some c') :
    Numbered c' := by
  have hfresh := serviceCalls_fresh h
  obtain ⟨i, fate, t, cmd, rest, rfl, hi, _, _, rfl⟩ | ⟨i, t, _, rfl, _, _, rfl⟩ |
    ⟨i, t, rfl, _, rfl⟩ | ⟨e, s, new, rfl, henv, rfl⟩ := System.step_cases h
  · intro u hu
    rcases List.mem_or_eq_of_mem_set hu with hu | rfl
    · exact (hc u hu).trans_le hfresh
    · exact (hc t (List.mem_of_getElem? hi)).trans_le hfresh
  · intro u hu
    have hu : u ∈ c.threads.eraseIdx i := by simpa [serviceCalls] using hu
    exact hc u ((List.eraseIdx_sublist c.threads i).subset hu)
  · exact fun u hu => (hc u ((List.eraseIdx_sublist c.threads i).subset hu)).trans_le hfresh
  · intro u hu
    rcases List.mem_append.mp hu with hu | hu
    · exact (hc u hu).trans_le hfresh
    · obtain ⟨call, rfl, hs⟩ := storeEvent_new henv hu
      exact hs

end Numbers

section Discipline

variable {d : DocumentId} {sweeper : Option Session} {a : Session} {s s' : Store} {cfg : MediaConfig}

theorem keeps_call (call : ServiceCall) (hne : a ≠ d) (hinv : Custody d s)
    (hnot : d ∉ s.snapshots a) :
    Keeps (deletionContract d sweeper a)
      (fun _ t => call = .purgeExpired → sweeper = some a → Purged d t) (call.run cfg a) s := by
  have hidle : ∀ {α : Type} {p : DocProg α} {call : ServiceCall}, call ≠ .purgeExpired →
      Idles d sweeper a p s → Keeps (deletionContract d sweeper a)
        (fun _ t => call = .purgeExpired → sweeper = some a → Purged d t) p s :=
    fun hcall hp => hp.weaken fun _ _ _ _ hc => absurd hc hcall
  cases call with
  | requestUpload name => exact hidle nofun (idles_requestUpload a name hne hinv hnot)
  | finalize id => exact hidle nofun (idles_plain (uses_finalize cfg id) hnot)
  | getDocument id => exact hidle nofun (idles_plain (uses_fetch trivial) hnot)
  | ensurePart id locator kind data mime page =>
    exact hidle nofun (idles_ensurePart id locator kind data mime page hinv hnot)
  | ensureSourcePart id kind => exact hidle nofun (idles_ensureSourcePart id kind hinv hnot)
  | setPartThumb part thumb => exact hidle nofun (idles_statement trivial hnot)
  | setPageCount id count => exact hidle nofun (idles_statement trivial hnot)
  | ensureThumb source data mime =>
    exact hidle nofun (idles_plain (uses_ensureThumb source data mime) hnot)
  | delete ids => exact (keeps_delete cfg hinv hnot).weaken fun _ _ _ _ hc => nomatch hc
  | softDeleteInvalid =>
    exact (keeps_softDeleteInvalid cfg hinv hnot).weaken fun _ _ _ _ hc => nomatch hc
  | purgeExpired => exact (keeps_purgeExpired hinv hnot).weaken fun _ _ _ hpurged _ => hpurged

theorem keeps_startCall (call : ServiceCall) (hne : a ≠ d) (hinv : Custody d s)
    (hnot : d ∉ s.snapshots a) :
    Keeps (deletionContract d sweeper a)
      (fun _ t => call = .purgeExpired → sweeper = some a → Purged d t)
      (startCall cfg a call).prog s := by
  apply (keeps_call call hne hinv hnot).bind hinv
  · exact fun _ t _ hpost u hu _ hcall hs => (hpost hcall hs).later hu
  · exact fun _ _ _ hpost => hpost

theorem Custody.numbers_changed (h : Custody d s) {now : Time} {fresh : Nat}
    (hfresh : s.fresh ≤ fresh) (t : Session) :
    Custody d { s with now := now, fresh := fresh } ∧
      Undisturbed d t s { s with now := now, fresh := fresh } :=
  ⟨⟨h.document_lt.trans_le hfresh, fun m k hm => (h.key_lt m k hm).trans_le hfresh,
    fun t ht => (h.snapshot_lt t ht).trans_le hfresh, h.keyed, h.document_ref, h.part_ref, h.paired,
    h.same_id, h.written, h.live_committed, h.live_dirty, h.gone_marked, h.gone_rows,
    h.document_dirty⟩,
    ⟨fun _ _ hm => hm, fun hl => hl, rfl, fun _ _ _ hv => hv, fun _ hv => hv,
      fun _ _ _ => ⟨fun v hv => ⟨v, hv, rfl⟩, fun ho => ho⟩,
      fun _ _ _ _ => ⟨fun ho => ho, fun he => he, fun v hv => ⟨v, hv, rfl⟩⟩⟩⟩

theorem Custody.event (h : Custody d s) {e : StoreEvent} {new : List (Thread DocReply Exc CallTag)}
    (hput : ∀ f data, e = .put f data → f = d → s.objects (.original f) = none → ¬ Closing s d)
    (henv : storeEvent cfg s e = some (s', new)) (t : Session) :
    Custody d s' ∧ Undisturbed d t s s' := by
  cases e with
  | call call =>
    obtain ⟨rfl, _⟩ := Prod.mk.inj (Option.some.inj henv)
    exact h.numbers_changed (Nat.le_succ _) t
  | put f data =>
    obtain ⟨rfl, _⟩ := Prod.mk.inj (Option.some.inj henv)
    have hkept : Kept d (t + 1) s
        { s with objects := fun k => if k = .original f then some data else s.objects k } := by
      refine h.objects_changed fun k hk ho => ?_
      by_cases hkey : k = .original f
      · subst hkey
        exact .inr (hput f data rfl hk ho)
      · exact .inl (by simp [hkey, ho])
    exact ⟨hkept.custody, hkept.others t (Nat.succ_ne_self t).symm⟩
  | tick duration =>
    obtain ⟨rfl, _⟩ := Prod.mk.inj (Option.some.inj henv)
    exact h.numbers_changed le_rfl t

/-- The moves of a run in which call `sweeper` is a sweep that succeeds. -/
def Admitted (d : DocumentId) (sweeper : Option Session) (c : Config DocReply Exc Store CallTag)
    (move : Move Exc StoreEvent) : Prop :=
  (OrderlyMove d c move ∧ ∀ n, sweeper = some n → SweepSucceeds d n c move) ∧ Numbered c

def deletionDiscipline (cfg : MediaConfig) (d : DocumentId) (sweeper : Option Session) :
    Discipline (serviceCalls cfg) (Admitted d sweeper) where
  inv := Custody d
  contract := fun tag => deletionContract d sweeper tag.session
  post := fun tag _ s => tag.call = .purgeExpired → sweeper = some tag.session → Purged d s
  apart := fun a b => a.session ≠ b.session
  meaning_eq := fun _ => rfl
  inv_eq := fun _ => rfl
  apart_symm := Ne.symm
  others := fun hapart _ _ hguar => hguar _ hapart.symm
  fates := fun hok hi hprog hadmits _ => ⟨hadmits, hok.1.1 _ _ _ hi hprog,
    hok.2 _ (List.mem_of_getElem? hi), fun hs => hok.1.2 _ hs _ _ _ hi hprog rfl⟩
  exit_keeps := fun _ _ _ ht => nomatch ht
  exit_apart := fun _ ht => nomatch ht
  exit_pairwise := List.Pairwise.nil
  death_inv := fun _ _ hinv => hinv.rollback.custody
  death_rely := fun _ _ hinv hapart => hinv.rollback.others _ hapart.symm
  env_inv := fun hok henv hinv => (hinv.event (fun _ _ he => by subst he; exact hok.1.1) henv 0).1
  env_rely := fun hok henv hinv t _ =>
    (hinv.event (fun _ _ he => by subst he; exact hok.1.1) henv t.tag.session).2
  env_keeps := by
    intro c e s new hok henv hinv t ht
    obtain ⟨call, rfl, _⟩ := storeEvent_new henv ht
    obtain ⟨hinv', hstay⟩ := hinv.event (fun _ _ he => by subst he; exact hok.1.1) henv
      c.shared.fresh
    exact keeps_startCall call hinv.document_lt.ne' hinv' fun hsnap =>
      lt_irrefl _ (hinv.snapshot_lt _ (hstay.snapshots ▸ hsnap))
  env_apart := by
    intro c e s new hok henv hinv
    refine ⟨?_, fun t ht u hu => ?_⟩
    · cases e with
      | call call =>
        obtain ⟨_, rfl⟩ := Prod.mk.inj (Option.some.inj henv)
        exact List.pairwise_singleton _ _
      | put e data =>
        obtain ⟨_, rfl⟩ := Prod.mk.inj (Option.some.inj henv)
        exact List.Pairwise.nil
      | tick duration =>
        obtain ⟨_, rfl⟩ := Prod.mk.inj (Option.some.inj henv)
        exact List.Pairwise.nil
    · obtain ⟨call, rfl, _⟩ := storeEvent_new henv hu
      exact (hok.2 t ht).ne

theorem Purged.rollback (h : Purged d s) : Purged d (s.rollback a) := by
  refine ⟨fun hl => h.1 ?_, fun k hk => ⟨?_, (h.2 k hk).2⟩⟩
  · simpa only [Live, Store.rollback, Table.slot_rollback, Slot.committed_rollback] using hl
  · simpa only [Store.rollback, Table.slot_rollback, Slot.committed_rollback] using (h.2 k hk).1

theorem Purged.event (h : Purged d s) {e : StoreEvent} {new : List (Thread DocReply Exc CallTag)}
    (hput : ∀ f data, e = .put f data → f = d → s.objects (.original f) = none → ¬ Closing s d)
    (henv : storeEvent cfg s e = some (s', new)) : Purged d s' := by
  cases e with
  | call call =>
    obtain ⟨rfl, _⟩ := Prod.mk.inj (Option.some.inj henv)
    exact h
  | put f data =>
    obtain ⟨rfl, _⟩ := Prod.mk.inj (Option.some.inj henv)
    refine ⟨h.1, fun k hk => ⟨(h.2 k hk).1, ?_⟩⟩
    by_cases hkey : k = .original f
    · subst hkey
      exact absurd (.inl h.1) (hput f data rfl hk (h.2 _ hk).2)
    · simpa [hkey] using (h.2 k hk).2
  | tick duration =>
    obtain ⟨rfl, _⟩ := Prod.mk.inj (Option.some.inj henv)
    exact h

variable {c c' : Config DocReply Exc Store CallTag} {move : Move Exc StoreEvent}

theorem Purged.step (h : Purged d c.shared) (hsafe : (deletionDiscipline cfg d sweeper).Safe c)
    (hok : Admitted d sweeper c move) (hstep : (serviceCalls cfg).step c move = some c') :
    Purged d c'.shared := by
  apply hsafe.step_rel (G := fun s s' => Purged d s → Purged d s') hok hstep (fun _ h => h) ?_ ?_ ?_ h
  · intro tag s s' _ _ hguar hpurged
    exact hpurged.later (hguar (tag.session + 1) (Nat.succ_ne_self _))
  · exact fun _ _ hpurged => hpurged.rollback
  · exact fun hok henv hpurged => hpurged.event (fun _ _ he => by subst he; exact hok.1.1) henv

end Discipline

/-- The document is live and nothing is on its way: no transaction is open. -/
structure AtRest (d : DocumentId) (s : Store) : Prop where
  live : Live s d
  document_lt : d < s.fresh
  key_lt : ∀ m k, s.mediaKey m = some k → m < s.fresh
  keyed : ∀ k v, (s.media.slot k).committed = some v → s.mediaKey v.id = some k
  document_ref : ∀ e row, (s.document.slot e).committed = some row → BlobOf s e row.mediaId
  part_ref : ∀ e locator row m, (s.part.slot (e, locator)).committed = some row →
    row.mediaId = some m ∨ row.thumbMediaId = some m → BlobOf s e m
  unmarked : ∀ k v, k.document = d → (s.media.slot k).committed = some v →
    v.deletedAt = none ∧ v.purgeAfter = none
  media_unlocked : ∀ k, (s.media.slot k).dirty = none
  document_unlocked : ∀ e, (s.document.slot e).dirty = none
  part_unlocked : ∀ k, (s.part.slot k).dirty = none
  snapshots : ∀ t, s.snapshots t = []

section Runs

variable {d : DocumentId} {n : Session} {s : Store} {cfg : MediaConfig}
  {c c' : Config DocReply Exc Store CallTag}

theorem AtRest.custody (h : AtRest d s) : Custody d s := by
  have hmedia : ∀ k v, (s.media.slot k).Has v → (s.media.slot k).committed = some v := by
    rintro k v (hv | ⟨t, hv⟩)
    · exact hv
    · simp [h.media_unlocked k] at hv
  refine ⟨h.document_lt, h.key_lt, fun t ht => ?_, fun k v hv => h.keyed k v (hmedia k v hv),
    fun e row hrow => ?_, fun e locator row m hrow hm => ?_, fun k v hk hv => ?_,
    fun k v v' t _ _ hd => ?_, fun k t _ hd => ?_, fun _ k v hk hv => (h.unmarked k v hk hv).1,
    fun _ k t v _ hd => ?_, fun hg => absurd h.live hg, fun hg => absurd h.live hg,
    fun t version hd => ?_⟩
  · simp [h.snapshots t] at ht
  · rcases hrow with hrow | ⟨t, hrow⟩
    · exact h.document_ref e row hrow
    · simp [h.document_unlocked e] at hrow
  · rcases hrow with hrow | ⟨t, hrow⟩
    · exact h.part_ref e locator row m hrow hm
    · simp [h.part_unlocked (e, locator)] at hrow
  · obtain ⟨hdel, hpurge⟩ := h.unmarked k v hk (hmedia k v hv)
    simp [hdel, hpurge]
  · simp [h.media_unlocked k] at hd
  · simp [h.media_unlocked k] at hd
  · simp [h.media_unlocked k] at hd
  · simp [h.document_unlocked d] at hd

theorem reach_admitted (reach : Reach (serviceCalls cfg) (OrderlyMove d) ⟨s, []⟩ c)
    (hn : c.shared.fresh ≤ n) :
    Reach (serviceCalls cfg) (Admitted d (some n)) ⟨s, []⟩ c ∧ Numbered c := by
  induction reach with
  | start => exact ⟨.start, fun t ht => nomatch ht⟩
  | @step b e move hreach hok h ih =>
    obtain ⟨hreach', hnum⟩ := ih ((serviceCalls_fresh h).trans hn)
    refine ⟨hreach'.step ⟨⟨hok, fun m hm => ?_⟩, hnum⟩ h, hnum.step h⟩
    obtain rfl := Option.some.inj hm
    have hne : ∀ (i : Nat) t, b.threads[i]? = some t → t.tag.session ≠ n := fun i t hi =>
      ((hnum t (List.mem_of_getElem? hi)).trans_le ((serviceCalls_fresh h).trans hn)).ne
    cases move with
    | run i fate => exact fun t cmd rest hi _ hs => absurd hs (hne i t hi)
    | die i => exact fun t hi => hne i t hi
    | exit i => trivial
    | env e => trivial

theorem AtRest.safe (h : AtRest d s) (sweeper : Option Session) :
    (deletionDiscipline cfg d sweeper).Safe ⟨s, []⟩ :=
  ⟨h.custody, fun _ ht => (nomatch ht), List.Pairwise.nil⟩

end Runs

/-- A finalized document with its original blob, and no call running. -/
def filedStore : Store where
  media := Table.empty.insert none (.original 1) { id := 2, mimeType := some .png, sizeBytes := some 1 }
  document := Table.empty.insert none 1 { mediaId := 2, name := none, status := .ready }
  part := Table.empty
  objects := fun k => if k = .original 1 then some [7] else none
  mediaKey := fun m => if m = 2 then some (.original 1) else none
  partKey := fun _ => none
  snapshots := fun _ => []
  now := 0
  fresh := 3

def plainConfig : MediaConfig where
  zipNames := fun _ => .error .badZipFile
  chunks := fun data => [data]

theorem filedStore_media (k : ObjectKey) : filedStore.media.slot k =
    if k = .original 1 then { committed := some { id := 2, mimeType := some .png, sizeBytes := some 1 } }
    else {} := by
  simp only [filedStore, Table.slot_insert]
  split_ifs <;> rfl

theorem filedStore_document (e : DocumentId) : filedStore.document.slot e =
    if e = 1 then { committed := some { mediaId := 2, name := none, status := .ready } } else {} := by
  simp only [filedStore, Table.slot_insert]
  split_ifs <;> rfl

theorem filedStore_part (k : DocumentId × String) : filedStore.part.slot k = {} := rfl

theorem filedStore_atRest : AtRest 1 filedStore := by
  refine ⟨⟨_, by rw [filedStore_document, if_pos rfl], rfl⟩, by decide, fun m k hm => ?_,
    fun k v hv => ?_, fun e row hrow => ?_, fun e locator row m hrow => ?_, fun k v _ hv => ?_,
    fun k => ?_, fun e => ?_, fun k => rfl, fun t => rfl⟩
  · simp only [filedStore, Option.ite_none_right_eq_some] at hm
    exact hm.1 ▸ by decide
  · rw [filedStore_media] at hv
    split_ifs at hv with hk
    cases hv
    rw [hk]
    rfl
  · rw [filedStore_document] at hrow
    split_ifs at hrow with he
    cases hrow
    exact ⟨.original 1, rfl, he.symm⟩
  · simp [filedStore_part] at hrow
  · rw [filedStore_media] at hv
    split_ifs at hv
    cases hv
    exact ⟨rfl, rfl⟩
  · rw [filedStore_media]
    split_ifs <;> rfl
  · rw [filedStore_document]
    split_ifs <;> rfl

section Runs

variable {d : DocumentId} {s : Store} {cfg : MediaConfig} {c : Config DocReply Exc Store CallTag}

/-- In every state after a delete that found the blobs settled, all of them are in the purge
window, and a sweep whose awaits succeed leaves none of them. -/
theorem deletion_reaches_blobs (hrest : AtRest d s)
    (reach : Reach (serviceCalls cfg) (OrderlyMove d) ⟨s, []⟩ c) :
    (¬ Live c.shared d → ∀ k, k.document = d →
      (∀ v, (c.shared.media.slot k).committed = some v →
        v.deletedAt.isSome ∧ v.purgeAfter.isSome) ∧
      ((c.shared.media.slot k).committed = none → c.shared.objects k = none)) ∧
    ∀ c₁ c₂, (serviceCalls cfg).step c (.env (.call .purgeExpired)) = some c₁ →
      Reach (serviceCalls cfg)
        (fun e move => OrderlyMove d e move ∧ SweepSucceeds d c.shared.fresh e move) c₁ c₂ →
      (∀ t ∈ c₂.threads, t.tag.session ≠ c.shared.fresh) → Purged d c₂.shared := by
  obtain ⟨hreach, hnum⟩ := reach_admitted reach le_rfl
  have hsafe := hreach.safe (deletionDiscipline cfg d (some c.shared.fresh)) (hrest.safe _)
  have hinv : Custody d c.shared := hsafe.inv
  refine ⟨fun hg k hk => ⟨fun v hv => ?_, fun hnone => (hinv.gone_rows hg k hk hnone).2⟩, ?_⟩
  · have hmark := hinv.gone_marked hg k v hk (.inl hv)
    exact ⟨hmark, hinv.paired k v hk (.inl hv) ▸ hmark⟩
  · intro c₁ c₂ hcall hrun hdone
    have hnum₁ : Numbered c₁ := hnum.step hcall
    have hok : Admitted d (some c.shared.fresh) c (.env (.call .purgeExpired)) :=
      ⟨⟨trivial, fun _ _ => trivial⟩, hnum⟩
    have hsafe₁ := hsafe.step hok hcall
    have hrun' := hrun.strengthen (I := Numbered) fun e hreach =>
      hreach.invariant hnum₁ fun _ _ _ hnum _ h => hnum.step h
    have hadmitted : Reach (serviceCalls cfg) (Admitted d (some c.shared.fresh)) c₁ c₂ :=
      hrun'.weaken fun _ _ hok => ⟨⟨hok.1.1, fun m hm => Option.some.inj hm ▸ hok.1.2⟩, hok.2⟩
    have hmem : (⟨c.shared.fresh, .purgeExpired⟩ : CallTag) ∈ c₁.threads.map Thread.tag := by
      obtain rfl : (⟨_, c.threads ++ [_]⟩ : Config DocReply Exc Store CallTag) = c₁ :=
        Option.some.inj hcall
      simp [startCall]
    rcases hadmitted.ended (deletionDiscipline cfg d (some c.shared.fresh)) hsafe₁ hmem
        (fun hok hi ht => hok.1.2 _ rfl _ hi (by rw [ht])) (fun _ _ hpost => hpost rfl rfl)
        (fun hsafe hok h hpurged => hpurged.step hsafe hok h) with hmem | hpurged
    · obtain ⟨t, ht, htag⟩ := List.mem_map.mp hmem
      exact absurd (by rw [htag]) (hdone t ht)
    · exact hpurged

end Runs

def firstPageKey : ObjectKey := .region 1 (pageLocator 1)

def firstThumb : ObjectKey := .thumb firstPageKey

def firstPart : DocumentPartRow where
  id := 5
  kind := .image
  pageNumber := some 1
  mediaId := some 3
  thumbMediaId := some 4

/-- The filed document with a page and the page's thumbnail. -/
def pagedStore : Store where
  media := (filedStore.media.insert none firstPageKey
    { id := 3, mimeType := some .png, sizeBytes := some 1 }).insert none firstThumb
      { id := 4, mimeType := some .png, sizeBytes := some 1 }
  document := filedStore.document
  part := Table.empty.insert none (1, pageLocator 1) firstPart
  objects := fun k => if k = firstPageKey then some [8] else if k = firstThumb then some [9] else
    filedStore.objects k
  mediaKey := fun m => if m = 3 then some firstPageKey else if m = 4 then some firstThumb else
    filedStore.mediaKey m
  partKey := fun part => if part = 5 then some (1, pageLocator 1) else none
  snapshots := fun _ => []
  now := 0
  fresh := 6

theorem pagedStore_media (k : ObjectKey) : pagedStore.media.slot k =
    if k = firstThumb then { committed := some { id := 4, mimeType := some .png, sizeBytes := some 1 } }
    else if k = firstPageKey then
      { committed := some { id := 3, mimeType := some .png, sizeBytes := some 1 } }
    else filedStore.media.slot k := by
  simp only [pagedStore, Table.slot_insert]
  split_ifs <;> rfl

theorem pagedStore_part (k : DocumentId × String) : pagedStore.part.slot k =
    if k = (1, pageLocator 1) then { committed := some firstPart } else {} := by
  simp only [pagedStore, Table.slot_insert]
  split_ifs <;> rfl

theorem pagedStore_row {k : ObjectKey} {v : MediaRow}
    (h : (pagedStore.media.slot k).committed = some v) :
    k = firstThumb ∧ v.id = 4 ∧ v.deletedAt = none ∧ v.purgeAfter = none ∨
      k = firstPageKey ∧ v.id = 3 ∧ v.deletedAt = none ∧ v.purgeAfter = none ∨
        k = .original 1 ∧ v.id = 2 ∧ v.deletedAt = none ∧ v.purgeAfter = none := by
  rw [pagedStore_media, filedStore_media] at h
  split_ifs at h with hthumb hpage horiginal
  · cases h
    exact .inl ⟨hthumb, rfl, rfl, rfl⟩
  · cases h
    exact .inr (.inl ⟨hpage, rfl, rfl, rfl⟩)
  · cases h
    exact .inr (.inr ⟨horiginal, rfl, rfl, rfl⟩)

theorem pagedStore_atRest : AtRest 1 pagedStore := by
  have hrest := filedStore_atRest
  refine ⟨hrest.live, by decide, fun m k hm => ?_, fun k v hv => ?_, fun e row hrow => ?_,
    fun e locator row m hrow hm => ?_, fun k v _ hv => ?_, fun k => ?_, hrest.document_unlocked,
    fun k => ?_, fun t => rfl⟩
  · simp only [pagedStore, filedStore] at hm
    split_ifs at hm with hpage hthumb horiginal
    · exact hpage ▸ by decide
    · exact hthumb ▸ by decide
    · exact horiginal ▸ by decide
  · rcases pagedStore_row hv with ⟨rfl, hid, _⟩ | ⟨rfl, hid, _⟩ | ⟨rfl, hid, _⟩ <;> rw [hid] <;> rfl
  · change (filedStore.document.slot e).committed = some row at hrow
    rw [filedStore_document] at hrow
    split_ifs at hrow with he
    cases hrow
    exact ⟨.original 1, rfl, he.symm⟩
  · rw [pagedStore_part] at hrow
    split_ifs at hrow with he
    cases hrow
    obtain ⟨rfl, rfl⟩ := Prod.mk.inj he
    rcases hm with hm | hm
    · obtain rfl := Option.some.inj hm
      exact ⟨firstPageKey, rfl, rfl⟩
    · obtain rfl := Option.some.inj hm
      exact ⟨firstThumb, rfl, rfl⟩
  · rcases pagedStore_row hv with ⟨_, _, h⟩ | ⟨_, _, h⟩ | ⟨_, _, h⟩ <;> exact h
  · rw [pagedStore_media, filedStore_media]
    split_ifs <;> rfl
  · rw [pagedStore_part]
    split_ifs <;> rfl

theorem pagedStore_settled (a : Session) (n : Nat) : Settled 1 a { pagedStore with fresh := n } := by
  refine ⟨fun k v _ hv => ?_, fun k hk hv => ?_⟩
  · rcases pagedStore_row hv with ⟨_, hid, _⟩ | ⟨_, hid, _⟩ | ⟨_, hid, _⟩
    · exact .inr ⟨pageLocator 1, _, rfl, .inr (hid ▸ rfl)⟩
    · exact .inr ⟨pageLocator 1, _, rfl, .inl (hid ▸ rfl)⟩
    · exact .inl ⟨_, rfl, hid.symm⟩
  · change (pagedStore.media.slot k).committed = none at hv
    change (pagedStore.media.slot k).dirty = none ∧ pagedStore.objects k = none
    rw [pagedStore_media, filedStore_media] at hv ⊢
    split_ifs at hv ⊢ with hthumb hpage horiginal
    exact ⟨rfl, by simp [pagedStore, filedStore, hthumb, hpage, horiginal]⟩

/-- No blob is stored, none is chosen unless `choosing`, and a thumbnail is recorded on a part of its
own document. -/
def storesNothing (choosing : Bool) (c : Config DocReply Exc Store CallTag) :
    Move Exc StoreEvent → Bool
  | .run i _ => match c.threads[i]?.map Thread.prog with
    | some (.await (.blobIds _ _) _) => choosing
    | some (.await (.uploadObject _ _) _) => false
    | some (.await (.insertBlob _ _ _ _) _) => false
    | some (.await (.setPartThumb part thumb) _) => (c.shared.partKey part).all fun key =>
      (c.shared.mediaKey thumb).any fun k => k.document = key.1
    | _ => true
  | .env (.put _ _) => false
  | _ => true

theorem orderly_of_storesNothing {choosing : Bool} {c : Config DocReply Exc Store CallTag}
    {move : Move Exc StoreEvent} (h : storesNothing choosing c move = true)
    (hsettled : choosing = true → ∀ a, Settled 1 a c.shared) : OrderlyMove 1 c move := by
  cases move with
  | run i fate =>
    intro t cmd rest hi hprog
    simp only [storesNothing, hi, Option.map_some, hprog] at h
    cases cmd with
    | blobIds session ids => exact fun _ _ => hsettled h session
    | uploadObject key data => cases h
    | insertBlob session key mime size => cases h
    | setPartThumb part thumb =>
      intro key hkey
      simp only [hkey, Option.all_some] at h
      obtain ⟨k, hk, hdoc⟩ := (Option.any_eq_true _ _).mp h
      exact ⟨k, hk, of_decide_eq_true hdoc⟩
    | _ => trivial
  | exit i => trivial
  | die i => trivial
  | env e =>
    cases e with
    | put e data => cases h
    | call call => trivial
    | tick duration => trivial

/-- A thumbnail call reads its page before a delete. -/
def untilChosen : List (Move Exc StoreEvent) :=
  [.env (.call (.ensureThumb 3 [9] (some .png))), .run 0 .done, .env (.call (.delete [1])), .run 1 .done]

/-- It finds the thumbnail while the delete marks, and the thumbnail is recorded again after it. -/
def sinceChosen : List (Move Exc StoreEvent) :=
  [.run 1 .done, .run 0 .done, .run 1 .done, .exit 0, .run 0 .done, .exit 0,
    .env (.call (.setPartThumb 5 4)), .run 0 .done, .exit 0]

def documentGone (c : Config DocReply Exc Store CallTag) : Bool :=
  c.threads.isEmpty && (c.shared.document.slot 1).committed.any (fun row => row.deletedAt.isSome) &&
    [.original 1, firstPageKey, firstThumb].all fun k => (c.shared.media.slot k).committed.isSome

theorem deletion_reaches_thumbnail :
    ∃ c, Reach (serviceCalls plainConfig) (OrderlyMove 1) ⟨pagedStore, []⟩ c ∧ ¬ Live c.shared 1 ∧
      ∀ k ∈ [.original 1, firstPageKey, firstThumb], ∃ v, (c.shared.media.slot k).committed = some v ∧
        v.deletedAt.isSome ∧ v.purgeAfter.isSome := by
  have hrun : (((serviceCalls plainConfig).execWhen (storesNothing false) untilChosen
      ⟨pagedStore, []⟩).bind fun c => ((serviceCalls plainConfig).execWhen (storesNothing true)
        [.run 1 .done] c).bind ((serviceCalls plainConfig).execWhen (storesNothing false)
          sinceChosen)).any documentGone = true := by decide +kernel
  have hfresh : ((serviceCalls plainConfig).execWhen (storesNothing false) untilChosen
      ⟨pagedStore, []⟩).map Config.shared = some { pagedStore with fresh := 8 } := rfl
  obtain ⟨c, hc, hgone⟩ := (Option.any_eq_true _ _).mp hrun
  obtain ⟨c₁, hc₁, hrest⟩ := Option.bind_eq_some_iff.mp hc
  obtain ⟨c₂, hc₂, hc₃⟩ := Option.bind_eq_some_iff.mp hrest
  have hshared : c₁.shared = { pagedStore with fresh := 8 } := by
    rw [hc₁] at hfresh
    exact Option.some.inj hfresh
  have hok : ∀ e move, storesNothing false e move = true → OrderlyMove 1 e move :=
    fun _ _ h => orderly_of_storesNothing h fun hfalse => absurd hfalse Bool.false_ne_true
  have hreach₁ : Reach (serviceCalls plainConfig) (OrderlyMove 1) ⟨pagedStore, []⟩ c₁ :=
    Reach.start.execWhen (fun e move _ => hok e move) hc₁
  have hreach₂ : Reach (serviceCalls plainConfig) (OrderlyMove 1) ⟨pagedStore, []⟩ c₂ := by
    simp only [System.execWhen, Option.ite_none_right_eq_some] at hc₂
    obtain ⟨e, hstep, he⟩ := Option.bind_eq_some_iff.mp hc₂.2
    obtain rfl := Option.some.inj he
    exact hreach₁.step (orderly_of_storesNothing hc₂.1 fun _ a => hshared ▸ pagedStore_settled a 8) hstep
  have hreach : Reach (serviceCalls plainConfig) (OrderlyMove 1) ⟨pagedStore, []⟩ c :=
    hreach₂.execWhen (fun e move _ => hok e move) hc₃
  simp only [documentGone, Bool.and_eq_true, List.all_eq_true] at hgone
  have hdeleted : ¬ Live c.shared 1 := by
    rintro ⟨row, hrow, hdel⟩
    simp [hrow, hdel] at hgone
  refine ⟨c, hreach, hdeleted, fun k hk => ?_⟩
  obtain ⟨v, hv⟩ := Option.isSome_iff_exists.mp (hgone.2 k hk)
  have hdocument : k.document = 1 := by
    simp only [List.mem_cons, List.not_mem_nil, or_false] at hk
    rcases hk with rfl | rfl | rfl <;> rfl
  exact ⟨v, hv, ((deletion_reaches_blobs pagedStore_atRest hreach).1 hdeleted k hdocument).1 v hv⟩

def inTurn (call : ServiceCall) (awaits : Nat) : List (Move Exc StoreEvent) :=
  .env (.call call) :: List.replicate awaits (.run 0 .done) ++ [.exit 0]

/-- The thumbnail of the first page is stored before a delete and recorded after it. -/
def lateThumbnail : List (Move Exc StoreEvent) :=
  inTurn (.ensurePart 1 (pageLocator 1) .image [8] (some .png) (some 1)) 7 ++
  inTurn (.ensureThumb 4 [9] (some .png)) 5 ++ inTurn (.delete [1]) 5 ++
  inTurn (.setPartThumb 5 7) 1 ++ .env (.tick 700000000000) :: inTurn .purgeExpired 4

/-- The thumbnail's row and object are there and no sweep will ever take them. -/
def thumbnailLeft (c : Config DocReply Exc Store CallTag) : Bool :=
  c.threads.isEmpty && (c.shared.document.slot 1).committed.isNone &&
    (c.shared.media.slot firstThumb).committed.any (fun row => row.purgeAfter.isNone) &&
    (c.shared.objects firstThumb).isSome

theorem thumbnail_outlives_delete :
    ∃ c, (serviceCalls plainConfig).exec lateThumbnail ⟨filedStore, []⟩ = some c ∧ c.threads = [] ∧
      ¬ Live c.shared 1 ∧ ∃ row, (c.shared.media.slot firstThumb).committed = some row ∧
        row.purgeAfter = none ∧ c.shared.objects firstThumb ≠ none := by
  have hrun : ((serviceCalls plainConfig).exec lateThumbnail ⟨filedStore, []⟩).any thumbnailLeft =
      true := by decide +kernel
  obtain ⟨c, hc, hleft⟩ := (Option.any_eq_true _ _).mp hrun
  simp only [thumbnailLeft, Bool.and_eq_true, List.isEmpty_iff, Option.isNone_iff_eq_none] at hleft
  obtain ⟨⟨⟨hthreads, hdoc⟩, hrow⟩, hobj⟩ := hleft
  obtain ⟨row, hrow, hpurge⟩ := (Option.any_eq_true _ _).mp hrow
  refine ⟨c, hc, hthreads, fun ⟨_, hlive, _⟩ => ?_, row, hrow, Option.isNone_iff_eq_none.mp hpurge,
    Option.isSome_iff_ne_none.mp hobj⟩
  simp [hdoc] at hlive

end Doci
