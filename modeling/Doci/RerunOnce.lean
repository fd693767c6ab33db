import Doci.Reruns

/-! A failure is run again at most once as long as no two reads of it overlap. -/

namespace Doci

open Coroutine

def Sender.Started (b : RetryBoard) : Sender → Prop
  | api => b.sent = true
  | request number => number < b.requests
  | worker delivery => delivery < b.deliveries

structure RetryBoard.Sound (b : RetryBoard) : Prop extends b.RunOnce where
  taken_le : ∀ e ∈ b.taken, e.2 ≤ b.failures
  answers_le : ∀ e ∈ b.answers, e.2 ≤ b.failures
  pending : b.row.Failed → ∀ e ∈ b.answers, e.2 = b.failures → e ∈ b.taken
  alone : ∀ e ∈ b.taken, ∀ e' ∈ b.taken ++ b.answers, e.2 = e'.2 → e = e'
  senders : ∀ e ∈ b.answers, e.1.Started b
  repliers : ∀ x ∈ b.replies, (Sender.request x.1).Started b

/-- What concerns one sender has stayed. -/
structure Same (sender : Sender) (b b' : RetryBoard) : Prop where
  taken : ∀ failure, (sender, failure) ∈ b'.taken ↔ (sender, failure) ∈ b.taken
  answers : ∀ failure, (sender, failure) ∈ b'.answers ↔ (sender, failure) ∈ b.answers
  replies : ∀ request reply, sender = .request request →
    ((request, reply) ∈ b'.replies ↔ (request, reply) ∈ b.replies)
  started : ∀ other : Sender, other.Started b → other.Started b'

/-- A sender relies on the others to leave what concerns it alone. -/
def retry (life : TaskLife) (sender : Sender) : Contract RetryAnswer RetryError RetryBoard where
  meaning := RetryBoard.meaning life
  inv := RetryBoard.Sound
  rely := Same sender
  guar b b' := ∀ other, other ≠ sender → Same other b b'
  fate c b fate := fate = .done ∧
    ∀ request, c = .hgetall request → b.row.Failed → b.row.Retryable ∧ ∀ e ∈ b.taken, e.2 ≠ b.failures
  rely_refl _ := ⟨fun _ => .rfl, fun _ => .rfl, fun _ _ _ => .rfl, fun _ h => h⟩
  rely_trans h h' := ⟨fun f => (h'.taken f).trans (h.taken f), fun f => (h'.answers f).trans (h.answers f),
    fun r reply hr => (h'.replies r reply hr).trans (h.replies r reply hr),
    fun other hs => h'.started other (h.started other hs)⟩

/-- The sender has started and told its client nothing. -/
def RetryBoard.Silent (sender : Sender) (b : RetryBoard) : Prop :=
  sender.Started b ∧ ∀ request reply, sender = .request request → (request, reply) ∉ b.replies

def RetryBoard.Unsent (sender : Sender) (b : RetryBoard) : Prop :=
  (∀ failure, (sender, failure) ∉ b.answers) ∧ b.Silent sender

def RetryBoard.Answering (sender : Sender) (b : RetryBoard) : Prop :=
  (∃ failure, (sender, failure) ∈ b.answers) ∧ b.Silent sender

theorem Sender.Started.grows {b b' : RetryBoard} {sender : Sender} (h : sender.Started b)
    (hsent : b.sent = true → b'.sent = true) (hrequests : b.requests ≤ b'.requests)
    (hdeliveries : b.deliveries ≤ b'.deliveries) : sender.Started b' := by
  cases sender with
  | api => exact hsent h
  | request number => exact Nat.lt_of_lt_of_le h hrequests
  | worker delivery => exact Nat.lt_of_lt_of_le h hdeliveries

section Rows

variable {row : Row} {field : String}

theorem lookup_hset_of_not_mem {mapping : Fields} (h : field ∉ mapping.map Prod.fst) :
    (row.hset mapping).lookup field = row.lookup field := by
  induction mapping generalizing row with
  | nil => rfl
  | cons fv mapping ih =>
    obtain ⟨hne, hrest⟩ := not_or.mp (List.mem_cons.not.mp h)
    exact (ih hrest).trans (AList.lookup_insert_ne hne)

theorem lookup_hdel_of_not_mem {fields : List String} (h : field ∉ fields) :
    (row.hdel fields).lookup field = row.lookup field := by
  induction fields generalizing row with
  | nil => rfl
  | cons f fields ih =>
    obtain ⟨hne, hrest⟩ := not_or.mp (List.mem_cons.not.mp h)
    exact (ih hrest).trans (AList.lookup_erase_ne hne)

theorem state_hset {before after : Fields} {state : String} (h : "state" ∉ after.map Prod.fst) :
    (row.hset (before ++ ("state", state) :: after)).state = some state := by
  rw [Row.hset, List.foldl_append, List.foldl_cons]
  exact (lookup_hset_of_not_mem h).trans (AList.lookup_insert _)

theorem not_failed_queued (message : TaskiqMessage) (now : String) :
    ¬ (row.hset (queuedFields message now)).Failed := by
  have hstate : (row.hset (queuedFields message now)).state = some "queued" :=
    @state_hset row [("task_id", message.taskId), ("task_name", message.taskName)] _ "queued" (by simp)
  simp [Row.Failed, hstate]

theorem not_failed_running (now : String) : ¬ (row.hset (runningFields now)).Failed := by
  have hstate : (row.hset (runningFields now)).state = some "running" :=
    @state_hset row [] _ "running" (by simp)
  simp [Row.Failed, hstate]

theorem failed_hdel : (row.hdel runtimeFields).Failed ↔ row.Failed := by
  have hstate : (row.hdel runtimeFields).state = row.state := lookup_hdel_of_not_mem (by decide)
  rw [Row.Failed, Row.Failed, hstate]

end Rows

section Steps

variable {b : RetryBoard} {sender : Sender}

theorem same_refl (b : RetryBoard) : Same sender b b :=
  ⟨fun _ => .rfl, fun _ => .rfl, fun _ _ _ => .rfl, fun _ h => h⟩

/-- A record that is not `failed` asks nothing of those who have sent a message. -/
theorem RetryBoard.Sound.reset (h : b.Sound) {row : Row} {taken : List (Sender × Nat)} (hrow : ¬ row.Failed)
    (htaken : taken ⊆ b.taken) : RetryBoard.Sound { b with row, taken } where
  once := h.once
  replied := h.replied
  taken_le e he := h.taken_le e (htaken he)
  answers_le := h.answers_le
  pending hfailed := absurd hfailed hrow
  alone e he e' he' heq := by
    refine h.alone e (htaken he) e' ?_ heq
    exact (List.mem_append.mp he').elim (fun h => List.mem_append_left _ (htaken h))
      fun h => List.mem_append_right _ h
  senders := h.senders
  repliers := h.repliers

theorem RetryBoard.Sound.hdel (h : b.Sound) : RetryBoard.Sound { b with row := b.row.hdel runtimeFields } :=
  ⟨⟨h.once, h.replied⟩, h.taken_le, h.answers_le, fun hfailed => h.pending (failed_hdel.mp hfailed), h.alone,
    h.senders, h.repliers⟩

theorem set_queued (b : RetryBoard) (sender : Sender) (message : TaskiqMessage) (now : String) :
    b.set (.queued sender) (queuedFields message now) =
      { b with row := b.row.hset (queuedFields message now), taken := b.taken.filter (·.1 ≠ sender) } := by
  simp [RetryBoard.set, not_failed_queued]

theorem set_running (b : RetryBoard) (now : String) :
    b.set .running (runningFields now) = { b with row := b.row.hset (runningFields now) } := by
  simp [RetryBoard.set, not_failed_running]

/-- The end of a delivery: only a change of the record to `failed` is a new failure. -/
theorem RetryBoard.Sound.ended (h : b.Sound) (delivery : Nat) (resends : Bool) (mapping : Fields) :
    (b.set (.ended delivery resends) mapping).Sound := by
  by_cases hfailed : (b.row.hset mapping).Failed
  · by_cases hbefore : b.row.Failed
    · have hset : b.set (.ended delivery resends) mapping = { b with row := b.row.hset mapping } := by
        simp [RetryBoard.set, hbefore]
      rw [hset]
      exact ⟨⟨h.once, h.replied⟩, h.taken_le, h.answers_le, fun _ => h.pending hbefore, h.alone, h.senders, h.repliers⟩
    · have hset : b.set (.ended delivery resends) mapping = { b with
          row := b.row.hset mapping
          failures := b.failures + 1
          taken := if resends then (.worker delivery, b.failures + 1) :: b.taken else b.taken } := by
        simp [RetryBoard.set, hbefore, hfailed]
      have hcases : ∀ e ∈ (if resends then (.worker delivery, b.failures + 1) :: b.taken else b.taken),
          e = (.worker delivery, b.failures + 1) ∨ e ∈ b.taken := by
        intro e he
        split_ifs at he
        · exact List.mem_cons.mp he
        · exact .inr he
      rw [hset]
      refine ⟨⟨h.once, h.replied⟩, fun e he => ?_, fun e he => ?_, fun _ e he heq => ?_,
        fun e he e' he' heq => ?_, h.senders, h.repliers⟩
      · rcases hcases e he with rfl | he
        · exact Nat.le_refl _
        · exact Nat.le_succ_of_le (h.taken_le e he)
      · exact Nat.le_succ_of_le (h.answers_le e he)
      · have hle := h.answers_le e he
        simp only at heq
        omega
      · have hold : ∀ e ∈ b.taken ++ b.answers, e.2 ≤ b.failures := by
          intro e he
          rcases List.mem_append.mp he with he | he
          · exact h.taken_le e he
          · exact h.answers_le e he
        have hother : e' = (.worker delivery, b.failures + 1) ∨ e' ∈ b.taken ++ b.answers := by
          rcases List.mem_append.mp he' with he' | he'
          · exact (hcases e' he').imp_right (List.mem_append_left _)
          · exact .inr (List.mem_append_right _ he')
        rcases hcases e he with rfl | he
        · rcases hother with rfl | he'
          · rfl
          · have hle := hold e' he'
            simp only at heq
            omega
        · rcases hother with rfl | he'
          · have hle := h.taken_le e he
            simp only at heq
            omega
          · exact h.alone e he e' he' heq
  · have hset : b.set (.ended delivery resends) mapping = { b with row := b.row.hset mapping } := by
      simp [RetryBoard.set, hfailed]
    rw [hset]
    exact h.reset hfailed (List.Subset.refl _)

theorem RetryBoard.Sound.take (h : b.Sound) (request : Nat)
    (hapart : b.row.Retryable → ∀ e ∈ b.taken, e.2 ≠ b.failures) : (b.take request).Sound := by
  rw [RetryBoard.take]
  split_ifs with hrow
  · have hnone : ∀ e ∈ b.taken ++ b.answers, e.2 ≠ b.failures := by
      intro e he
      rcases List.mem_append.mp he with he | he
      · exact hapart hrow e he
      · exact fun heq => hapart hrow e (h.pending hrow.1 e he heq) heq
    refine ⟨⟨h.once, h.replied⟩, fun e he => ?_, h.answers_le, fun hfailed e he heq => ?_,
      fun e he e' he' heq => ?_, h.senders, h.repliers⟩
    · rcases List.mem_cons.mp he with rfl | he
      · exact Nat.le_refl _
      · exact h.taken_le e he
    · exact List.mem_cons_of_mem _ (h.pending hfailed e he heq)
    · rcases List.mem_cons.mp he with rfl | he
      · rcases List.mem_cons.mp he' with rfl | he'
        · rfl
        · exact absurd heq.symm (hnone e' he')
      · rcases List.mem_cons.mp he' with rfl | he'
        · exact absurd heq (hnone e (List.mem_append_left _ he))
        · exact h.alone e he e' he' heq
  · exact h

theorem mem_send {message : TaskiqMessage} {e : Sender × Nat} :
    e ∈ (b.send sender message).answers ↔ b.taken.find? (·.1 = sender) = some e ∨ e ∈ b.answers := by
  rw [RetryBoard.send, List.mem_append, Option.mem_toList]

theorem RetryBoard.Sound.send (h : b.Sound) (hunsent : b.Unsent sender) (message : TaskiqMessage) :
    (b.send sender message).Sound := by
  have hfound : ∀ e, b.taken.find? (·.1 = sender) = some e → e ∈ b.taken ∧ e.1 = sender := by
    intro e he
    exact ⟨List.mem_of_find?_eq_some he, by simpa using List.find?_some he⟩
  refine ⟨⟨?_, fun x hx => ?_⟩, h.taken_le, fun e he => ?_, fun hfailed e he heq => ?_,
    fun e he e' he' heq => ?_, fun e he => ?_, h.repliers⟩
  · cases htake : b.taken.find? (·.1 = sender) with
    | none =>
      have hanswers : (b.send sender message).answers = b.answers := by simp [RetryBoard.send, htake]
      rw [hanswers]
      exact h.once
    | some e =>
      have hanswers : (b.send sender message).answers = e :: b.answers := by
        simp [RetryBoard.send, htake]
      obtain ⟨hmem, hsender⟩ := hfound e htake
      rw [hanswers, List.map_cons, List.nodup_cons]
      refine ⟨fun hin => ?_, h.once⟩
      obtain ⟨e', he', heq⟩ := List.mem_map.mp hin
      obtain rfl := h.alone e hmem e' (List.mem_append_right _ he') heq.symm
      exact hunsent.1 e.2 (hsender ▸ he')
  · obtain ⟨request, reply⟩ := x
    have hother : Sender.request request ≠ sender := fun heq => hunsent.2.2 request reply heq.symm hx
    have hkeep : ∀ failure, (.request request, failure) ∈ (b.send sender message).answers ↔
        (.request request, failure) ∈ b.answers := by
      intro failure
      rw [mem_send]
      exact or_iff_right fun he => hother (hfound _ he).2
    have hreplied := h.replied _ hx
    cases reply with
    | requeued =>
      obtain ⟨failure, hanswer⟩ := hreplied
      exact ⟨failure, (hkeep failure).mpr hanswer⟩
    | unknown => exact fun failure hanswer => hreplied failure ((hkeep failure).mp hanswer)
    | conflict state =>
      exact ⟨hreplied.1, fun failure hanswer => hreplied.2 failure ((hkeep failure).mp hanswer)⟩
  · rcases mem_send.mp he with he | he
    · exact h.taken_le e (hfound e he).1
    · exact h.answers_le e he
  · rcases mem_send.mp he with he | he
    · exact (hfound e he).1
    · exact h.pending hfailed e he heq
  · refine h.alone e he e' ?_ heq
    rcases List.mem_append.mp he' with he' | he'
    · exact List.mem_append_left _ he'
    · rcases mem_send.mp he' with he' | he'
      · exact List.mem_append_left _ (hfound e' he').1
      · exact List.mem_append_right _ he'
  · rcases mem_send.mp he with he | he
    · exact (hfound e he).2 ▸ hunsent.2.1
    · exact h.senders e he

theorem RetryBoard.Sound.respond (h : b.Sound) {request : Nat} {reply : RetryReply}
    (hstarted : (Sender.request request).Started b) (hreply : b.Replied request reply) :
    RetryBoard.Sound { b with replies := (request, reply) :: b.replies } := by
  refine ⟨⟨h.once, fun x hx => ?_⟩, h.taken_le, h.answers_le, h.pending, h.alone, h.senders, fun x hx => ?_⟩
  · rcases List.mem_cons.mp hx with rfl | hx
    · cases reply <;> exact hreply
    · have hreplied := h.replied x hx
      obtain ⟨request', reply'⟩ := x
      cases reply' <;> exact hreplied
  · rcases List.mem_cons.mp hx with rfl | hx
    · exact hstarted
    · exact h.repliers x hx

end Steps

section Programs

variable {life : TaskLife} {b : RetryBoard} {sender : Sender} {message : TaskiqMessage}

theorem RetryBoard.Silent.stable {t : RetryBoard} (h : b.Silent sender) (hsame : Same sender b t) :
    t.Silent sender :=
  ⟨hsame.started sender h.1,
    fun request reply hr hreply => h.2 request reply hr ((hsame.replies request reply hr).mp hreply)⟩

theorem RetryBoard.Unsent.stable {t : RetryBoard} (h : b.Unsent sender) (hsame : Same sender b t) :
    t.Unsent sender :=
  ⟨fun failure hanswer => h.1 failure ((hsame.answers failure).mp hanswer), h.2.stable hsame⟩

theorem RetryBoard.Heard.stable {t : RetryBoard} (h : b.Heard sender) (hsame : Same sender b t) :
    t.Heard sender := by
  intro request hr
  obtain ⟨reply, hreply⟩ := h request hr
  exact ⟨reply, (hsame.replies request reply hr).mpr hreply⟩

theorem RetryBoard.Answering.stable {t : RetryBoard} (h : b.Answering sender) (hsame : Same sender b t) :
    t.Answering sender := by
  obtain ⟨⟨failure, hanswer⟩, hsilent⟩ := h
  exact ⟨⟨failure, (hsame.answers failure).mpr hanswer⟩, hsilent.stable hsame⟩

theorem keeps_retryAwait {c : RetryCmd} {A : RetryBoard → Prop} {B : RetryAnswer c → RetryBoard → Prop}
    (hA : A b) (hbefore : ∀ s t, A s → Same sender s t → A t)
    (hafter : ∀ reply s t, B reply s → Same sender s t → B reply t)
    (hstep : ∀ t, t.Sound → A t →
      (∀ request, c = .hgetall request →
        t.row.Failed → t.row.Retryable ∧ ∀ e ∈ t.taken, e.2 ≠ t.failures) →
      (RetryBoard.meaning life c t).2.Sound ∧
        (∀ other, other ≠ sender → Same other t (RetryBoard.meaning life c t).2) ∧
        ∀ reply, (RetryBoard.meaning life c t).1 = .ok reply → B reply (RetryBoard.meaning life c t).2) :
    Keeps (retry life sender) (Ends B fun _ => False) (perform c) b := by
  apply Keeps.perform
  rintro t hrely hinv fate ⟨rfl, hapart⟩
  obtain ⟨hsound, hguar, hB⟩ := hstep t hinv (hbefore b t hA hrely) hapart
  exact ⟨hsound, hguar, fun u hu _ => Ends.intro (fun reply hreply => hafter reply _ u (hB reply hreply) hu)
    fun e he => absurd he (by cases c <;> exact nofun)⟩

theorem keeps_peek {c : RetryCmd} {A : RetryBoard → Prop} (hA : A b)
    (hstable : ∀ s t, A s → Same sender s t → A t) (hsame : ∀ t, (RetryBoard.meaning life c t).2 = t) :
    Keeps (retry life sender) (Ends (fun _ t => A t) fun _ => False) (perform c) b := by
  refine keeps_retryAwait hA hstable (fun _ => hstable) fun t hinv hA _ => ?_
  rw [hsame t]
  exact ⟨hinv, fun _ _ => same_refl t, fun _ _ => hA⟩

theorem keeps_recordQueued {A : RetryBoard → Prop} (hinv : b.Sound) (hA : A b)
    (hstable : ∀ s t, A s → Same sender s t → A t)
    (hrow : ∀ t row, A t → A { t with row })
    (hset : ∀ t row, A t → A { t with row, taken := t.taken.filter (·.1 ≠ sender) }) :
    Keeps (retry life sender) (Ends (fun _ t => A t) fun _ => False) (recordQueued sender message) b := by
  refine (keeps_peek (c := .now) hA hstable fun _ => rfl).andThen hinv fun now t hinv hA => ?_
  have hdel : Keeps (retry life sender) (Ends (fun _ t => A t) fun _ => False)
      (perform (.hdel runtimeFields)) t := by
    refine keeps_retryAwait hA hstable (fun _ => hstable) fun t hinv hA _ => ⟨hinv.hdel, ?_, fun _ _ => hrow t _ hA⟩
    exact fun _ _ => ⟨fun _ => .rfl, fun _ => .rfl, fun _ _ _ => .rfl, fun _ h => h⟩
  refine hdel.andThen hinv fun _ t hinv hA => ?_
  refine keeps_retryAwait hA hstable (fun _ => hstable) fun t hinv hA _ => ?_
  simp only [RetryBoard.meaning, set_queued]
  refine ⟨hinv.reset (not_failed_queued message now) (List.filter_subset_self _), fun other hne => ?_, fun _ _ => hset t _ hA⟩
  refine ⟨fun failure => ?_, fun _ => .rfl, fun _ _ _ => .rfl, fun _ h => h⟩
  simp [hne]

theorem keeps_kiq {A B : RetryBoard → Prop} (hinv : b.Sound) (hunsent : b.Unsent sender) (hA : A b)
    (hAstable : ∀ s t, A s → Same sender s t → A t) (hBstable : ∀ s t, B s → Same sender s t → B t)
    (hsend : ∀ t, t.Unsent sender → A t → B (t.send sender message))
    (hrow : ∀ t row, B t → B { t with row })
    (hset : ∀ t row, B t → B { t with row, taken := t.taken.filter (·.1 ≠ sender) }) :
    Keeps (retry life sender) (Ends (fun _ t => B t) fun _ => False) (kiq sender message) b := by
  have hkick : Keeps (retry life sender) (Ends (fun _ t => B t) fun _ => False)
      (perform (.kick sender message)) b := by
    refine keeps_retryAwait (A := fun t => t.Unsent sender ∧ A t) ⟨hunsent, hA⟩
      (fun s t h hsame => ⟨h.1.stable hsame, hAstable s t h.2 hsame⟩) (fun _ => hBstable)
      fun t hinv h _ => ⟨hinv.send h.1 message, fun other hne => ?_, fun _ _ => hsend t h.1 h.2⟩
    refine ⟨fun _ => .rfl, fun failure => ?_, fun _ _ _ => .rfl, fun _ h => h⟩
    refine mem_send.trans (or_iff_right fun he => hne ?_)
    simpa using List.find?_some he
  exact hkick.andThen hinv fun _ t hinv hB => keeps_recordQueued hinv hB hBstable hrow hset

theorem keeps_respond {request : Nat} {reply : RetryReply} {A : RetryBoard → Prop} (hA : A b)
    (hstable : ∀ s t, A s → Same (.request request) s t → A t)
    (hreply : ∀ t, A t → (Sender.request request).Started t ∧ t.Replied request reply) :
    Keeps (retry life (.request request)) (Ends (fun _ t => t.Heard (.request request)) fun _ => False)
      (perform (.respond request reply)) b := by
  refine keeps_retryAwait hA hstable (fun _ _ _ h hsame => h.stable hsame) fun t hinv hA _ =>
    ⟨hinv.respond (hreply t hA).1 (hreply t hA).2, fun other hne =>
      ⟨fun _ => .rfl, fun _ => .rfl, fun r reply' hr => ?_, fun _ h => h⟩,
      fun _ _ r hr => ⟨reply, ?_⟩⟩
  · refine List.mem_cons.trans (or_iff_right fun heq => hne ?_)
    rw [hr, (Prod.mk.inj heq).1]
  · obtain rfl := Sender.request.inj hr
    exact List.mem_cons_self

theorem keeps_retryTask {request : Nat} (hinv : b.Sound) (h : b.Unsent (.request request)) :
    Keeps (retry life (.request request)) (Ends (fun _ t => t.Heard (.request request)) fun _ => False)
      (retryTask life request) b := by
  have hread : Keeps (retry life (.request request)) (Ends (fun (row : Row) t => t.Unsent (.request request) ∧
      (row.Failed → (row.lookup "task_name").isSome ∧ ∃ failure, (.request request, failure) ∈ t.taken))
        fun _ => False)
      (perform (RetryCmd.hgetall request)) b := by
    refine keeps_retryAwait h (fun _ _ h hsame => h.stable hsame) (fun row s t h hsame => ⟨h.1.stable hsame, ?_⟩)
      fun t hinv h hapart => ⟨hinv.take request fun hrow => (hapart request rfl hrow.1).2, fun other hne => ?_, fun row hreply => ?_⟩
    · intro hrow
      obtain ⟨hname, failure, htaken⟩ := h.2 hrow
      exact ⟨hname, failure, (hsame.taken failure).mpr htaken⟩
    · simp only [RetryBoard.meaning, RetryBoard.take]
      split_ifs
      · refine ⟨fun failure => List.mem_cons.trans (or_iff_right fun heq => hne ?_), fun _ => .rfl, fun _ _ _ => .rfl, fun _ h => h⟩
        exact (Prod.mk.inj heq).1
      · exact same_refl t
    · obtain rfl : t.row = row := Except.ok.inj hreply
      simp only [RetryBoard.meaning, RetryBoard.take]
      split_ifs with hrow
      · exact ⟨h, fun _ => ⟨hrow.2, t.failures, List.mem_cons_self⟩⟩
      · exact ⟨h, fun hfailed => absurd (hapart request rfl hfailed).1 hrow⟩
  refine hread.andThen hinv fun row t hinv h => ?_
  have hstable : ∀ s t : RetryBoard, s.Unsent (.request request) → Same (.request request) s t →
      t.Unsent (.request request) := fun _ _ h hsame => h.stable hsame
  apply Keeps.ite
  · exact fun _ => keeps_respond h.1 hstable fun t h => ⟨h.2.1, h.1⟩
  intro _
  apply Keeps.ite
  · exact fun hfailed => keeps_respond h.1 hstable fun t h => ⟨h.2.1, hfailed, h.1⟩
  intro hfailed
  obtain ⟨hnamed, htaken⟩ := h.2 (not_not.mp hfailed)
  cases hname : row.lookup "task_name" with
  | none =>
    rw [hname] at hnamed
    cases hnamed
  | some taskName =>
    refine (keeps_kiq (A := fun t => ∃ failure, (.request request, failure) ∈ t.taken)
      (B := fun t => t.Answering (.request request)) hinv h.1 htaken ?_
      (fun _ _ h hsame => h.stable hsame) ?_ (fun _ _ h => h) fun _ _ h => h).andThen hinv fun _ t _ h => ?_
    · intro s t ⟨failure, htaken⟩ hsame
      exact ⟨failure, (hsame.taken failure).mpr htaken⟩
    · intro t hunsent ⟨failure, htaken⟩
      refine ⟨?_, hunsent.2⟩
      have hsome : (t.taken.find? (·.1 = .request request)).isSome := by
        rw [List.find?_isSome]
        exact ⟨_, htaken, by simp⟩
      obtain ⟨e, he⟩ := Option.isSome_iff_exists.mp hsome
      have hsender : e.1 = .request request := by simpa using List.find?_some he
      exact ⟨e.2, mem_send.mpr (.inl (hsender ▸ he))⟩
    · exact keeps_respond h (fun _ _ h hsame => h.stable hsame) fun t h => ⟨h.2.1, h.1⟩

theorem keeps_runDelivery {delivery : Nat} (hinv : b.Sound) (h : b.Unsent (.worker delivery)) :
    Keeps (retry life (.worker delivery)) (Ends (fun _ t => t.Heard (.worker delivery)) fun _ => False)
      (runDelivery life delivery message) b := by
  have hstable : ∀ s t : RetryBoard, s.Unsent (.worker delivery) → Same (.worker delivery) s t →
      t.Unsent (.worker delivery) := fun _ _ h hsame => h.stable hsame
  refine (keeps_peek (c := .now) h hstable fun _ => rfl).andThen hinv fun started t hinv h => ?_
  have hrunning : Keeps (retry life (.worker delivery)) (Ends (fun _ t => t.Unsent (.worker delivery)) fun _ => False)
      (perform (.hset .running (runningFields started))) t := by
    refine keeps_retryAwait h hstable (fun _ => hstable) fun t hinv h _ => ?_
    simp only [RetryBoard.meaning, set_running]
    exact ⟨hinv.reset (not_failed_running started) (List.Subset.refl _),
      fun _ _ => ⟨fun _ => .rfl, fun _ => .rfl, fun _ _ _ => .rfl, fun _ h => h⟩, fun _ _ => h⟩
  refine hrunning.andThen hinv fun _ t hinv h => ?_
  refine (keeps_peek (c := .execute delivery) h hstable fun _ => rfl).andThen hinv fun result t hinv h => ?_
  refine (keeps_peek (c := .now) h hstable fun _ => rfl).andThen hinv fun finished t hinv h => ?_
  have hended : Keeps (retry life (.worker delivery)) (Ends (fun _ t => t.Unsent (.worker delivery)) fun _ => False)
      (perform (.hset (.ended delivery (resent life message result).isSome) (endedFields result finished))) t := by
    refine keeps_retryAwait h hstable (fun _ => hstable) fun t hinv h _ =>
      ⟨hinv.ended delivery _ _, fun other hne => ⟨fun failure => ?_, fun _ => .rfl, fun _ _ _ => .rfl, fun _ h => h⟩, fun _ _ => h⟩
    simp only [RetryBoard.meaning, RetryBoard.set]
    split_ifs
    all_goals simp [hne]
  refine hended.andThen hinv fun _ t hinv h => ?_
  cases resent life message result with
  | none => exact fun _ _ _ => nofun
  | some retry =>
    exact keeps_kiq (A := fun _ => True) (B := fun t => t.Heard (.worker delivery)) hinv h trivial
      (fun _ _ _ _ => trivial) (fun _ _ _ _ => nofun) (fun _ _ _ => nofun) (fun _ _ _ => nofun)
      fun _ _ _ => nofun

end Programs

section Runs

variable {life : TaskLife} {c : RetryConfig} {b b' : RetryBoard}

def AllSenders (c : RetryConfig) : Prop := ∀ t ∈ c.threads, t.tag.Started c.shared

theorem retryEvent_cases {e : RetryEvent} {new : List (Thread RetryAnswer RetryError Sender)}
    (h : retryEvent life b e = some (b', new)) :
    (∃ clock, b' = { b with clock } ∧ new = []) ∨ (b' = { b with row := ∅ } ∧ new = []) ∨
      ∃ sender prog, ¬ sender.Started b ∧ sender.Started b' ∧ new = [⟨sender, prog⟩] ∧
        (∃ sent requests deliveries, b' = { b with sent, requests, deliveries }) ∧
        (∀ other : Sender, other.Started b → other.Started b') ∧
        (b'.Sound → b'.Unsent sender → Keeps (retry life sender) (Ends (fun _ t => t.Heard sender) fun _ => False) prog b') := by
  cases e with
  | tick duration =>
    obtain ⟨rfl, rfl⟩ := Prod.mk.inj (Option.some.inj h)
    exact .inl ⟨_, rfl, rfl⟩
  | expire =>
    obtain ⟨rfl, rfl⟩ := Prod.mk.inj (Option.some.inj h)
    exact .inr (.inl ⟨rfl, rfl⟩)
  | send =>
    simp only [retryEvent, Option.ite_none_left_eq_some, Option.some.injEq, Prod.mk.injEq] at h
    obtain ⟨hsent, rfl, rfl⟩ := h
    refine .inr (.inr ⟨.api, _, hsent, rfl, rfl, ⟨_, _, _, rfl⟩, fun other hs => ?_, fun hinv hunsent => ?_⟩)
    · exact hs.grows (fun _ => rfl) (Nat.le_refl _) (Nat.le_refl _)
    · exact keeps_kiq (A := fun _ => True) (B := fun t => t.Heard .api) hinv hunsent trivial
        (fun _ _ _ _ => trivial) (fun _ _ _ _ => nofun) (fun _ _ _ => nofun) (fun _ _ _ => nofun)
        fun _ _ _ => nofun
  | request =>
    obtain ⟨rfl, rfl⟩ := Prod.mk.inj (Option.some.inj h)
    refine .inr (.inr ⟨.request b.requests, _, Nat.lt_irrefl _, Nat.lt_succ_self _, rfl, ⟨_, _, _, rfl⟩,
      fun other hs => ?_, fun hinv hunsent => keeps_retryTask hinv hunsent⟩)
    exact hs.grows id (Nat.le_succ _) (Nat.le_refl _)
  | deliver message =>
    simp only [retryEvent] at h
    split at h
    · cases h
    · obtain ⟨rfl, rfl⟩ := Prod.mk.inj (Option.some.inj h)
      refine .inr (.inr ⟨.worker b.deliveries, _, Nat.lt_irrefl _, Nat.lt_succ_self _, rfl, ⟨_, _, _, rfl⟩,
        fun other hs => ?_, fun hinv hunsent => keeps_runDelivery hinv hunsent⟩)
      exact hs.grows id (Nat.le_refl _) (Nat.le_succ _)

theorem retryMeaning_started (cmd : RetryCmd) (sender : Sender) (b : RetryBoard) :
    sender.Started (RetryBoard.meaning life cmd b).2 ↔ sender.Started b := by
  cases cmd with
  | hgetall request =>
    simp only [RetryBoard.meaning, RetryBoard.take]
    split_ifs <;> cases sender <;> rfl
  | _ => cases sender <;> rfl

theorem die_started (sender other : Sender) (b : RetryBoard) :
    other.Started (b.die sender) ↔ other.Started b := by
  rw [RetryBoard.die]
  split_ifs <;> cases other <;> rfl

theorem allSenders_reach {ok : RetryConfig → Move RetryError RetryEvent → Prop} {start : RetryConfig}
    (reach : Reach (retryBoard life) ok start c) (h : AllSenders start) : AllSenders c := by
  refine reach.tags (K := fun (sender : Sender) b => sender.Started b) h
    (fun sender cmd b hs => (retryMeaning_started cmd sender b).mpr hs) (fun _ _ _ _ => nofun)
    (fun other sender b hs => (die_started sender other b).mpr hs) fun e b b' new henv => ?_
  rcases retryEvent_cases henv with ⟨_, rfl, rfl⟩ | ⟨rfl, rfl⟩ | ⟨sender, prog, -, hs, rfl, -, hgrows, -⟩
  · exact ⟨fun _ hs => hs.grows id (Nat.le_refl _) (Nat.le_refl _), nofun⟩
  · exact ⟨fun _ hs => hs.grows id (Nat.le_refl _) (Nat.le_refl _), nofun⟩
  · exact ⟨hgrows, by simpa using hs⟩

theorem RetryBoard.Sound.die (h : b.Sound) (sender : Sender) : (b.die sender).Sound := by
  rw [RetryBoard.die]
  split_ifs with hanswered
  · exact h
  · have hother : ∀ e ∈ b.answers, e.1 ≠ sender := fun e he heq =>
      hanswered (List.any_eq_true.mpr ⟨e, he, by simpa using heq⟩)
    refine ⟨⟨h.once, h.replied⟩, fun e he => h.taken_le e (List.mem_of_mem_filter he), h.answers_le,
      fun hfailed e he heq => List.mem_filter.mpr ⟨h.pending hfailed e he heq, by simpa using hother e he⟩,
      fun e he e' he' heq => ?_, h.senders, h.repliers⟩
    refine h.alone e (List.mem_of_mem_filter he) e' ?_ heq
    rcases List.mem_append.mp he' with he' | he'
    · exact List.mem_append_left _ (List.mem_of_mem_filter he')
    · exact List.mem_append_right _ he'

theorem same_die {sender other : Sender} (hne : other ≠ sender) : Same other b (b.die sender) := by
  rw [RetryBoard.die]
  split_ifs
  · exact same_refl b
  · exact ⟨fun failure => by simp [hne], fun _ => .rfl, fun _ _ _ => .rfl, fun _ h => h⟩

theorem RetryBoard.Sound.start (h : b.Sound) {sender : Sender} {sent : Bool} {requests deliveries : Nat}
    (hnew : ¬ sender.Started b) (hs : sender.Started { b with sent, requests, deliveries })
    (hgrows : ∀ other : Sender, other.Started b → other.Started { b with sent, requests, deliveries }) :
    RetryBoard.Sound { b with sent, requests, deliveries } ∧
      RetryBoard.Unsent sender { b with sent, requests, deliveries } := by
  refine ⟨⟨⟨h.once, h.replied⟩, h.taken_le, h.answers_le, h.pending, h.alone,
    fun e he => hgrows _ (h.senders e he), fun x hx => hgrows _ (h.repliers x hx)⟩, ?_, hs, ?_⟩
  · exact fun failure hanswer => hnew (h.senders _ hanswer)
  · exact fun request reply hr hreply => hnew (hr ▸ h.repliers _ hreply)

def retryDiscipline (life : TaskLife) :
    Discipline (retryBoard life) (fun c move => FailuresApart c move ∧ AllSenders c) where
  inv := RetryBoard.Sound
  contract := retry life
  post sender := Ends (fun _ b => b.Heard sender) fun _ => False
  apart sender other := sender ≠ other
  meaning_eq _ := rfl
  inv_eq _ := rfl
  apart_symm h := h.symm
  others h _ _ hguar := hguar _ h.symm
  fates := by
    intro c i fate t cmd rest hok hi hprog hadmits _
    cases fate with
    | lost e => cases hadmits
    | late e => cases hadmits
    | done =>
      refine ⟨rfl, fun request hcmd => hok.1 ?_⟩
      subst hcmd
      simp only [readsRecord, hi, hprog]
  exit_keeps _ _ _ ht := nomatch ht
  exit_apart _ ht := nomatch ht
  exit_pairwise := List.Pairwise.nil
  death_inv _ _ h := h.die _
  death_rely _ _ _ hapart := same_die hapart.symm
  env_inv := by
    intro c e s new _ henv hinv
    rcases retryEvent_cases henv with ⟨_, rfl, _⟩ | ⟨rfl, _⟩ |
      ⟨sender, prog, hnew, hs, _, ⟨_, _, _, rfl⟩, hgrows, _⟩
    · exact ⟨⟨hinv.once, hinv.replied⟩, hinv.taken_le, hinv.answers_le, hinv.pending, hinv.alone,
        hinv.senders, hinv.repliers⟩
    · exact hinv.reset (by simp [Row.Failed, Row.state]) (List.Subset.refl _)
    · exact (hinv.start hnew hs hgrows).1
  env_rely := by
    intro c e s new _ henv _ t _
    rcases retryEvent_cases henv with ⟨_, rfl, _⟩ | ⟨rfl, _⟩ |
      ⟨sender, prog, _, _, _, ⟨_, _, _, rfl⟩, hgrows, _⟩
    · exact ⟨fun _ => .rfl, fun _ => .rfl, fun _ _ _ => .rfl, fun _ hs => hs.grows id (Nat.le_refl _) (Nat.le_refl _)⟩
    · exact ⟨fun _ => .rfl, fun _ => .rfl, fun _ _ _ => .rfl, fun _ hs => hs.grows id (Nat.le_refl _) (Nat.le_refl _)⟩
    · exact ⟨fun _ => .rfl, fun _ => .rfl, fun _ _ _ => .rfl, hgrows⟩
  env_keeps := by
    intro c e s new _ henv hinv t ht
    rcases retryEvent_cases henv with ⟨_, _, rfl⟩ | ⟨_, rfl⟩ |
      ⟨sender, prog, hnew, hs, rfl, ⟨_, _, _, rfl⟩, hgrows, hkeeps⟩
    · cases ht
    · cases ht
    · obtain rfl := List.mem_singleton.mp ht
      obtain ⟨hsound, hunsent⟩ := hinv.start hnew hs hgrows
      exact hkeeps hsound hunsent
  env_apart := by
    intro c e s new hok henv _
    rcases retryEvent_cases henv with ⟨_, _, rfl⟩ | ⟨_, rfl⟩ | ⟨sender, prog, hnew, _, rfl, _⟩
    · exact ⟨List.Pairwise.nil, fun _ _ _ hu => (nomatch hu)⟩
    · exact ⟨List.Pairwise.nil, fun _ _ _ hu => (nomatch hu)⟩
    · refine ⟨List.pairwise_singleton _ _, fun t ht u hu heq => ?_⟩
      obtain rfl := List.mem_singleton.mp hu
      have htag : t.tag = sender := heq
      exact hnew (htag ▸ hok.2 t ht)

theorem retrySafe_reach (reach : Reach (retryBoard life) FailuresApart ⟨{}, []⟩ c) :
    c.shared.Sound ∧ ∀ t ∈ c.threads, t.ended.isSome → c.shared.Heard t.tag := by
  have hstart : AllSenders (⟨{}, []⟩ : RetryConfig) := fun _ ht => (nomatch ht)
  have hreach := reach.strengthen fun _ h => allSenders_reach h hstart
  have hsafe := hreach.safe (retryDiscipline life) ⟨⟨⟨List.nodup_nil, nofun⟩, nofun, nofun, nofun, nofun,
    nofun, nofun⟩, fun _ ht => (nomatch ht), List.Pairwise.nil⟩
  refine ⟨hsafe.inv, fun t ht hended => ?_⟩
  obtain ⟨i, hi⟩ := List.getElem?_of_mem ht
  obtain ⟨result, hresult⟩ := Option.isSome_iff_exists.mp hended
  have hpost := hsafe.ended hi hresult
  cases result with
  | ok value => exact hpost
  | error e => exact hpost.elim

end Runs

/-- In every run in which each request that reads a failure finds the name of the task, and no other
that has taken it up and not yet recorded it as queued: each failure is answered by one message at most,
a request that sends none is told so, and every request that ends is told something. -/
theorem failure_answered_once {life : TaskLife} {c : RetryConfig}
    (reach : Reach (retryBoard life) FailuresApart ⟨{}, []⟩ c) :
    c.shared.RunOnce ∧ ∀ t ∈ c.threads, t.ended.isSome → c.shared.Heard t.tag :=
  ⟨(retrySafe_reach reach).1.toRunOnce, (retrySafe_reach reach).2⟩

section Example

def failingLife : TaskLife where
  first := ⟨"id", "mine", "[]", "\x7b\x7d", "\x7b\x7d"⟩
  result _ := .failed "boom" "RuntimeError" false
  again _ := none
  isoFormat now := now.repr

def runDone (i n : Nat) : List (Move RetryError RetryEvent) := List.replicate n (.run i .done)

/-- The task is sent, recorded as queued, run, and recorded as failed. -/
def failedOnce : List (Move RetryError RetryEvent) :=
  .env .send :: runDone 0 4 ++ [.exit 0, .env (.deliver 0)] ++ runDone 0 5 ++ [.exit 0]

/-- Both requests read the record before either sends its message. -/
def bothReadFailed : List (Move RetryError RetryEvent) :=
  failedOnce ++ [.env .request, .env .request, .run 0 .done, .run 1 .done] ++ runDone 0 5 ++ runDone 1 5

def oneAfterOther : List (Move RetryError RetryEvent) :=
  failedOnce ++ [.env .request, .env .request] ++ runDone 0 6 ++ runDone 1 2

theorem failure_answered_conflict : ∃ c, Reach (retryBoard failingLife) FailuresApart ⟨{}, []⟩ c ∧
    (c.shared.RunOnce ∧ ∀ t ∈ c.threads, t.ended.isSome → c.shared.Heard t.tag) ∧
    c.shared.replies = [(1, .conflict (some "queued")), (0, .requeued)] := by
  have hrun : ((retryBoard failingLife).execWhen (fun c move => decide (FailuresApart c move)) oneAfterOther
      ⟨{}, []⟩).any (fun c => c.shared.replies = [(1, .conflict (some "queued")), (0, .requeued)]) = true := by
    decide +kernel
  obtain ⟨c, hc, hreplies⟩ := (Option.any_eq_true _ _).mp hrun
  have reach : Reach (retryBoard failingLife) FailuresApart ⟨{}, []⟩ c :=
    Reach.start.execWhen (fun _ _ _ h => of_decide_eq_true h) hc
  exact ⟨c, reach, failure_answered_once reach, of_decide_eq_true hreplies⟩

/-- Two messages answer the one failure, and both requests get `requeued`. -/
theorem failure_run_twice : ∃ c, Reach (retryBoard failingLife) (fun _ _ => True) ⟨{}, []⟩ c ∧
    c.shared.failures = 1 ∧ c.shared.answers = [(.request 1, 1), (.request 0, 1)] ∧
    c.shared.replies = [(1, .requeued), (0, .requeued)] ∧ ¬ c.shared.RunOnce := by
  have hrun : ((retryBoard failingLife).exec bothReadFailed ⟨{}, []⟩).any (fun c => c.shared.failures = 1 &&
      c.shared.answers = [(.request 1, 1), (.request 0, 1)] &&
      c.shared.replies = [(1, .requeued), (0, .requeued)]) = true := by
    decide +kernel
  obtain ⟨c, hc, hrest⟩ := (Option.any_eq_true _ _).mp hrun
  simp only [Bool.and_eq_true, decide_eq_true_eq] at hrest
  obtain ⟨⟨hfailures, hanswers⟩, hreplies⟩ := hrest
  refine ⟨c, Reach.start.exec (fun _ _ => trivial) hc, hfailures, hanswers, hreplies, fun h => ?_⟩
  have honce := h.once
  rw [hanswers] at honce
  exact absurd honce (by decide)

end Example

end Doci
