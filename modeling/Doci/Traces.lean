import Doci.Coroutine
import Mathlib.Data.List.Basic

/-! What a program awaits from its start to its end, with any replies. -/

namespace Coroutine

section Traces

variable {C : Type} {R : C → Type} {ε α β : Type}

abbrev Await (R : C → Type) (ε : Type) := (c : C) × Except ε (R c)

/-- The program can make these awaits in turn and end with the result. -/
inductive Prog.Trace : Prog R ε α → List (Await R ε) → Except ε α → Prop
  | ret (value : α) : Trace (.ret value) [] (.ok value)
  | throw (e : ε) : Trace (.throw e) [] (.error e)
  | await {c : C} {rest : Except ε (R c) → Prog R ε α} {reply : Except ε (R c)}
    {trace : List (Await R ε)} {result : Except ε α} (h : Trace (rest reply) trace result) :
    Trace (.await c rest) (⟨c, reply⟩ :: trace) result

theorem Prog.Trace.of_ret {value : α} {trace : List (Await R ε)} {result : Except ε α}
    (h : (Prog.ret value : Prog R ε α).Trace trace result) : trace = [] ∧ result = .ok value := by
  cases h
  exact ⟨rfl, rfl⟩

theorem Prog.Trace.of_throw {e : ε} {trace : List (Await R ε)} {result : Except ε α}
    (h : (Prog.throw e : Prog R ε α).Trace trace result) : trace = [] ∧ result = .error e := by
  cases h
  exact ⟨rfl, rfl⟩

theorem Prog.Trace.of_perform {c : C} {trace : List (Await R ε)} {result : Except ε (R c)}
    (h : (perform c : Prog R ε (R c)).Trace trace result) : trace = [⟨c, result⟩] := by
  cases h with
  | @await _ _ reply _ _ h =>
    cases reply with
    | ok value =>
      obtain ⟨rfl, rfl⟩ := h.of_ret
      rfl
    | error e =>
      obtain ⟨rfl, rfl⟩ := h.of_throw
      rfl

theorem Prog.Trace.of_settle {p : Prog R ε α} {next : Except ε α → Prog R ε β}
    {trace : List (Await R ε)} {result : Except ε β} (h : (p.settle next).Trace trace result) :
    ∃ first middle second, p.Trace first middle ∧ (next middle).Trace second result ∧
      trace = first ++ second := by
  induction p generalizing trace with
  | ret value => exact ⟨[], .ok value, trace, .ret value, h, rfl⟩
  | throw e => exact ⟨[], .error e, trace, .throw e, h, rfl⟩
  | await c rest ih =>
    cases h with
    | await h =>
      obtain ⟨first, middle, second, hfirst, hsecond, rfl⟩ := ih _ h
      exact ⟨_, middle, second, .await hfirst, hsecond, rfl⟩

theorem Prog.Trace.of_bind {p : Prog R ε α} {next : α → Prog R ε β}
    {trace : List (Await R ε)} {result : Except ε β} (h : (p.bind next).Trace trace result) :
    (∃ first value second, p.Trace first (.ok value) ∧ (next value).Trace second result ∧
      trace = first ++ second) ∨ ∃ e, p.Trace trace (.error e) ∧ result = .error e := by
  obtain ⟨first, middle, second, hfirst, hsecond, rfl⟩ := Prog.Trace.of_settle h
  cases middle with
  | ok value => exact .inl ⟨first, value, second, hfirst, hsecond, rfl⟩
  | error e =>
    obtain ⟨rfl, rfl⟩ := hsecond.of_throw
    exact .inr ⟨e, by rwa [List.append_nil], rfl⟩

theorem Prog.Trace.of_tryCatch {p : Prog R ε α} {handler : ε → Prog R ε α}
    {trace : List (Await R ε)} {result : Except ε α} (h : (p.tryCatch handler).Trace trace result) :
    (∃ value, p.Trace trace (.ok value) ∧ result = .ok value) ∨
      ∃ first e second, p.Trace first (.error e) ∧ (handler e).Trace second result ∧
        trace = first ++ second := by
  obtain ⟨first, middle, second, hfirst, hsecond, rfl⟩ := Prog.Trace.of_settle h
  cases middle with
  | ok value =>
    obtain ⟨rfl, rfl⟩ := hsecond.of_ret
    exact .inl ⟨value, by rwa [List.append_nil], rfl⟩
  | error e => exact .inr ⟨first, e, second, hfirst, hsecond, rfl⟩

theorem Prog.Trace.uses {P : C → Prop} {p : Prog R ε α} {trace : List (Await R ε)}
    {result : Except ε α} (h : p.Trace trace result) (huses : p.Uses P) :
    ∀ a ∈ trace, P a.1 := by
  induction h with
  | ret value => exact nofun
  | throw e => exact nofun
  | await _ ih =>
    intro a ha
    rcases List.mem_cons.mp ha with rfl | ha
    · exact huses.1
    · exact ih (huses.2 _) a ha

theorem Prog.Trace.of_inject {C' : Type} {R' : C' → Type} (inject : C → C')
    {p : Prog (fun c => R' (inject c)) ε α} {trace : List (Await R' ε)} {result : Except ε α}
    (h : (p.expand fun c => (perform (inject c) : Prog R' ε (R' (inject c)))).Trace trace result) :
    ∃ inner : List (Await (fun c => R' (inject c)) ε), p.Trace inner result ∧
      trace = inner.map fun a => ⟨inject a.1, a.2⟩ := by
  induction p generalizing trace with
  | ret value =>
    obtain ⟨rfl, rfl⟩ := h.of_ret
    exact ⟨[], .ret value, rfl⟩
  | throw e =>
    obtain ⟨rfl, rfl⟩ := h.of_throw
    exact ⟨[], .throw e, rfl⟩
  | await c rest ih =>
    obtain ⟨first, middle, second, hfirst, hsecond, rfl⟩ := Prog.Trace.of_settle h
    obtain ⟨inner, hinner, rfl⟩ := ih middle hsecond
    obtain rfl := hfirst.of_perform
    exact ⟨⟨c, middle⟩ :: inner, .await hinner, rfl⟩

theorem Prog.Trace.raises {P : ε → Prop} {p : Prog R ε α} {trace : List (Await R ε)} {e : ε}
    (h : p.Trace trace (.error e)) (hraises : p.Raises P)
    (hawaits : ∀ a ∈ trace, ∀ e, a.2 = .error e → P e) : P e := by
  induction p generalizing trace with
  | ret value => cases h
  | throw e' =>
    cases h
    exact hraises
  | await c rest ih =>
    cases h with
    | @await _ _ reply trace _ h =>
      refine ih reply h (hraises reply ?_) fun a ha => hawaits a (List.mem_cons_of_mem _ ha)
      exact hawaits ⟨c, reply⟩ List.mem_cons_self

/-- The program run to its end on a state that others change between its awaits; the log lists
its awaits with their fates. -/
inductive Prog.Runs {σ : Type} (meaning : (c : C) → σ → Except ε (R c) × σ) (others : σ → σ → Prop) :
    Prog R ε α → σ → List (C × Fate ε) → Except ε α → σ → Prop
  | ret (value : α) {s t : σ} (h : others s t) : Runs meaning others (.ret value) s [] (.ok value) t
  | throw (e : ε) {s t : σ} (h : others s t) : Runs meaning others (.throw e) s [] (.error e) t
  | await {c : C} {rest : Except ε (R c) → Prog R ε α} {s t u : σ} {fate : Fate ε}
    {log : List (C × Fate ε)} {result : Except ε α} (h : others s t)
    (hrest : Runs meaning others (rest (outcome meaning c t fate).1) (outcome meaning c t fate).2 log
      result u) : Runs meaning others (.await c rest) s ((c, fate) :: log) result u

section Runs

variable {σ : Type} {meaning : (c : C) → σ → Except ε (R c) × σ} {others : σ → σ → Prop} {s t : σ}
  {log : List (C × Fate ε)}

theorem Prog.Runs.of_perform {c : C} {result : Except ε (R c)}
    (h : (perform c : Prog R ε (R c)).Runs meaning others s log result t) :
    ∃ before fate, others s before ∧ log = [(c, fate)] ∧ result = (outcome meaning c before fate).1 ∧
      others (outcome meaning c before fate).2 t := by
  cases h with
  | @await _ _ _ before _ fate _ _ hbefore hrest =>
    refine ⟨before, fate, hbefore, ?_⟩
    cases hreply : (outcome meaning c before fate).1 with
    | ok value =>
      rw [hreply] at hrest
      cases hrest with
      | ret _ hlast => exact ⟨rfl, rfl, hlast⟩
    | error e =>
      rw [hreply] at hrest
      cases hrest with
      | throw _ hlast => exact ⟨rfl, rfl, hlast⟩

theorem Prog.Runs.of_settle {p : Prog R ε α} {next : Except ε α → Prog R ε β} {result : Except ε β}
    (hrefl : ∀ s, others s s) (h : (p.settle next).Runs meaning others s log result t) :
    ∃ first middle second u, p.Runs meaning others s first middle u ∧
      (next middle).Runs meaning others u second result t ∧ log = first ++ second := by
  induction p generalizing s log with
  | ret value => exact ⟨[], .ok value, log, s, .ret value (hrefl s), h, rfl⟩
  | throw e => exact ⟨[], .error e, log, s, .throw e (hrefl s), h, rfl⟩
  | await c rest ih =>
    cases h with
    | await hbefore hrest =>
      obtain ⟨first, middle, second, u, hfirst, hsecond, rfl⟩ := ih _ hrest
      exact ⟨_, middle, second, u, .await hbefore hfirst, hsecond, rfl⟩

theorem Prog.Runs.of_bind {p : Prog R ε α} {next : α → Prog R ε β} {result : Except ε β}
    (hrefl : ∀ s, others s s) (h : (p.bind next).Runs meaning others s log result t) :
    (∃ first value second u, p.Runs meaning others s first (.ok value) u ∧
      (next value).Runs meaning others u second result t ∧ log = first ++ second) ∨
    ∃ e u, p.Runs meaning others s log (.error e) u ∧ others u t ∧ result = .error e := by
  obtain ⟨first, middle, second, u, hfirst, hsecond, rfl⟩ := h.of_settle hrefl
  cases middle with
  | ok value => exact .inl ⟨first, value, second, u, hfirst, hsecond, rfl⟩
  | error e =>
    cases hsecond with
    | throw _ hlast => exact .inr ⟨e, u, by rwa [List.append_nil], hlast, rfl⟩

theorem Prog.Runs.of_bind_ok {p : Prog R ε α} {next : α → Prog R ε β} {result : β}
    (hrefl : ∀ s, others s s) (h : (p.bind next).Runs meaning others s log (.ok result) t) :
    ∃ first value second u, p.Runs meaning others s first (.ok value) u ∧
      (next value).Runs meaning others u second (.ok result) t ∧ log = first ++ second := by
  rcases h.of_bind hrefl with h | ⟨e, u, _, _, he⟩
  · exact h
  · cases he

theorem Prog.Runs.of_tryCatch {p : Prog R ε α} {handler : ε → Prog R ε α} {result : Except ε α}
    (hrefl : ∀ s, others s s) (h : (p.tryCatch handler).Runs meaning others s log result t) :
    (∃ value u, p.Runs meaning others s log (.ok value) u ∧ others u t ∧ result = .ok value) ∨
    ∃ first e second u, p.Runs meaning others s first (.error e) u ∧
      (handler e).Runs meaning others u second result t ∧ log = first ++ second := by
  obtain ⟨first, middle, second, u, hfirst, hsecond, rfl⟩ := h.of_settle hrefl
  cases middle with
  | ok value =>
    cases hsecond with
    | ret _ hlast => exact .inl ⟨value, u, by rwa [List.append_nil], hlast, rfl⟩
  | error e => exact .inr ⟨first, e, second, u, hfirst, hsecond, rfl⟩

theorem Prog.Runs.uses {P : C → Prop} {p : Prog R ε α} {result : Except ε α}
    (h : p.Runs meaning others s log result t) (huses : p.Uses P) : ∀ a ∈ log, P a.1 := by
  induction h with
  | ret value => exact nofun
  | throw e => exact nofun
  | await _ _ ih =>
    intro a ha
    rcases List.mem_cons.mp ha with rfl | ha
    · exact huses.1
    · exact ih (huses.2 _) a ha

theorem Prog.Runs.view {V : Type} {view : σ → V} (writes : V → C × Fate ε → V) {p : Prog R ε α}
    {result : Except ε α} (h : p.Runs meaning others s log result t)
    (hothers : ∀ s t, others s t → view t = view s)
    (hstep : ∀ a ∈ log, ∀ s, view (outcome meaning a.1 s a.2).2 = writes (view s) a) :
    view t = log.foldl writes (view s) := by
  induction h with
  | ret value h => exact hothers _ _ h
  | throw e h => exact hothers _ _ h
  | await h _ ih =>
    rw [ih fun a ha => hstep a (List.mem_cons_of_mem _ ha), hstep _ List.mem_cons_self,
      hothers _ _ h, List.foldl_cons]

/-- The run in which every await completes and nobody else does anything. -/
def Prog.exec (meaning : (c : C) → σ → Except ε (R c) × σ) :
    Prog R ε α → σ → List (C × Fate ε) × Except ε α × σ
  | .ret value, s => ([], .ok value, s)
  | .throw e, s => ([], .error e, s)
  | .await c rest, s =>
    ((c, .done) :: ((rest (meaning c s).1).exec meaning (meaning c s).2).1,
      ((rest (meaning c s).1).exec meaning (meaning c s).2).2)

theorem Prog.runs_exec (hrefl : ∀ s, others s s) (p : Prog R ε α) (s : σ) :
    p.Runs meaning others s (p.exec meaning s).1 (p.exec meaning s).2.1 (p.exec meaning s).2.2 := by
  induction p generalizing s with
  | ret value => exact .ret value (hrefl s)
  | throw e => exact .throw e (hrefl s)
  | await c rest ih =>
    have hrest : (rest (outcome meaning c s .done).1).Runs meaning others
        (outcome meaning c s .done).2 _ _ _ := ih (meaning c s).1 (meaning c s).2
    exact .await (hrefl s) hrest

end Runs

end Traces

end Coroutine
