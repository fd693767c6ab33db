import Doci.Coroutine
import Mathlib.Data.List.Basic

/-! Pools of programs that share a state. The schedule picks which await goes next and
what becomes of it; the environment changes the state and starts new programs. -/

namespace Coroutine

structure Thread {C : Type} (R : C → Type) (ε τ : Type) where
  tag : τ
  prog : Prog R ε Unit

/-- `admits` are the fates that an await can have in a state, `env` the moves of the
environment, `exit` what follows a program that ended and `death` what the death of a
program does to the state. -/
structure System {C : Type} (R : C → Type) (ε σ τ ι : Type) where
  meaning : (c : C) → σ → Except ε (R c) × σ
  admits : C → σ → Fate ε → Bool
  env : ι → σ → Option (σ × List (Thread R ε τ))
  exit : τ → Except ε Unit → List (Thread R ε τ)
  death : τ → σ → σ

structure Config {C : Type} (R : C → Type) (ε σ τ : Type) where
  shared : σ
  threads : List (Thread R ε τ)

inductive Move (ε ι : Type) where
  | run (i : Nat) (fate : Fate ε)
  | exit (i : Nat)
  | die (i : Nat)
  | env (e : ι)

section System

variable {C : Type} {R : C → Type} {ε σ τ ι : Type}

/-- Thread `t` and the state after its next await, if it is at one. -/
def System.advance (S : System R ε σ τ ι) (t : Thread R ε τ) (s : σ) (fate : Fate ε) :
    Option (Thread R ε τ × σ) :=
  match t.prog with
  | .await c rest =>
    if S.admits c s fate then
      let reply := outcome S.meaning c s fate
      some ({ t with prog := rest reply.1 }, reply.2)
    else none
  | _ => none

/-- How thread `t` ended, if it did. -/
def Thread.ended (t : Thread R ε τ) : Option (Except ε Unit) :=
  match t.prog with
  | .ret value => some (.ok value)
  | .throw e => some (.error e)
  | .await _ _ => none

def System.step (S : System R ε σ τ ι) (c : Config R ε σ τ) : Move ε ι → Option (Config R ε σ τ)
  | .run i fate => do
    let t ← c.threads[i]?
    let (t', s) ← S.advance t c.shared fate
    return { shared := s, threads := c.threads.set i t' }
  | .exit i => do
    let t ← c.threads[i]?
    let result ← t.ended
    return { c with threads := c.threads.eraseIdx i ++ S.exit t.tag result }
  | .die i => do
    let t ← c.threads[i]?
    return { shared := S.death t.tag c.shared, threads := c.threads.eraseIdx i }
  | .env e => do
    let (s, new) ← S.env e c.shared
    return { shared := s, threads := c.threads ++ new }

/-- The configurations reached by moves that `ok` admits. -/
inductive Reach (S : System R ε σ τ ι) (ok : Config R ε σ τ → Move ε ι → Prop)
    (start : Config R ε σ τ) : Config R ε σ τ → Prop
  | start : Reach S ok start start
  | step {c d : Config R ε σ τ} {move : Move ε ι} (reach : Reach S ok start c) (hok : ok c move)
      (h : S.step c move = some d) : Reach S ok start d

def System.exec (S : System R ε σ τ ι) : List (Move ε ι) → Config R ε σ τ → Option (Config R ε σ τ)
  | [], c => some c
  | move :: moves, c => (S.step c move).bind (S.exec moves)

/-- The moves of a schedule in turn, as long as each passes the check. -/
def System.execWhen (S : System R ε σ τ ι) (good : Config R ε σ τ → Move ε ι → Bool) :
    List (Move ε ι) → Config R ε σ τ → Option (Config R ε σ τ)
  | [], c => some c
  | move :: moves, c =>
    if good c move then (S.step c move).bind (S.execWhen good moves) else none

variable {S : System R ε σ τ ι} {ok ok' : Config R ε σ τ → Move ε ι → Prop}
  {start c d : Config R ε σ τ}

theorem Reach.exec {moves : List (Move ε ι)} (reach : Reach S ok start c)
    (hok : ∀ e move, ok e move) (h : S.exec moves c = some d) : Reach S ok start d := by
  induction moves generalizing c with
  | nil =>
    simp only [System.exec, Option.some.injEq] at h
    exact h ▸ reach
  | cons move moves ih =>
    obtain ⟨e, hstep, hrest⟩ := Option.bind_eq_some_iff.mp h
    exact ih (reach.step (hok c move) hstep) hrest

theorem Reach.execWhen {good : Config R ε σ τ → Move ε ι → Bool} {moves : List (Move ε ι)}
    (reach : Reach S ok start c)
    (hok : ∀ e move, Reach S ok start e → good e move = true → ok e move)
    (h : S.execWhen good moves c = some d) : Reach S ok start d := by
  induction moves generalizing c with
  | nil =>
    simp only [System.execWhen, Option.some.injEq] at h
    exact h ▸ reach
  | cons move moves ih =>
    simp only [System.execWhen, Option.ite_none_right_eq_some] at h
    obtain ⟨hgood, h⟩ := h
    obtain ⟨e, hstep, hrest⟩ := Option.bind_eq_some_iff.mp h
    exact ih (reach.step (hok c move reach hgood) hstep) hrest

theorem Reach.trans (h : Reach S ok start c) (h' : Reach S ok c d) : Reach S ok start d := by
  induction h' with
  | start => exact h
  | step _ hok hstep ih => exact ih.step hok hstep

theorem Reach.invariant {I : Config R ε σ τ → Prop} (reach : Reach S ok start c)
    (hstart : I start)
    (hstep : ∀ d e move, I d → ok d move → S.step d move = some e → I e) : I c := by
  induction reach with
  | start => exact hstart
  | step _ hok h ih => exact hstep _ _ _ ih hok h

theorem Reach.weaken (reach : Reach S ok start c) (himp : ∀ d move, ok d move → ok' d move) :
    Reach S ok' start c := by
  induction reach with
  | start => exact .start
  | step _ hok h ih => exact ih.step (himp _ _ hok) h

theorem Reach.strengthen {I : Config R ε σ τ → Prop} (reach : Reach S ok start c)
    (hI : ∀ d, Reach S ok start d → I d) : Reach S (fun d move => ok d move ∧ I d) start c := by
  induction reach with
  | start => exact .start
  | step hreach hok h ih => exact ih.step ⟨hok, hI _ hreach⟩ h

theorem System.step_cases {move : Move ε ι} (h : S.step c move = some d) :
    (∃ i fate t cmd rest, move = .run i fate ∧ c.threads[i]? = some t ∧
      t.prog = .await cmd rest ∧ S.admits cmd c.shared fate = true ∧
      d = ⟨(outcome S.meaning cmd c.shared fate).2,
        c.threads.set i { t with prog := rest (outcome S.meaning cmd c.shared fate).1 }⟩) ∨
    (∃ i t result, move = .exit i ∧ c.threads[i]? = some t ∧ t.ended = some result ∧
      d = ⟨c.shared, c.threads.eraseIdx i ++ S.exit t.tag result⟩) ∨
    (∃ i t, move = .die i ∧ c.threads[i]? = some t ∧
      d = ⟨S.death t.tag c.shared, c.threads.eraseIdx i⟩) ∨
    (∃ e s new, move = .env e ∧ S.env e c.shared = some (s, new) ∧ d = ⟨s, c.threads ++ new⟩) := by
  cases move with
  | run i fate =>
    simp only [step, Option.bind_eq_bind, Option.bind_eq_some_iff, Prod.exists, Option.pure_def,
      Option.some.injEq] at h
    obtain ⟨t, ht, t', s, hadv, rfl⟩ := h
    cases hp : t.prog with
    | ret value => simp [advance, hp] at hadv
    | throw e => simp [advance, hp] at hadv
    | await cmd rest =>
      simp only [advance, hp, Option.ite_none_right_eq_some, Option.some.injEq,
        Prod.mk.injEq] at hadv
      obtain ⟨hadmits, rfl, rfl⟩ := hadv
      exact .inl ⟨i, fate, t, cmd, rest, rfl, ht, hp, hadmits, rfl⟩
  | exit i =>
    simp only [step, Option.bind_eq_bind, Option.bind_eq_some_iff, Option.pure_def,
      Option.some.injEq] at h
    obtain ⟨t, ht, result, hended, rfl⟩ := h
    exact .inr (.inl ⟨i, t, result, rfl, ht, hended, rfl⟩)
  | die i =>
    simp only [step, Option.bind_eq_bind, Option.bind_eq_some_iff, Option.pure_def,
      Option.some.injEq] at h
    obtain ⟨t, ht, rfl⟩ := h
    exact .inr (.inr (.inl ⟨i, t, rfl, ht, rfl⟩))
  | env e =>
    simp only [step, Option.bind_eq_bind, Option.bind_eq_some_iff, Prod.exists, Option.pure_def,
      Option.some.injEq] at h
    obtain ⟨s, new, henv, rfl⟩ := h
    exact .inr (.inr (.inr ⟨e, s, new, rfl, henv, rfl⟩))

theorem Reach.tags {K : τ → σ → Prop} (reach : Reach S ok start c)
    (hstart : ∀ t ∈ start.threads, K t.tag start.shared)
    (hawait : ∀ a cmd s, K a s → K a (S.meaning cmd s).2)
    (hexit : ∀ a result s, K a s → ∀ t ∈ S.exit a result, K t.tag s)
    (hdeath : ∀ a b s, K a s → K a (S.death b s))
    (henv : ∀ e s s' new, S.env e s = some (s', new) →
      (∀ a, K a s → K a s') ∧ ∀ t ∈ new, K t.tag s') :
    ∀ t ∈ c.threads, K t.tag c.shared := by
  refine reach.invariant (I := fun c => ∀ t ∈ c.threads, K t.tag c.shared) hstart ?_
  intro d e move hd _ hstep
  obtain ⟨i, fate, t, cmd, rest, rfl, hi, _, _, rfl⟩ | ⟨i, t, result, rfl, hi, _, rfl⟩ |
    ⟨i, t, rfl, _, rfl⟩ | ⟨e, s, new, rfl, hnew, rfl⟩ := System.step_cases hstep
  · have hkeep : ∀ a, K a d.shared → K a (outcome S.meaning cmd d.shared fate).2 := by
      intro a ha
      rcases outcome_snd S.meaning cmd d.shared fate with ho | ho
      · rw [ho]
        exact hawait a cmd _ ha
      · rw [ho]
        exact ha
    intro u hu
    rcases List.mem_or_eq_of_mem_set hu with hu | rfl
    · exact hkeep _ (hd u hu)
    · exact hkeep _ (hd t (List.mem_of_getElem? hi))
  · intro u hu
    rcases List.mem_append.mp hu with hu | hu
    · exact hd u ((List.eraseIdx_sublist d.threads i).subset hu)
    · exact hexit _ _ _ (hd t (List.mem_of_getElem? hi)) u hu
  · intro u hu
    exact hdeath _ _ _ (hd u ((List.eraseIdx_sublist d.threads i).subset hu))
  · intro u hu
    rcases List.mem_append.mp hu with hu | hu
    · exact (henv e _ _ _ hnew).1 _ (hd u hu)
    · exact (henv e _ _ _ hnew).2 u hu

end System

end Coroutine
