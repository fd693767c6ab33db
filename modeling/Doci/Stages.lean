import Doci.Interleaving
import Mathlib.Logic.Function.Basic
import Mathlib.Data.List.Nodup

/-! Programs that go through the stages of a protocol, and the histories of pools of such
programs. -/

namespace Coroutine

section Protocol

variable {C : Type} {R : C → Type} {ε Q : Type}

/-- The commands that a stage allows, the stage after a reply, and the results with which a
program may end at a stage. -/
structure Protocol {C : Type} (R : C → Type) (ε Q : Type) where
  allows : Q → C → Prop
  next : Q → (c : C) → Except ε (R c) → Q
  ends : Q → Except ε Unit → Prop

/-- The program is at the stage and follows the protocol from there. -/
def Prog.At (P : Protocol R ε Q) : Prog R ε Unit → Q → Prop
  | ret value, q => P.ends q (.ok value)
  | throw e, q => P.ends q (.error e)
  | await c rest, q => P.allows q c ∧ ∀ reply, (rest reply).At P (P.next q c reply)

theorem Prog.Uses.at_stage {P : Protocol R ε Q} {q : Q} {p : Prog R ε Unit}
    (h : p.Uses (P.allows q)) (hnext : ∀ c reply, P.next q c reply = q)
    (hends : ∀ result, P.ends q result) : p.At P q := by
  induction p with
  | ret value => exact hends _
  | throw e => exact hends _
  | await c rest ih =>
    refine ⟨h.1, fun reply => ?_⟩
    rw [hnext]
    exact ih reply (h.2 reply)

theorem Thread.ends_of_ended {τ : Type} {P : Protocol R ε Q} {q : Q} {t : Thread R ε τ}
    {result : Except ε Unit} (hended : t.ended = some result) (h : t.prog.At P q) :
    P.ends q result := by
  cases hp : t.prog with
  | ret value =>
    simp only [Thread.ended, hp, Option.some.injEq] at hended
    rw [hp] at h
    exact hended ▸ h
  | throw e =>
    simp only [Thread.ended, hp, Option.some.injEq] at hended
    rw [hp] at h
    exact hended ▸ h
  | await c rest => simp [Thread.ended, hp] at hended

end Protocol

section History

variable {C : Type} {R : C → Type} {ε σ τ ι : Type}

structure Passage {C : Type} (R : C → Type) (ε σ τ ι : Type) where
  before : Config R ε σ τ
  move : Move ε ι
  after : Config R ε σ τ

/-- The runs and their passages, the latest first. -/
inductive Run (S : System R ε σ τ ι) (ok : Config R ε σ τ → Move ε ι → Prop)
    (start : Config R ε σ τ) : List (Passage R ε σ τ ι) → Config R ε σ τ → Prop
  | start : Run S ok start [] start
  | step {h : List (Passage R ε σ τ ι)} {c d : Config R ε σ τ} {move : Move ε ι}
      (run : Run S ok start h c) (hok : ok c move) (hstep : S.step c move = some d) :
      Run S ok start (⟨c, move, d⟩ :: h) d

def System.record (S : System R ε σ τ ι) : List (Move ε ι) →
    List (Passage R ε σ τ ι) × Config R ε σ τ → Option (List (Passage R ε σ τ ι) × Config R ε σ τ)
  | [], run => some run
  | move :: moves, (h, c) => (S.step c move).bind fun d => S.record moves (⟨c, move, d⟩ :: h, d)

variable {S : System R ε σ τ ι} {ok : Config R ε σ τ → Move ε ι → Prop} {start : Config R ε σ τ}

theorem System.record_subset {moves : List (Move ε ι)} {h : List (Passage R ε σ τ ι)}
    {c : Config R ε σ τ} {result : List (Passage R ε σ τ ι) × Config R ε σ τ}
    (hrun : S.record moves (h, c) = some result) : h ⊆ result.1 := by
  induction moves generalizing h c with
  | nil =>
    simp only [System.record, Option.some.injEq] at hrun
    exact hrun ▸ List.Subset.refl h
  | cons move moves ih =>
    obtain ⟨d, _, hrest⟩ := Option.bind_eq_some_iff.mp hrun
    exact fun p hp => ih hrest (List.mem_cons_of_mem _ hp)

theorem Run.recordWhere {moves : List (Move ε ι)} {h : List (Passage R ε σ τ ι)} {c : Config R ε σ τ}
    {result : List (Passage R ε σ τ ι) × Config R ε σ τ} (run : Run S ok start h c)
    (hok : ∀ p ∈ result.1, ok p.before p.move) (hrun : S.record moves (h, c) = some result) :
    Run S ok start result.1 result.2 := by
  induction moves generalizing h c with
  | nil =>
    simp only [System.record, Option.some.injEq] at hrun
    exact hrun ▸ run
  | cons move moves ih =>
    obtain ⟨d, hstep, hrest⟩ := Option.bind_eq_some_iff.mp hrun
    have hmem : ⟨c, move, d⟩ ∈ result.1 := System.record_subset hrest List.mem_cons_self
    exact ih (run.step (hok _ hmem) hstep) hrest

theorem Run.record {moves : List (Move ε ι)} {h : List (Passage R ε σ τ ι)} {c : Config R ε σ τ}
    {result : List (Passage R ε σ τ ι) × Config R ε σ τ} (run : Run S ok start h c)
    (hok : ∀ e move, ok e move) (hrun : S.record moves (h, c) = some result) :
    Run S ok start result.1 result.2 :=
  run.recordWhere (fun p _ => hok p.before p.move) hrun

end History

section Outline

variable {C : Type} {R : C → Type} {ε σ τ ι κ Q : Type} [DecidableEq κ]

/-- Every program of the pool is at the stage of its name, and the other names idle. -/
structure Staged (P : τ → Protocol R ε Q) (name : τ → κ) (idle : Q) (threads : List (Thread R ε τ))
    (stage : κ → Q) : Prop where
  at_stage : ∀ t ∈ threads, t.prog.At (P t.tag) (stage (name t.tag))
  distinct : (threads.map fun t => name t.tag).Nodup
  owner : ∀ k, stage k ≠ idle → ∃ t ∈ threads, name t.tag = k

section Staged

variable {P : τ → Protocol R ε Q} {name : τ → κ} {idle : Q} {threads : List (Thread R ε τ)}
  {stage : κ → Q}

omit [DecidableEq κ] in
theorem Staged.unique (h : Staged P name idle threads stage) {i j : Nat} {t u : Thread R ε τ}
    (hi : threads[i]? = some t) (hj : threads[j]? = some u) (hname : name t.tag = name u.tag) :
    i = j := by
  have hlt := (List.getElem?_eq_some_iff.mp hi).1
  apply (List.getElem?_inj (by simpa using hlt) h.distinct).mp
  rw [List.getElem?_map, List.getElem?_map, hi, hj, Option.map_some, Option.map_some, hname]

theorem Staged.await (h : Staged P name idle threads stage) {i : Nat} {t : Thread R ε τ} {c : C}
    {rest : Except ε (R c) → Prog R ε Unit} (hi : threads[i]? = some t)
    (hprog : t.prog = .await c rest) (reply : Except ε (R c)) :
    Staged P name idle (threads.set i { t with prog := rest reply })
      (Function.update stage (name t.tag) ((P t.tag).next (stage (name t.tag)) c reply)) := by
  have hat := h.at_stage t (List.mem_of_getElem? hi)
  rw [hprog] at hat
  have htags : (threads.set i { t with prog := rest reply }).map (fun t => name t.tag) =
      threads.map fun t => name t.tag := by
    obtain ⟨hlt, rfl⟩ := List.getElem?_eq_some_iff.mp hi
    have hset : (threads.map fun t => name t.tag).set i (name threads[i].tag) =
        threads.map fun t => name t.tag := by
      rw [← List.map_set, List.set_getElem_self]
    rw [List.map_set, hset]
  refine ⟨fun u hu => ?_, htags ▸ h.distinct, fun k hk => ?_⟩
  · obtain ⟨j, hj⟩ := List.getElem?_of_mem hu
    rw [List.getElem?_set] at hj
    split_ifs at hj with hij hlt
    · simp only [Option.some.injEq] at hj
      subst hj
      rw [Function.update_self]
      exact hat.2 reply
    · have hne : name u.tag ≠ name t.tag := fun heq => hij (h.unique hi hj heq.symm)
      rw [Function.update_of_ne hne]
      exact h.at_stage u (List.mem_of_getElem? hj)
  · have hmem : k ∈ threads.map fun t => name t.tag := by
      by_cases hkt : k = name t.tag
      · exact hkt ▸ List.mem_map_of_mem (List.mem_of_getElem? hi)
      · rw [Function.update_of_ne hkt] at hk
        obtain ⟨u, hu, rfl⟩ := h.owner k hk
        exact List.mem_map_of_mem hu
    rw [← htags] at hmem
    exact List.mem_map.mp hmem

theorem Staged.erase (h : Staged P name idle threads stage) {i : Nat} {t : Thread R ε τ}
    (hi : threads[i]? = some t) :
    Staged P name idle (threads.eraseIdx i) (Function.update stage (name t.tag) idle) := by
  have hsub := List.eraseIdx_sublist threads i
  refine ⟨fun u hu => ?_, h.distinct.sublist (hsub.map _), fun k hk => ?_⟩
  · obtain ⟨j, hne, hj⟩ := List.mem_eraseIdx_iff_getElem?.mp hu
    have hname : name u.tag ≠ name t.tag := fun heq => hne (h.unique hi hj heq.symm).symm
    rw [Function.update_of_ne hname]
    exact h.at_stage u (hsub.subset hu)
  · have hkt : k ≠ name t.tag := by
      rintro rfl
      simp at hk
    rw [Function.update_of_ne hkt] at hk
    obtain ⟨u, hu, rfl⟩ := h.owner k hk
    obtain ⟨j, hj⟩ := List.getElem?_of_mem hu
    have hij : j ≠ i := by
      rintro rfl
      exact hkt (by rw [Option.some.inj (hi.symm.trans hj)])
    exact ⟨u, List.mem_eraseIdx_iff_getElem?.mpr ⟨j, hij, hj⟩, rfl⟩

theorem Staged.add (h : Staged P name idle threads stage) {t : Thread R ε τ} {q : Q}
    (hat : t.prog.At (P t.tag) q) (hfresh : ∀ u ∈ threads, name u.tag ≠ name t.tag) :
    Staged P name idle (threads ++ [t]) (Function.update stage (name t.tag) q) := by
  refine ⟨fun u hu => ?_, ?_, fun k hk => ?_⟩
  · rcases List.mem_append.mp hu with hu | hu
    · rw [Function.update_of_ne (hfresh u hu)]
      exact h.at_stage u hu
    · obtain rfl := List.mem_singleton.mp hu
      rw [Function.update_self]
      exact hat
  · rw [List.map_append, List.nodup_append]
    refine ⟨h.distinct, List.nodup_singleton _, fun k hk l hl => ?_⟩
    obtain ⟨u, hu, rfl⟩ := List.mem_map.mp hk
    obtain rfl := List.mem_singleton.mp hl
    exact hfresh u hu
  · by_cases hkt : k = name t.tag
    · exact ⟨t, List.mem_append_right _ (List.mem_singleton_self t), hkt.symm⟩
    · rw [Function.update_of_ne hkt] at hk
      obtain ⟨u, hu, hname⟩ := h.owner k hk
      exact ⟨u, List.mem_append_left _ hu, hname⟩

end Staged

/-- A proof outline: what holds of the history, the state and the stages, and that each move
of a run keeps it. -/
structure Outline (S : System R ε σ τ ι) (ok : Config R ε σ τ → Move ε ι → Prop)
    (P : τ → Protocol R ε Q) (name : τ → κ) (idle : Q) where
  inv : List (Passage R ε σ τ ι) → σ → (κ → Q) → Prop
  no_exit : ∀ a result, S.exit a result = []
  await : ∀ {h c d stage i fate t cmd rest}, inv h c.shared stage →
    Staged P name idle c.threads stage → ok c (.run i fate) →
    d.shared = (outcome S.meaning cmd c.shared fate).2 → c.threads[i]? = some t → t.prog = .await cmd rest →
    (P t.tag).allows (stage (name t.tag)) cmd → S.admits cmd c.shared fate = true →
    inv (⟨c, .run i fate, d⟩ :: h) (outcome S.meaning cmd c.shared fate).2
      (Function.update stage (name t.tag) ((P t.tag).next (stage (name t.tag)) cmd
        (outcome S.meaning cmd c.shared fate).1))
  ended : ∀ {h c d stage i t result}, inv h c.shared stage →
    Staged P name idle c.threads stage → ok c (.exit i) → c.threads[i]? = some t →
    t.ended = some result → (P t.tag).ends (stage (name t.tag)) result →
    d.shared = c.shared →
    inv (⟨c, .exit i, d⟩ :: h) c.shared (Function.update stage (name t.tag) idle)
  death : ∀ {h c d stage i t}, inv h c.shared stage →
    Staged P name idle c.threads stage → ok c (.die i) → c.threads[i]? = some t →
    d.shared = S.death t.tag c.shared →
    inv (⟨c, .die i, d⟩ :: h) (S.death t.tag c.shared) (Function.update stage (name t.tag) idle)
  env : ∀ {h c d stage e s new}, inv h c.shared stage →
    Staged P name idle c.threads stage → ok c (.env e) → S.env e c.shared = some (s, new) →
    d.shared = s →
    ∃ stage', inv (⟨c, .env e, d⟩ :: h) s stage' ∧ Staged P name idle (c.threads ++ new) stage'

variable {S : System R ε σ τ ι} {ok : Config R ε σ τ → Move ε ι → Prop} {P : τ → Protocol R ε Q}
  {name : τ → κ} {idle : Q}

theorem Run.outline (O : Outline S ok P name idle) {start c : Config R ε σ τ}
    {h : List (Passage R ε σ τ ι)} (run : Run S ok start h c)
    (hstart : ∃ stage, Staged P name idle start.threads stage ∧ O.inv [] start.shared stage) :
    ∃ stage, Staged P name idle c.threads stage ∧ O.inv h c.shared stage := by
  induction run with
  | start => exact hstart
  | step run hok hstep ih =>
    obtain ⟨stage, hstaged, hinv⟩ := ih
    obtain ⟨i, fate, t, cmd, rest, rfl, hi, hprog, hadmits, rfl⟩ |
      ⟨i, t, result, rfl, hi, hended, rfl⟩ | ⟨i, t, rfl, hi, rfl⟩ |
      ⟨e, s, new, rfl, henv, rfl⟩ := System.step_cases hstep
    · have hat := hstaged.at_stage t (List.mem_of_getElem? hi)
      rw [hprog] at hat
      exact ⟨_, hstaged.await hi hprog _, O.await hinv hstaged hok rfl hi hprog hat.1 hadmits⟩
    · have hat := hstaged.at_stage t (List.mem_of_getElem? hi)
      rw [O.no_exit, List.append_nil]
      exact ⟨_, hstaged.erase hi, O.ended hinv hstaged hok hi hended
        (Thread.ends_of_ended hended hat) rfl⟩
    · exact ⟨_, hstaged.erase hi, O.death hinv hstaged hok hi rfl⟩
    · obtain ⟨stage', hinv', hstaged'⟩ := O.env (d := ⟨s, _⟩) hinv hstaged hok henv rfl
      exact ⟨stage', hstaged', hinv'⟩

end Outline

end Coroutine
