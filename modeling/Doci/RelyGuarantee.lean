import Doci.Interleaving
import Mathlib.Data.List.Pairwise

/-! The rely-guarantee rule for pools of programs: programs that keep their contracts
alone keep them together when each may rely on what the others guarantee. -/

namespace Coroutine

section Discipline

variable {C : Type} {R : C → Type} {ε σ τ ι : Type}

/-- Contracts by tag. Two programs with `apart` tags may run side by side; a move that
`ok` admits starts no program that is not apart from those that run. -/
structure Discipline (S : System R ε σ τ ι) (ok : Config R ε σ τ → Move ε ι → Prop) where
  inv : σ → Prop
  contract : τ → Contract R ε σ
  post : τ → Except ε Unit → σ → Prop
  apart : τ → τ → Prop
  meaning_eq : ∀ a, (contract a).meaning = S.meaning
  inv_eq : ∀ a, (contract a).inv = inv
  apart_symm : ∀ {a b}, apart a b → apart b a
  others : ∀ {a b s t}, apart a b → inv s → inv t → (contract a).guar s t → (contract b).rely s t
  fates : ∀ {c i fate t cmd rest}, ok c (.run i fate) → c.threads[i]? = some t →
    t.prog = .await cmd rest → S.admits cmd c.shared fate = true → inv c.shared →
    (contract t.tag).fate cmd c.shared fate
  exit_keeps : ∀ {a r s}, inv s → post a r s → ∀ t ∈ S.exit a r,
    Keeps (contract t.tag) (post t.tag) t.prog s
  exit_apart : ∀ {a r}, ∀ t ∈ S.exit a r, ∀ b, apart b a → apart b t.tag
  exit_pairwise : ∀ {a r}, ((S.exit a r).map Thread.tag).Pairwise apart
  death_inv : ∀ {c i t}, ok c (.die i) → c.threads[i]? = some t → inv c.shared →
    inv (S.death t.tag c.shared)
  death_rely : ∀ {c i t b}, ok c (.die i) → c.threads[i]? = some t → inv c.shared →
    apart t.tag b → (contract b).rely c.shared (S.death t.tag c.shared)
  env_inv : ∀ {c e s new}, ok c (.env e) → S.env e c.shared = some (s, new) → inv c.shared → inv s
  env_rely : ∀ {c e s new}, ok c (.env e) → S.env e c.shared = some (s, new) → inv c.shared →
    ∀ t ∈ c.threads, (contract t.tag).rely c.shared s
  env_keeps : ∀ {c e s new}, ok c (.env e) → S.env e c.shared = some (s, new) → inv c.shared →
    ∀ t ∈ new, Keeps (contract t.tag) (post t.tag) t.prog s
  env_apart : ∀ {c e s new}, ok c (.env e) → S.env e c.shared = some (s, new) → inv c.shared →
    (new.map Thread.tag).Pairwise apart ∧ ∀ t ∈ c.threads, ∀ u ∈ new, apart t.tag u.tag

variable {S : System R ε σ τ ι} {ok : Config R ε σ τ → Move ε ι → Prop}

structure Discipline.Safe (D : Discipline S ok) (c : Config R ε σ τ) : Prop where
  inv : D.inv c.shared
  keeps : ∀ t ∈ c.threads, Keeps (D.contract t.tag) (D.post t.tag) t.prog c.shared
  apart : (c.threads.map Thread.tag).Pairwise D.apart

theorem Discipline.apart_of_ne (D : Discipline S ok) {l : List (Thread R ε τ)}
    (h : (l.map Thread.tag).Pairwise D.apart) {i j : Nat} {t u : Thread R ε τ}
    (hi : l[i]? = some t) (hj : l[j]? = some u) (hne : i ≠ j) : D.apart t.tag u.tag := by
  obtain ⟨hi', rfl⟩ := List.getElem?_eq_some_iff.mp hi
  obtain ⟨hj', rfl⟩ := List.getElem?_eq_some_iff.mp hj
  rw [List.pairwise_map, List.pairwise_iff_getElem] at h
  rcases Nat.lt_or_gt_of_ne hne with hlt | hlt
  · exact h i j hi' hj' hlt
  · exact D.apart_symm (h j i hj' hi' hlt)

theorem tags_set {l : List (Thread R ε τ)} {i : Nat} {t : Thread R ε τ} (hi : l[i]? = some t)
    (prog : Prog R ε Unit) : (l.set i { t with prog := prog }).map Thread.tag = l.map Thread.tag := by
  obtain ⟨hlt, rfl⟩ := List.getElem?_eq_some_iff.mp hi
  have hset : (l.map Thread.tag).set i l[i].tag = l.map Thread.tag := by
    rw [← List.map_set, List.set_getElem_self]
  rw [List.map_set, hset]

section Step

variable {D : Discipline S ok} {c d : Config R ε σ τ}

theorem Discipline.Safe.await (hc : D.Safe c) {i : Nat} {fate : Fate ε} {t : Thread R ε τ}
    {cmd : C} {rest : Except ε (R cmd) → Prog R ε Unit} (hok : ok c (.run i fate))
    (hi : c.threads[i]? = some t) (hprog : t.prog = .await cmd rest)
    (hadmits : S.admits cmd c.shared fate = true) :
    D.inv (outcome S.meaning cmd c.shared fate).2 ∧
      (D.contract t.tag).guar c.shared (outcome S.meaning cmd c.shared fate).2 ∧
      Keeps (D.contract t.tag) (D.post t.tag) (rest (outcome S.meaning cmd c.shared fate).1)
        (outcome S.meaning cmd c.shared fate).2 := by
  have hkeeps := hc.keeps t (List.mem_of_getElem? hi)
  rw [hprog] at hkeeps
  have h := hkeeps c.shared ((D.contract t.tag).rely_refl _)
    (by rw [D.inv_eq]; exact hc.inv) fate (D.fates hok hi hprog hadmits hc.inv)
  rwa [D.inv_eq, D.meaning_eq] at h

theorem Discipline.Safe.run (hc : D.Safe c) {i : Nat} {fate : Fate ε} {t : Thread R ε τ}
    {cmd : C} {rest : Except ε (R cmd) → Prog R ε Unit} (hok : ok c (.run i fate))
    (hi : c.threads[i]? = some t) (hprog : t.prog = .await cmd rest)
    (hadmits : S.admits cmd c.shared fate = true) :
    D.Safe ⟨(outcome S.meaning cmd c.shared fate).2,
      c.threads.set i { t with prog := rest (outcome S.meaning cmd c.shared fate).1 }⟩ := by
  obtain ⟨hinv, hguar, hrest⟩ := hc.await hok hi hprog hadmits
  refine ⟨hinv, fun u hu => ?_, ?_⟩
  · obtain ⟨j, hj⟩ := List.getElem?_of_mem hu
    rw [List.getElem?_set] at hj
    split_ifs at hj with hij hlt
    · simp only [Option.some.injEq] at hj
      exact hj ▸ hrest
    · have hapart := D.apart_of_ne hc.apart hi hj hij
      exact (hc.keeps u (List.mem_of_getElem? hj)).later (D.others hapart hc.inv hinv hguar)
  · rw [tags_set hi]
    exact hc.apart

theorem Discipline.Safe.ended (hc : D.Safe c) {i : Nat} {t : Thread R ε τ}
    {result : Except ε Unit} (hi : c.threads[i]? = some t) (hended : t.ended = some result) :
    D.post t.tag result c.shared := by
  have hkeeps := hc.keeps t (List.mem_of_getElem? hi)
  have hrefl := (D.contract t.tag).rely_refl c.shared
  have hinv : (D.contract t.tag).inv c.shared := by rw [D.inv_eq]; exact hc.inv
  cases hp : t.prog with
  | ret value =>
    rw [hp] at hkeeps
    simp only [Thread.ended, hp, Option.some.injEq] at hended
    exact hended ▸ hkeeps _ hrefl hinv
  | throw e =>
    rw [hp] at hkeeps
    simp only [Thread.ended, hp, Option.some.injEq] at hended
    exact hended ▸ hkeeps _ hrefl hinv
  | await cmd rest => simp [Thread.ended, hp] at hended

theorem Discipline.Safe.exit (hc : D.Safe c) {i : Nat} {t : Thread R ε τ}
    {result : Except ε Unit} (hi : c.threads[i]? = some t) (hended : t.ended = some result) :
    D.Safe ⟨c.shared, c.threads.eraseIdx i ++ S.exit t.tag result⟩ := by
  have hpost := hc.ended hi hended
  have hsub := List.eraseIdx_sublist c.threads i
  refine ⟨hc.inv, fun u hu => ?_, ?_⟩
  · rcases List.mem_append.mp hu with hu | hu
    · exact hc.keeps u (hsub.subset hu)
    · exact D.exit_keeps hc.inv hpost u hu
  · rw [List.map_append, List.pairwise_append]
    refine ⟨hc.apart.sublist (hsub.map _), D.exit_pairwise, fun a ha b hb => ?_⟩
    obtain ⟨u, hu, rfl⟩ := List.mem_map.mp ha
    obtain ⟨v, hv, rfl⟩ := List.mem_map.mp hb
    obtain ⟨j, hne, hj⟩ := List.mem_eraseIdx_iff_getElem?.mp hu
    exact D.exit_apart v hv _ (D.apart_of_ne hc.apart hj hi hne)

theorem Discipline.Safe.die (hc : D.Safe c) {i : Nat} {t : Thread R ε τ} (hok : ok c (.die i))
    (hi : c.threads[i]? = some t) : D.Safe ⟨S.death t.tag c.shared, c.threads.eraseIdx i⟩ := by
  have hsub := List.eraseIdx_sublist c.threads i
  refine ⟨D.death_inv hok hi hc.inv, fun u hu => ?_, hc.apart.sublist (hsub.map _)⟩
  obtain ⟨j, hne, hj⟩ := List.mem_eraseIdx_iff_getElem?.mp hu
  have hapart := D.apart_of_ne hc.apart hi hj hne.symm
  exact (hc.keeps u (hsub.subset hu)).later (D.death_rely hok hi hc.inv hapart)

theorem Discipline.Safe.env (hc : D.Safe c) {e : ι} {s : σ} {new : List (Thread R ε τ)}
    (hok : ok c (.env e)) (henv : S.env e c.shared = some (s, new)) :
    D.Safe ⟨s, c.threads ++ new⟩ := by
  have hapart := D.env_apart hok henv hc.inv
  refine ⟨D.env_inv hok henv hc.inv, fun u hu => ?_, ?_⟩
  · rcases List.mem_append.mp hu with hu | hu
    · exact (hc.keeps u hu).later (D.env_rely hok henv hc.inv u hu)
    · exact D.env_keeps hok henv hc.inv u hu
  · rw [List.map_append, List.pairwise_append]
    refine ⟨hc.apart, hapart.1, fun a ha b hb => ?_⟩
    obtain ⟨u, hu, rfl⟩ := List.mem_map.mp ha
    obtain ⟨v, hv, rfl⟩ := List.mem_map.mp hb
    exact hapart.2 u hu v hv

theorem Discipline.Safe.step {move : Move ε ι} (hc : D.Safe c) (hok : ok c move)
    (h : S.step c move = some d) : D.Safe d := by
  obtain ⟨i, fate, t, cmd, rest, rfl, hi, hprog, hadmits, rfl⟩ | ⟨i, t, result, rfl, hi, hended, rfl⟩ |
    ⟨i, t, rfl, hi, rfl⟩ | ⟨e, s, new, rfl, henv, rfl⟩ := System.step_cases h
  · exact hc.run hok hi hprog hadmits
  · exact hc.exit hi hended
  · exact hc.die hok hi
  · exact hc.env hok henv

/-- What every guarantee, every death and every move of the environment implies holds
of each step of a safe pool. -/
theorem Discipline.Safe.step_rel {move : Move ε ι} {G : σ → σ → Prop} (hc : D.Safe c)
    (hok : ok c move) (h : S.step c move = some d) (hrefl : ∀ s, G s s)
    (hguar : ∀ {a s t}, D.inv s → D.inv t → (D.contract a).guar s t → G s t)
    (hdeath : ∀ a s, G s (S.death a s))
    (henv : ∀ {e s new}, ok c (.env e) → S.env e c.shared = some (s, new) → G c.shared s) :
    G c.shared d.shared := by
  obtain ⟨i, fate, t, cmd, rest, rfl, hi, hprog, hadmits, rfl⟩ | ⟨i, t, result, rfl, hi, hended, rfl⟩ |
    ⟨i, t, rfl, hi, rfl⟩ | ⟨e, s, new, rfl, he, rfl⟩ := System.step_cases h
  · obtain ⟨hinv, hg, _⟩ := hc.await hok hi hprog hadmits
    exact hguar hc.inv hinv hg
  · exact hrefl _
  · exact hdeath _ _
  · exact henv hok he

end Step

theorem Reach.safe (D : Discipline S ok) {start c : Config R ε σ τ} (reach : Reach S ok start c)
    (hstart : D.Safe start) : D.Safe c :=
  reach.invariant hstart fun _ _ _ hc hok h => hc.step hok h

/-- A program that nothing kills is still running or has left what its `post` says, as long
as no move undoes that. -/
theorem Reach.ended (D : Discipline S ok) {a : τ} {P : σ → Prop} {start c : Config R ε σ τ}
    (reach : Reach S ok start c) (hstart : D.Safe start) (hmem : a ∈ start.threads.map Thread.tag)
    (halive : ∀ {c i t}, ok c (.die i) → c.threads[i]? = some t → t.tag ≠ a)
    (hpost : ∀ r s, D.post a r s → P s)
    (hstep : ∀ {c d move}, D.Safe c → ok c move → S.step c move = some d → P c.shared → P d.shared) :
    a ∈ c.threads.map Thread.tag ∨ P c.shared := by
  induction reach with
  | start => exact .inl hmem
  | step hreach hok h ih =>
    have hsafe := hreach.safe D hstart
    rcases ih with hmem | hP
    · obtain ⟨i, fate, t, cmd, rest, rfl, hi, _, _, rfl⟩ | ⟨i, t, result, rfl, hi, hended, rfl⟩ |
        ⟨i, t, rfl, hi, rfl⟩ | ⟨e, s, new, rfl, _, rfl⟩ := System.step_cases h
      · exact .inl (by rwa [tags_set hi])
      · obtain ⟨u, hu, rfl⟩ := List.mem_map.mp hmem
        obtain ⟨j, hj⟩ := List.getElem?_of_mem hu
        by_cases hij : j = i
        · subst hij
          obtain rfl := Option.some.inj (hi.symm.trans hj)
          exact .inr (hpost result _ (hsafe.ended hi hended))
        · have hrest := List.mem_eraseIdx_iff_getElem?.mpr ⟨j, hij, hj⟩
          exact .inl (List.mem_map_of_mem (List.mem_append_left _ hrest))
      · obtain ⟨u, hu, rfl⟩ := List.mem_map.mp hmem
        obtain ⟨j, hj⟩ := List.getElem?_of_mem hu
        have hij : j ≠ i := by
          rintro rfl
          obtain rfl := Option.some.inj (hi.symm.trans hj)
          exact halive hok hi rfl
        exact .inl (List.mem_map_of_mem (List.mem_eraseIdx_iff_getElem?.mpr ⟨j, hij, hj⟩))
      · refine .inl ?_
        rw [List.map_append]
        exact List.mem_append_left _ hmem
    · exact .inr (hstep hsafe hok h hP)

end Discipline

end Coroutine
