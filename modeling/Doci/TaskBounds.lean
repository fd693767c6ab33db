import Doci.TaskGroups
import Mathlib.Data.List.Perm.Subperm

/-! The jobs that a pool has in hand: of each group no more than its bound, and none twice; and what
all groups keep that its programs open. -/

namespace Coroutine

section Hands

variable {C : Type} {R : C → Type} {ε σ τ ι J V α : Type} {W : Workers R ε σ τ ι J V}
  {P : List J → Nat → Prop}

/-- A command of a program itself, which opens only groups with `P`. -/
def TaskCmd.Own (P : List J → Nat → Prop) : TaskCmd C J V ε → Prop
  | .fork jobs bound => P jobs bound
  | .finish _ _ _ => False
  | _ => True

/-- No program ends a job itself. -/
structure Workers.Tidy (W : Workers R ε σ τ ι J V) (P : List J → Nat → Prop) : Prop where
  body : ∀ j, (W.body j).Uses (TaskCmd.Own P)
  env : ∀ {e s t new}, W.env e s = some (t, new) → ∀ u ∈ new, u.2.Uses (TaskCmd.Own P)

theorem uses_lift (p : Prog R ε α) : (TaskProg.lift p : TaskProg R J V ε α).Uses (TaskCmd.Own P) :=
  Prog.Uses.expand p fun c => uses_perform (show TaskCmd.Own P (TaskCmd.cmd c) from trivial)

theorem uses_gather {jobs : List J} {bound : Nat} (h : P jobs bound) :
    (TaskProg.gather jobs bound : TaskProg R J V ε (List V)).Uses (TaskCmd.Own P) :=
  (uses_perform (c := TaskCmd.fork jobs bound) h).bind fun g =>
    uses_perform (show TaskCmd.Own P (TaskCmd.join g) from trivial)

abbrev TaskThread (R : C → Type) (ε τ J V : Type) :=
  Thread (TaskReply R (J := J) (V := V) (ε := ε)) ε (TaskTag τ)

abbrev TaskConfig (R : C → Type) (ε σ τ J V : Type) :=
  Config (TaskReply R (J := J) (V := V) (ε := ε)) ε (TaskState σ J V ε) (TaskTag τ)

/-- The job of the group that the thread still has in hand. -/
def inHand (g : Nat) (t : TaskThread R ε τ J V) : Option Nat :=
  match t.tag with
  | .job g' i => if g' = g && t.ended.isNone then some i else none
  | .main _ => none

/-- A job in hand is among those that run, and its program ends with its end. -/
def Working (P : List J → Nat → Prop) (s : TaskState σ J V ε) (t : TaskThread R ε τ J V) : Prop :=
  match t.tag with
  | .main _ => t.prog.Uses (TaskCmd.Own P)
  | .job g i => ∃ group, s.groups[g]? = some group ∧ i < group.next ∧
      (t.prog = .ret () ∨ i ∈ group.running ∧ ∃ q : TaskProg R J V ε V, q.Uses (TaskCmd.Own P) ∧
        t.prog = q.settle fun r => .await (.finish g i r) fun _ => .ret ())

structure Handled (P : List J → Nat → Prop) (c : TaskConfig R ε σ τ J V) : Prop where
  opened : ∀ group ∈ c.shared.groups, P group.jobs group.bound
  working : ∀ t ∈ c.threads, Working P c.shared t
  apart : (c.threads.map Thread.tag).Pairwise fun a b => ∀ g i, a = .job g i → b ≠ .job g i

/-- The job of the tag, if it runs, runs on. -/
def Spares (tag : TaskTag τ) (s t : TaskState σ J V ε) : Prop :=
  ∀ g i, tag = .job g i → ∀ group, s.groups[g]? = some group → ∃ group', t.groups[g]? = some group' ∧
    group.next ≤ group'.next ∧ (i ∈ group.running → i ∈ group'.running)

theorem spares_shared (tag : TaskTag τ) (s : TaskState σ J V ε) (a : σ) :
    Spares tag s { s with shared := a } :=
  fun _ _ _ group hg => ⟨group, hg, Nat.le_refl _, fun hi => hi⟩

theorem spares_modify {tag : TaskTag τ} {s : TaskState σ J V ε} {g : Nat}
    {f : TaskGroup J V ε → TaskGroup J V ε}
    (hf : ∀ group, s.groups[g]? = some group → group.next ≤ (f group).next ∧
      ∀ i, tag = .job g i → i ∈ group.running → i ∈ (f group).running) :
    Spares tag s { s with groups := s.groups.modify g f } := by
  intro g' i htag group hgroup
  by_cases hg : g = g'
  · subst hg
    exact ⟨f group, by simp [hgroup], (hf group hgroup).1, (hf group hgroup).2 i htag⟩
  · exact ⟨group, by rw [List.getElem?_modify_ne f _ hg, hgroup], Nat.le_refl _, fun hi => hi⟩

theorem TaskGroup.finish_running (group : TaskGroup J V ε) {i k : Nat} (r : Except ε V) (hne : i ≠ k)
    (hi : i ∈ group.running) : i ∈ (group.finish k r).running := by
  unfold finish
  split_ifs
  · exact (List.mem_erase_of_ne hne).mpr hi
  · exact hi

theorem TaskGroup.drop_running (group : TaskGroup J V ε) {i k : Nat} (hne : i ≠ k)
    (hi : i ∈ group.running) : i ∈ (group.drop k).running := (List.mem_erase_of_ne hne).mpr hi

variable {s t : TaskState σ J V ε} {c d : TaskConfig R ε σ τ J V}

theorem Working.spared {u : TaskThread R ε τ J V} (h : Working P s u) (hspares : Spares u.tag s t) :
    Working P t u := by
  unfold Working at h ⊢
  cases htag : u.tag with
  | main tag =>
    rw [htag] at h
    exact h
  | job g i =>
    rw [htag] at h
    obtain ⟨group, hgroup, hlt, hrun⟩ := h
    obtain ⟨group', hgroup', hnext, hrunning⟩ := hspares g i htag group hgroup
    exact ⟨group', hgroup', Nat.lt_of_lt_of_le hlt hnext, hrun.imp id fun hq => ⟨hrunning hq.1, hq.2⟩⟩

/-- An await of a thread: it works on, or it has ended its job, and the other jobs run on. -/
theorem Working.await {u : TaskThread R ε τ J V} {cmd : TaskCmd C J V ε}
    {rest : Except ε (TaskReply R cmd) → TaskProg R J V ε Unit} {fate : Fate ε} (h : Working P s u)
    (hprog : u.prog = .await cmd rest) (hadmits : W.taskAdmits cmd s fate = true) :
    Working P (outcome W.taskMeaning cmd s fate).2
      { u with prog := rest (outcome W.taskMeaning cmd s fate).1 } ∧
    ∀ tag, tag ≠ u.tag → Spares tag s (outcome W.taskMeaning cmd s fate).2 := by
  have hown : cmd.Own P → ∀ tag : TaskTag τ, Spares tag s (outcome W.taskMeaning cmd s fate).2 := by
    intro hown tag
    cases cmd with
    | cmd c => cases fate <;> exact spares_shared tag s _
    | fork jobs bound =>
      cases fate with
      | done =>
        intro g i _ group hgroup
        obtain ⟨hlt, _⟩ := List.getElem?_eq_some_iff.mp hgroup
        exact ⟨group, (List.getElem?_append_left hlt).trans hgroup, Nat.le_refl _, fun hi => hi⟩
      | lost e => cases hadmits
      | late e => cases hadmits
    | join g => cases fate <;> exact spares_shared tag s s.shared
    | finish g i r => exact hown.elim
  unfold Working at h ⊢
  cases htag : u.tag with
  | main tag =>
    rw [htag, hprog] at h
    exact ⟨h.2 _, fun tag' _ => hown h.1 tag'⟩
  | job g i =>
    rw [htag, hprog] at h
    obtain ⟨group, hgroup, hlt, hdone | ⟨hi, q, huses, hq⟩⟩ := h
    · cases hdone
    have hfinish : ∀ r, Prog.await cmd rest = .await (.finish g i r) (fun _ => .ret ()) →
        (∃ group, (outcome W.taskMeaning cmd s fate).2.groups[g]? = some group ∧ i < group.next ∧
          (rest (outcome W.taskMeaning cmd s fate).1 = .ret () ∨ i ∈ group.running ∧
            ∃ q : TaskProg R J V ε V, q.Uses (TaskCmd.Own P) ∧ rest (outcome W.taskMeaning cmd s fate).1 =
              q.settle fun r => .await (.finish g i r) fun _ => .ret ())) ∧
        ∀ tag : TaskTag τ, tag ≠ .job g i → Spares tag s (outcome W.taskMeaning cmd s fate).2 := by
      intro r hr
      obtain ⟨rfl, hrest⟩ := Prog.await.inj hr
      obtain rfl := eq_of_heq hrest
      cases fate with
      | lost e => cases hadmits
      | late e => cases hadmits
      | done =>
        refine ⟨⟨group.finish i r, ?_, ?_, .inl rfl⟩, fun tag htag' => spares_modify fun old hold => ?_⟩
        · simp [Workers.taskMeaning, hgroup]
        · rw [(TaskGroup.finish_cases group i r).2.2.1]
          exact hlt
        · refine ⟨Nat.le_of_eq (TaskGroup.finish_cases old i r).2.2.1.symm, fun k hk hrun => ?_⟩
          refine old.finish_running r ?_ hrun
          rintro rfl
          exact htag' hk
    · cases q with
      | await c next =>
        obtain ⟨rfl, hrest⟩ := Prog.await.inj hq
        obtain rfl := eq_of_heq hrest
        obtain ⟨group', hgroup', hnext, hrunning⟩ := hown huses.1 (.job g i) g i rfl group hgroup
        exact ⟨⟨group', hgroup', Nat.lt_of_lt_of_le hlt hnext, .inr ⟨hrunning hi, _, huses.2 _, rfl⟩⟩,
          fun tag _ => hown huses.1 tag⟩
      | ret v => exact hfinish (.ok v) hq
      | throw e => exact hfinish (.error e) hq

/-- A thread's next command is its own, or it ends its job. -/
theorem Working.own {u : TaskThread R ε τ J V} {cmd : TaskCmd C J V ε}
    {rest : Except ε (TaskReply R cmd) → TaskProg R J V ε Unit} (h : Working P s u)
    (hprog : u.prog = .await cmd rest) : cmd.Own P ∨ ∃ g i r, cmd = .finish g i r := by
  unfold Working at h
  cases htag : u.tag with
  | main tag =>
    rw [htag, hprog] at h
    exact .inl h.1
  | job g i =>
    rw [htag, hprog] at h
    obtain ⟨group, _, _, hdone | ⟨_, q, huses, hq⟩⟩ := h
    · cases hdone
    · cases q with
      | await c next =>
        obtain ⟨rfl, _⟩ := Prog.await.inj hq
        exact .inl huses.1
      | ret v => exact .inr ⟨g, i, .ok v, (Prog.await.inj hq).1⟩
      | throw e => exact .inr ⟨g, i, .error e, (Prog.await.inj hq).1⟩

theorem opened_modify (h : ∀ group ∈ s.groups, P group.jobs group.bound) (g : Nat)
    {f : TaskGroup J V ε → TaskGroup J V ε} (hf : ∀ group, s.groups[g]? = some group →
      (f group).jobs = group.jobs ∧ (f group).bound = group.bound) :
    ∀ group ∈ s.groups.modify g f, P group.jobs group.bound := by
  intro group hgroup
  obtain ⟨k, hk⟩ := List.getElem?_of_mem hgroup
  by_cases hg : g = k
  · subst hg
    rw [List.getElem?_modify_eq, Option.map_eq_map, Option.map_eq_some_iff] at hk
    obtain ⟨old, hold, rfl⟩ := hk
    obtain ⟨hjobs, hbound⟩ := hf old hold
    rw [hjobs, hbound]
    exact h old (List.mem_of_getElem? hold)
  · rw [List.getElem?_modify_ne f _ hg] at hk
    exact h group (List.mem_of_getElem? hk)

theorem opened_await {u : TaskThread R ε τ J V} {cmd : TaskCmd C J V ε}
    {rest : Except ε (TaskReply R cmd) → TaskProg R J V ε Unit} {fate : Fate ε}
    (h : ∀ group ∈ s.groups, P group.jobs group.bound) (hwork : Working P s u)
    (hprog : u.prog = .await cmd rest) :
    ∀ group ∈ (outcome W.taskMeaning cmd s fate).2.groups, P group.jobs group.bound := by
  have hdone : ∀ group ∈ (W.taskMeaning cmd s).2.groups, P group.jobs group.bound := by
    cases cmd with
    | cmd c => exact h
    | join g => exact h
    | finish g i r => exact opened_modify h g fun group _ =>
        ⟨(TaskGroup.finish_cases group i r).1, (TaskGroup.finish_cases group i r).2.1⟩
    | fork jobs bound =>
      rcases hwork.own hprog with hown | ⟨_, _, _, hfinish⟩
      · intro group hgroup
        rcases List.mem_append.mp hgroup with hold | hnew
        · exact h group hold
        · rw [List.mem_singleton.mp hnew]
          exact hown
      · cases hfinish
  cases fate with
  | lost e => exact h
  | late e => exact hdone
  | done => exact hdone

theorem Handled.apart_of_ne (h : Handled P c) {i j : Nat} {t u : TaskThread R ε τ J V}
    (hi : c.threads[i]? = some t) (hj : c.threads[j]? = some u) (hne : i ≠ j) {g k : Nat}
    (htag : t.tag = .job g k) : u.tag ≠ .job g k := by
  obtain ⟨hi', rfl⟩ := List.getElem?_eq_some_iff.mp hi
  obtain ⟨hj', rfl⟩ := List.getElem?_eq_some_iff.mp hj
  have hpair := h.apart
  rw [List.pairwise_map, List.pairwise_iff_getElem] at hpair
  rcases Nat.lt_or_gt_of_ne hne with hlt | hlt
  · exact hpair i j hi' hj' hlt g k htag
  · exact fun hu => hpair j i hj' hi' hlt g k hu htag

theorem Working.start (htidy : W.Tidy P) {group group' : TaskGroup J V ε} {g : Nat} {j : J}
    (hgroup : s.groups[g]? = some group) (hstart : group.start = some (group', j)) :
    Working P { s with groups := s.groups.modify g fun _ => group' }
      (W.jobThread (τ := τ) g group.next j) := by
  obtain ⟨_, _, _, hnext, hrunning, _⟩ := TaskGroup.start_cases hstart
  refine ⟨group', by simp [hgroup], ?_, .inr ⟨?_, W.body j, htidy.body j, rfl⟩⟩
  · omega
  · rw [hrunning]
    exact List.mem_cons_self ..

theorem spares_start {tag : TaskTag τ} {group group' : TaskGroup J V ε} {g : Nat} {j : J}
    (hgroup : s.groups[g]? = some group) (hstart : group.start = some (group', j)) :
    Spares tag s { s with groups := s.groups.modify g fun _ => group' } := by
  obtain ⟨_, _, _, hnext, hrunning, _⟩ := TaskGroup.start_cases hstart
  refine spares_modify fun old hold => ?_
  obtain rfl := Option.some.inj (hgroup.symm.trans hold)
  refine ⟨by omega, fun k _ hk => ?_⟩
  rw [hrunning]
  exact List.mem_cons_of_mem _ hk

theorem Handled.step (htidy : W.Tidy P) (h : Handled P c) {move : Move ε (TaskEvent ι)}
    (hstep : W.system.step c move = some d) : Handled P d := by
  obtain ⟨i, fate, t, cmd, rest, rfl, hi, hprog, hadmits, rfl⟩ | ⟨i, t, result, rfl, hi, hended, rfl⟩ |
    ⟨i, t, rfl, hi, rfl⟩ | ⟨e, s, new, rfl, henv, rfl⟩ := System.step_cases hstep
  · obtain ⟨hself, hothers⟩ := (h.working t (List.mem_of_getElem? hi)).await hprog hadmits
    refine ⟨opened_await h.opened (h.working t (List.mem_of_getElem? hi)) hprog, fun u hu => ?_, ?_⟩
    · obtain ⟨k, hk⟩ := List.getElem?_of_mem hu
      rw [List.getElem?_set] at hk
      split_ifs at hk with hik hlt
      · exact Option.some.inj hk ▸ hself
      · have hwork := h.working u (List.mem_of_getElem? hk)
        cases htag : t.tag with
        | main tag =>
          refine hwork.spared fun g j hu group hgroup => ?_
          have hne : TaskTag.job g j ≠ t.tag := by
            rw [htag]
            simp
          exact hothers (.job g j) hne g j rfl group hgroup
        | job g j => exact hwork.spared (hothers u.tag (htag ▸ h.apart_of_ne hi hk hik htag))
    · rw [tags_set hi]
      exact h.apart
  · have hsub : (c.threads.eraseIdx i ++ W.system.exit t.tag result).Sublist c.threads := by
      rw [show W.system.exit t.tag result = [] from rfl, List.append_nil]
      exact List.eraseIdx_sublist c.threads i
    exact ⟨h.opened, fun u hu => h.working u (hsub.subset hu), h.apart.sublist (hsub.map _)⟩
  · have hsub := List.eraseIdx_sublist c.threads i
    refine ⟨?_, fun u hu => ?_, h.apart.sublist (hsub.map _)⟩
    · cases htag : t.tag with
      | main tag => exact h.opened
      | job g j => exact opened_modify h.opened g fun _ _ => ⟨rfl, rfl⟩
    obtain ⟨k, hne, hk⟩ := List.mem_eraseIdx_iff_getElem?.mp hu
    refine (h.working u (hsub.subset hu)).spared ?_
    cases htag : t.tag with
    | main tag => exact spares_shared u.tag c.shared _
    | job g j =>
      refine spares_modify fun group _ => ⟨Nat.le_refl _, fun l hl hrun => group.drop_running ?_ hrun⟩
      rintro rfl
      exact h.apart_of_ne hi hk hne.symm htag hl
  · cases e with
    | env e =>
      obtain ⟨⟨a, started⟩, hr, heq⟩ := Option.map_eq_some_iff.mp henv
      obtain ⟨rfl, rfl⟩ := Prod.mk.inj heq
      refine ⟨h.opened, fun u hu => ?_, ?_⟩
      · rcases List.mem_append.mp hu with hu | hu
        · exact (h.working u hu).spared (spares_shared u.tag c.shared a)
        · obtain ⟨program, hprogram, rfl⟩ := List.mem_map.mp hu
          exact htidy.env hr program hprogram
      · rw [List.map_append, List.pairwise_append]
        refine ⟨h.apart, ?_, fun x hx y hy g j hxj => ?_⟩
        · rw [List.map_map, List.pairwise_map]
          exact List.pairwise_of_forall fun _ _ g j hj => by cases hj
        · obtain ⟨u, hu, rfl⟩ := List.mem_map.mp hy
          obtain ⟨program, _, rfl⟩ := List.mem_map.mp hu
          simp [Workers.mainThread]
    | start g =>
      obtain ⟨group, hgroup, henv⟩ := Option.bind_eq_some_iff.mp henv
      obtain ⟨⟨group', j⟩, hstart, heq⟩ := Option.map_eq_some_iff.mp henv
      obtain ⟨rfl, rfl⟩ := Prod.mk.inj heq
      refine ⟨opened_modify h.opened g fun old hold => ?_, fun u hu => ?_, ?_⟩
      · obtain rfl := Option.some.inj (hgroup.symm.trans hold)
        exact ⟨(TaskGroup.start_cases hstart).2.1, (TaskGroup.start_cases hstart).2.2.1⟩
      · rcases List.mem_append.mp hu with hu | hu
        · exact (h.working u hu).spared (spares_start hgroup hstart)
        · obtain rfl := List.mem_singleton.mp hu
          exact Working.start htidy hgroup hstart
      · rw [List.map_append, List.pairwise_append]
        refine ⟨h.apart, List.pairwise_singleton _ _, fun x hx y hy k l hxl hyl => ?_⟩
        obtain ⟨u, hu, rfl⟩ := List.mem_map.mp hx
        obtain rfl := List.mem_singleton.mp hy
        -- the jobs that were started before have smaller numbers
        obtain ⟨rfl, rfl⟩ := TaskTag.job.inj hyl
        have hwork := h.working u hu
        unfold Working at hwork
        rw [hxl] at hwork
        obtain ⟨old, hold, hlt, _⟩ := hwork
        obtain rfl := Option.some.inj (hgroup.symm.trans hold)
        omega

theorem handled_reach (htidy : W.Tidy P) {a : σ}
    {ok : TaskConfig R ε σ τ J V → Move ε (TaskEvent ι) → Prop}
    (reach : Reach W.system ok ⟨⟨a, []⟩, []⟩ c) : Handled P c := by
  refine reach.invariant (I := Handled P) ?_ fun _ _ _ h _ hstep => h.step htidy hstep
  exact ⟨fun _ hg => absurd hg List.not_mem_nil, fun _ ht => absurd ht List.not_mem_nil,
    List.Pairwise.nil⟩

/-- No more jobs of a group are in hand than its bound allows, and none twice. -/
theorem Handled.bounded (h : Handled P c) {g : Nat} {group : TaskGroup J V ε}
    (hgroup : c.shared.groups[g]? = some group) :
    (c.threads.filterMap (inHand g)).Nodup ∧ (c.threads.filterMap (inHand g)).length ≤ group.bound := by
  have hmem : ∀ (t : TaskThread R ε τ J V) i, i ∈ inHand g t → t.tag = .job g i ∧ t.ended = none := by
    intro t i hi
    unfold inHand at hi
    cases htag : t.tag with
    | main tag => simp [htag] at hi
    | job g' k =>
      simp only [htag, Option.mem_def, Option.ite_none_right_eq_some, Bool.and_eq_true, decide_eq_true_eq,
        Option.isNone_iff_eq_none, Option.some.injEq] at hi
      obtain ⟨⟨rfl, hended⟩, rfl⟩ := hi
      exact ⟨rfl, hended⟩
  have hnodup : (c.threads.filterMap (inHand g)).Nodup := by
    refine List.Pairwise.filterMap (inHand g) (fun t u htu i hi j hj hij => ?_)
      (List.pairwise_map.mp h.apart)
    subst hij
    exact htu g i (hmem t i hi).1 (hmem u i hj).1
  have hsubset : c.threads.filterMap (inHand g) ⊆ group.running := by
    intro i hi
    obtain ⟨t, ht, hi⟩ := List.mem_filterMap.mp hi
    obtain ⟨htag, hended⟩ := hmem t i hi
    have hwork := h.working t ht
    unfold Working at hwork
    rw [htag] at hwork
    obtain ⟨old, hold, _, hdone | ⟨hrunning, _⟩⟩ := hwork
    · rw [Thread.ended, hdone] at hended
      cases hended
    · obtain rfl := Option.some.inj (hgroup.symm.trans hold)
      exact hrunning
  exact ⟨hnodup, Nat.le_trans (List.subperm_of_subset hnodup hsubset).length_le group.bounded⟩

end Hands

end Coroutine
