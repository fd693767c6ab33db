import Doci.RelyGuarantee
import Mathlib.Data.List.Forall2

/-! Programs that open groups of jobs, of which at most so many run at a time, and wait for them.
The jobs of a group start in turn; the first exception of one ends the wait. -/

namespace Coroutine

section Group

structure TaskGroup (J V ε : Type) where
  jobs : List J
  bound : Nat
  next : Nat
  running : List Nat
  ended : List (Nat × Except ε V)
  bounded : running.length ≤ bound
  next_le : next ≤ jobs.length
  nodup : (running ++ ended.map Prod.fst).Nodup
  started : ∀ i ∈ running ++ ended.map Prod.fst, i < next

namespace TaskGroup

variable {J V ε : Type}

def new (jobs : List J) (bound : Nat) : TaskGroup J V ε where
  jobs := jobs
  bound := bound
  next := 0
  running := []
  ended := []
  bounded := Nat.zero_le _
  next_le := Nat.zero_le _
  nodup := List.nodup_nil
  started := by simp

def start (group : TaskGroup J V ε) : Option (TaskGroup J V ε × J) :=
  if h : group.next < group.jobs.length ∧ group.running.length < group.bound then
    some ({ group with
      next := group.next + 1
      running := group.next :: group.running
      bounded := h.2
      next_le := h.1
      nodup := List.nodup_cons.mpr ⟨fun hmem => Nat.lt_irrefl _ (group.started _ hmem), group.nodup⟩
      started := by
        intro i hi
        rcases List.mem_cons.mp hi with rfl | hi
        · exact Nat.lt_succ_self _
        · exact Nat.lt_succ_of_lt (group.started i hi) }, group.jobs.get ⟨group.next, h.1⟩)
  else none

def finish (group : TaskGroup J V ε) (i : Nat) (result : Except ε V) : TaskGroup J V ε :=
  if h : i ∈ group.running then
    { group with
      running := group.running.erase i
      ended := group.ended ++ [(i, result)]
      bounded := Nat.le_trans List.length_erase_le group.bounded
      nodup := by
        have hperm : (group.running.erase i ++ (group.ended ++ [(i, result)]).map Prod.fst).Perm
            (group.running ++ group.ended.map Prod.fst) := by
          rw [List.map_append, ← List.append_assoc]
          refine (List.perm_append_comm).trans ?_
          exact ((List.perm_cons_erase h).append_right _).symm
        exact hperm.nodup_iff.mpr group.nodup
      started := by
        intro j hj
        apply group.started
        rw [List.map_append, List.mem_append, List.mem_append] at hj
        rcases hj with hj | hj | hj
        · exact List.mem_append_left _ (List.mem_of_mem_erase hj)
        · exact List.mem_append_right _ hj
        · rw [List.mem_singleton.mp hj]
          exact List.mem_append_left _ h }
  else group

/-- The job is gone and will not end. -/
def drop (group : TaskGroup J V ε) (i : Nat) : TaskGroup J V ε :=
  { group with
    running := group.running.erase i
    bounded := Nat.le_trans List.length_erase_le group.bounded
    nodup := group.nodup.sublist ((List.erase_sublist).append_right _)
    started := fun j hj => group.started j (((List.erase_sublist).append_right _).subset hj) }

def value (group : TaskGroup J V ε) (i : Nat) : Option V :=
  (group.ended.lookup i).bind Except.toOption

def values (group : TaskGroup J V ε) : Option (List V) :=
  group.jobs.zipIdx.mapM fun j => group.value j.2

def failure (group : TaskGroup J V ε) : Option ε :=
  group.ended.findSome? fun r => match r.2 with
    | .ok _ => none
    | .error e => some e

def ready (group : TaskGroup J V ε) : Bool := group.failure.isSome || group.values.isSome

/-- What the wait gives once the group is ready. -/
def result (group : TaskGroup J V ε) : Except ε (List V) :=
  match group.failure with
  | some e => .error e
  | none => .ok (group.values.getD [])

end TaskGroup

end Group

inductive TaskCmd (C J V ε : Type) where
  | cmd (c : C)
  | fork (jobs : List J) (bound : Nat)
  | join (group : Nat)
  | finish (group index : Nat) (result : Except ε V)

abbrev TaskReply {C J V ε : Type} (R : C → Type) : TaskCmd C J V ε → Type
  | .cmd c => R c
  | .fork _ _ => Nat
  | .join _ => List V
  | .finish _ _ _ => Unit

abbrev TaskProg {C : Type} (R : C → Type) (J V ε α : Type) :=
  Prog (TaskReply R (J := J) (V := V) (ε := ε)) ε α

section Programs

variable {C : Type} {R : C → Type} {J V ε α : Type}

/-- A program without groups, run among those with groups. -/
def TaskProg.lift (p : Prog R ε α) : TaskProg R J V ε α := p.expand fun c => perform (TaskCmd.cmd c)

/-- `asyncio.gather` of jobs that share a semaphore. -/
def TaskProg.gather (jobs : List J) (bound : Nat) : TaskProg R J V ε (List V) := do
  let group ← perform (TaskCmd.fork jobs bound)
  perform (TaskCmd.join group)

end Programs

structure TaskState (σ J V ε : Type) where
  shared : σ
  groups : List (TaskGroup J V ε)

inductive TaskTag (τ : Type) where
  | main (tag : τ)
  | job (group index : Nat)
  deriving DecidableEq

inductive TaskEvent (ι : Type) where
  | env (e : ι)
  | start (group : Nat)

/-- `interrupts` are the exceptions that a wait can be broken off by. -/
structure Workers {C : Type} (R : C → Type) (ε σ τ ι J V : Type) where
  meaning : (c : C) → σ → Except ε (R c) × σ
  admits : C → σ → Fate ε → Bool
  interrupts : ε → Bool
  env : ι → σ → Option (σ × List (τ × TaskProg R J V ε Unit))
  death : τ → σ → σ
  body : J → TaskProg R J V ε V

namespace Workers

variable {C : Type} {R : C → Type} {ε σ τ ι J V : Type} (W : Workers R ε σ τ ι J V)

def taskMeaning : (c : TaskCmd C J V ε) → TaskState σ J V ε → Except ε (TaskReply R c) × TaskState σ J V ε
  | .cmd c, s => ((W.meaning c s.shared).1, { s with shared := (W.meaning c s.shared).2 })
  | .fork jobs bound, s => (.ok s.groups.length, { s with groups := s.groups ++ [.new jobs bound] })
  | .join g, s => ((s.groups[g]?).elim (.ok []) TaskGroup.result, s)
  | .finish g i r, s => (.ok (), { s with groups := s.groups.modify g (·.finish i r) })

def taskAdmits : TaskCmd C J V ε → TaskState σ J V ε → Fate ε → Bool
  | .cmd c, s, fate => W.admits c s.shared fate
  | .join g, s, .done => (s.groups[g]?).any TaskGroup.ready
  | .join _, _, .lost e => W.interrupts e
  | .join _, _, .late _ => false
  | _, _, .done => true
  | _, _, _ => false

def jobThread (g i : Nat) (j : J) :
    Thread (TaskReply R (J := J) (V := V) (ε := ε)) ε (TaskTag τ) where
  tag := .job g i
  prog := (W.body j).settle fun r => .await (.finish g i r) fun _ => .ret ()

def mainThread (t : τ × TaskProg R J V ε Unit) :
    Thread (TaskReply R (J := J) (V := V) (ε := ε)) ε (TaskTag τ) where
  tag := .main t.1
  prog := t.2

def taskEnv : TaskEvent ι → TaskState σ J V ε →
    Option (TaskState σ J V ε × List (Thread (TaskReply R (J := J) (V := V) (ε := ε)) ε (TaskTag τ)))
  | .env e, s => (W.env e s.shared).map fun r =>
    ({ s with shared := r.1 }, r.2.map mainThread)
  | .start g, s => (s.groups[g]?).bind fun group => group.start.map fun r =>
    ({ s with groups := s.groups.modify g fun _ => r.1 }, [W.jobThread g group.next r.2])

def taskDeath : TaskTag τ → TaskState σ J V ε → TaskState σ J V ε
  | .main tag, s => { s with shared := W.death tag s.shared }
  | .job g i, s => { s with groups := s.groups.modify g (·.drop i) }

def system : System (TaskReply R (J := J) (V := V) (ε := ε)) ε (TaskState σ J V ε) (TaskTag τ)
    (TaskEvent ι) where
  meaning := W.taskMeaning
  admits := W.taskAdmits
  env := W.taskEnv
  exit := fun _ _ => []
  death := W.taskDeath

end Workers

/-- What the programs of a pool keep while the state grows: what is expected of an await, when a job
may start, and what its value then stands for. -/
structure Growth {C : Type} {R : C → Type} {ε σ τ ι J V : Type} (W : Workers R ε σ τ ι J V) where
  inv : σ → Prop
  grows : σ → σ → Prop
  Expects : C → σ → Fate ε → Prop
  Forks : List J → Nat → Prop
  Ready : J → σ → Prop
  Good : J → V → σ → Prop
  refl : ∀ s, grows s s
  trans : ∀ {s t u}, grows s t → grows t u → grows s u
  ready_grows : ∀ {j s t}, Ready j s → grows s t → Ready j t
  good_grows : ∀ {j v s t}, Good j v s → grows s t → Good j v t

section Growth

variable {C : Type} {R : C → Type} {ε σ τ ι J V α β : Type} {W : Workers R ε σ τ ι J V}
  (G : Growth W)

structure Growth.GroupSound (group : TaskGroup J V ε) (s : σ) : Prop where
  forks : G.Forks group.jobs group.bound
  ready : ∀ j ∈ group.jobs, G.Ready j s
  good : ∀ i v j, (i, Except.ok v) ∈ group.ended → group.jobs[i]? = some j → G.Good j v s

structure Growth.Sound (s : TaskState σ J V ε) : Prop where
  inv : G.inv s.shared
  groups : ∀ group ∈ s.groups, G.GroupSound group s.shared

structure Growth.Grown (s t : TaskState σ J V ε) : Prop where
  shared : G.grows s.shared t.shared
  groups : ∀ (g : Nat) (group : TaskGroup J V ε), s.groups[g]? = some group →
    ∃ group', t.groups[g]? = some group' ∧ group'.jobs = group.jobs

theorem Growth.Grown.refl (s : TaskState σ J V ε) : G.Grown s s :=
  ⟨G.refl _, fun _ group h => ⟨group, h, rfl⟩⟩

variable {G}

theorem Growth.Grown.trans {s t u : TaskState σ J V ε} (h : G.Grown s t) (h' : G.Grown t u) :
    G.Grown s u := by
  refine ⟨G.trans h.shared h'.shared, fun g group hg => ?_⟩
  obtain ⟨middle, hmiddle, hjobs⟩ := h.groups g group hg
  obtain ⟨last, hlast, hjobs'⟩ := h'.groups g middle hmiddle
  exact ⟨last, hlast, hjobs'.trans hjobs⟩

variable (G)

/-- The contract of a program without groups. -/
def Growth.base : Contract R ε σ where
  meaning := W.meaning
  inv := G.inv
  rely := G.grows
  guar := G.grows
  fate := fun c s fate => W.admits c s fate = true ∧ G.Expects c s fate
  rely_refl := G.refl
  rely_trans := G.trans

def Growth.Meets : TaskCmd C J V ε → TaskState σ J V ε → Fate ε → Prop
  | .cmd c, s, fate => G.Expects c s.shared fate
  | _, _, _ => True

def Growth.contract : Contract (TaskReply R (J := J) (V := V) (ε := ε)) ε (TaskState σ J V ε) where
  meaning := W.taskMeaning
  inv := G.Sound
  rely := G.Grown
  guar := G.Grown
  fate := fun c s fate => W.taskAdmits c s fate = true ∧ G.Meets c s fate
  rely_refl := Growth.Grown.refl G
  rely_trans := Growth.Grown.trans

variable {G} {s t : TaskState σ J V ε}

theorem Growth.GroupSound.grow {group : TaskGroup J V ε} {a b : σ} (h : G.GroupSound group a)
    (hgrows : G.grows a b) : G.GroupSound group b :=
  ⟨h.forks, fun j hj => G.ready_grows (h.ready j hj) hgrows,
    fun i v j hv hj => G.good_grows (h.good i v j hv hj) hgrows⟩

theorem Growth.Sound.shared (h : G.Sound s) {a : σ} (hinv : G.inv a) (hgrows : G.grows s.shared a) :
    G.Sound { s with shared := a } :=
  ⟨hinv, fun group hg => (h.groups group hg).grow hgrows⟩

theorem Growth.Sound.modify (h : G.Sound s) (g : Nat) {f : TaskGroup J V ε → TaskGroup J V ε}
    (hf : ∀ group, s.groups[g]? = some group → G.GroupSound (f group) s.shared) :
    G.Sound { s with groups := s.groups.modify g f } := by
  refine ⟨h.inv, fun group hgroup => ?_⟩
  obtain ⟨g', hg'⟩ := List.getElem?_of_mem hgroup
  by_cases hg : g = g'
  · subst hg
    rw [List.getElem?_modify_eq, Option.map_eq_map, Option.map_eq_some_iff] at hg'
    obtain ⟨old, hold, rfl⟩ := hg'
    exact hf old hold
  · rw [List.getElem?_modify_ne f _ hg] at hg'
    exact h.groups group (List.mem_of_getElem? hg')

theorem Growth.Grown.modify (g : Nat) {f : TaskGroup J V ε → TaskGroup J V ε}
    (hf : ∀ group, s.groups[g]? = some group → (f group).jobs = group.jobs) :
    G.Grown s { s with groups := s.groups.modify g f } := by
  refine ⟨G.refl _, fun g' group hgroup => ?_⟩
  by_cases hg : g = g'
  · subst hg
    exact ⟨f group, by simp [hgroup], hf group hgroup⟩
  · exact ⟨group, by rw [List.getElem?_modify_ne f _ hg, hgroup], rfl⟩

theorem TaskGroup.start_cases {group group' : TaskGroup J V ε} {j : J}
    (h : group.start = some (group', j)) : group.jobs[group.next]? = some j ∧
      group'.jobs = group.jobs ∧ group'.bound = group.bound ∧ group'.next = group.next + 1 ∧
      group'.running = group.next :: group.running ∧ group'.ended = group.ended := by
  unfold start at h
  split_ifs at h with hlt
  obtain ⟨rfl, rfl⟩ := Prod.mk.inj (Option.some.inj h)
  exact ⟨List.getElem?_eq_getElem hlt.1, rfl, rfl, rfl, rfl, rfl⟩

theorem TaskGroup.finish_cases (group : TaskGroup J V ε) (i : Nat) (result : Except ε V) :
    (group.finish i result).jobs = group.jobs ∧ (group.finish i result).bound = group.bound ∧
      (group.finish i result).next = group.next ∧
      ∀ r ∈ (group.finish i result).ended, r ∈ group.ended ∨ r = (i, result) := by
  unfold finish
  split_ifs
  · refine ⟨rfl, rfl, rfl, fun r hr => ?_⟩
    rcases List.mem_append.mp hr with hr | hr
    · exact .inl hr
    · exact .inr (List.mem_singleton.mp hr)
  · exact ⟨rfl, rfl, rfl, fun r hr => .inl hr⟩

theorem Growth.GroupSound.start {group group' : TaskGroup J V ε} {j : J} {a : σ}
    (h : G.GroupSound group a) (hstart : group.start = some (group', j)) :
    G.GroupSound group' a ∧ G.Ready j a := by
  obtain ⟨hj, hjobs, hbound, _, _, hended⟩ := TaskGroup.start_cases hstart
  refine ⟨⟨?_, ?_, ?_⟩, h.ready j (List.mem_of_getElem? hj)⟩
  · rw [hjobs, hbound]
    exact h.forks
  · rw [hjobs]
    exact h.ready
  · rw [hjobs, hended]
    exact h.good

theorem Growth.GroupSound.finish {group : TaskGroup J V ε} {i : Nat} {result : Except ε V} {a : σ}
    (h : G.GroupSound group a)
    (hgood : ∀ j v, group.jobs[i]? = some j → result = .ok v → G.Good j v a) :
    G.GroupSound (group.finish i result) a := by
  obtain ⟨hjobs, hbound, _, hended⟩ := TaskGroup.finish_cases group i result
  refine ⟨?_, ?_, fun i' v j hv hj => ?_⟩
  · rw [hjobs, hbound]
    exact h.forks
  · rw [hjobs]
    exact h.ready
  · rw [hjobs] at hj
    rcases hended _ hv with hold | hnew
    · exact h.good i' v j hold hj
    · obtain ⟨rfl, hresult⟩ := Prod.mk.inj hnew
      exact hgood j v hj hresult.symm

theorem Growth.GroupSound.drop {group : TaskGroup J V ε} {a : σ} (h : G.GroupSound group a) (i : Nat) :
    G.GroupSound (group.drop i) a := ⟨h.forks, h.ready, h.good⟩

section Values

variable {group : TaskGroup J V ε}

theorem TaskGroup.mem_ended {i : Nat} {v : V} (h : group.value i = some v) :
    (i, Except.ok v) ∈ group.ended := by
  obtain ⟨r, hr, hv⟩ := Option.bind_eq_some_iff.mp h
  obtain ⟨before, after, heq, _⟩ := List.lookup_eq_some_iff.mp hr
  cases r with
  | error e => cases hv
  | ok w =>
    obtain rfl := Option.some.inj hv
    rw [heq]
    exact List.mem_append_right _ (List.mem_cons_self ..)

theorem forall₂_of_mapM {A B : Type} {f : A → Option B} {l : List A} {bs : List B}
    (h : l.mapM f = some bs) : List.Forall₂ (fun a b => f a = some b) l bs := by
  induction l generalizing bs with
  | nil =>
    obtain rfl := Option.some.inj h
    exact .nil
  | cons a l ih =>
    rw [List.mapM_cons] at h
    obtain ⟨b, hb, h⟩ := Option.bind_eq_some_iff.mp h
    obtain ⟨bs', hbs, h⟩ := Option.bind_eq_some_iff.mp h
    obtain rfl := Option.some.inj h
    exact .cons hb (ih hbs)

theorem Growth.GroupSound.values {a : σ} (h : G.GroupSound group a) {vs : List V}
    (hvs : group.values = some vs) : List.Forall₂ (fun j v => G.Good j v a) group.jobs vs := by
  have hall := forall₂_of_mapM hvs
  have hgood : List.Forall₂ (fun (j : J × Nat) v => G.Good j.1 v a) group.jobs.zipIdx vs := by
    refine (List.forall₂_and_left _ _).mpr ⟨fun j hj => hj, hall⟩ |>.imp ?_
    rintro ⟨j, i⟩ v ⟨hj, hv⟩
    exact h.good i v j (TaskGroup.mem_ended hv) (List.mk_mem_zipIdx_iff_getElem?.mp hj)
  have hmap := List.forall₂_map_left_iff (R := fun j v => G.Good j v a) (f := Prod.fst)
    (l := group.jobs.zipIdx) (u := vs)
  rw [List.zipIdx_map_fst] at hmap
  exact hmap.mpr hgood

end Values

section Rules

variable {post : Except ε α → σ → Prop} {A : α → TaskState σ J V ε → Prop}
  {B : β → TaskState σ J V ε → Prop}

theorem keeps_lift {p : Prog R ε α} (h : Keeps G.base post p s.shared) :
    Keeps G.contract (fun r t => post r t.shared) (TaskProg.lift p : TaskProg R J V ε α) s := by
  refine @Keeps.inject _ _ _ _ _ _ (TaskReply R (J := J) (V := V) (ε := ε)) TaskCmd.cmd TaskState.shared
    G.base G.contract _ _ _ (fun _ _ hgrown => hgrown.shared) (fun _ h => h.inv) (fun _ _ _ h => h) ?_ ?_ h
  · intro c t fate
    cases fate <;> exact ⟨rfl, rfl⟩
  · intro c t fate hsound _ hinv hguar
    have hstate : (outcome W.taskMeaning (.cmd c) t fate).2 =
        { t with shared := (outcome W.meaning c t.shared fate).2 } := by
      cases fate <;> rfl
    have hgrown : G.Grown t { t with shared := (outcome W.meaning c t.shared fate).2 } :=
      ⟨hguar, fun _ group hg => ⟨group, hg, rfl⟩⟩
    change G.Sound (outcome W.taskMeaning (.cmd c) t fate).2 ∧
      G.Grown t (outcome W.taskMeaning (.cmd c) t fate).2
    rw [hstate]
    exact ⟨hsound.shared hinv hguar, hgrown⟩

theorem keeps_fork {jobs : List J} {bound : Nat} (hforks : G.Forks jobs bound)
    (hready : ∀ j ∈ jobs, G.Ready j s.shared) :
    Keeps G.contract (Ends (fun g t => ∃ group, t.groups[g]? = some group ∧ group.jobs = jobs)
      fun _ => True) (perform (TaskCmd.fork jobs bound) : TaskProg R J V ε Nat) s := by
  apply Keeps.perform
  rintro t hgrown hsound fate ⟨hfate, _⟩
  have hnew : G.GroupSound (.new jobs bound) t.shared :=
    ⟨hforks, fun j hj => G.ready_grows (hready j hj) hgrown.shared, by simp [TaskGroup.new]⟩
  cases fate with
  | lost e => cases hfate
  | late e => cases hfate
  | done =>
    refine ⟨⟨hsound.inv, fun group hgroup => ?_⟩, ⟨G.refl _, fun g group hg => ?_⟩, fun u hu _ => ?_⟩
    · rcases List.mem_append.mp hgroup with hold | hold
      · exact hsound.groups group hold
      · rw [List.mem_singleton.mp hold]
        exact hnew
    · refine ⟨group, ?_, rfl⟩
      obtain ⟨hlt, _⟩ := List.getElem?_eq_some_iff.mp hg
      exact (List.getElem?_append_left hlt).trans hg
    · obtain ⟨group, hgroup, hjobs⟩ := hu.groups t.groups.length (.new jobs bound)
        List.getElem?_concat_length
      exact ⟨group, hgroup, hjobs⟩

theorem keeps_join {g : Nat} {jobs : List J}
    (hgroup : ∃ group, s.groups[g]? = some group ∧ group.jobs = jobs) :
    Keeps G.contract (Ends (fun vs t => List.Forall₂ (fun j v => G.Good j v t.shared) jobs vs)
      fun _ => True) (perform (TaskCmd.join g) : TaskProg R J V ε (List V)) s := by
  obtain ⟨first, hfirst, rfl⟩ := hgroup
  apply Keeps.perform
  rintro t hgrown hsound fate ⟨hfate, _⟩
  cases fate with
  | lost e => exact ⟨hsound, Growth.Grown.refl G t, fun _ _ _ => trivial⟩
  | late e => cases hfate
  | done =>
    refine ⟨hsound, Growth.Grown.refl G t, fun u hu _ => Ends.intro (fun vs hvs => ?_) fun _ _ => trivial⟩
    obtain ⟨group, hgroup, hjobs⟩ := hgrown.groups g first hfirst
    have hready : group.ready = true := by
      have hany : (t.groups[g]?).any TaskGroup.ready = true := hfate
      rwa [hgroup] at hany
    have hresult : group.result = .ok vs := by
      have hjoin : (t.groups[g]?).elim (.ok []) TaskGroup.result = .ok vs := hvs
      rwa [hgroup] at hjoin
    have hvalues : group.values = some vs := by
      unfold TaskGroup.ready at hready
      unfold TaskGroup.result at hresult
      cases hfailure : group.failure with
      | some e =>
        rw [hfailure] at hresult
        cases hresult
      | none =>
        rw [hfailure] at hready hresult
        obtain ⟨ws, hws⟩ := Option.isSome_iff_exists.mp hready
        rw [hws] at hresult ⊢
        exact congrArg some (Except.ok.inj hresult)
    rw [← hjobs]
    exact ((hsound.groups group (List.mem_of_getElem? hgroup)).values hvalues).imp
      fun j v hgood => G.good_grows hgood hu.shared

theorem keeps_gather {jobs : List J} {bound : Nat} (hsound : G.Sound s) (hforks : G.Forks jobs bound)
    (hready : ∀ j ∈ jobs, G.Ready j s.shared) :
    Keeps G.contract (Ends (fun vs t => List.Forall₂ (fun j v => G.Good j v t.shared) jobs vs)
      fun _ => True) (TaskProg.gather jobs bound : TaskProg R J V ε (List V)) s :=
  (keeps_fork hforks hready).andThen hsound fun _ _ _ hgroup => keeps_join hgroup

end Rules

/-- The environment and the jobs keep to the growth under the moves that `ok` admits. -/
structure Growth.Upheld (G : Growth W)
    (ok : Config (TaskReply R (J := J) (V := V) (ε := ε)) ε (TaskState σ J V ε) (TaskTag τ) →
      Move ε (TaskEvent ι) → Prop) : Prop where
  env : ∀ {c e a new}, ok c (.env (.env e)) → W.env e c.shared.shared = some (a, new) →
    G.inv c.shared.shared → G.inv a ∧ G.grows c.shared.shared a
  programs : ∀ {c e a new}, ok c (.env (.env e)) → W.env e c.shared.shared = some (a, new) →
    G.Sound { c.shared with shared := a } →
    ∀ t ∈ new, Keeps G.contract (fun _ _ => True) t.2 { c.shared with shared := a }
  expects : ∀ {c i t cmd rest fate}, ok c (.run i fate) → c.threads[i]? = some t →
    t.prog = .await (.cmd cmd) rest → W.admits cmd c.shared.shared fate = true →
    G.inv c.shared.shared → G.Expects cmd c.shared.shared fate
  death : ∀ {tag a}, G.inv a → G.inv (W.death tag a) ∧ G.grows a (W.death tag a)
  body : ∀ {j s}, G.Sound s → G.Ready j s.shared →
    Keeps G.contract (Ends (fun v t => G.Good j v t.shared) fun _ => True) (W.body j) s

section Pool

variable {ok : Config (TaskReply R (J := J) (V := V) (ε := ε)) ε (TaskState σ J V ε) (TaskTag τ) →
  Move ε (TaskEvent ι) → Prop} {g i : Nat} {j : J}

theorem keeps_finish {r : Except ε V} (hgroup : ∃ group, s.groups[g]? = some group ∧
    group.jobs[i]? = some j) (hgood : ∀ v, r = .ok v → G.Good j v s.shared) :
    Keeps G.contract (fun _ _ => True)
      (.await (TaskCmd.finish g i r) fun _ => .ret () : TaskProg R J V ε Unit) s := by
  obtain ⟨first, hfirst, hj⟩ := hgroup
  rintro t hgrown hsound fate ⟨hfate, _⟩
  cases fate with
  | lost e => cases hfate
  | late e => cases hfate
  | done =>
    obtain ⟨group, hgroup, hjobs⟩ := hgrown.groups g first hfirst
    refine ⟨hsound.modify g fun old hold => ?_, Growth.Grown.modify g fun old _ => ?_, fun _ _ _ => trivial⟩
    · obtain rfl := Option.some.inj (hgroup.symm.trans hold)
      refine (hsound.groups group (List.mem_of_getElem? hgroup)).finish fun j' v hj' hv => ?_
      rw [hjobs, hj] at hj'
      rw [← Option.some.inj hj']
      exact G.good_grows (hgood v hv) hgrown.shared
    · exact (TaskGroup.finish_cases old i r).1

theorem keeps_jobThread (hup : G.Upheld ok) (hsound : G.Sound s) (hready : G.Ready j s.shared)
    (hgroup : ∃ group, s.groups[g]? = some group ∧ group.jobs[i]? = some j) :
    Keeps G.contract (fun _ _ => True) (W.jobThread g i j).prog s := by
  have hstays : ∀ a b, (∃ group, a.groups[g]? = some group ∧ group.jobs[i]? = some j) →
      G.Grown a b → ∃ group, b.groups[g]? = some group ∧ group.jobs[i]? = some j := by
    rintro a b ⟨group, hg, hj⟩ hgrown
    obtain ⟨group', hg', hjobs⟩ := hgrown.groups g group hg
    exact ⟨group', hg', hjobs ▸ hj⟩
  apply ((hup.body hsound hready).along hgroup hstays hstays).settle hsound
  intro r t hsound hpost
  obtain ⟨hgood, hgroup⟩ := hpost t (Growth.Grown.refl G t) hsound
  apply keeps_finish hgroup
  rintro v rfl
  exact hgood

theorem Growth.Upheld.event (hup : G.Upheld ok)
    {c : Config (TaskReply R (J := J) (V := V) (ε := ε)) ε (TaskState σ J V ε) (TaskTag τ)}
    {e : TaskEvent ι} {t : TaskState σ J V ε}
    {new : List (Thread (TaskReply R (J := J) (V := V) (ε := ε)) ε (TaskTag τ))}
    (hok : ok c (.env e)) (henv : W.taskEnv e c.shared = some (t, new)) (hsound : G.Sound c.shared) :
    G.Sound t ∧ G.Grown c.shared t ∧ ∀ u ∈ new, Keeps G.contract (fun _ _ => True) u.prog t := by
  cases e with
  | env e =>
    obtain ⟨⟨a, threads⟩, hr, heq⟩ := Option.map_eq_some_iff.mp henv
    obtain ⟨rfl, rfl⟩ := Prod.mk.inj heq
    obtain ⟨hinv, hgrows⟩ := hup.env hok hr hsound.inv
    have hsound' := hsound.shared hinv hgrows
    refine ⟨hsound', ⟨hgrows, fun _ group hg => ⟨group, hg, rfl⟩⟩, fun u hu => ?_⟩
    obtain ⟨thread, hthread, rfl⟩ := List.mem_map.mp hu
    exact hup.programs hok hr hsound' thread hthread
  | start g =>
    obtain ⟨group, hgroup, henv⟩ := Option.bind_eq_some_iff.mp henv
    obtain ⟨⟨group', j⟩, hstart, heq⟩ := Option.map_eq_some_iff.mp henv
    obtain ⟨rfl, rfl⟩ := Prod.mk.inj heq
    obtain ⟨hj, hjobs, _⟩ := TaskGroup.start_cases hstart
    obtain ⟨hnew, hready⟩ := (hsound.groups group (List.mem_of_getElem? hgroup)).start hstart
    have hsound' : G.Sound { c.shared with groups := c.shared.groups.modify g fun _ => group' } :=
      hsound.modify g fun _ _ => hnew
    refine ⟨hsound', Growth.Grown.modify g fun old hold => ?_, fun u hu => ?_⟩
    · obtain rfl := Option.some.inj (hgroup.symm.trans hold)
      exact hjobs
    · obtain rfl := List.mem_singleton.mp hu
      apply keeps_jobThread hup hsound' hready
      refine ⟨group', ?_, hjobs ▸ hj⟩
      rw [List.getElem?_modify_eq, hgroup]
      rfl

theorem Growth.Sound.dies (hup : G.Upheld ok) (hsound : G.Sound s) {tag : TaskTag τ} :
    G.Sound (W.taskDeath tag s) ∧ G.Grown s (W.taskDeath tag s) := by
  cases tag with
  | main tag =>
    obtain ⟨hinv, hgrows⟩ : G.inv (W.death tag s.shared) ∧ G.grows s.shared (W.death tag s.shared) :=
      hup.death hsound.inv
    exact ⟨hsound.shared hinv hgrows, hgrows, fun _ group hg => ⟨group, hg, rfl⟩⟩
  | job g i =>
    refine ⟨hsound.modify g fun group hgroup => ?_, Growth.Grown.modify g fun _ _ => rfl⟩
    exact (hsound.groups group (List.mem_of_getElem? hgroup)).drop i

theorem Growth.Upheld.meets (hup : G.Upheld ok)
    {c : Config (TaskReply R (J := J) (V := V) (ε := ε)) ε (TaskState σ J V ε) (TaskTag τ)} {i : Nat}
    {fate : Fate ε} {t : Thread (TaskReply R (J := J) (V := V) (ε := ε)) ε (TaskTag τ)}
    {cmd : TaskCmd C J V ε} {rest : Except ε (TaskReply R cmd) → TaskProg R J V ε Unit}
    (hok : ok c (.run i fate)) (hi : c.threads[i]? = some t) (hprog : t.prog = .await cmd rest)
    (hadmits : W.taskAdmits cmd c.shared fate = true) (hsound : G.Sound c.shared) :
    G.Meets cmd c.shared fate := by
  cases cmd with
  | cmd cmd => exact hup.expects hok hi hprog hadmits hsound.inv
  | fork jobs bound => trivial
  | join g => trivial
  | finish g i r => trivial

def Growth.discipline (hup : G.Upheld ok) : Discipline W.system ok where
  inv := G.Sound
  contract := fun _ => G.contract
  post := fun _ _ _ => True
  apart := fun _ _ => True
  meaning_eq := fun _ => rfl
  inv_eq := fun _ => rfl
  apart_symm := fun _ => trivial
  others := fun _ _ _ hguar => hguar
  fates := fun hok hi hprog hadmits hsound => ⟨hadmits, hup.meets hok hi hprog hadmits hsound⟩
  exit_keeps := fun _ _ _ ht => absurd ht List.not_mem_nil
  exit_apart := fun _ ht => absurd ht List.not_mem_nil
  exit_pairwise := List.Pairwise.nil
  death_inv := fun _ _ hsound => (hsound.dies hup).1
  death_rely := fun _ _ hsound _ => (hsound.dies hup).2
  env_inv := fun hok henv hsound => (hup.event hok henv hsound).1
  env_rely := fun hok henv hsound _ _ => (hup.event hok henv hsound).2.1
  env_keeps := fun hok henv hsound => (hup.event hok henv hsound).2.2
  env_apart := fun _ _ _ => ⟨List.pairwise_of_forall fun _ _ => trivial, fun _ _ _ _ => trivial⟩

theorem Growth.start_safe (hup : G.Upheld ok) {a : σ} (hinv : G.inv a) :
    (G.discipline hup).Safe ⟨⟨a, []⟩, []⟩ :=
  ⟨⟨hinv, fun _ hg => absurd hg List.not_mem_nil⟩, fun _ ht => absurd ht List.not_mem_nil,
    List.Pairwise.nil⟩

theorem Growth.reach_grown (hup : G.Upheld ok)
    {c d : Config (TaskReply R (J := J) (V := V) (ε := ε)) ε (TaskState σ J V ε) (TaskTag τ)}
    (hsafe : (G.discipline hup).Safe c) (reach : Reach W.system ok c d) :
    (G.discipline hup).Safe d ∧ G.Grown c.shared d.shared := by
  refine reach.invariant (I := fun d => (G.discipline hup).Safe d ∧ G.Grown c.shared d.shared)
    ⟨hsafe, Growth.Grown.refl G _⟩ ?_
  rintro d e move ⟨hsafe, hgrown⟩ hok h
  obtain ⟨i, fate, t, cmd, rest, rfl, hi, hprog, hadmits, rfl⟩ | ⟨i, t, result, rfl, hi, hended, rfl⟩ |
    ⟨i, t, rfl, hi, rfl⟩ | ⟨e, s, new, rfl, henv, rfl⟩ := System.step_cases h
  · exact ⟨hsafe.run hok hi hprog hadmits, hgrown.trans (hsafe.await hok hi hprog hadmits).2.1⟩
  · exact ⟨hsafe.exit hi hended, hgrown⟩
  · exact ⟨hsafe.die hok hi, hgrown.trans (Growth.Sound.dies hup hsafe.inv).2⟩
  · exact ⟨hsafe.env hok henv, hgrown.trans (hup.event hok henv hsafe.inv).2.1⟩

end Pool

end Growth

end Coroutine
