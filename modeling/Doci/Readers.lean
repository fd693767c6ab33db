import Doci.Interleaving

/-! A program that only reads, beside a pool of programs: each of its awaits is answered in some
later state of the pool. -/

namespace Coroutine

section Readers

variable {C : Type} {R : C → Type} {ε σ τ ι : Type} {D : Type} {Q : D → Type} {α β : Type}

/-- From `c` to `d` the program makes the looks in turn and ends with the result. -/
inductive Prog.Beside (S : System R ε σ τ ι) (read : (q : D) → σ → Except ε (Q q)) :
    Config R ε σ τ → Prog Q ε α → List (D × σ) → Config R ε σ τ → Except ε α → Prop
  | ret (c : Config R ε σ τ) (value : α) : Beside S read c (.ret value) [] c (.ok value)
  | throw (c : Config R ε σ τ) (e : ε) : Beside S read c (.throw e) [] c (.error e)
  | await {c d e : Config R ε σ τ} {q : D} {rest : Except ε (Q q) → Prog Q ε α}
    {looks : List (D × σ)} {result : Except ε α} (reach : Reach S (fun _ _ => True) c d)
    (h : Beside S read d (rest (read q d.shared)) looks e result) :
    Beside S read c (.await q rest) ((q, d.shared) :: looks) e result

/-- The same beside moves that `ok` admits. -/
inductive Prog.Within (S : System R ε σ τ ι) (ok : Config R ε σ τ → Move ε ι → Prop)
    (read : (q : D) → σ → Except ε (Q q)) :
    Config R ε σ τ → Prog Q ε α → List (D × σ) → Config R ε σ τ → Except ε α → Prop
  | ret (c : Config R ε σ τ) (value : α) : Within S ok read c (.ret value) [] c (.ok value)
  | throw (c : Config R ε σ τ) (e : ε) : Within S ok read c (.throw e) [] c (.error e)
  | await {c d e : Config R ε σ τ} {q : D} {rest : Except ε (Q q) → Prog Q ε α}
    {looks : List (D × σ)} {result : Except ε α} (reach : Reach S ok c d)
    (h : Within S ok read d (rest (read q d.shared)) looks e result) :
    Within S ok read c (.await q rest) ((q, d.shared) :: looks) e result

variable {S : System R ε σ τ ι} {read : (q : D) → σ → Except ε (Q q)} {c d : Config R ε σ τ}
  {looks : List (D × σ)}

section Within

variable {ok : Config R ε σ τ → Move ε ι → Prop} {p : Prog Q ε α} {result : Except ε α}

theorem Prog.Within.beside (h : p.Within S ok read c looks d result) :
    p.Beside S read c looks d result := by
  induction h with
  | ret c value => exact .ret c value
  | throw c e => exact .throw c e
  | await reach _ ih => exact .await (reach.weaken fun _ _ _ => trivial) ih

theorem Prog.Within.reach (h : p.Within S ok read c looks d result) : Reach S ok c d := by
  induction h with
  | ret => exact .start
  | throw => exact .start
  | await reach _ ih => exact reach.trans ih

/-- Each look is into a state that the pool passes on its way. -/
theorem Prog.Within.passed (h : p.Within S ok read c looks d result) :
    ∀ look ∈ looks, ∃ e, look.2 = e.shared ∧ Reach S ok c e ∧ Reach S ok e d := by
  induction h with
  | ret => exact nofun
  | throw => exact nofun
  | await reach h ih =>
    intro look hlook
    rcases List.mem_cons.mp hlook with rfl | hlook
    · exact ⟨_, rfl, reach, h.reach⟩
    · obtain ⟨e, hstate, he, hend⟩ := ih look hlook
      exact ⟨e, hstate, reach.trans he, hend⟩

end Within

theorem Prog.Beside.of_ret {value : α} {result : Except ε α}
    (h : (Prog.ret value : Prog Q ε α).Beside S read c looks d result) :
    looks = [] ∧ result = .ok value := by
  cases h
  exact ⟨rfl, rfl⟩

theorem Prog.Beside.of_throw {e : ε} {result : Except ε α}
    (h : (Prog.throw e : Prog Q ε α).Beside S read c looks d result) :
    looks = [] ∧ result = .error e := by
  cases h
  exact ⟨rfl, rfl⟩

theorem Prog.Beside.of_perform {q : D} {result : Except ε (Q q)}
    (h : (perform q : Prog Q ε (Q q)).Beside S read c looks d result) :
    ∃ s, looks = [(q, s)] ∧ result = read q s := by
  cases h with
  | @await _ d' _ _ _ _ _ reach h =>
    refine ⟨d'.shared, ?_⟩
    cases hreply : read q d'.shared with
    | ok value =>
      rw [hreply] at h
      obtain ⟨rfl, rfl⟩ := h.of_ret
      exact ⟨rfl, rfl⟩
    | error e =>
      rw [hreply] at h
      obtain ⟨rfl, rfl⟩ := h.of_throw
      exact ⟨rfl, rfl⟩

theorem Prog.Beside.of_settle {p : Prog Q ε α} {next : Except ε α → Prog Q ε β}
    {result : Except ε β} (h : (p.settle next).Beside S read c looks d result) :
    ∃ first m middle second, p.Beside S read c first m middle ∧
      (next middle).Beside S read m second d result ∧ looks = first ++ second := by
  induction p generalizing c looks with
  | ret value => exact ⟨[], c, .ok value, looks, .ret c value, h, rfl⟩
  | throw e => exact ⟨[], c, .error e, looks, .throw c e, h, rfl⟩
  | await q rest ih =>
    cases h with
    | await reach h =>
      obtain ⟨first, m, middle, second, hfirst, hsecond, rfl⟩ := ih _ h
      exact ⟨_, m, middle, second, .await reach hfirst, hsecond, rfl⟩

theorem Prog.Beside.settle {p : Prog Q ε α} {next : Except ε α → Prog Q ε β}
    {first second : List (D × σ)} {m : Config R ε σ τ} {middle : Except ε α} {result : Except ε β}
    (h : p.Beside S read c first m middle) (hnext : (next middle).Beside S read m second d result) :
    (p.settle next).Beside S read c (first ++ second) d result := by
  induction h with
  | ret => exact hnext
  | throw => exact hnext
  | await reach _ ih => exact .await reach (ih hnext)

theorem Prog.Beside.of_bind {p : Prog Q ε α} {next : α → Prog Q ε β} {result : Except ε β}
    (h : (p.bind next).Beside S read c looks d result) :
    (∃ first m value second, p.Beside S read c first m (.ok value) ∧
      (next value).Beside S read m second d result ∧ looks = first ++ second) ∨
    ∃ e, p.Beside S read c looks d (.error e) ∧ result = .error e := by
  obtain ⟨first, m, middle, second, hfirst, hsecond, rfl⟩ := Prog.Beside.of_settle h
  cases middle with
  | ok value => exact .inl ⟨first, m, value, second, hfirst, hsecond, rfl⟩
  | error e =>
    obtain ⟨rfl, rfl⟩ := hsecond.of_throw
    refine .inr ⟨e, ?_, rfl⟩
    rw [List.append_nil]
    cases hsecond
    exact hfirst

/-- A look that always succeeds, and what follows it. -/
theorem Prog.Beside.of_look {q : D} {next : Q q → Prog Q ε β} {result : Except ε β}
    (h : ((perform q : Prog Q ε (Q q)).bind next).Beside S read c looks d result)
    (htotal : ∀ s, ∃ value, read q s = .ok value) :
    ∃ s m value rest, read q s = .ok value ∧ (next value).Beside S read m rest d result ∧
      looks = (q, s) :: rest := by
  rcases Prog.Beside.of_bind h with ⟨_, m, value, rest, hfirst, hrest, rfl⟩ | ⟨e, hfirst, _⟩
  · obtain ⟨s, rfl, hvalue⟩ := hfirst.of_perform
    exact ⟨s, m, value, rest, hvalue.symm, hrest, rfl⟩
  · obtain ⟨s, _, hvalue⟩ := hfirst.of_perform
    obtain ⟨value, hok⟩ := htotal s
    exact nomatch hvalue.trans hok

section Within

variable {ok : Config R ε σ τ → Move ε ι → Prop}

theorem Prog.Within.of_ret {value : α} {result : Except ε α}
    (h : (Prog.ret value : Prog Q ε α).Within S ok read c looks d result) : result = .ok value := by
  cases h
  rfl

theorem Prog.Within.of_throw {e : ε} {result : Except ε α}
    (h : (Prog.throw e : Prog Q ε α).Within S ok read c looks d result) : result = .error e := by
  cases h
  rfl

/-- A look that always succeeds, and what follows it from the state that it was into. -/
theorem Prog.Within.of_look {q : D} {next : Q q → Prog Q ε β} {result : Except ε β}
    (h : ((perform q : Prog Q ε (Q q)).bind next).Within S ok read c looks d result)
    (htotal : ∀ s, ∃ value, read q s = .ok value) :
    ∃ m value rest, Reach S ok c m ∧ read q m.shared = .ok value ∧
      (next value).Within S ok read m rest d result := by
  cases h with
  | @await _ m _ _ _ looks _ reach h =>
    obtain ⟨value, hvalue⟩ := htotal m.shared
    rw [hvalue] at h
    exact ⟨m, value, looks, reach, hvalue, h⟩

theorem Prog.Within.of_settle {p : Prog Q ε α} {next : Except ε α → Prog Q ε β}
    {result : Except ε β} (h : (p.settle next).Within S ok read c looks d result) :
    ∃ first m middle second, p.Within S ok read c first m middle ∧
      (next middle).Within S ok read m second d result ∧ looks = first ++ second := by
  induction p generalizing c looks with
  | ret value => exact ⟨[], c, .ok value, looks, .ret c value, h, rfl⟩
  | throw e => exact ⟨[], c, .error e, looks, .throw c e, h, rfl⟩
  | await q rest ih =>
    cases h with
    | await reach h =>
      obtain ⟨first, m, middle, second, hfirst, hsecond, rfl⟩ := ih _ h
      exact ⟨_, m, middle, second, .await reach hfirst, hsecond, rfl⟩

theorem Prog.Within.of_bind {p : Prog Q ε α} {next : α → Prog Q ε β} {result : Except ε β}
    (h : (p.bind next).Within S ok read c looks d result) :
    (∃ first m value second, p.Within S ok read c first m (.ok value) ∧
      (next value).Within S ok read m second d result) ∨
    ∃ e, p.Within S ok read c looks d (.error e) ∧ result = .error e := by
  obtain ⟨first, m, middle, second, hfirst, hsecond, rfl⟩ := Prog.Within.of_settle h
  cases middle with
  | ok value => exact .inl ⟨first, m, value, second, hfirst, hsecond⟩
  | error e =>
    obtain rfl := Prog.Within.of_throw hsecond
    refine .inr ⟨e, ?_, rfl⟩
    cases hsecond
    rw [List.append_nil]
    exact hfirst

/-- Every program can be run in a state that stays. -/
theorem Prog.exists_within (p : Prog Q ε α) (ok : Config R ε σ τ → Move ε ι → Prop)
    (read : (q : D) → σ → Except ε (Q q)) (c : Config R ε σ τ) :
    ∃ looks result, p.Within S ok read c looks c result := by
  induction p with
  | ret value => exact ⟨[], _, .ret c value⟩
  | throw e => exact ⟨[], _, .throw c e⟩
  | await q rest ih =>
    obtain ⟨looks, result, h⟩ := ih (read q c.shared)
    exact ⟨_, result, .await .start h⟩

end Within

/-- What is asked of the pool satisfies `P` if every command of the program does. -/
theorem Prog.Beside.uses {P : D → Prop} {p : Prog Q ε α} {result : Except ε α}
    (h : p.Beside S read c looks d result) (huses : p.Uses P) : ∀ look ∈ looks, P look.1 := by
  induction h with
  | ret => exact nofun
  | throw => exact nofun
  | await _ _ ih =>
    intro look hlook
    rcases List.mem_cons.mp hlook with rfl | hlook
    · exact huses.1
    · exact ih (huses.2 _) look hlook

end Readers

end Coroutine
