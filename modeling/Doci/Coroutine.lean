import Mathlib.Logic.Basic

/-! Programs that await one command at a time, with exceptions. The rest of a program
receives the reply of its command or the exception that the await raised. -/

namespace Coroutine

/-- `R c` is the type of the reply to the command `c`. -/
inductive Prog {C : Type} (R : C → Type) (ε α : Type) where
  | ret (value : α)
  | throw (e : ε)
  | await (c : C) (rest : Except ε (R c) → Prog R ε α)

section Prog

variable {C C' : Type} {R : C → Type} {R' : C' → Type} {ε α β : Type}

def Prog.settle : Prog R ε α → (Except ε α → Prog R ε β) → Prog R ε β
  | ret value, next => next (.ok value)
  | throw e, next => next (.error e)
  | await c rest, next => await c fun reply => (rest reply).settle next

def Prog.bind (p : Prog R ε α) (next : α → Prog R ε β) : Prog R ε β :=
  p.settle fun
    | .ok value => next value
    | .error e => .throw e

/-- `try ... except`. -/
def Prog.tryCatch (p : Prog R ε α) (handler : ε → Prog R ε α) : Prog R ε α :=
  p.settle fun
    | .ok value => .ret value
    | .error e => handler e

def perform (c : C) : Prog R ε (R c) :=
  .await c fun
    | .ok reply => .ret reply
    | .error e => .throw e

def Prog.expand (body : (c : C) → Prog R' ε (R c)) : Prog R ε α → Prog R' ε α
  | ret value => .ret value
  | throw e => .throw e
  | await c rest => (body c).settle fun reply => (rest reply).expand body

/-- Every command of the program satisfies `P`, whatever the replies. -/
def Prog.Uses (P : C → Prop) : Prog R ε α → Prop
  | ret _ => True
  | throw _ => True
  | await c rest => P c ∧ ∀ reply, (rest reply).Uses P

instance : Monad (Prog R ε) where
  pure := Prog.ret
  bind := Prog.bind

instance : MonadExceptOf ε (Prog R ε) where
  throw := Prog.throw
  tryCatch := Prog.tryCatch

@[simp] theorem pure_eq_ret (value : α) : (pure value : Prog R ε α) = .ret value := rfl

@[simp] theorem bind_eq (p : Prog R ε α) (next : α → Prog R ε β) : p >>= next = p.bind next := rfl

@[simp] theorem throw_eq (e : ε) : (throw e : Prog R ε α) = .throw e := rfl

@[simp] theorem tryCatch_eq (p : Prog R ε α) (handler : ε → Prog R ε α) :
    tryCatch p handler = p.tryCatch handler := rfl

variable {P Q : C → Prop}

theorem Prog.Uses.settle {p : Prog R ε α} {next : Except ε α → Prog R ε β} (h : p.Uses P)
    (hnext : ∀ r, (next r).Uses P) : (p.settle next).Uses P := by
  induction p with
  | ret value => exact hnext _
  | throw e => exact hnext _
  | await c rest ih => exact ⟨h.1, fun reply => ih reply (h.2 reply)⟩

theorem Prog.Uses.bind {p : Prog R ε α} {next : α → Prog R ε β} (h : p.Uses P)
    (hnext : ∀ value, (next value).Uses P) : (p.bind next).Uses P := by
  apply h.settle
  intro r
  cases r with
  | ok value => exact hnext value
  | error e => trivial

theorem Prog.Uses.tryCatch {p : Prog R ε α} {handler : ε → Prog R ε α} (h : p.Uses P)
    (hhandler : ∀ e, (handler e).Uses P) : (p.tryCatch handler).Uses P := by
  apply h.settle
  intro r
  cases r with
  | ok value => trivial
  | error e => exact hhandler e

theorem Prog.Uses.ite {b : Prop} [Decidable b] {p q : Prog R ε α} (hp : p.Uses P) (hq : q.Uses P) :
    (if b then p else q).Uses P := by
  split
  · exact hp
  · exact hq

theorem uses_perform {c : C} (h : P c) : (perform c : Prog R ε (R c)).Uses P := by
  refine ⟨h, fun reply => ?_⟩
  cases reply <;> trivial

theorem Prog.Uses.mono {p : Prog R ε α} (h : p.Uses P) (himp : ∀ c, P c → Q c) : p.Uses Q := by
  induction p with
  | ret value => trivial
  | throw e => trivial
  | await c rest ih => exact ⟨himp c h.1, fun reply => ih reply (h.2 reply)⟩

theorem Prog.Uses.and {p : Prog R ε α} (h : p.Uses P) (h' : p.Uses Q) : p.Uses fun c => P c ∧ Q c := by
  induction p with
  | ret value => trivial
  | throw e => trivial
  | await c rest ih => exact ⟨⟨h.1, h'.1⟩, fun reply => ih reply (h.2 reply) (h'.2 reply)⟩

theorem Prog.Uses.expand {P : C' → Prop} {body : (c : C) → Prog R' ε (R c)} (p : Prog R ε α)
    (h : ∀ c, (body c).Uses P) : (p.expand body).Uses P := by
  induction p with
  | ret value => trivial
  | throw e => trivial
  | await c rest ih => exact (h c).settle ih

theorem Prog.Uses.expand_of {P : C' → Prop} {body : (c : C) → Prog R' ε (R c)} {p : Prog R ε α}
    (huses : p.Uses Q) (h : ∀ c, Q c → (body c).Uses P) : (p.expand body).Uses P := by
  induction p with
  | ret value => trivial
  | throw e => trivial
  | await c rest ih => exact (h c huses.1).settle fun reply => ih reply (huses.2 reply)

/-- Every exception that the program raises satisfies `P` if those of its awaits do. -/
def Prog.Raises (P : ε → Prop) : Prog R ε α → Prop
  | ret _ => True
  | throw e => P e
  | await _ rest => ∀ reply, (∀ e, reply = .error e → P e) → (rest reply).Raises P

section Raises

variable {P : ε → Prop}

theorem Prog.Raises.settle {p : Prog R ε α} {next : Except ε α → Prog R ε β} (h : p.Raises P)
    (hok : ∀ value, (next (.ok value)).Raises P) (herr : ∀ e, P e → (next (.error e)).Raises P) :
    (p.settle next).Raises P := by
  induction p with
  | ret value => exact hok value
  | throw e => exact herr e h
  | await c rest ih => exact fun reply hreply => ih reply (h reply hreply)

theorem Prog.Raises.bind {p : Prog R ε α} {next : α → Prog R ε β} (h : p.Raises P)
    (hnext : ∀ value, (next value).Raises P) : (p.bind next).Raises P :=
  h.settle hnext fun _ he => he

theorem Prog.Raises.tryCatch {p : Prog R ε α} {handler : ε → Prog R ε α} (h : p.Raises P)
    (hhandler : ∀ e, P e → (handler e).Raises P) : (p.tryCatch handler).Raises P :=
  h.settle (fun _ => trivial) hhandler

theorem raises_perform (c : C) : (perform c : Prog R ε (R c)).Raises P := by
  intro reply hreply
  cases reply with
  | ok value => trivial
  | error e => exact hreply e rfl

theorem Prog.Raises.expand {p : Prog R ε α} {body : (c : C) → Prog R' ε (R c)} (h : p.Raises P)
    (hbody : ∀ c, (body c).Raises P) : (p.expand body).Raises P := by
  induction p with
  | ret value => trivial
  | throw e => exact h
  | await c rest ih =>
    refine (hbody c).settle (fun value => ih _ (h _ nofun)) fun e he => ih _ (h _ ?_)
    rintro _ ⟨⟩
    exact he

end Raises

/-- Every value that the program returns satisfies `P`, whatever the replies. -/
def Prog.Returns (P : α → Prop) : Prog R ε α → Prop
  | ret value => P value
  | throw _ => True
  | await _ rest => ∀ reply, (rest reply).Returns P

section Returns

variable {P : α → Prop} {Q : β → Prop}

theorem Prog.Returns.of_all (h : ∀ value, P value) (p : Prog R ε α) : p.Returns P := by
  induction p with
  | ret value => exact h value
  | throw e => trivial
  | await c rest ih => exact ih

theorem Prog.Returns.bind {p : Prog R ε α} {next : α → Prog R ε β} (h : p.Returns P)
    (hnext : ∀ value, P value → (next value).Returns Q) : (p.bind next).Returns Q := by
  induction p with
  | ret value => exact hnext value h
  | throw e => trivial
  | await c rest ih => exact fun reply => ih reply (h reply)

theorem Prog.Returns.expand {p : Prog R ε α} (h : p.Returns P) (body : (c : C) → Prog R' ε (R c)) :
    (p.expand body).Returns P := by
  induction p with
  | ret value => exact h
  | throw e => trivial
  | await c rest ih =>
    have hsettle : ∀ q : Prog R' ε (R c),
        (q.settle fun reply => (rest reply).expand body).Returns P := by
      intro q
      induction q with
      | ret value => exact ih _ (h _)
      | throw e => exact ih _ (h _)
      | await c' rest' ih' => exact ih'
    exact hsettle (body c)

/-- What follows uses the commands for the values that are returned. -/
theorem Prog.Uses.bind_returns {P : C → Prop} {V : α → Prop} {p : Prog R ε α} {next : α → Prog R ε β}
    (h : p.Uses P) (hreturns : p.Returns V) (hnext : ∀ value, V value → (next value).Uses P) :
    (p.bind next).Uses P := by
  induction p with
  | ret value => exact hnext value hreturns
  | throw e => trivial
  | await c rest ih => exact ⟨h.1, fun reply => ih reply (h.2 reply) (hreturns reply)⟩

end Returns

section Laws

variable {γ : Type}

theorem Prog.settle_assoc (p : Prog R ε α) (next : Except ε α → Prog R ε β)
    (last : Except ε β → Prog R ε γ) :
    (p.settle next).settle last = p.settle fun r => (next r).settle last := by
  induction p with
  | ret value => rfl
  | throw e => rfl
  | await c rest ih => exact congrArg (Prog.await c) (funext ih)

theorem Prog.bind_assoc (p : Prog R ε α) (next : α → Prog R ε β) (last : β → Prog R ε γ) :
    (p.bind next).bind last = p.bind fun value => (next value).bind last := by
  refine (Prog.settle_assoc p _ _).trans (congrArg p.settle (funext fun r => ?_))
  cases r <;> rfl

theorem Prog.settle_perform (c : C) (next : Except ε (R c) → Prog R ε β) :
    (perform c : Prog R ε (R c)).settle next = .await c next := by
  refine congrArg (Prog.await c) (funext fun reply => ?_)
  cases reply <;> rfl

theorem Prog.expand_settle (body : (c : C) → Prog R' ε (R c)) (p : Prog R ε α)
    (next : Except ε α → Prog R ε β) :
    (p.settle next).expand body = (p.expand body).settle fun r => (next r).expand body := by
  induction p with
  | ret value => rfl
  | throw e => rfl
  | await c rest ih =>
    calc (body c).settle (fun reply => ((rest reply).settle next).expand body)
        = (body c).settle fun reply => ((rest reply).expand body).settle fun r =>
            (next r).expand body := congrArg _ (funext ih)
      _ = ((body c).settle fun reply => (rest reply).expand body).settle fun r =>
            (next r).expand body := (Prog.settle_assoc _ _ _).symm

theorem Prog.expand_bind (body : (c : C) → Prog R' ε (R c)) (p : Prog R ε α)
    (next : α → Prog R ε β) :
    (p.bind next).expand body = (p.expand body).bind fun value => (next value).expand body := by
  refine (Prog.expand_settle body p _).trans (congrArg _ (funext fun r => ?_))
  cases r <;> rfl

theorem Prog.expand_tryCatch (body : (c : C) → Prog R' ε (R c)) (p : Prog R ε α)
    (handler : ε → Prog R ε α) :
    (p.tryCatch handler).expand body =
      (p.expand body).tryCatch fun e => (handler e).expand body := by
  refine (Prog.expand_settle body p _).trans (congrArg _ (funext fun r => ?_))
  cases r <;> rfl

theorem Prog.expand_perform (body : (c : C) → Prog R' ε (R c)) (c : C) :
    (perform c : Prog R ε (R c)).expand body = body c := by
  have hself : ∀ p : Prog R' ε (R c), (p.settle fun reply => Prog.expand body
      (match reply with | .ok value => .ret value | .error e => .throw e : Prog R ε (R c))) = p := by
    intro p
    induction p with
    | ret value => rfl
    | throw e => rfl
    | await c' rest ih => exact congrArg (Prog.await c') (funext ih)
  exact hself (body c)

theorem Prog.expand_back {there : (c : C) → Prog R' ε (R c)} {back : (c : C') → Prog R ε (R' c)}
    (h : ∀ c, (there c).expand back = perform c) (p : Prog R ε α) : (p.expand there).expand back = p := by
  induction p with
  | ret value => rfl
  | throw e => rfl
  | await c rest ih =>
    calc ((there c).settle fun reply => (rest reply).expand there).expand back
        = ((there c).expand back).settle fun reply => ((rest reply).expand there).expand back :=
          Prog.expand_settle _ _ _
      _ = (perform c).settle rest := by rw [h, funext ih]
      _ = .await c rest := Prog.settle_perform _ _

end Laws

end Prog

/-- What happens to an await: it completes, it raises before its effect, or its effect
takes place and it raises all the same. -/
inductive Fate (ε : Type) where
  | done
  | lost (e : ε)
  | late (e : ε)
  deriving DecidableEq

def Fate.raised {ε : Type} : Fate ε → Option ε
  | done => none
  | lost e => some e
  | late e => some e

def Fate.effective {ε : Type} : Fate ε → Bool
  | lost _ => false
  | _ => true

section Meaning

variable {C : Type} {R : C → Type} {ε σ : Type}

def outcome (meaning : (c : C) → σ → Except ε (R c) × σ) (c : C) (s : σ) :
    Fate ε → Except ε (R c) × σ
  | .done => meaning c s
  | .lost e => (.error e, s)
  | .late e => (.error e, (meaning c s).2)

@[simp] theorem outcome_done (meaning : (c : C) → σ → Except ε (R c) × σ) (c : C) (s : σ) :
    outcome meaning c s .done = meaning c s := rfl

@[simp] theorem outcome_lost (meaning : (c : C) → σ → Except ε (R c) × σ) (c : C) (s : σ) (e : ε) :
    outcome meaning c s (.lost e) = (.error e, s) := rfl

@[simp] theorem outcome_late (meaning : (c : C) → σ → Except ε (R c) × σ) (c : C) (s : σ) (e : ε) :
    outcome meaning c s (.late e) = (.error e, (meaning c s).2) := rfl

theorem outcome_snd (meaning : (c : C) → σ → Except ε (R c) × σ) (c : C) (s : σ) (fate : Fate ε) :
    (outcome meaning c s fate).2 = (meaning c s).2 ∨ (outcome meaning c s fate).2 = s := by
  cases fate <;> simp

theorem outcome_snd_eq (meaning : (c : C) → σ → Except ε (R c) × σ) (c : C) (s : σ) (fate : Fate ε) :
    (outcome meaning c s fate).2 = if fate.effective then (meaning c s).2 else s := by
  cases fate <;> rfl

end Meaning

/-- What a program relies on, what each of its awaits guarantees, and the fates that it
has to expect. -/
structure Contract {C : Type} (R : C → Type) (ε σ : Type) where
  meaning : (c : C) → σ → Except ε (R c) × σ
  inv : σ → Prop
  rely : σ → σ → Prop
  guar : σ → σ → Prop
  fate : C → σ → Fate ε → Prop
  rely_refl : ∀ s, rely s s
  rely_trans : ∀ {s t u}, rely s t → rely t u → rely s u

section Keeps

variable {C : Type} {R : C → Type} {ε σ α β : Type}

/-- From state `s` the program keeps its contract whatever the others do between its
awaits, and it ends in `post`. -/
def Keeps (K : Contract R ε σ) (post : Except ε α → σ → Prop) : Prog R ε α → σ → Prop
  | .ret value, s => ∀ t, K.rely s t → K.inv t → post (.ok value) t
  | .throw e, s => ∀ t, K.rely s t → K.inv t → post (.error e) t
  | .await c rest, s => ∀ t, K.rely s t → K.inv t → ∀ fate, K.fate c t fate →
      K.inv (outcome K.meaning c t fate).2 ∧ K.guar t (outcome K.meaning c t fate).2 ∧
        Keeps K post (rest (outcome K.meaning c t fate).1) (outcome K.meaning c t fate).2

variable {K : Contract R ε σ} {post Q : Except ε α → σ → Prop}

theorem Keeps.later {p : Prog R ε α} {s t : σ} (h : Keeps K post p s) (hrely : K.rely s t) :
    Keeps K post p t := by
  cases p with
  | ret value => exact fun u hu => h u (K.rely_trans hrely hu)
  | throw e => exact fun u hu => h u (K.rely_trans hrely hu)
  | await c rest => exact fun u hu => h u (K.rely_trans hrely hu)

theorem Keeps.weaken {p : Prog R ε α} {s : σ} (h : Keeps K Q p s)
    (himp : ∀ r t, K.inv t → Q r t → post r t) : Keeps K post p s := by
  induction p generalizing s with
  | ret value => exact fun t ht hinv => himp _ t hinv (h t ht hinv)
  | throw e => exact fun t ht hinv => himp _ t hinv (h t ht hinv)
  | await c rest ih =>
    intro t ht hinv fate hfate
    obtain ⟨hinv', hguar, hrest⟩ := h t ht hinv fate hfate
    exact ⟨hinv', hguar, ih _ hrest⟩

theorem Keeps.settle {post : Except ε β → σ → Prop} {p : Prog R ε α}
    {next : Except ε α → Prog R ε β} {s : σ} (h : Keeps K Q p s) (hinv : K.inv s)
    (hnext : ∀ r s, K.inv s → (∀ t, K.rely s t → K.inv t → Q r t) → Keeps K post (next r) s) :
    Keeps K post (p.settle next) s := by
  induction p generalizing s with
  | ret value => exact hnext _ s hinv h
  | throw e => exact hnext _ s hinv h
  | await c rest ih =>
    intro t ht hinv fate hfate
    obtain ⟨hinv', hguar, hrest⟩ := h t ht hinv fate hfate
    exact ⟨hinv', hguar, ih _ hrest hinv'⟩

theorem Keeps.bind {post : Except ε β → σ → Prop} {p : Prog R ε α} {next : α → Prog R ε β}
    {s : σ} (h : Keeps K Q p s) (hinv : K.inv s)
    (hok : ∀ value t, K.inv t → Q (.ok value) t → Keeps K post (next value) t)
    (herr : ∀ e t, K.inv t → Q (.error e) t → post (.error e) t) :
    Keeps K post (p.bind next) s := by
  apply h.settle hinv
  intro r s hinv hmid
  cases r with
  | ok value => exact hok value s hinv (hmid s (K.rely_refl s) hinv)
  | error e => exact fun t ht hinv => herr e t hinv (hmid t ht hinv)

theorem Keeps.tryCatch {p : Prog R ε α} {handler : ε → Prog R ε α} {s : σ}
    (h : Keeps K Q p s) (hinv : K.inv s)
    (hok : ∀ value t, K.inv t → Q (.ok value) t → post (.ok value) t)
    (herr : ∀ e t, K.inv t → Q (.error e) t → Keeps K post (handler e) t) :
    Keeps K post (p.tryCatch handler) s := by
  apply h.settle hinv
  intro r s hinv hmid
  cases r with
  | ok value => exact fun t ht hinv => hok value t hinv (hmid t ht hinv)
  | error e => exact herr e s hinv (hmid s (K.rely_refl s) hinv)

theorem Keeps.ite {b : Prop} [Decidable b] {p q : Prog R ε α} {s : σ} (hp : b → Keeps K post p s)
    (hq : ¬ b → Keeps K post q s) : Keeps K post (if b then p else q) s := by
  by_cases hb : b
  · rw [if_pos hb]
    exact hp hb
  · rw [if_neg hb]
    exact hq hb

theorem Keeps.perform {c : C} {post : Except ε (R c) → σ → Prop} {s : σ}
    (h : ∀ t, K.rely s t → K.inv t → ∀ fate, K.fate c t fate →
      K.inv (outcome K.meaning c t fate).2 ∧ K.guar t (outcome K.meaning c t fate).2 ∧
        ∀ u, K.rely (outcome K.meaning c t fate).2 u → K.inv u →
          post (outcome K.meaning c t fate).1 u) : Keeps K post (perform c) s := by
  intro t ht hinv fate hfate
  obtain ⟨hinv', hguar, hpost⟩ := h t ht hinv fate hfate
  refine ⟨hinv', hguar, ?_⟩
  cases hreply : (outcome K.meaning c t fate).1 with
  | ok reply => exact fun u hu hinv => hreply ▸ hpost u hu hinv
  | error e => exact fun u hu hinv => hreply ▸ hpost u hu hinv

theorem Keeps.and {p : Prog R ε α} {s : σ} (h : Keeps K post p s) (h' : Keeps K Q p s) :
    Keeps K (fun r t => post r t ∧ Q r t) p s := by
  induction p generalizing s with
  | ret value => exact fun t ht hinv => ⟨h t ht hinv, h' t ht hinv⟩
  | throw e => exact fun t ht hinv => ⟨h t ht hinv, h' t ht hinv⟩
  | await c rest ih =>
    intro t ht hinv fate hfate
    obtain ⟨hinv', hguar, hrest⟩ := h t ht hinv fate hfate
    exact ⟨hinv', hguar, ih _ hrest (h' t ht hinv fate hfate).2.2⟩

theorem Keeps.along {p : Prog R ε α} {A : σ → Prop} {s : σ} (h : Keeps K post p s) (hA : A s)
    (hrely : ∀ s t, A s → K.rely s t → A t) (hguar : ∀ s t, A s → K.guar s t → A t) :
    Keeps K (fun r t => post r t ∧ A t) p s := by
  induction p generalizing s with
  | ret value => exact fun t ht hinv => ⟨h t ht hinv, hrely s t hA ht⟩
  | throw e => exact fun t ht hinv => ⟨h t ht hinv, hrely s t hA ht⟩
  | await c rest ih =>
    intro t ht hinv fate hfate
    obtain ⟨hinv', hg, hrest⟩ := h t ht hinv fate hfate
    exact ⟨hinv', hg, ih _ hrest (hguar _ _ (hrely s t hA ht) hg)⟩

theorem Keeps.of_uses {p : Prog R ε α} {P : C → Prop} {A : σ → Prop} {s : σ} (huses : p.Uses P)
    (hstable : ∀ s t, A s → K.rely s t → K.inv t → A t)
    (hstep : ∀ c t fate, P c → K.inv t → A t → K.fate c t fate →
      K.inv (outcome K.meaning c t fate).2 ∧ K.guar t (outcome K.meaning c t fate).2 ∧
        A (outcome K.meaning c t fate).2)
    (hA : A s) : Keeps K (fun _ t => A t) p s := by
  induction p generalizing s with
  | ret value => exact fun t ht hinv => hstable s t hA ht hinv
  | throw e => exact fun t ht hinv => hstable s t hA ht hinv
  | await c rest ih =>
    intro t ht hinv fate hfate
    obtain ⟨hinv', hguar, hA'⟩ := hstep c t fate huses.1 hinv (hstable s t hA ht hinv) hfate
    exact ⟨hinv', hguar, ih _ (huses.2 _) hA'⟩

/-- A program whose commands are some of another pool's keeps its contract there too. -/
theorem Keeps.inject {C' σ' : Type} {R' : C' → Type} (inject : C → C') (view : σ' → σ)
    (K : Contract (fun c => R' (inject c)) ε σ) (K' : Contract R' ε σ')
    {post : Except ε α → σ → Prop} {p : Prog (fun c => R' (inject c)) ε α} {s : σ'}
    (hrely : ∀ s t, K'.rely s t → K.rely (view s) (view t))
    (hinv : ∀ s, K'.inv s → K.inv (view s))
    (hfate : ∀ c s fate, K'.fate (inject c) s fate → K.fate c (view s) fate)
    (hmeaning : ∀ c s fate, (outcome K'.meaning (inject c) s fate).1 =
      (outcome K.meaning c (view s) fate).1 ∧
      view (outcome K'.meaning (inject c) s fate).2 = (outcome K.meaning c (view s) fate).2)
    (hstep : ∀ c s fate, K'.inv s → K'.fate (inject c) s fate →
      K.inv (outcome K.meaning c (view s) fate).2 →
      K.guar (view s) (outcome K.meaning c (view s) fate).2 →
      K'.inv (outcome K'.meaning (inject c) s fate).2 ∧
        K'.guar s (outcome K'.meaning (inject c) s fate).2)
    (h : Keeps K post p (view s)) :
    Keeps K' (fun r t => post r (view t))
      (p.expand fun c => (Coroutine.perform (inject c) : Prog R' ε (R' (inject c)))) s := by
  induction p generalizing s with
  | ret value => exact fun t ht hi => h (view t) (hrely s t ht) (hinv t hi)
  | throw e => exact fun t ht hi => h (view t) (hrely s t ht) (hinv t hi)
  | await c rest ih =>
    have hawait : (Prog.await c rest).expand
        (fun c => (Coroutine.perform (inject c) : Prog R' ε (R' (inject c)))) = .await (inject c) fun reply =>
          (rest reply).expand fun c => (Coroutine.perform (inject c) : Prog R' ε (R' (inject c))) :=
      Prog.settle_perform _ _
    rw [hawait]
    intro t ht hi fate hf
    obtain ⟨hinv', hguar, hrest⟩ := h (view t) (hrely s t ht) (hinv t hi) fate (hfate c t fate hf)
    obtain ⟨hreply, hview⟩ := hmeaning c t fate
    obtain ⟨hi', hg'⟩ := hstep c t fate hi hf hinv' hguar
    refine ⟨hi', hg', ?_⟩
    rw [hreply]
    exact ih _ (hview ▸ hrest)

def Ends (ok : α → σ → Prop) (err : σ → Prop) : Except ε α → σ → Prop
  | .ok value => ok value
  | .error _ => err

theorem Ends.intro {ok : α → σ → Prop} {err : σ → Prop} {r : Except ε α} {s : σ}
    (hok : ∀ value, r = .ok value → ok value s) (herr : ∀ e, r = .error e → err s) :
    Ends ok err r s := by
  cases r with
  | ok value => exact hok value rfl
  | error e => exact herr e rfl

section Ends

variable {A : α → σ → Prop} {B : β → σ → Prop} {E F : σ → Prop} {s : σ}

theorem Keeps.andThen {p : Prog R ε α} {next : α → Prog R ε β} (h : Keeps K (Ends A E) p s)
    (hinv : K.inv s) (hnext : ∀ value t, K.inv t → A value t → Keeps K (Ends B E) (next value) t) :
    Keeps K (Ends B E) (p.bind next) s :=
  h.bind hinv hnext fun _ _ _ herr => herr

theorem Keeps.orElse {p : Prog R ε α} {handler : ε → Prog R ε α} (h : Keeps K (Ends A E) p s)
    (hinv : K.inv s) (hhandler : ∀ e t, K.inv t → E t → Keeps K (Ends A F) (handler e) t) :
    Keeps K (Ends A F) (p.tryCatch handler) s :=
  h.tryCatch hinv (fun _ _ _ hok => hok) hhandler

theorem Keeps.split {p : Prog R ε α} (h : Keeps K (fun _ t => E t) p s)
    (hA : ∀ value t, E t → A value t) (hF : ∀ t, E t → F t) : Keeps K (Ends A F) p s :=
  h.weaken fun r t _ hE => by
    cases r with
    | ok value => exact hA value t hE
    | error e => exact hF t hE

end Ends

/-- As `Ends`, for ends that depend on the exception. -/
def Outcome (ok : α → σ → Prop) (err : ε → σ → Prop) : Except ε α → σ → Prop
  | .ok value => ok value
  | .error e => err e

section Outcome

variable {A : α → σ → Prop} {B : β → σ → Prop} {E F : ε → σ → Prop} {s : σ}

theorem Outcome.intro {r : Except ε α} (hok : ∀ value, r = .ok value → A value s)
    (herr : ∀ e, r = .error e → E e s) : Outcome A E r s := by
  cases r with
  | ok value => exact hok value rfl
  | error e => exact herr e rfl

/-- One await: its effect takes place, or it raises and nothing has happened. -/
theorem Keeps.effect {c : C} {A : R c → σ → Prop}
    (hlost : ∀ t e, K.rely s t → K.inv t → K.fate c t (.lost e) →
      K.guar t t ∧ ∀ u, K.rely t u → K.inv u → E e u)
    (hdone : ∀ t fate, K.rely s t → K.inv t → K.fate c t fate → (∀ e, fate ≠ .lost e) →
      K.inv (K.meaning c t).2 ∧ K.guar t (K.meaning c t).2 ∧
        ∀ u, K.rely (K.meaning c t).2 u → K.inv u →
          Outcome A E (K.meaning c t).1 u ∧ ∀ e, fate = .late e → E e u) :
    Keeps K (Outcome A E) (Coroutine.perform c) s := by
  apply Keeps.perform
  intro t hrely hinv fate hfate
  cases fate with
  | lost e =>
    obtain ⟨hguar, hpost⟩ := hlost t e hrely hinv hfate
    exact ⟨hinv, hguar, hpost⟩
  | late e =>
    obtain ⟨hinv', hguar, hpost⟩ := hdone t _ hrely hinv hfate nofun
    exact ⟨hinv', hguar, fun u hu hi => (hpost u hu hi).2 e rfl⟩
  | done =>
    obtain ⟨hinv', hguar, hpost⟩ := hdone t _ hrely hinv hfate nofun
    exact ⟨hinv', hguar, fun u hu hi => (hpost u hu hi).1⟩

theorem Keeps.next {p : Prog R ε α} {next : α → Prog R ε β} (h : Keeps K (Outcome A E) p s)
    (hinv : K.inv s) (hnext : ∀ value t, K.inv t → A value t → Keeps K (Outcome B F) (next value) t)
    (herr : ∀ e t, E e t → F e t) : Keeps K (Outcome B F) (p.bind next) s :=
  h.bind hinv hnext fun e t _ he => herr e t he

theorem Keeps.excuse {p : Prog R ε α} (h : Keeps K (Outcome A E) p s)
    (himp : ∀ e t, E e t → F e t) : Keeps K (Outcome A F) p s :=
  h.weaken fun r t _ hr => by
    cases r with
    | ok value => exact hr
    | error e => exact himp e t hr

theorem Keeps.rescue {p : Prog R ε α} {handler : ε → Prog R ε α} (h : Keeps K (Outcome A E) p s)
    (hinv : K.inv s) (hhandler : ∀ e t, K.inv t → E e t → Keeps K (Outcome A F) (handler e) t) :
    Keeps K (Outcome A F) (p.tryCatch handler) s :=
  h.tryCatch hinv (fun _ _ _ hok => hok) hhandler

end Outcome

end Keeps

end Coroutine
