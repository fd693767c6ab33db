import Mathlib.Logic.Function.Basic

/-! Keys that expire: a write keeps the deadline of a live entry, a touch also sets it. -/

namespace Expiring

structure Entry (V : Type) where
  value : V
  deadline : Option Nat := none

/-- A key is taken to be gone from its deadline on; the server keeps it for that one tick. -/
def Entry.live {V : Type} (now : Nat) (e : Entry V) : Bool :=
  e.deadline.all fun deadline => decide (now < deadline)

structure Keyspace (K V : Type) where
  entry : K → Option (Entry V)

section Keyspace

variable {K V : Type}

def Keyspace.empty : Keyspace K V := ⟨fun _ => none⟩

def Keyspace.liveEntry (s : Keyspace K V) (now : Nat) (k : K) : Option (Entry V) :=
  (s.entry k).filter (Entry.live now)

def Keyspace.read (s : Keyspace K V) (now : Nat) (k : K) : Option V :=
  (s.liveEntry now k).map Entry.value

def Keyspace.delete (s : Keyspace K V) (p : K → Bool) : Keyspace K V :=
  ⟨fun k => if p k then none else s.entry k⟩

/-- Every entry expires, and key, value and deadline are as `P` says. -/
def Keyspace.Within (s : Keyspace K V) (P : K → V → Nat → Prop) : Prop :=
  ∀ k e, s.entry k = some e → ∃ deadline, e.deadline = some deadline ∧ P k e.value deadline

section Write

variable [DecidableEq K]

def Keyspace.set (s : Keyspace K V) (k : K) (e : Option (Entry V)) : Keyspace K V :=
  ⟨Function.update s.entry k e⟩

/-- Write a value that depends on the live one. -/
def Keyspace.write (s : Keyspace K V) (now : Nat) (k : K) (f : Option V → V) : Keyspace K V :=
  s.set k (match s.liveEntry now k with
    | some e => some { e with value := f (some e.value) }
    | none => some { value := f none })

/-- Change the value of a live entry. -/
def Keyspace.modify (s : Keyspace K V) (now : Nat) (k : K) (f : V → V) : Keyspace K V :=
  s.set k ((s.liveEntry now k).map fun e => { e with value := f e.value })

def Keyspace.expire (s : Keyspace K V) (now ttl : Nat) (k : K) : Keyspace K V :=
  s.set k ((s.liveEntry now k).map fun e => { e with deadline := some (now + ttl) })

end Write

variable {s : Keyspace K V} {now ttl t : Nat} {k k' : K} {f : Option V → V}

@[simp] theorem Keyspace.read_empty : (Keyspace.empty : Keyspace K V).read t k = none := rfl

theorem Keyspace.read_of_entry {e : Entry V} (h : s.entry k = some e) :
    s.read t k = if e.live t then some e.value else none := by
  by_cases hlive : e.live t = true <;> simp [read, liveEntry, h, Option.filter, hlive]

theorem Keyspace.read_later {later : Nat} (h : t ≤ later) :
    s.read later k = s.read t k ∨ s.read later k = none := by
  cases he : s.entry k with
  | none => exact .inr (by simp [read, liveEntry, he])
  | some e =>
    rw [read_of_entry he, read_of_entry he]
    by_cases hlive : e.live later = true
    · have hearlier : e.live t = true := by
        cases hd : e.deadline with
        | none => simp [Entry.live, hd]
        | some deadline =>
          simp only [Entry.live, hd, Option.all_some, decide_eq_true_eq] at hlive ⊢
          omega
      simp [hlive, hearlier]
    · simp [hlive]

theorem Keyspace.read_delete {p : K → Bool} :
    (s.delete p).read t k = if p k then none else s.read t k := by
  by_cases h : p k = true <;> simp [read, liveEntry, delete, h]

theorem Keyspace.delete_gone_iff {p : K → Bool} (h : (s.read t k).isSome) :
    ¬ ((s.delete p).read t k).isSome ↔ p k = true := by
  rw [read_delete]
  by_cases hp : p k = true <;> simp [hp, h]

theorem Keyspace.delete_kept_iff {p : K → Bool} (h : (s.read t k).isSome) :
    (s.delete p).read t k = s.read t k ↔ ¬ p k = true := by
  rw [read_delete]
  by_cases hp : p k = true
  · simp only [hp, if_true, not_true_eq_false, iff_false]
    exact fun hnone => by simp [← hnone] at h
  · simp [hp]

section Within

variable {P Q : K → V → Nat → Prop}

theorem Keyspace.within_empty : (Keyspace.empty : Keyspace K V).Within P := nofun

theorem Keyspace.Within.imp (h : s.Within P) (himp : ∀ k v d, P k v d → Q k v d) : s.Within Q := by
  intro k e he
  obtain ⟨deadline, hd, hP⟩ := h k e he
  exact ⟨deadline, hd, himp k e.value deadline hP⟩

theorem Keyspace.Within.delete {p : K → Bool} (h : s.Within P) : (s.delete p).Within P := by
  intro k e he
  by_cases hp : p k = true
  · simp [Keyspace.delete, hp] at he
  · exact h k e (by simpa [Keyspace.delete, hp] using he)

theorem Keyspace.Within.set [DecidableEq K] {v : V} {d : Nat} (h : s.Within P) (hP : P k v d) :
    (s.set k (some ⟨v, some d⟩)).Within P := by
  intro k' e he
  by_cases hk : k' = k
  · subst hk
    obtain rfl : ⟨v, some d⟩ = e := by simpa [Keyspace.set] using he
    exact ⟨d, rfl, hP⟩
  · exact h k' e (by simpa [Keyspace.set, Function.update_of_ne hk] using he)

theorem Keyspace.Within.read {v : V} (h : s.Within P) (hread : s.read t k = some v) :
    ∃ deadline, P k v deadline ∧ t < deadline := by
  cases he : s.entry k with
  | none => simp [Keyspace.read, liveEntry, he] at hread
  | some e =>
    obtain ⟨deadline, hd, hP⟩ := h k e he
    rw [read_of_entry he] at hread
    obtain ⟨hlive, hv⟩ := Option.ite_none_right_eq_some.mp hread
    have hlt : t < deadline := by simpa [Entry.live, hd] using hlive
    exact ⟨deadline, Option.some.inj hv ▸ hP, hlt⟩

end Within

variable [DecidableEq K]

theorem Keyspace.read_set_ne {e : Option (Entry V)} (h : k' ≠ k) :
    (s.set k e).read t k' = s.read t k' := by
  simp [read, liveEntry, set, Function.update_of_ne h]

theorem Keyspace.read_set_some {e : Entry V} :
    (s.set k (some e)).read t k = if e.live t then some e.value else none := by
  by_cases h : e.live t = true <;> simp [read, liveEntry, set, Option.filter, h]

theorem Keyspace.read_set_none : (s.set k none).read t k = none := by
  simp [read, liveEntry, set]

theorem Keyspace.read_write_ne (h : k' ≠ k) : (s.write now k f).read t k' = s.read t k' :=
  read_set_ne h

theorem Keyspace.read_expire_ne (h : k' ≠ k) : (s.expire now ttl k).read t k' = s.read t k' :=
  read_set_ne h

theorem Keyspace.read_write : (s.write now k f).read now k = some (f (s.read now k)) := by
  have hread : s.read now k = (s.liveEntry now k).map Entry.value := rfl
  rw [hread, write]
  cases h : s.liveEntry now k with
  | none => simp [read_set_some, Entry.live]
  | some e =>
    have hlive : e.live now = true := (Option.filter_eq_some_iff.mp h).2
    have hkept : Entry.live now { e with value := f (some e.value) } = true := hlive
    simp [read_set_some, hkept]

theorem Keyspace.write_write {f' : Option V → V} :
    (s.write now k f).write now k f' = s.write now k fun v => f' (some (f v)) := by
  unfold write
  cases h : s.liveEntry now k with
  | none => simp [set, liveEntry, Entry.live, Option.filter]
  | some e =>
    have hlive : Entry.live now { e with value := f (some e.value) } = true :=
      (Option.filter_eq_some_iff.mp h).2
    simp [set, liveEntry, Option.filter, hlive]

theorem Keyspace.read_expire :
    (s.expire now ttl k).read t k = if t < now + ttl then s.read now k else none := by
  have hread : s.read now k = (s.liveEntry now k).map Entry.value := rfl
  rw [hread, expire]
  cases s.liveEntry now k with
  | none => simp [read_set_none]
  | some e => simp [read_set_some, Entry.live]

theorem Keyspace.entry_modify_ne {g : V → V} (h : k' ≠ k) :
    (s.modify now k g).entry k' = s.entry k' := by
  simp [modify, set, Function.update_of_ne h]

/-- A change keeps the deadline, so later reads see the changed value as long as they saw the
old one. -/
theorem Keyspace.read_modify {g : V → V} (h : now ≤ t) :
    (s.modify now k g).read t k = (s.read t k).map g := by
  cases he : s.entry k with
  | none => simp [read, liveEntry, modify, set, he]
  | some e =>
    have hread : s.read t k = if e.live t then some e.value else none := read_of_entry he
    by_cases hlive : e.live now = true
    · have hentry : (s.modify now k g).entry k = some { e with value := g e.value } := by
        simp [modify, set, liveEntry, he, Option.filter, hlive]
      rw [read_of_entry hentry, hread]
      by_cases hlater : e.live t = true
      · have hlater' : Entry.live t { e with value := g e.value } = true := hlater
        simp [hlater, hlater']
      · have hlater' : ¬ Entry.live t { e with value := g e.value } = true := hlater
        simp [hlater, hlater']
    · have hgone : s.read now k = none := by rw [read_of_entry he, if_neg hlive]
      have hlater : s.read t k = none := (read_later h).elim (fun heq => heq.trans hgone) id
      have hentry : (s.modify now k g).entry k = none := by
        simp [modify, set, liveEntry, he, Option.filter, hlive]
      rw [hlater]
      simp [read, liveEntry, hentry]

theorem Keyspace.entry_write_expire :
    ((s.write now k f).expire now ttl k).entry k' =
      if k' = k then some { value := f (s.read now k), deadline := some (now + ttl) }
      else s.entry k' := by
  by_cases hk : k' = k
  · subst hk
    have hread : s.read now k' = (s.liveEntry now k').map Entry.value := rfl
    rw [if_pos rfl, hread, write, expire]
    cases h : s.liveEntry now k' with
    | none => simp [set, liveEntry, Entry.live, Option.filter]
    | some e =>
      have hlive : Entry.live now { e with value := f (some e.value) } = true :=
        (Option.filter_eq_some_iff.mp h).2
      simp [set, liveEntry, Option.filter, hlive]
  · rw [if_neg hk]
    simp [write, expire, set, Function.update_of_ne hk]

end Keyspace

end Expiring
