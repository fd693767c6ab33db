import Mathlib.Data.List.Nodup
import Mathlib.Data.List.Basic

/-! Tables whose rows are locked by the session that wrote them and not committed. The
other sessions, and statements outside a transaction, see the committed rows. -/

namespace ReadCommitted

/-- A row: its committed version, and the version written by the session that holds the
row's lock. No version is an absent or a deleted row. -/
structure Slot (S V : Type) where
  committed : Option V := none
  dirty : Option (S × Option V) := none

section Slot

variable {S V : Type} [DecidableEq S]

def Slot.view (session : Option S) (slot : Slot S V) : Option V :=
  match slot.dirty with
  | some (owner, version) => if session = some owner then version else slot.committed
  | none => slot.committed

def Slot.free (session : Option S) (slot : Slot S V) : Bool :=
  match slot.dirty with
  | some (owner, _) => session = some owner
  | none => true

/-- A write inside the session's transaction, or one that commits at once. -/
def Slot.write (session : Option S) (version : Option V) (slot : Slot S V) : Slot S V :=
  match session with
  | some owner => { slot with dirty := some (owner, version) }
  | none => { slot with committed := version }

def Slot.commit (session : S) (slot : Slot S V) : Slot S V :=
  match slot.dirty with
  | some (owner, version) => if owner = session then { committed := version } else slot
  | none => slot

def Slot.rollback (session : S) (slot : Slot S V) : Slot S V :=
  match slot.dirty with
  | some (owner, _) => if owner = session then { committed := slot.committed } else slot
  | none => slot

def Slot.Has (slot : Slot S V) (v : V) : Prop :=
  slot.committed = some v ∨ ∃ owner, slot.dirty = some (owner, some v)

@[simp] theorem Slot.view_none (slot : Slot S V) : slot.view none = slot.committed := by
  unfold Slot.view
  split <;> simp

theorem Slot.has_of_view {session : Option S} {slot : Slot S V} {v : V}
    (h : slot.view session = some v) : slot.Has v := by
  unfold Slot.view at h
  split at h
  · next owner version hdirty =>
    split_ifs at h with hs
    · exact .inr ⟨owner, h ▸ hdirty⟩
    · exact .inl h
  · exact .inl h

theorem Slot.view_of_not_dirty {a : S} {slot : Slot S V} (h : ∀ w, slot.dirty ≠ some (a, w)) :
    slot.view (some a) = slot.committed := by
  unfold Slot.view
  split
  · next t w hw =>
    refine if_neg fun heq => h w ?_
    rw [hw, Option.some.inj heq]
  · rfl

theorem Slot.view_write (session : Option S) (version : Option V) (slot : Slot S V) :
    (slot.write session version).view session = version := by
  cases session with
  | none => exact Slot.view_none _
  | some owner => simp [Slot.write, Slot.view]

theorem Slot.committed_commit (session : S) (slot : Slot S V) :
    (slot.commit session).committed = slot.view (some session) := by
  obtain ⟨committed, dirty⟩ := slot
  cases dirty with
  | none => rfl
  | some dirty =>
    by_cases hs : dirty.1 = session
    · simp [Slot.commit, Slot.view, hs]
    · simp [Slot.commit, Slot.view, hs, Ne.symm hs]

theorem Slot.view_cases (a : S) (slot : Slot S V) :
    (∃ w, slot.dirty = some (a, w) ∧ slot.view (some a) = w) ∨
      (∀ w, slot.dirty ≠ some (a, w)) ∧ slot.view (some a) = slot.committed := by
  by_cases hdirty : ∃ w, slot.dirty = some (a, w)
  · obtain ⟨w, hw⟩ := hdirty
    exact .inl ⟨w, hw, by simp [Slot.view, hw]⟩
  · have hnot : ∀ w, slot.dirty ≠ some (a, w) := fun w hw => hdirty ⟨w, hw⟩
    exact .inr ⟨hnot, Slot.view_of_not_dirty hnot⟩

theorem Slot.free_iff {session : Option S} {slot : Slot S V} :
    slot.free session = true ↔ ∀ owner version, slot.dirty = some (owner, version) →
      session = some owner := by
  unfold Slot.free
  split
  · next owner version hdirty =>
    simp only [hdirty, decide_eq_true_eq, Option.some.injEq, Prod.mk.injEq]
    constructor
    · rintro rfl _ _ ⟨rfl, _⟩
      rfl
    · intro h
      exact h owner version ⟨rfl, rfl⟩
  · next hdirty => simp [hdirty]

theorem Slot.write_cases {session : Option S} {slot : Slot S V} {v : V} (w : Option V)
    (hview : slot.view session = some v) (hfree : slot.free session = true) :
    (session = none ∧ slot.committed = some v ∧ slot.dirty = none ∧
      slot.write session w = { committed := w }) ∨
    (∃ owner, session = some owner ∧
      slot.write session w = { committed := slot.committed, dirty := some (owner, w) } ∧
      (slot.dirty = none ∧ slot.committed = some v ∨ slot.dirty = some (owner, some v))) := by
  obtain ⟨committed, dirty⟩ := slot
  cases session with
  | none =>
    rw [Slot.view_none] at hview
    cases dirty with
    | none => exact .inl ⟨rfl, hview, rfl, rfl⟩
    | some dirty => simp [Slot.free] at hfree
  | some owner =>
    refine .inr ⟨owner, rfl, rfl, ?_⟩
    cases dirty with
    | none => exact .inl ⟨rfl, by simpa [Slot.view] using hview⟩
    | some dirty =>
      have howner : owner = dirty.1 := by simpa [Slot.free] using hfree
      subst howner
      exact .inr (by simpa [Slot.view, Prod.ext_iff] using hview)

theorem Slot.insert_cases {session : Option S} {slot : Slot S V} (v : V)
    (hview : slot.view session = none) (hfree : slot.free session = true) :
    (session = none ∧ slot = {} ∧ slot.write session (some v) = { committed := some v }) ∨
    (∃ owner, session = some owner ∧ (slot = {} ∨ slot.dirty = some (owner, none)) ∧
      slot.write session (some v) =
        { committed := slot.committed, dirty := some (owner, some v) }) := by
  obtain ⟨committed, dirty⟩ := slot
  cases session with
  | none =>
    rw [Slot.view_none] at hview
    cases dirty with
    | none => exact .inl ⟨rfl, by simp_all, rfl⟩
    | some dirty => simp [Slot.free] at hfree
  | some owner =>
    refine .inr ⟨owner, rfl, ?_, rfl⟩
    cases dirty with
    | none => exact .inl (by simpa [Slot.view] using hview)
    | some dirty =>
      have howner : owner = dirty.1 := by simpa [Slot.free] using hfree
      subst howner
      exact .inr (by simpa [Slot.view, Prod.ext_iff] using hview)

theorem Slot.commit_cases (session : S) (slot : Slot S V) :
    (∃ w, slot.dirty = some (session, w) ∧ slot.commit session = { committed := w }) ∨
    (∀ w, slot.dirty ≠ some (session, w)) ∧ slot.commit session = slot := by
  unfold Slot.commit
  split
  · next owner w hdirty =>
    by_cases howner : owner = session
    · exact .inl ⟨w, howner ▸ hdirty, by simp [howner]⟩
    · refine .inr ⟨fun w' hw' => ?_, by simp [howner]⟩
      exact howner (Prod.mk.inj (Option.some.inj (hdirty.symm.trans hw'))).1
  · next hdirty => exact .inr ⟨fun w hw => by simp [hdirty] at hw, rfl⟩

theorem Slot.rollback_cases (session : S) (slot : Slot S V) :
    (∃ w, slot.dirty = some (session, w) ∧
      slot.rollback session = { committed := slot.committed }) ∨
    (∀ w, slot.dirty ≠ some (session, w)) ∧ slot.rollback session = slot := by
  unfold Slot.rollback
  split
  · next owner w hdirty =>
    by_cases howner : owner = session
    · exact .inl ⟨w, howner ▸ hdirty, by simp [howner]⟩
    · refine .inr ⟨fun w' hw' => ?_, by simp [howner]⟩
      exact howner (Prod.mk.inj (Option.some.inj (hdirty.symm.trans hw'))).1
  · next hdirty => exact .inr ⟨fun w hw => by simp [hdirty] at hw, rfl⟩

theorem Slot.dirty_commit {session t : S} {slot : Slot S V} {w : Option V} :
    (slot.commit session).dirty = some (t, w) ↔ slot.dirty = some (t, w) ∧ t ≠ session := by
  obtain ⟨w', hd, hw⟩ | ⟨hnot, hw⟩ := Slot.commit_cases session slot
  · rw [hw, hd]
    constructor
    · intro h
      simp at h
    · rintro ⟨h, hne⟩
      exact absurd (Prod.mk.inj (Option.some.inj h)).1.symm hne
  · rw [hw]
    refine ⟨fun h => ⟨h, ?_⟩, fun h => h.1⟩
    rintro rfl
    exact hnot w h

theorem Slot.dirty_rollback {session t : S} {slot : Slot S V} {w : Option V} :
    (slot.rollback session).dirty = some (t, w) ↔ slot.dirty = some (t, w) ∧ t ≠ session := by
  obtain ⟨w', hd, hw⟩ | ⟨hnot, hw⟩ := Slot.rollback_cases session slot
  · rw [hw, hd]
    constructor
    · intro h
      simp at h
    · rintro ⟨h, hne⟩
      exact absurd (Prod.mk.inj (Option.some.inj h)).1.symm hne
  · rw [hw]
    refine ⟨fun h => ⟨h, ?_⟩, fun h => h.1⟩
    rintro rfl
    exact hnot w h

@[simp] theorem Slot.committed_rollback (session : S) (slot : Slot S V) :
    (slot.rollback session).committed = slot.committed := by
  obtain ⟨_, _, hw⟩ | ⟨_, hw⟩ := Slot.rollback_cases session slot <;> rw [hw]

theorem Slot.Has.commit {session : S} {slot : Slot S V} {v : V}
    (h : (slot.commit session).Has v) : slot.Has v := by
  obtain ⟨w, hd, hw⟩ | ⟨_, hw⟩ := Slot.commit_cases session slot
  · rw [hw] at h
    rcases h with h | ⟨_, h⟩
    · exact .inr ⟨session, by rw [hd, show w = some v from h]⟩
    · simp at h
  · exact hw ▸ h

theorem Slot.Has.rollback {session : S} {slot : Slot S V} {v : V}
    (h : (slot.rollback session).Has v) : slot.Has v := by
  rcases h with h | ⟨t, h⟩
  · exact .inl ((Slot.committed_rollback session slot).symm.trans h)
  · exact .inr ⟨t, (Slot.dirty_rollback.mp h).1⟩

/-- Session `a`, or a statement that commits at once, may have replaced a version of the
row by one that is `same`. -/
structure Slot.Updated (same : V → V → Prop) (a : S) (slot slot' : Slot S V) : Prop where
  committed : slot'.committed = slot.committed ∨
    ∃ v v', slot.committed = some v ∧ slot'.committed = some v' ∧ same v v'
  dirty : slot'.dirty = slot.dirty ∨ ∃ v v', slot'.dirty = some (a, some v') ∧ same v v' ∧
    (slot.dirty = some (a, some v) ∨ slot.dirty = none ∧ slot.committed = some v)

section Updated

variable {same : V → V → Prop} {a : S} {slot slot' : Slot S V}

omit [DecidableEq S] in
theorem Slot.Updated.refl (same : V → V → Prop) (a : S) (slot : Slot S V) :
    Slot.Updated same a slot slot := ⟨.inl rfl, .inl rfl⟩

theorem Slot.Updated.write {session : Option S} {v v' : V} (hs : session = none ∨ session = some a)
    (hview : slot.view session = some v) (hfree : slot.free session = true) (hsame : same v v') :
    Slot.Updated same a slot (slot.write session (some v')) := by
  obtain ⟨_, hc, hd, hw⟩ | ⟨owner, howner, hw, hold⟩ := Slot.write_cases (some v') hview hfree
  · rw [hw]
    exact ⟨.inr ⟨v, v', hc, rfl, hsame⟩, .inl hd.symm⟩
  · have ha : owner = a := by
      rcases hs with rfl | rfl
      · simp at howner
      · exact (Option.some.inj howner).symm
    subst ha
    rw [hw]
    exact ⟨.inl rfl, .inr ⟨v, v', rfl, hsame, hold.symm⟩⟩

omit [DecidableEq S] in
theorem Slot.Updated.committed_none (h : Slot.Updated same a slot slot') :
    slot'.committed = none ↔ slot.committed = none := by
  rcases h.committed with hc | ⟨v, v', hv, hv', _⟩
  · rw [hc]
  · simp [hv, hv']

omit [DecidableEq S] in
theorem Slot.Updated.forth (h : Slot.Updated same a slot slot') (hrefl : ∀ v, same v v) {v : V}
    (hv : slot.committed = some v) : ∃ v', slot'.committed = some v' ∧ same v v' := by
  rcases h.committed with hc | ⟨u, v', hu, hv', hsame⟩
  · exact ⟨v, hc.trans hv, hrefl v⟩
  · obtain rfl := Option.some.inj (hu.symm.trans hv)
    exact ⟨v', hv', hsame⟩

omit [DecidableEq S] in
theorem Slot.Updated.back (h : Slot.Updated same a slot slot') (hrefl : ∀ v, same v v) {v' : V}
    (hv : slot'.committed = some v') : ∃ v, slot.committed = some v ∧ same v v' := by
  rcases h.committed with hc | ⟨v, u, hv', hu, hsame⟩
  · exact ⟨v', hc.symm.trans hv, hrefl v'⟩
  · obtain rfl := Option.some.inj (hu.symm.trans hv)
    exact ⟨v, hv', hsame⟩

omit [DecidableEq S] in
theorem Slot.Updated.dirty_back (h : Slot.Updated same a slot slot') (hrefl : ∀ v, same v v)
    {t : S} {v' : V} (hv : slot'.dirty = some (t, some v')) :
    (∃ v, slot.dirty = some (t, some v) ∧ same v v') ∨
      slot.dirty = none ∧ ∃ v, slot.committed = some v ∧ same v v' := by
  rcases h.dirty with hd | ⟨v, u, hu, hsame, hold⟩
  · exact .inl ⟨v', hd.symm.trans hv, hrefl v'⟩
  · obtain ⟨rfl, rfl⟩ : a = t ∧ u = v' := by simpa using hu.symm.trans hv
    rcases hold with hold | ⟨hnone, hold⟩
    · exact .inl ⟨v, hold, hsame⟩
    · exact .inr ⟨hnone, v, hold, hsame⟩

omit [DecidableEq S] in
theorem Slot.Updated.has (h : Slot.Updated same a slot slot') (hrefl : ∀ v, same v v) {v' : V}
    (hv : slot'.Has v') : ∃ v, slot.Has v ∧ same v v' := by
  rcases hv with hv | ⟨t, hv⟩
  · obtain ⟨v, hc, hsame⟩ := h.back hrefl hv
    exact ⟨v, .inl hc, hsame⟩
  · rcases h.dirty_back hrefl hv with ⟨v, hd, hsame⟩ | ⟨_, v, hc, hsame⟩
    · exact ⟨v, .inr ⟨t, hd⟩, hsame⟩
    · exact ⟨v, .inl hc, hsame⟩

omit [DecidableEq S] in
theorem Slot.Updated.lock (h : Slot.Updated same a slot slot') {t : S} {version : Option V}
    (ht : t ≠ a) (hlock : slot.dirty = some (t, version)) : slot'.dirty = some (t, version) := by
  rcases h.dirty with hd | ⟨v, u, _, _, hold | ⟨hnone, _⟩⟩
  · exact hd.trans hlock
  · have : t = a := (Prod.mk.inj (Option.some.inj (hlock.symm.trans hold))).1
    exact absurd this ht
  · simp [hnone] at hlock

omit [DecidableEq S] in
theorem Slot.Updated.dirty_none (h : Slot.Updated same a slot slot') {t : S}
    (hd : slot'.dirty = some (t, none)) : slot.dirty = some (t, none) := by
  rcases h.dirty with hsame | ⟨v, u, hu, _, _⟩
  · exact hsame.symm.trans hd
  · simp [hd] at hu

omit [DecidableEq S] in
theorem Slot.Updated.empty (h : Slot.Updated same a slot slot') (he : slot = {}) : slot' = {} := by
  subst he
  have hc := h.committed_none.mpr rfl
  have hd : slot'.dirty = none := by
    rcases h.dirty with hd | ⟨v, u, _, _, hold | ⟨_, hold⟩⟩
    · exact hd
    · simp at hold
    · simp at hold
  cases slot'
  simp_all

end Updated

end Slot

/-- `keys` lists the rows that were ever written. -/
structure Table (K S V : Type) where
  slot : K → Slot S V
  keys : List K
  nodup : keys.Nodup
  covers : ∀ k, slot k ≠ {} → k ∈ keys

section Table

variable {K S V : Type} [DecidableEq K] [DecidableEq S]

def Table.empty : Table K S V where
  slot := fun _ => {}
  keys := []
  nodup := List.nodup_nil
  covers := fun _ h => absurd rfl h

def Table.view (table : Table K S V) (session : Option S) (k : K) : Option V :=
  (table.slot k).view session

def Table.rows (table : Table K S V) (session : Option S) : List (K × V) :=
  table.keys.filterMap fun k => (table.view session k).map (k, ·)

/-- Every slot that was ever written, changed by `f`. -/
def Table.onSlots (table : Table K S V) (f : K → Slot S V → Slot S V) : Table K S V where
  slot := fun k => if k ∈ table.keys then f k (table.slot k) else table.slot k
  keys := table.keys
  nodup := table.nodup
  covers := by
    intro k h
    by_cases hk : k ∈ table.keys
    · exact hk
    · simp only [hk, if_false] at h
      exact table.covers k h

def Table.insert (table : Table K S V) (session : Option S) (k : K) (v : V) : Table K S V where
  slot := fun j => if j = k then (table.slot k).write session (some v) else table.slot j
  keys := if k ∈ table.keys then table.keys else k :: table.keys
  nodup := by
    by_cases hk : k ∈ table.keys
    · simpa only [hk, if_true] using table.nodup
    · simpa only [hk, if_false] using table.nodup.cons hk
  covers := by
    intro j h
    by_cases hjk : j = k
    · subst hjk
      by_cases hj : j ∈ table.keys <;> simp [hj]
    · simp only [hjk, if_false] at h
      have hj := table.covers j h
      by_cases hk : k ∈ table.keys <;> simp [hk, hj]

/-- `UPDATE` and `DELETE`: each visible row on which `f` is defined gets its new version. -/
def Table.rewrite (table : Table K S V) (session : Option S) (f : K → V → Option (Option V)) :
    Table K S V :=
  table.onSlots fun k slot =>
    match (slot.view session).bind (f k) with
    | some version => slot.write session version
    | none => slot

def Table.commit (table : Table K S V) (session : S) : Table K S V :=
  table.onSlots fun _ => Slot.commit session

def Table.rollback (table : Table K S V) (session : S) : Table K S V :=
  table.onSlots fun _ => Slot.rollback session

/-- The locks on the visible rows that `p` selects are free. -/
def Table.freeWhere (table : Table K S V) (session : Option S) (p : K → V → Bool) : Bool :=
  table.keys.all fun k =>
    !((table.view session k).any (p k)) || (table.slot k).free session

/-- Some session has written, and not committed, a row that `p` selects. -/
def Table.lockedWhere (table : Table K S V) (p : K → V → Bool) : Bool :=
  table.keys.any fun k =>
    match (table.slot k).dirty with
    | some (_, version) => version.any (p k)
    | none => false

omit [DecidableEq K] [DecidableEq S] in
theorem Table.slot_of_not_mem {table : Table K S V} {k : K} (h : k ∉ table.keys) :
    table.slot k = {} := by
  by_contra hne
  exact h (table.covers k hne)

omit [DecidableEq S] in
theorem Table.slot_onSlots (table : Table K S V) {f : K → Slot S V → Slot S V} {k : K}
    (hf : f k {} = {}) : (table.onSlots f).slot k = f k (table.slot k) := by
  by_cases hk : k ∈ table.keys
  · simp [onSlots, hk]
  · simp [onSlots, hk, table.slot_of_not_mem hk, hf]

@[simp] theorem Table.slot_commit (table : Table K S V) (session : S) (k : K) :
    (table.commit session).slot k = (table.slot k).commit session :=
  table.slot_onSlots rfl

@[simp] theorem Table.slot_rollback (table : Table K S V) (session : S) (k : K) :
    (table.rollback session).slot k = (table.slot k).rollback session :=
  table.slot_onSlots rfl

@[simp] theorem Table.slot_rewrite (table : Table K S V) (session : Option S)
    (f : K → V → Option (Option V)) (k : K) : (table.rewrite session f).slot k =
      match ((table.slot k).view session).bind (f k) with
      | some version => (table.slot k).write session version
      | none => table.slot k :=
  table.slot_onSlots rfl

omit [DecidableEq S] in
@[simp] theorem Table.slot_insert (table : Table K S V) (session : Option S) (k j : K) (v : V) :
    (table.insert session k v).slot j =
      if j = k then (table.slot k).write session (some v) else table.slot j := rfl

theorem Table.free_of_freeWhere {table : Table K S V} {session : Option S} {p : K → V → Bool}
    (hfree : table.freeWhere session p = true) {k : K} {v : V}
    (hview : (table.slot k).view session = some v) (hp : p k v = true) :
    (table.slot k).free session = true := by
  have hk : k ∈ table.keys := by
    by_contra hk
    simp [table.slot_of_not_mem hk, Slot.view] at hview
  have hlock := List.all_eq_true.mp hfree k hk
  simpa [view, hview, hp] using hlock

theorem Table.rewrite_cases {table : Table K S V} {session : Option S}
    {f : K → V → Option (Option V)} {p : K → V → Bool}
    (hfree : table.freeWhere session p = true) (hp : ∀ k v, (f k v).isSome → p k v = true) (k : K) :
    (table.rewrite session f).slot k = table.slot k ∨
    ∃ v w, (table.slot k).view session = some v ∧ f k v = some w ∧
      (table.slot k).free session = true ∧
      (table.rewrite session f).slot k = (table.slot k).write session w := by
  rw [slot_rewrite]
  cases hf : ((table.slot k).view session).bind (f k) with
  | none => exact .inl rfl
  | some w =>
    obtain ⟨v, hview, hw⟩ := Option.bind_eq_some_iff.mp hf
    exact .inr ⟨v, w, hview, hw, Table.free_of_freeWhere hfree hview (hp k v (by simp [hw])), rfl⟩

theorem Table.rewrite_none_cases {table : Table K S V} {f : K → V → Option (Option V)}
    {p : K → V → Bool} (hfree : table.freeWhere none p = true)
    (hp : ∀ k v, (f k v).isSome → p k v = true) (k : K) :
    (table.rewrite none f).slot k = table.slot k ∨
    ∃ v w, (table.slot k).committed = some v ∧ f k v = some w ∧ (table.slot k).dirty = none ∧
      (table.rewrite none f).slot k = { committed := w } := by
  rcases Table.rewrite_cases hfree hp k with hsame | ⟨v, w, hview, hw, hlock, hwrite⟩
  · exact .inl hsame
  · obtain ⟨_, hc, hd, hnew⟩ | ⟨owner, howner, _⟩ := Slot.write_cases w hview hlock
    · exact .inr ⟨v, w, hc, hw, hd, hwrite.trans hnew⟩
    · simp at howner

theorem Table.rewrite_updated {table : Table K S V} {session : Option S} {a : S}
    {f : K → V → Option (Option V)} {p : K → V → Bool} {same : V → V → Prop}
    (hs : session = none ∨ session = some a)
    (hf : ∀ k v w, f k v = some w → ∃ v', w = some v' ∧ same v v')
    (hfree : table.freeWhere session p = true) (hp : ∀ k v, (f k v).isSome → p k v = true) (k : K) :
    Slot.Updated same a (table.slot k) ((table.rewrite session f).slot k) := by
  rcases Table.rewrite_cases hfree hp k with hsame | ⟨v, w, hview, hw, hlock, hwrite⟩
  · rw [hsame]
    exact Slot.Updated.refl same a _
  · obtain ⟨v', rfl, hsame⟩ := hf k v w hw
    rw [hwrite]
    exact Slot.Updated.write hs hview hlock hsame

theorem Table.has_rewrite {table : Table K S V} {session : Option S}
    {f : K → V → Option (Option V)} {k : K} {w : V} (h : ((table.rewrite session f).slot k).Has w) :
    (table.slot k).Has w ∨ ∃ v, (table.slot k).view session = some v ∧ f k v = some (some w) := by
  rw [slot_rewrite] at h
  cases hf : ((table.slot k).view session).bind (f k) with
  | none => exact .inl (by simpa only [hf] using h)
  | some version =>
    simp only [hf] at h
    obtain ⟨v, hv, hw⟩ := Option.bind_eq_some_iff.mp hf
    cases session with
    | none =>
      rcases h with h | h
      · obtain rfl : version = some w := h
        exact .inr ⟨v, hv, hw⟩
      · exact .inl (.inr h)
    | some owner =>
      rcases h with h | ⟨_, h⟩
      · exact .inl (.inl h)
      · simp only [Slot.write, Option.some.injEq, Prod.mk.injEq] at h
        obtain rfl := h.2
        exact .inr ⟨v, hv, hw⟩

omit [DecidableEq S] in
theorem Table.has_insert {table : Table K S V} {session : Option S} {k j : K} {v w : V}
    (h : ((table.insert session k v).slot j).Has w) : (table.slot j).Has w ∨ j = k ∧ w = v := by
  rw [slot_insert] at h
  by_cases hj : j = k
  · subst hj
    rw [if_pos rfl] at h
    cases session with
    | none =>
      rcases h with h | h
      · exact .inr ⟨rfl, (Option.some.inj h).symm⟩
      · exact .inl (.inr h)
    | some owner =>
      rcases h with h | ⟨_, h⟩
      · exact .inl (.inl h)
      · simp only [Slot.write, Option.some.injEq, Prod.mk.injEq] at h
        exact .inr ⟨rfl, h.2.symm⟩
  · rw [if_neg hj] at h
    exact .inl h

omit [DecidableEq K] in
theorem Table.mem_rows {table : Table K S V} {session : Option S} {k : K} {v : V} :
    (k, v) ∈ table.rows session ↔ table.view session k = some v := by
  simp only [rows, List.mem_filterMap, Option.map_eq_some_iff, Prod.mk.injEq]
  constructor
  · rintro ⟨j, _, w, hw, rfl, rfl⟩
    exact hw
  · intro h
    refine ⟨k, ?_, v, h, rfl, rfl⟩
    apply table.covers
    intro hempty
    simp [view, hempty, Slot.view] at h

omit [DecidableEq K] in
theorem Table.rows_nodup (table : Table K S V) (session : Option S) :
    ((table.rows session).map Prod.fst).Nodup := by
  have hsub : ∀ keys : List K, List.Sublist ((keys.filterMap fun k =>
      (table.view session k).map (k, ·)).map Prod.fst) keys := by
    intro keys
    induction keys with
    | nil => exact List.Sublist.slnil
    | cons k keys ih =>
      cases hview : table.view session k with
      | none => simpa [hview] using ih.cons k
      | some v => simpa [hview] using ih.cons_cons k
  exact table.nodup.sublist (hsub table.keys)

theorem Table.view_insert (table : Table K S V) (session : Option S) (k j : K) (v : V) :
    (table.insert session k v).view session j = if j = k then some v else table.view session j := by
  unfold view
  rw [slot_insert]
  split_ifs with hj
  · exact Slot.view_write session (some v) _
  · rfl

theorem Table.view_rewrite (table : Table K S V) (session : Option S)
    (f : K → V → Option (Option V)) (k : K) : (table.rewrite session f).view session k =
      ((table.view session k).bind (f k)).getD (table.view session k) := by
  unfold view
  rw [slot_rewrite]
  cases ((table.slot k).view session).bind (f k) with
  | none => rfl
  | some version => exact Slot.view_write session version _

/-- What the session sees after its `UPDATE`. -/
theorem Table.view_update (table : Table K S V) (session : Option S) (p : K → V → Prop)
    [∀ k v, Decidable (p k v)] (g : V → V) (k : K) :
    (table.rewrite session fun k v => if p k v then some (some (g v)) else none).view session k =
      (table.view session k).map fun v => if p k v then g v else v := by
  rw [view_rewrite]
  cases table.view session k with
  | none => rfl
  | some v => by_cases hp : p k v <;> simp [hp]

/-- What the session sees after its `DELETE`. -/
theorem Table.view_delete (table : Table K S V) (session : Option S) (p : K → V → Prop)
    [∀ k v, Decidable (p k v)] (k : K) :
    (table.rewrite session fun k v => if p k v then some none else none).view session k =
      (table.view session k).filter fun v => ¬ p k v := by
  rw [view_rewrite]
  cases table.view session k with
  | none => rfl
  | some v => by_cases hp : p k v <;> simp [hp, Option.filter]

omit [DecidableEq K] in
theorem Table.view_none (table : Table K S V) (k : K) :
    table.view none k = (table.slot k).committed := Slot.view_none _

theorem Table.committed_rewrite (table : Table K S V) (session : S)
    (f : K → V → Option (Option V)) (k : K) :
    ((table.rewrite (some session) f).slot k).committed = (table.slot k).committed := by
  rw [slot_rewrite]
  split <;> rfl

omit [DecidableEq S] in
theorem Table.committed_insert (table : Table K S V) (session : S) (k j : K) (v : V) :
    ((table.insert (some session) k v).slot j).committed = (table.slot j).committed := by
  rw [slot_insert]
  split_ifs with hj
  · rw [hj]
    rfl
  · rfl

/-- Session `a` holds the lock of a row. -/
def Table.Locked (table : Table K S V) (a : S) : Prop := ∃ k w, (table.slot k).dirty = some (a, w)

variable {table : Table K S V} {session : Option S} {a b : S}

omit [DecidableEq K] in
theorem Table.view_of_unlocked (h : ¬ table.Locked a) (k : K) :
    table.view (some a) k = table.view none k := by
  rw [Table.view_none]
  exact Slot.view_of_not_dirty fun w hw => h ⟨k, w, hw⟩

omit [DecidableEq K] [DecidableEq S] in
theorem Slot.dirty_write {slot : Slot S V} {version w : Option V}
    (h : (slot.write session version).dirty = some (b, w)) :
    slot.dirty = some (b, w) ∨ session = some b := by
  cases session with
  | none => exact .inl h
  | some owner =>
    simp only [Slot.write, Option.some.injEq, Prod.mk.injEq] at h
    exact .inr (congrArg some h.1)

omit [DecidableEq S] in
theorem Table.Locked.of_insert {k : K} {v : V} (h : (table.insert session k v).Locked b) :
    table.Locked b ∨ session = some b := by
  obtain ⟨j, w, hw⟩ := h
  rw [slot_insert] at hw
  split_ifs at hw with hj
  · exact (Slot.dirty_write hw).imp_left fun hw => ⟨k, w, hw⟩
  · exact .inl ⟨j, w, hw⟩

theorem Table.Locked.of_rewrite {f : K → V → Option (Option V)}
    (h : (table.rewrite session f).Locked b) : table.Locked b ∨ session = some b := by
  obtain ⟨k, w, hw⟩ := h
  rw [slot_rewrite] at hw
  split at hw
  · exact (Slot.dirty_write hw).imp_left fun hw => ⟨k, w, hw⟩
  · exact .inl ⟨k, w, hw⟩

theorem Table.Locked.of_commit (h : (table.commit a).Locked b) : table.Locked b := by
  obtain ⟨k, w, hw⟩ := h
  rw [slot_commit] at hw
  exact ⟨k, w, (Slot.dirty_commit.mp hw).1⟩

theorem Table.Locked.of_rollback (h : (table.rollback a).Locked b) : table.Locked b := by
  obtain ⟨k, w, hw⟩ := h
  rw [slot_rollback] at hw
  exact ⟨k, w, (Slot.dirty_rollback.mp hw).1⟩

theorem Table.not_locked_commit (table : Table K S V) (a : S) : ¬ (table.commit a).Locked a := by
  rintro ⟨k, w, hw⟩
  rw [slot_commit] at hw
  exact (Slot.dirty_commit.mp hw).2 rfl

theorem Table.not_locked_rollback (table : Table K S V) (a : S) : ¬ (table.rollback a).Locked a := by
  rintro ⟨k, w, hw⟩
  rw [slot_rollback] at hw
  exact (Slot.dirty_rollback.mp hw).2 rfl

/-- The primary key. -/
theorem Table.rows_of_key (table : Table K S V) (session : Option S) (k : K) :
    ((table.rows session).filter fun r => r.1 = k).length ≤ 1 := by
  have hcount : ((table.rows session).map Prod.fst).count k ≤ 1 :=
    List.nodup_iff_count_le_one.mp (table.rows_nodup session) k
  rw [List.count, List.countP_map, List.countP_eq_length_filter] at hcount
  have hsame : (fun r : K × V => decide (r.1 = k)) = (fun x => x == k) ∘ Prod.fst := by
    funext r
    simp [beq_eq_decide]
  rw [hsame]
  exact hcount

end Table

end ReadCommitted
