import Doci.CheckpointReads
import Doci.Stages
import Doci.Traces

/-! Calls of `aput_writes` that overlap: each reads the fields of the hash and later sends its
writes, one command after the other. -/

namespace Doci

open Expiring Coroutine

structure WritesCall (V : Type) where
  thread : String
  ns : String
  cid : String
  writes : List (String × V)
  taskId : String
  taskPath : String

inductive HashCmd where
  | hkeys (key : String)
  | hset (key field : String) (packed : Bytes)
  | expire (key : String)

def HashReply : HashCmd → Type
  | .hkeys _ => List String
  | _ => Unit

abbrev HashProg (α : Type) := Prog HashReply Empty α

/-- `pipe.execute()` without a transaction. -/
def pipeline (key : String) : List (String × Bytes) → HashProg Unit
  | [] => Coroutine.perform (HashCmd.expire key)
  | (field, packed) :: commands => do
    Coroutine.perform (HashCmd.hset key field packed)
    pipeline key commands

section Calls

variable {V : Type} (lib : Libraries V) (saver : ValkeySaver)

def WritesCall.key (call : WritesCall V) : String := saver.w call.thread call.ns call.cid

def WritesCall.commands (call : WritesCall V) (existing : List String) : List (String × Bytes) :=
  writeCommands lib existing call.taskId call.taskPath call.writes

/-- `aput_writes`. -/
def WritesCall.prog (call : WritesCall V) : HashProg Unit := do
  let existing ← Coroutine.perform (HashCmd.hkeys (call.key saver))
  if call.commands lib existing = [] then return ()
  else pipeline (call.key saver) (call.commands lib existing)

/-- The fields of the call's writes whose first write is to stay. -/
def WritesCall.fields (call : WritesCall V) : List String :=
  ((taskWrites lib call.taskId call.taskPath call.writes).filter fun w => decide (0 ≤ w.slot)).map
    fun w => fieldOf w.taskId w.slot

structure HashStore where
  writes : Keyspace String (AList fun _ : String => Bytes) := .empty
  now : Nat := 0
  fresh : Nat := 0

def HashStore.hash (s : HashStore) (key : String) : AList fun _ : String => Bytes :=
  (s.writes.read s.now key).getD ∅

def HashStore.meaning : (c : HashCmd) → HashStore → Except Empty (HashReply c) × HashStore
  | .hkeys key, s => (.ok (s.hash key).keys, s)
  | .hset key field packed, s =>
    (.ok (), { s with writes := s.writes.write s.now key fun hash =>
      (hash.getD ∅).insert field packed })
  | .expire key, s => (.ok (), { s with writes := s.writes.expire s.now saver.ttl key })

inductive WritesEvent (V : Type) where
  | call (call : WritesCall V)
  | tick (duration : Nat)

structure WritesTag (V : Type) where
  number : Nat
  call : WritesCall V

abbrev WritesPool (V : Type) := Config HashReply Empty HashStore (WritesTag V)

def writesEvent (s : HashStore) :
    WritesEvent V → Option (HashStore × List (Thread HashReply Empty (WritesTag V)))
  | .call call => some ({ s with fresh := s.fresh + 1 }, [⟨⟨s.fresh, call⟩, call.prog lib saver⟩])
  | .tick duration => some ({ s with now := s.now + duration }, [])

/-- A call that loses its connection has had some of its commands executed. -/
def writesSystem : System HashReply Empty HashStore (WritesTag V) (WritesEvent V) where
  meaning := HashStore.meaning saver
  admits _ _ fate := fate = .done
  env e s := writesEvent lib saver s e
  exit _ _ := []
  death _ s := s

/-- The fields that a call has still to write after its read. -/
def pendingFields : HashProg Unit → List String
  | .await (.hset _ field _) rest => field :: pendingFields (rest (.ok ()))
  | .await (.expire _) rest => pendingFields (rest (.ok ()))
  | _ => []

/-- A call reads the fields of its hash while no other call that has read them has still to write
one that both of them write first. -/
def ReadsApart (c : WritesPool V) : Move Empty (WritesEvent V) → Prop
  | .run i _ => ∀ t ∈ c.threads[i]?, (∃ key rest, t.prog = .await (.hkeys key) rest) →
    ∀ j u, j ≠ i → c.threads[j]? = some u → u.tag.call.key saver = t.tag.call.key saver →
      ∀ f ∈ pendingFields u.prog, f ∉ t.tag.call.fields lib
  | _ => True

inductive WritesStage where
  | idle
  | reads
  | writes (key : String) (commands : List (String × Bytes))
  | done

/-- The keys and fields that are still to be written. -/
def WritesStage.pending : WritesStage → List (String × String)
  | writes key commands => commands.map fun c => (key, c.1)
  | _ => []

def writesProtocol (tag : WritesTag V) : Protocol HashReply Empty WritesStage where
  allows
    | .reads, c => c = .hkeys (tag.call.key saver)
    | .writes key ((field, packed) :: _), c => key = tag.call.key saver ∧ c = .hset key field packed
    | .writes key [], c => c = .expire key
    | _, _ => False
  next
    | .reads, .hkeys _, .ok existing =>
      if tag.call.commands lib existing = [] then .done
      else .writes (tag.call.key saver) (tag.call.commands lib existing)
    | .writes key (_ :: commands), _, _ => .writes key commands
    | _, _, _ => .done
  ends
    | .done, _ => True
    | _, _ => False

variable {lib saver} {tag : WritesTag V} {call : WritesCall V} {commands : List (String × Bytes)}
  {existing : List String} {key field : String}

theorem at_pipeline : (pipeline (tag.call.key saver) commands).At (writesProtocol lib saver tag)
    (.writes (tag.call.key saver) commands) := by
  induction commands with
  | nil =>
    refine ⟨rfl, fun reply => ?_⟩
    cases reply with
    | ok value => exact trivial
    | error e => exact e.elim
  | cons c commands ih =>
    refine ⟨⟨rfl, rfl⟩, fun reply => ?_⟩
    cases reply with
    | ok value => exact ih
    | error e => exact e.elim

theorem at_prog : (tag.call.prog lib saver).At (writesProtocol lib saver tag) .reads := by
  refine ⟨rfl, fun reply => ?_⟩
  cases reply with
  | ok existing =>
    by_cases hnone : tag.call.commands lib existing = []
    · simp only [Prog.settle, writesProtocol, hnone, if_true]
      trivial
    · simp only [Prog.settle, writesProtocol, hnone, if_false]
      exact at_pipeline
  | error e => exact e.elim

theorem pendingFields_writes {prog : HashProg Unit}
    (h : prog.At (writesProtocol lib saver tag) (.writes key commands)) :
    pendingFields prog = commands.map Prod.fst := by
  induction commands generalizing prog with
  | nil =>
    cases prog with
    | ret value => exact h.elim
    | throw e => exact e.elim
    | await c rest =>
      obtain ⟨rfl, hrest⟩ := h
      have hdone := hrest (.ok ())
      cases hprog : rest (.ok ()) with
      | ret value => simp [pendingFields, hprog]
      | throw e => exact e.elim
      | await c rest' =>
        rw [hprog] at hdone
        exact hdone.1.elim
  | cons c commands ih =>
    cases prog with
    | ret value => exact h.elim
    | throw e => exact e.elim
    | await c rest =>
      obtain ⟨⟨_, rfl⟩, hrest⟩ := h
      simp only [pendingFields, List.map_cons, ih (hrest (.ok ()))]

theorem key_of_writes {prog : HashProg Unit} {c : String × Bytes}
    (h : prog.At (writesProtocol lib saver tag) (.writes key commands)) (hc : c ∈ commands) :
    key = tag.call.key saver := by
  cases prog with
  | ret value => exact h.elim
  | throw e => exact e.elim
  | await cmd rest =>
    cases commands with
    | nil => cases hc
    | cons first commands => exact h.1.1

theorem exec_pipeline {s : HashStore} {f : Option (AList fun _ : String => Bytes) →
      AList fun _ : String => Bytes} :
    ((pipeline key commands).exec (HashStore.meaning saver)
      { s with writes := s.writes.write s.now key f }).2.2 =
    { s with writes := (s.writes.write s.now key fun hash =>
        commands.foldl (fun hash c => hash.insert c.1 c.2) (f hash)).expire s.now saver.ttl key } := by
  induction commands generalizing f with
  | nil => rfl
  | cons c commands ih =>
    have hstep : ((pipeline key (c :: commands)).exec (HashStore.meaning saver)
        { s with writes := s.writes.write s.now key f }).2.2 =
        ((pipeline key commands).exec (HashStore.meaning saver) { s with
          writes := (s.writes.write s.now key f).write s.now key fun hash =>
            (hash.getD ∅).insert c.1 c.2 }).2.2 := rfl
    rw [hstep, Keyspace.write_write, ih]
    rfl

/-- A call that nothing overlaps is `aput_writes` as one step. -/
theorem exec_prog (s : HashStore) (metadata : Metadata V) :
    saver.aputWrites lib s.now { writes := s.writes }
        { threadId := call.thread, checkpointNs := call.ns, checkpointId := some call.cid,
          metadata := metadata } call.writes call.taskId call.taskPath =
      .ok { writes := ((call.prog lib saver).exec (HashStore.meaning saver) s).2.2.writes } := by
  have hexec : ((call.prog lib saver).exec (HashStore.meaning saver) s).2.2 =
      ((if call.commands lib (s.hash (call.key saver)).keys = [] then .ret ()
        else pipeline (call.key saver) (call.commands lib (s.hash (call.key saver)).keys)).exec
          (HashStore.meaning saver) s).2.2 := rfl
  have hexisting : writeCommands lib (((s.writes.read s.now (saver.w call.thread call.ns
      call.cid)).getD ∅).keys) call.taskId call.taskPath call.writes =
      call.commands lib (s.hash (call.key saver)).keys := rfl
  rw [hexec]
  simp only [ValkeySaver.aputWrites, hexisting]
  cases hcommands : call.commands lib (s.hash (call.key saver)).keys with
  | nil => simp [Prog.exec]
  | cons c commands =>
    have hstep : ((pipeline (call.key saver) (c :: commands)).exec (HashStore.meaning saver) s).2.2 =
        ((pipeline (call.key saver) commands).exec (HashStore.meaning saver) { s with
          writes := s.writes.write s.now (call.key saver) fun hash =>
            (hash.getD ∅).insert c.1 c.2 }).2.2 := rfl
    simp only [List.cons_ne_nil, if_false, hstep, exec_pipeline]
    rfl

/-- The field of a slot whose first write stays. -/
def FirstWrites (f : String) : Prop := ∃ task slot, 0 ≤ slot ∧ f = fieldOf task slot

theorem mem_fields {c : String × Bytes} (hc : c ∈ call.commands lib existing)
    (hfirst : FirstWrites c.1) : c.1 ∈ call.fields lib ∧ c.1 ∉ existing := by
  obtain ⟨task, slot, hslot, hfield⟩ := hfirst
  rw [WritesCall.commands, writeCommands_eq] at hc
  obtain ⟨w, hw, hwrite⟩ := List.mem_filterMap.mp hc
  simp only [Option.ite_none_left_eq_some, Option.some.injEq] at hwrite
  obtain ⟨hnew, rfl⟩ := hwrite
  obtain ⟨_, rfl⟩ := fieldOf_inj.mp hfield
  refine ⟨?_, fun hmem => hnew ⟨hslot, hmem⟩⟩
  refine List.mem_map.mpr ⟨w, List.mem_filter.mpr ⟨hw, by simpa using hslot⟩, ?_⟩
  rw [taskWrites_task hw]

theorem commands_pairwise : (call.commands lib existing).Pairwise fun a b =>
    FirstWrites a.1 → a.1 ≠ b.1 := by
  rw [WritesCall.commands, writeCommands_eq, List.pairwise_filterMap]
  refine taskWrites_pairwise.imp fun {a b} hne c hc d hd hfirst => ?_
  simp only [Option.ite_none_left_eq_some, Option.some.injEq] at hc hd
  obtain ⟨_, rfl⟩ := hc
  obtain ⟨_, rfl⟩ := hd
  obtain ⟨task, slot, hslot, hfield⟩ := hfirst
  obtain ⟨_, rfl⟩ := fieldOf_inj.mp hfield
  intro heq
  exact hne hslot (fieldOf_inj.mp heq).2

/-- No first write that is still to come has been made, or is another call's as well. -/
structure Unmade (s : HashStore) (stage : Nat → WritesStage) : Prop where
  new : ∀ n key f, (key, f) ∈ (stage n).pending → FirstWrites f → f ∉ s.hash key
  apart : ∀ m n key f, m ≠ n → (key, f) ∈ (stage m).pending → FirstWrites f →
    (key, f) ∉ (stage n).pending
  once : ∀ n, (stage n).pending.Pairwise fun a b => FirstWrites a.2 → a ≠ b
  idle : ∀ n, s.fresh ≤ n → stage n = .idle

/-- A first write stays unless its hash expires. -/
def HashStore.Keeps (s s' : HashStore) : Prop :=
  ∀ key f v, FirstWrites f → (s.hash key).lookup f = some v →
    (s'.writes.read s'.now key).isSome → (s'.hash key).lookup f = some v

/-- Nothing is written; hashes may expire. -/
def HashStore.Shrinks (s s' : HashStore) : Prop :=
  ∀ key, s'.writes.read s'.now key = s.writes.read s.now key ∨ s'.writes.read s'.now key = none

theorem HashStore.Shrinks.keeps {s s' : HashStore} (h : s.Shrinks s') : s.Keeps s' := by
  intro key f v _ hlookup hlive
  rcases h key with hsame | hgone
  · unfold HashStore.hash
    rw [hsame]
    exact hlookup
  · simp [hgone] at hlive

theorem HashStore.Shrinks.notMem {s s' : HashStore} (h : s.Shrinks s') (hmem : field ∉ s.hash key) :
    field ∉ s'.hash key := by
  unfold HashStore.hash
  rcases h key with hsame | hgone
  · rw [hsame]
    exact hmem
  · rw [hgone]
    exact AList.notMem_empty field

theorem Unmade.shrink {s s' : HashStore} {stage stage' : Nat → WritesStage} (h : Unmade s stage)
    (hs : s.Shrinks s') (hfresh : ∀ n, s'.fresh ≤ n → stage' n = .idle)
    (hsub : ∀ n, (stage' n).pending.Sublist (stage n).pending) : Unmade s' stage' := by
  refine ⟨fun n key f hf hfirst => ?_, fun m n key f hne hf hfirst hf' => ?_, fun n => ?_, hfresh⟩
  · exact hs.notMem (h.new n key f ((hsub n).subset hf) hfirst)
  · exact h.apart m n key f hne ((hsub m).subset hf) hfirst ((hsub n).subset hf')
  · exact (h.once n).sublist (hsub n)

theorem hash_hset {s : HashStore} {packed : Bytes} {other : String} :
    (HashStore.meaning saver (.hset key field packed) s).2.hash other =
      if other = key then (s.hash key).insert field packed else s.hash other := by
  by_cases hkey : other = key
  · subst hkey
    simp [HashStore.meaning, HashStore.hash, Keyspace.read_write]
  · simp [HashStore.meaning, HashStore.hash, Keyspace.read_write_ne hkey, hkey]

theorem shrinks_expire (s : HashStore) (key : String) :
    s.Shrinks (HashStore.meaning saver (.expire key) s).2 := by
  intro other
  by_cases hkey : other = key
  · subst hkey
    simp only [HashStore.meaning, Keyspace.read_expire]
    split
    · exact .inl rfl
    · exact .inr rfl
  · exact .inl (Keyspace.read_expire_ne hkey)

theorem Unmade.drop {s s' : HashStore} {stage : Nat → WritesStage} {n : Nat} {q : WritesStage}
    (h : Unmade s stage) (hs : s.Shrinks s') (hfresh : s'.fresh = s.fresh) (hn : n < s.fresh)
    (hq : q.pending = []) : Unmade s' (Function.update stage n q) := by
  refine h.shrink hs (fun m hm => ?_) fun m => ?_
  · rw [Function.update_of_ne (by omega)]
    exact h.idle m (by omega)
  · by_cases hm : m = n
    · subst hm
      rw [Function.update_self, hq]
      exact List.nil_sublist _
    · rw [Function.update_of_ne hm]

theorem Unmade.lt {s : HashStore} {stage : Nat → WritesStage} {n : Nat} (h : Unmade s stage)
    (hn : stage n ≠ .idle) : n < s.fresh := by
  by_contra hle
  exact hn (h.idle n (by omega))

/-- The write of a field that is still to come. -/
theorem Unmade.hset {s : HashStore} {stage : Nat → WritesStage} {n : Nat} {packed : Bytes}
    (h : Unmade s stage) (hn : stage n = .writes key ((field, packed) :: commands)) :
    Unmade (HashStore.meaning saver (.hset key field packed) s).2
        (Function.update stage n (.writes key commands)) ∧
      s.Keeps (HashStore.meaning saver (.hset key field packed) s).2 := by
  have hpending : (key, field) ∈ (stage n).pending := by simp [hn, WritesStage.pending]
  have hrest : ∀ m, (Function.update stage n (.writes key commands) m).pending.Sublist
      (stage m).pending := by
    intro m
    by_cases hm : m = n
    · subst hm
      rw [Function.update_self, hn]
      exact List.sublist_cons_self _ _
    · rw [Function.update_of_ne hm]
  have honce := h.once n
  rw [hn] at honce
  have hlater := (List.pairwise_cons.mp honce).1
  constructor
  · refine ⟨fun m other f hf hfirst => ?_, fun m l other f hne hf hfirst hf' => ?_, fun m => ?_,
      fun m hm => ?_⟩
    · have hold := h.new m other f ((hrest m).subset hf) hfirst
      rw [hash_hset]
      split_ifs with hkey
      · subst hkey
        rw [AList.mem_insert]
        rintro (rfl | hmem)
        · by_cases hm : m = n
          · subst hm
            rw [Function.update_self] at hf
            exact hlater _ hf hfirst rfl
          · rw [Function.update_of_ne hm] at hf
            exact h.apart m n other f hm hf hfirst hpending
        · exact hold hmem
      · exact hold
    · exact h.apart m l other f hne ((hrest m).subset hf) hfirst ((hrest l).subset hf')
    · exact (h.once m).sublist (hrest m)
    · have hlt := h.lt (n := n) (by rw [hn]; exact WritesStage.noConfusion)
      have hm' : s.fresh ≤ m := hm
      rw [Function.update_of_ne (by omega)]
      exact h.idle m hm'
  · intro other f v hfirst hlookup _
    rw [hash_hset]
    split_ifs with hkey
    · subst hkey
      have hne : f ≠ field := by
        rintro rfl
        refine h.new n other f hpending hfirst ?_
        rw [← AList.lookup_isSome, hlookup]
        rfl
      rw [AList.lookup_insert_ne hne]
      exact hlookup
    · exact hlookup

/-- The read: the first writes that the call is about to make are new, and nobody else's. -/
theorem Unmade.read {s : HashStore} {stage : Nat → WritesStage} {n : Nat} (h : Unmade s stage)
    (hn : stage n = .reads) (hothers : ∀ m f, m ≠ n → (call.key saver, f) ∈ (stage m).pending →
      f ∉ call.fields lib) :
    Unmade s (Function.update stage n
      (.writes (call.key saver) (call.commands lib (s.hash (call.key saver)).keys))) := by
  have hown : ∀ key f, (key, f) ∈ (WritesStage.writes (call.key saver)
      (call.commands lib (s.hash (call.key saver)).keys)).pending → FirstWrites f →
      key = call.key saver ∧ f ∈ call.fields lib ∧ f ∉ s.hash key := by
    intro key f hf hfirst
    simp only [WritesStage.pending, List.mem_map, Prod.mk.injEq] at hf
    obtain ⟨c, hc, rfl, rfl⟩ := hf
    obtain ⟨hfields, hnew⟩ := mem_fields hc hfirst
    exact ⟨rfl, hfields, fun hmem => hnew (AList.mem_keys.mp hmem)⟩
  refine ⟨fun m key f hf hfirst => ?_, fun m l key f hne hf hfirst hf' => ?_, fun m => ?_,
    fun m hm => ?_⟩
  · by_cases hm : m = n
    · subst hm
      rw [Function.update_self] at hf
      exact (hown key f hf hfirst).2.2
    · rw [Function.update_of_ne hm] at hf
      exact h.new m key f hf hfirst
  · by_cases hm : m = n
    · subst hm
      rw [Function.update_self] at hf
      rw [Function.update_of_ne (Ne.symm hne)] at hf'
      obtain ⟨rfl, hfields, _⟩ := hown key f hf hfirst
      exact hothers l f (Ne.symm hne) hf' hfields
    · rw [Function.update_of_ne hm] at hf
      by_cases hl : l = n
      · subst hl
        rw [Function.update_self] at hf'
        obtain ⟨rfl, hfields, _⟩ := hown key f hf' hfirst
        exact hothers m f hm hf hfields
      · rw [Function.update_of_ne hl] at hf'
        exact h.apart m l key f hne hf hfirst hf'
  · by_cases hm : m = n
    · subst hm
      rw [Function.update_self, WritesStage.pending, List.pairwise_map]
      refine commands_pairwise.imp fun {a b} hab hfirst heq => ?_
      exact hab hfirst (Prod.mk.inj heq).2
    · rw [Function.update_of_ne hm]
      exact h.once m
  · have hlt := h.lt (n := n) (by rw [hn]; exact WritesStage.noConfusion)
    rw [Function.update_of_ne (by omega)]
    exact h.idle m hm

theorem Unmade.await {c : WritesPool V} {stage : Nat → WritesStage} {i : Nat}
    {t : Thread HashReply Empty (WritesTag V)} {cmd : HashCmd}
    {rest : Except Empty (HashReply cmd) → HashProg Unit} (h : Unmade c.shared stage)
    (hstaged : Staged (writesProtocol lib saver) WritesTag.number .idle c.threads stage)
    (hok : ReadsApart lib saver c (.run i .done)) (hi : c.threads[i]? = some t)
    (hprog : t.prog = .await cmd rest)
    (hallows : (writesProtocol lib saver t.tag).allows (stage t.tag.number) cmd) :
    Unmade (HashStore.meaning saver cmd c.shared).2 (Function.update stage t.tag.number
        ((writesProtocol lib saver t.tag).next (stage t.tag.number) cmd
          (HashStore.meaning saver cmd c.shared).1)) ∧
      c.shared.Keeps (HashStore.meaning saver cmd c.shared).2 := by
  have hrefl : c.shared.Shrinks c.shared := fun _ => .inl rfl
  cases hstage : stage t.tag.number with
  | idle =>
    rw [hstage] at hallows
    exact hallows.elim
  | done =>
    rw [hstage] at hallows
    exact hallows.elim
  | reads =>
    have hlt := h.lt (n := t.tag.number) (by rw [hstage]; exact WritesStage.noConfusion)
    rw [hstage] at hallows
    obtain rfl := hallows
    refine ⟨?_, hrefl.keeps⟩
    simp only [writesProtocol, HashStore.meaning]
    split_ifs with hnone
    · exact h.drop hrefl rfl hlt rfl
    · refine h.read hstage fun m f hm hf hfields => ?_
      obtain ⟨u, hu, rfl⟩ := hstaged.owner m (by rintro hidle; simp [hidle, WritesStage.pending] at hf)
      have hat := hstaged.at_stage u hu
      cases hstage' : stage u.tag.number with
      | writes key commands =>
        rw [hstage'] at hf hat
        have hpending := pendingFields_writes hat
        simp only [WritesStage.pending, List.mem_map, Prod.mk.injEq] at hf
        obtain ⟨c', hc', rfl, rfl⟩ := hf
        obtain ⟨j, hj⟩ := List.getElem?_of_mem hu
        have hji : j ≠ i := by
          rintro rfl
          exact hm (by rw [Option.some.inj (hj.symm.trans hi)])
        refine hok t hi ⟨_, rest, hprog⟩ j u hji hj (key_of_writes hat hc').symm c'.1 ?_ hfields
        rw [hpending]
        exact List.mem_map_of_mem hc'
      | _ => simp [hstage', WritesStage.pending] at hf
  | writes key commands =>
    rw [hstage] at hallows
    have hlt := h.lt (n := t.tag.number) (by rw [hstage]; exact WritesStage.noConfusion)
    cases commands with
    | nil =>
      obtain rfl := hallows
      have hshrinks : c.shared.Shrinks (HashStore.meaning saver (.expire key) c.shared).2 :=
        shrinks_expire c.shared key
      exact ⟨h.drop hshrinks rfl hlt rfl, hshrinks.keeps⟩
    | cons first commands =>
      obtain ⟨field, packed⟩ := first
      obtain ⟨_, rfl⟩ := hallows
      exact h.hset hstage

theorem shrinks_tick (s : HashStore) (duration : Nat) :
    s.Shrinks { s with now := s.now + duration } :=
  fun _ => Keyspace.read_later (Nat.le_add_right _ _)

theorem not_idle {prog : HashProg Unit} : ¬ prog.At (writesProtocol lib saver tag) .idle := by
  cases prog with
  | ret value => exact id
  | throw e => exact e.elim
  | await c rest => exact And.left

theorem Unmade.number_lt {c : WritesPool V} {stage : Nat → WritesStage}
    {t : Thread HashReply Empty (WritesTag V)} (h : Unmade c.shared stage)
    (hstaged : Staged (writesProtocol lib saver) WritesTag.number .idle c.threads stage)
    (ht : t ∈ c.threads) : t.tag.number < c.shared.fresh := by
  refine h.lt fun hidle => ?_
  have hat := hstaged.at_stage t ht
  rw [hidle] at hat
  exact not_idle hat

theorem Unmade.start {s : HashStore} {stage : Nat → WritesStage} (h : Unmade s stage) :
    Unmade { s with fresh := s.fresh + 1 } (Function.update stage s.fresh .reads) := by
  refine h.shrink (fun _ => .inl rfl) (fun m hm => ?_) fun m => ?_
  · have hlater : s.fresh + 1 ≤ m := hm
    rw [Function.update_of_ne (by omega)]
    exact h.idle m (by omega)
  · by_cases hm : m = s.fresh
    · subst hm
      rw [Function.update_self]
      exact List.nil_sublist _
    · rw [Function.update_of_ne hm]

def writesOutline (lib : Libraries V) (saver : ValkeySaver) :
    Outline (writesSystem lib saver) (ReadsApart lib saver) (writesProtocol lib saver)
      WritesTag.number .idle where
  inv h s stage := Unmade s stage ∧ ∀ p ∈ h, p.before.shared.Keeps p.after.shared
  no_exit _ _ := rfl
  await := by
    rintro h c d stage i fate t cmd rest ⟨hunmade, hkeeps⟩ hstaged hok hd hi hprog hallows hadmits
    obtain rfl : fate = .done := of_decide_eq_true hadmits
    obtain ⟨hnext, hstep⟩ := hunmade.await hstaged hok hi hprog hallows
    refine ⟨hnext, List.forall_mem_cons.mpr ⟨?_, hkeeps⟩⟩
    rw [hd]
    exact hstep
  ended := by
    rintro h c d stage i t result ⟨hunmade, hkeeps⟩ hstaged _ hi _ _ hd
    have hsame : c.shared.Shrinks c.shared := fun _ => .inl rfl
    have hlt := hunmade.number_lt hstaged (List.mem_of_getElem? hi)
    refine ⟨hunmade.drop hsame rfl hlt rfl, List.forall_mem_cons.mpr ⟨?_, hkeeps⟩⟩
    rw [hd]
    exact hsame.keeps
  death := by
    rintro h c d stage i t ⟨hunmade, hkeeps⟩ hstaged _ hi hd
    have hsame : c.shared.Shrinks c.shared := fun _ => .inl rfl
    have hlt := hunmade.number_lt hstaged (List.mem_of_getElem? hi)
    refine ⟨hunmade.drop hsame rfl hlt rfl, List.forall_mem_cons.mpr ⟨?_, hkeeps⟩⟩
    rw [hd]
    exact hsame.keeps
  env := by
    rintro h c d stage e s new ⟨hunmade, hkeeps⟩ hstaged _ he hd
    cases e with
    | call call =>
      simp only [writesSystem, writesEvent, Option.some.injEq, Prod.mk.injEq] at he
      obtain ⟨rfl, rfl⟩ := he
      refine ⟨_, ⟨hunmade.start, List.forall_mem_cons.mpr ⟨?_, hkeeps⟩⟩, hstaged.add at_prog ?_⟩
      · rw [hd]
        exact HashStore.Shrinks.keeps fun _ => .inl rfl
      · intro u hu
        exact (hunmade.number_lt hstaged hu).ne
    | tick duration =>
      simp only [writesSystem, writesEvent, Option.some.injEq, Prod.mk.injEq] at he
      obtain ⟨rfl, rfl⟩ := he
      have hticked := shrinks_tick c.shared duration
      refine ⟨stage, ⟨hunmade.shrink hticked hunmade.idle fun _ => List.Sublist.refl _,
        List.forall_mem_cons.mpr ⟨?_, hkeeps⟩⟩, by simpa using hstaged⟩
      rw [hd]
      exact hticked.keeps

/-- A row of the hash as `pending_writes` returns it. -/
def pendingWrite (lib : Libraries V) (bytes : Bytes) : String × String × V :=
  let row := lib.msgpack.decode bytes
  (row.taskId, row.channel, lib.valueSerde.decode (row.valueType, row.value))

theorem mem_pendingWrites {s : HashStore} {thread ns cid : String} {bytes : Bytes}
    (h : (s.hash (saver.w thread ns cid)).lookup field = some bytes) :
    pendingWrite lib bytes ∈
      saver.pendingWrites lib s.now { writes := s.writes } thread ns cid := by
  have hrow : (field, pendingWrite lib bytes) ∈ writeRows lib (s.hash (saver.w thread ns cid)) := by
    refine List.mem_map.mpr ⟨(field, bytes), ?_, rfl⟩
    rw [(lib.hashOrder_perm _).mem_iff, List.mem_map]
    exact ⟨⟨field, bytes⟩, AList.mem_lookup_iff.mp h, rfl⟩
  exact List.mem_map.mpr ⟨_, List.mem_mergeSort.mpr hrow, rfl⟩

theorem lookup_kept {ok : WritesPool V → Move Empty (WritesEvent V) → Prop} {e c : WritesPool V}
    {later : List (Passage HashReply Empty HashStore (WritesTag V) (WritesEvent V))} {bytes : Bytes}
    (run : Run (writesSystem lib saver) ok e later c)
    (hkeeps : ∀ p ∈ later, p.before.shared.Keeps p.after.shared)
    (hlive : ∀ p ∈ later, (p.after.shared.writes.read p.after.shared.now key).isSome)
    (hfirst : FirstWrites field) (h : (e.shared.hash key).lookup field = some bytes) :
    (c.shared.hash key).lookup field = some bytes := by
  induction run with
  | start => exact h
  | step _ _ _ ih =>
    obtain ⟨hstep, hkeeps⟩ := List.forall_mem_cons.mp hkeeps
    obtain ⟨halive, hlive⟩ := List.forall_mem_cons.mp hlive
    exact hstep key field bytes hfirst (ih hkeeps hlive) halive

/-- In a run whose reads are apart, the value of a first write that is stored at some point is
there at every later one and is returned, as long as the hash has not expired. -/
theorem first_write_stays {s : HashStore} {e c : WritesPool V}
    {earlier later : List (Passage HashReply Empty HashStore (WritesTag V) (WritesEvent V))}
    {thread ns cid task : String} {slot : Int} {bytes : Bytes}
    (run : Run (writesSystem lib saver) (ReadsApart lib saver) ⟨s, []⟩ earlier e)
    (run' : Run (writesSystem lib saver) (ReadsApart lib saver) e later c) (hslot : 0 ≤ slot)
    (h : (e.shared.hash (saver.w thread ns cid)).lookup (fieldOf task slot) = some bytes)
    (hlive : ∀ p ∈ later,
      (p.after.shared.writes.read p.after.shared.now (saver.w thread ns cid)).isSome) :
    (c.shared.hash (saver.w thread ns cid)).lookup (fieldOf task slot) = some bytes ∧
      pendingWrite lib bytes ∈
        saver.pendingWrites lib c.shared.now { writes := c.shared.writes } thread ns cid := by
  have hstart : Unmade s fun _ => .idle :=
    ⟨by simp [WritesStage.pending], by simp [WritesStage.pending], by simp [WritesStage.pending],
      fun _ _ => rfl⟩
  have hstaged : Staged (writesProtocol lib saver) WritesTag.number .idle [] fun _ => .idle :=
    ⟨by simp, by simp, by simp⟩
  obtain ⟨stage, hstaged', hunmade, _⟩ := run.outline (writesOutline lib saver)
    ⟨_, hstaged, hstart, by simp⟩
  obtain ⟨_, _, _, hkeeps⟩ := run'.outline (writesOutline lib saver)
    ⟨stage, hstaged', hunmade, by simp⟩
  have hkept := lookup_kept run' hkeeps hlive ⟨task, slot, hslot, rfl⟩ h
  exact ⟨hkept, mem_pendingWrites hkept⟩

end Calls

section Example

/-- The write of one value under the first slot of task `a`. -/
def oneWrite (channel : String) : WritesCall Unit :=
  { thread := "t", ns := "", cid := "c", writes := [(channel, ())], taskId := "a", taskPath := "" }

def writtenTo (channel : String) : Bytes := packed unitLibraries ⟨"a", 0, channel, (), ""⟩

theorem writtenTo_ne : writtenTo "x" ≠ writtenTo "y" := by
  intro h
  have hchannel := congrArg (fun bytes => (unitLibraries.msgpack.decode bytes).channel) h
  simp only [writtenTo, (decode_packed unitLibraries _).2.1] at hchannel
  exact absurd hchannel (by decide)

/-- Any two calls at work write different fields. -/
def writeApart (c : WritesPool Unit) : Move Empty (WritesEvent Unit) → Bool
  | .run i _ => c.threads[i]?.all fun t => c.threads.zipIdx.all fun u => u.2 = i ||
      (pendingFields u.1.prog).all fun f => f ∉ t.tag.call.fields unitLibraries
  | _ => true

theorem readsApart_of_writeApart {c : WritesPool Unit} {move : Move Empty (WritesEvent Unit)}
    (h : writeApart c move = true) : ReadsApart unitLibraries {} c move := by
  cases move with
  | run i fate =>
    rintro t ht _ j u hj hu _ f hf
    simp only [writeApart, Option.mem_def.mp ht, Option.all_some, List.all_eq_true, Bool.or_eq_true,
      decide_eq_true_eq] at h
    exact (h (u, j) (List.mk_mem_zipIdx_iff_getElem?.mpr hu)).resolve_left hj f hf
  | _ => trivial

/-- Task `b` reads while the first of the two writes of task `a` is there and the second one is still
to come; a second call of task `a` begins before the last of the writes. -/
def overlappingReads : List (Move Empty (WritesEvent Unit)) × List (Move Empty (WritesEvent Unit)) :=
  ([.env (.call { oneWrite "x" with writes := [("x", ()), ("z", ())] }), .run 0 .done,
      .env (.call { oneWrite "y" with taskId := "b" }), .run 0 .done],
    [.run 1 .done, .run 0 .done, .env (.call (oneWrite "y")), .run 2 .done, .run 1 .done, .run 0 .done,
      .run 1 .done])

theorem first_write_stays_overlapping : ∃ e c earlier later,
    Run (writesSystem unitLibraries {}) (ReadsApart unitLibraries {}) ⟨{}, []⟩ earlier e ∧
    Run (writesSystem unitLibraries {}) (ReadsApart unitLibraries {}) e later c ∧
    (e.shared.hash ((oneWrite "x").key {})).lookup (fieldOf "a" 0) = some (writtenTo "x") ∧
    (c.shared.hash ((oneWrite "x").key {})).lookup (fieldOf "a" 0) = some (writtenTo "x") := by
  have hrun : (((writesSystem unitLibraries {}).record overlappingReads.1 ([], ⟨{}, []⟩)).bind fun r =>
      ((writesSystem unitLibraries {}).record overlappingReads.2 ([], r.2)).map fun r' =>
        ((r.2.shared.hash ((oneWrite "x").key {})).lookup (fieldOf "a" 0),
          (r.1 ++ r'.1).all fun p => writeApart p.before p.move,
          r'.1.all fun p =>
            (p.after.shared.writes.read p.after.shared.now ((oneWrite "x").key {})).isSome)) =
      some (some (writtenTo "x"), true, true) := rfl
  obtain ⟨⟨earlier, e⟩, hearlier, hrest⟩ := Option.bind_eq_some_iff.mp hrun
  obtain ⟨⟨later, c⟩, hlater, hresult⟩ := Option.map_eq_some_iff.mp hrest
  simp only [Prod.mk.injEq, List.all_eq_true, List.mem_append] at hresult
  obtain ⟨hstored, hapart, hlive⟩ := hresult
  have hbefore : Run (writesSystem unitLibraries {}) (ReadsApart unitLibraries {}) ⟨{}, []⟩ earlier e :=
    Run.start.recordWhere (fun p hp => readsApart_of_writeApart (hapart p (.inl hp))) hearlier
  have hafter : Run (writesSystem unitLibraries {}) (ReadsApart unitLibraries {}) e later c :=
    Run.start.recordWhere (fun p hp => readsApart_of_writeApart (hapart p (.inr hp))) hlater
  exact ⟨e, c, earlier, later, hbefore, hafter, hstored,
    (first_write_stays hbefore hafter (le_refl 0) hstored hlive).1⟩

/-- Two calls read the empty hash, and the second one replaces what the first one wrote. -/
def bothRead : List (Move Empty (WritesEvent Unit)) :=
  [.env (.call (oneWrite "x")), .env (.call (oneWrite "y")), .run 0 .done, .run 1 .done, .run 0 .done]

theorem first_write_replaced : ∃ e c earlier later,
    Run (writesSystem unitLibraries {}) (fun _ _ => True) ⟨{}, []⟩ earlier e ∧
    Run (writesSystem unitLibraries {}) (fun _ _ => True) e later c ∧
    (∀ p ∈ later, (p.after.shared.writes.read p.after.shared.now ((oneWrite "x").key {})).isSome) ∧
    (e.shared.hash ((oneWrite "x").key {})).lookup (fieldOf "a" 0) = some (writtenTo "x") ∧
    (c.shared.hash ((oneWrite "x").key {})).lookup (fieldOf "a" 0) = some (writtenTo "y") ∧
    writtenTo "x" ≠ writtenTo "y" := by
  have hrun : (((writesSystem unitLibraries {}).record bothRead ([], ⟨{}, []⟩)).bind fun r =>
      ((writesSystem unitLibraries {}).record [.run 1 .done] ([], r.2)).map fun r' =>
        ((r.2.shared.hash ((oneWrite "x").key {})).lookup (fieldOf "a" 0),
          (r'.2.shared.hash ((oneWrite "x").key {})).lookup (fieldOf "a" 0),
          r'.1.all fun p =>
            (p.after.shared.writes.read p.after.shared.now ((oneWrite "x").key {})).isSome)) =
      some (some (writtenTo "x"), some (writtenTo "y"), true) := rfl
  obtain ⟨⟨earlier, e⟩, hearlier, hrest⟩ := Option.bind_eq_some_iff.mp hrun
  obtain ⟨⟨later, c⟩, hlater, hresult⟩ := Option.map_eq_some_iff.mp hrest
  simp only [Prod.mk.injEq, List.all_eq_true] at hresult
  exact ⟨e, c, earlier, later, Run.start.record (fun _ _ => trivial) hearlier,
    Run.start.record (fun _ _ => trivial) hlater, hresult.2.2, hresult.1, hresult.2.1, writtenTo_ne⟩

end Example

end Doci
