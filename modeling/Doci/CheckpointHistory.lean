import Doci.Checkpoint
import Mathlib

/-! The checkpoint store that the saver stands for, read off the history of its calls. -/

namespace Doci

open Expiring

inductive SaverCall (V : Type) where
  | aput (config : RunnableConfig V) (checkpoint : Checkpoint V) (metadata : Metadata V)
  | aputWrites (config : RunnableConfig V) (writes : List (String × V)) (taskId taskPath : String)

structure Put (V : Type) where
  checkpoint : Checkpoint V
  metadata : Metadata V
  parent : Option String

structure SlotWrite (V : Type) where
  taskId : String
  slot : Int
  channel : String
  value : V
  taskPath : String

section Reference

variable {V : Type} (lib : Libraries V)

def SaverCall.put (thread ns : String) : SaverCall V → Option (Put V)
  | .aput config checkpoint metadata =>
    if config.threadId = thread ∧ config.checkpointNs = ns then
      some ⟨checkpoint, lib.getCheckpointMetadata config metadata, getCheckpointId config⟩
    else none
  | .aputWrites _ _ _ _ => none

/-- The writes of one task: a special channel has its own slot, any other its position. -/
def taskWrites (taskId taskPath : String) (writes : List (String × V)) : List (SlotWrite V) :=
  writes.zipIdx.map fun ((channel, value), idx) =>
    ⟨taskId, (lib.writesIdxMap channel).getD idx, channel, value, taskPath⟩

def SaverCall.slotWrites (thread ns cid : String) : SaverCall V → List (SlotWrite V)
  | .aput _ _ _ => []
  | .aputWrites config writes taskId taskPath =>
    if config.threadId = thread ∧ config.checkpointNs = ns ∧ config.checkpointId = some cid then
      taskWrites lib taskId taskPath writes
    else []

def puts (calls : List (SaverCall V)) (thread ns : String) : List (Put V) :=
  calls.filterMap (SaverCall.put lib thread ns)

def putIds (calls : List (SaverCall V)) (thread ns : String) : Finset String :=
  ((puts lib calls thread ns).map fun put => put.checkpoint.id).toFinset

def lastPut (calls : List (SaverCall V)) (thread ns cid : String) : Option (Put V) :=
  (puts lib calls thread ns).reverse.find? fun put => put.checkpoint.id = cid

def written (calls : List (SaverCall V)) (thread ns cid : String) : List (SlotWrite V) :=
  calls.flatMap (SaverCall.slotWrites lib thread ns cid)

def ownWrites (writes : List (SlotWrite V)) (taskId : String) (slot : Int) : List (SlotWrite V) :=
  writes.filter fun w => w.taskId = taskId ∧ w.slot = slot

/-- The first write of a slot stays, the last one of a special slot. -/
def settled (writes : List (SlotWrite V)) (taskId : String) (slot : Int) : Option (SlotWrite V) :=
  if 0 ≤ slot then (ownWrites writes taskId slot).head? else (ownWrites writes taskId slot).getLast?

def slots (writes : List (SlotWrite V)) : Finset (String ×ₗ Int) :=
  (writes.map fun w => toLex (w.taskId, w.slot)).toFinset

/-- Each slot once, by task and slot. -/
def settledWrites (writes : List (SlotWrite V)) : List (SlotWrite V) :=
  ((slots writes).sort (· ≤ ·)).filterMap fun key => settled writes (ofLex key).1 (ofLex key).2

def Put.tuple (put : Put V) (thread ns cid : String)
    (pendingWrites : List (String × String × V)) : CheckpointTuple V where
  config := { threadId := thread, checkpointNs := ns, checkpointId := some cid }
  checkpoint := put.checkpoint
  metadata := put.metadata
  parentConfig := put.parent.map fun parent =>
    { threadId := thread, checkpointNs := ns, checkpointId := some parent }
  pendingWrites := pendingWrites

def storedTuple (calls : List (SaverCall V)) (thread ns cid : String) :
    Option (CheckpointTuple V) :=
  (lastPut lib calls thread ns cid).map fun put => put.tuple thread ns cid
    ((settledWrites (written lib calls thread ns cid)).map fun w => (w.taskId, w.channel, w.value))

def greatestPut (calls : List (SaverCall V)) (thread ns : String) : Option String :=
  ((putIds lib calls thread ns).sort (· ≥ ·)).head?

def storedGet (calls : List (SaverCall V)) (config : RunnableConfig V) :
    Option (CheckpointTuple V) :=
  ((getCheckpointId config).or (greatestPut lib calls config.threadId config.checkpointNs)).bind
    (storedTuple lib calls config.threadId config.checkpointNs)

/-- At most `limit` of a list, all of it without a limit. -/
def limited {α : Type} : Option Int → List α → List α
  | none, l => l
  | some n, l => l.take n.toNat

def storedList [DecidableEq V] (calls : List (SaverCall V)) (config : Option (RunnableConfig V))
    (filter : Option (Metadata V)) (before : Option (RunnableConfig V)) (limit : Option Int) :
    List (CheckpointTuple V) :=
  match config with
  | none => []
  | some config =>
    let ids := (putIds lib calls config.threadId config.checkpointNs).sort (· ≥ ·)
    let asked := ids.filter fun cid => (getCheckpointId config).all (cid = ·) &&
      (before.bind getCheckpointId).all (cid < ·)
    let tuples := asked.filterMap (storedTuple lib calls config.threadId config.checkpointNs)
    limited limit (tuples.filter fun tup => passes filter tup.metadata)

end Reference

section Fields

variable {V : Type} {lib : Libraries V} {task task' : String} {slot slot' : Int}

theorem colon_not_mem_repr (slot : Int) : ':' ∉ slot.repr.toList := by
  intro hmem
  have hdigits : ∀ n : Nat, ':' ∉ n.repr.toList := by
    intro n h
    rw [Nat.toList_repr] at h
    have hdigit := Nat.isDigit_of_mem_toDigits (by decide) (by decide) h
    exact absurd hdigit (by decide)
  cases slot with
  | ofNat n => exact hdigits n hmem
  | negSucc n =>
    simp only [Int.repr, String.toList_append, List.mem_append] at hmem
    rcases hmem with hminus | hmem
    · exact absurd hminus (by decide)
    · exact hdigits _ hmem

theorem slotOf_fieldOf (task : String) (slot : Int) : slotOf (fieldOf task slot) = slot := by
  have hsuffix : ((fieldOf task slot).toList.reverse.takeWhile (· ≠ ':')).reverse =
      slot.repr.toList := by
    have hcolon : ∀ c ∈ slot.repr.toList.reverse, (decide (c ≠ ':')) = true := by
      intro c hc
      have hne : c ≠ ':' := fun h => colon_not_mem_repr slot (h ▸ List.mem_reverse.mp hc)
      simpa using hne
    simp only [fieldOf, String.toList_append, List.reverse_append, List.append_assoc]
    rw [List.takeWhile_append_of_pos hcolon]
    simp
  rw [slotOf, hsuffix, String.ofList_toList]
  simp

theorem fieldOf_inj : fieldOf task slot = fieldOf task' slot' ↔ task = task' ∧ slot = slot' := by
  constructor
  · intro h
    have hslot : slot = slot' := by rw [← slotOf_fieldOf task slot, h, slotOf_fieldOf]
    subst hslot
    have hlist := congrArg String.toList h
    simp only [fieldOf, String.toList_append] at hlist
    have htask := List.append_cancel_right (List.append_cancel_right hlist)
    exact ⟨String.toList_inj.mp htask, rfl⟩
  · rintro ⟨rfl, rfl⟩
    rfl

end Fields

section Holds

variable {V : Type} {lib : Libraries V} {ws news : List (SlotWrite V)} {task task' path : String}
  {slot : Int} {hash hash' : AList fun _ : String => Bytes} {existing : List String}
  {writes : List (String × V)} {w : SlotWrite V}

def packed (lib : Libraries V) (w : SlotWrite V) : Bytes :=
  let v := lib.valueSerde.encode w.value
  lib.msgpack.encode ⟨w.taskId, w.channel, v.1, v.2, w.taskPath⟩

structure Holds (lib : Libraries V) (ws : List (SlotWrite V)) (hash : AList fun _ : String => Bytes) :
    Prop where
  lookup : ∀ task slot, hash.lookup (fieldOf task slot) = (settled ws task slot).map (packed lib)
  fields : ∀ f ∈ hash, ∃ task slot, f = fieldOf task slot

theorem mem_ownWrites : w ∈ ownWrites ws task slot ↔ w ∈ ws ∧ w.taskId = task ∧ w.slot = slot := by
  simp [ownWrites]

theorem settled_mem (h : settled ws task slot = some w) :
    w ∈ ws ∧ w.taskId = task ∧ w.slot = slot := by
  rw [← mem_ownWrites]
  unfold settled at h
  split at h
  · exact List.mem_of_head? h
  · exact List.mem_of_getLast? h

theorem settled_eq_none : settled ws task slot = none ↔ ownWrites ws task slot = [] := by
  unfold settled
  split <;> simp

theorem settled_append : settled (ws ++ news) task slot =
    if 0 ≤ slot then (settled ws task slot).or (settled news task slot)
    else (settled news task slot).or (settled ws task slot) := by
  unfold settled ownWrites
  split <;> simp [List.head?_append, List.getLast?_append]

theorem Holds.empty : Holds lib ([] : List (SlotWrite V)) ∅ := by
  refine ⟨fun task slot => ?_, fun f hf => ?_⟩
  · simp [settled, ownWrites]
  · exact absurd hf (AList.notMem_empty f)

theorem Holds.mem_iff (h : Holds lib ws hash) (h' : Holds lib ws hash') (f : String) :
    f ∈ hash ↔ f ∈ hash' := by
  have hsub : ∀ {a b : AList fun _ : String => Bytes}, Holds lib ws a → Holds lib ws b →
      f ∈ a → f ∈ b := by
    intro a b ha hb hf
    obtain ⟨task, slot, rfl⟩ := ha.fields f hf
    rw [← AList.lookup_isSome, ha.lookup] at hf
    rwa [← AList.lookup_isSome, hb.lookup]
  exact ⟨hsub h h', hsub h' h⟩

theorem Holds.mem_fieldOf (h : Holds lib ws hash) :
    fieldOf task slot ∈ hash ↔ settled ws task slot ≠ none := by
  rw [← AList.lookup_isSome, h.lookup, Option.isSome_map, Option.isSome_iff_ne_none]

theorem lookup_foldl_insert {f : String} (commands : List (String × Bytes)) :
    (commands.foldl (fun hash c => hash.insert c.1 c.2) hash).lookup f =
      ((commands.filter fun c => c.1 = f).getLast?.map Prod.snd).or (hash.lookup f) := by
  induction commands generalizing hash with
  | nil => simp
  | cons c rest ih =>
    rw [List.foldl_cons, ih]
    by_cases hc : c.1 = f
    · subst hc
      rw [AList.lookup_insert, List.filter_cons_of_pos (by simp), List.getLast?_cons]
      cases (rest.filter fun d => d.1 = c.1).getLast? <;> rfl
    · rw [AList.lookup_insert_ne (Ne.symm hc), List.filter_cons_of_neg (by simpa using hc)]

theorem mem_foldl_insert {f : String} (commands : List (String × Bytes)) :
    f ∈ commands.foldl (fun hash c => hash.insert c.1 c.2) hash ↔
      (∃ c ∈ commands, c.1 = f) ∨ f ∈ hash := by
  induction commands generalizing hash with
  | nil => simp
  | cons c rest ih =>
    rw [List.foldl_cons, ih, AList.mem_insert]
    simp only [List.mem_cons, exists_eq_or_imp, eq_comm (a := f)]
    exact or_left_comm.trans or_assoc.symm

theorem writeCommands_eq : writeCommands lib existing task path writes =
    (taskWrites lib task path writes).filterMap fun w =>
      if 0 ≤ w.slot ∧ fieldOf task w.slot ∈ existing then none
      else some (fieldOf task w.slot, packed lib w) := by
  simp only [writeCommands, taskWrites, List.filterMap_map, packed]
  rfl

theorem taskWrites_task (h : w ∈ taskWrites lib task path writes) : w.taskId = task := by
  obtain ⟨_, _, rfl⟩ := List.mem_map.mp h
  rfl

theorem taskWrites_pairwise : (taskWrites lib task path writes).Pairwise fun a b =>
    0 ≤ a.slot → a.slot ≠ b.slot := by
  have hslot : ∀ (c : String) (i : Nat), 0 ≤ (lib.writesIdxMap c).getD (i : Int) →
      (lib.writesIdxMap c).getD (i : Int) = i := by
    intro c i h
    cases hm : lib.writesIdxMap c with
    | none => rfl
    | some slot =>
      have hneg := lib.writesIdxMap_neg c slot hm
      simp only [hm, Option.getD_some] at h
      omega
  unfold taskWrites
  rw [List.pairwise_map]
  have hidx : (writes.zipIdx).Pairwise fun a b => a.2 < b.2 := by
    have hrange : (writes.zipIdx.map Prod.snd).Pairwise (· < ·) := by
      rw [List.zipIdx_map_snd, ← List.range_eq_range']
      exact List.pairwise_lt_range
    exact List.pairwise_map.mp hrange
  refine hidx.imp fun {a b} hlt hpos heq => ?_
  have ha := hslot _ _ hpos
  have hb := hslot _ _ (heq ▸ hpos)
  simp only at heq
  omega

theorem ownWrites_taskWrites (h : 0 ≤ slot) :
    (ownWrites (taskWrites lib task path writes) task' slot).length ≤ 1 := by
  have hpairwise : (ownWrites (taskWrites lib task path writes) task' slot).Pairwise
      fun a b => 0 ≤ a.slot → a.slot ≠ b.slot := taskWrites_pairwise.filter _
  have hsame : ∀ w ∈ ownWrites (taskWrites lib task path writes) task' slot, w.slot = slot :=
    fun w hw => (mem_ownWrites.mp hw).2.2
  match hown : ownWrites (taskWrites lib task path writes) task' slot with
  | [] => simp
  | [_] => simp
  | a :: b :: rest =>
    rw [hown] at hpairwise hsame
    have ha := hsame a (by simp)
    have hb := hsame b (by simp)
    exact absurd (ha.trans hb.symm)
      ((List.pairwise_cons.mp hpairwise).1 b (by simp) (ha ▸ h))

theorem filter_writeCommands :
    (writeCommands lib existing task path writes).filter (fun c => c.1 = fieldOf task slot) =
      if 0 ≤ slot ∧ fieldOf task slot ∈ existing then []
      else (ownWrites (taskWrites lib task path writes) task slot).map fun w =>
        (fieldOf task slot, packed lib w) := by
  have hown : ∀ l : List (SlotWrite V), (∀ w ∈ l, w.taskId = task) →
      (l.filterMap fun w => if 0 ≤ w.slot ∧ fieldOf task w.slot ∈ existing then none
        else some (fieldOf task w.slot, packed lib w)).filter (fun c => c.1 = fieldOf task slot) =
      if 0 ≤ slot ∧ fieldOf task slot ∈ existing then []
      else (ownWrites l task slot).map fun w => (fieldOf task slot, packed lib w) := by
    intro l hl
    induction l with
    | nil => simp [ownWrites]
    | cons w l ih =>
      have hrest := ih fun v hv => hl v (List.mem_cons_of_mem _ hv)
      have htask := hl w List.mem_cons_self
      by_cases hslot : w.slot = slot
      · by_cases hskip : 0 ≤ slot ∧ fieldOf task slot ∈ existing
        · simp only [hskip, and_self, if_true] at hrest
          simp [hslot, hskip, hrest]
        · simp only [hskip, if_false] at hrest
          simp [hslot, hskip, hrest, ownWrites, htask]
      · have hne : fieldOf task w.slot ≠ fieldOf task slot :=
          fun h => hslot (fieldOf_inj.mp h).2
        by_cases hskip : 0 ≤ w.slot ∧ fieldOf task w.slot ∈ existing
        · simp [hskip, hrest, ownWrites, hslot]
        · simp [hskip, hrest, ownWrites, hslot, hne]
  rw [writeCommands_eq]
  exact hown _ fun w hw => taskWrites_task hw

theorem fst_mem_writeCommands {c : String × Bytes}
    (h : c ∈ writeCommands lib existing task path writes) : ∃ slot, c.1 = fieldOf task slot := by
  rw [writeCommands_eq] at h
  obtain ⟨w, _, hw⟩ := List.mem_filterMap.mp h
  simp only [Option.ite_none_left_eq_some, Option.some.injEq] at hw
  exact ⟨w.slot, hw.2 ▸ rfl⟩

theorem getLast?_eq_head? {α : Type} {l : List α} (h : l.length ≤ 1) : l.getLast? = l.head? := by
  match l with
  | [] => rfl
  | [a] => rfl
  | a :: b :: rest => simp at h

theorem Holds.append (h : Holds lib ws hash) (hexisting : ∀ f, f ∈ existing ↔ f ∈ hash) :
    Holds lib (ws ++ taskWrites lib task path writes)
      ((writeCommands lib existing task path writes).foldl (fun hash c => hash.insert c.1 c.2)
        hash) := by
  refine ⟨fun task' slot => ?_, fun f hf => ?_⟩
  · rw [lookup_foldl_insert, h.lookup, settled_append]
    by_cases htask : task' = task
    · subst htask
      simp only [filter_writeCommands, hexisting, h.mem_fieldOf]
      by_cases hslot : 0 ≤ slot
      · have hone : (ownWrites (taskWrites lib task' path writes) task' slot).length ≤ 1 :=
          ownWrites_taskWrites hslot
        have hlast := getLast?_eq_head? hone
        cases hws : settled ws task' slot with
        | none => simp [hslot, settled, List.getLast?_map, hlast, Option.map_map, Function.comp_def]
        | some w => simp [hslot]
      · simp only [hslot, false_and, if_false, settled, List.getLast?_map, Option.map_map]
        cases (ownWrites (taskWrites lib task' path writes) task' slot).getLast? <;> rfl
    · have hnone : (writeCommands lib existing task path writes).filter
          (fun c => c.1 = fieldOf task' slot) = [] := by
        refine List.filter_eq_nil_iff.mpr fun c hc => ?_
        obtain ⟨slot', hfield⟩ := fst_mem_writeCommands hc
        rw [hfield, decide_eq_true_eq, fieldOf_inj]
        exact fun heq => htask heq.1.symm
      have hsettled : settled (taskWrites lib task path writes) task' slot = none := by
        refine settled_eq_none.mpr (List.eq_nil_iff_forall_not_mem.mpr fun w hw => ?_)
        obtain ⟨hmem, hw, _⟩ := mem_ownWrites.mp hw
        exact htask (hw.symm.trans (taskWrites_task hmem))
      rw [hnone, hsettled]
      cases settled ws task' slot <;> simp
  · rcases (mem_foldl_insert _).mp hf with ⟨c, hc, rfl⟩ | hf
    · obtain ⟨slot, hfield⟩ := fst_mem_writeCommands hc
      exact ⟨task, slot, hfield⟩
    · exact h.fields f hf

def SlotWrite.row (w : SlotWrite V) : String × String × String × V :=
  (fieldOf w.taskId w.slot, w.taskId, w.channel, w.value)

def SlotWrite.key (w : SlotWrite V) : String ×ₗ Int := toLex (w.taskId, w.slot)

theorem rowLe_row {v w : SlotWrite V} : rowLe v.row w.row = true ↔ v.key ≤ w.key := by
  simp only [rowLe, SlotWrite.row, SlotWrite.key, slotOf_fieldOf, decide_eq_true_eq]

theorem mem_settledWrites : w ∈ settledWrites ws ↔ settled ws w.taskId w.slot = some w := by
  simp only [settledWrites, List.mem_filterMap, Finset.mem_sort]
  constructor
  · rintro ⟨key, _, h⟩
    obtain ⟨_, htask, hslot⟩ := settled_mem h
    rw [htask, hslot, h]
  · intro h
    refine ⟨w.key, ?_, h⟩
    exact List.mem_toFinset.mpr (List.mem_map_of_mem (settled_mem h).1)

theorem settledWrites_pairwise : (settledWrites ws).Pairwise fun v w => v.key < w.key := by
  unfold settledWrites
  rw [List.pairwise_filterMap]
  refine (Finset.sortedLT_sort (slots ws)).pairwise.imp fun {a b} hlt v hv w hw => ?_
  obtain ⟨_, htask, hslot⟩ := settled_mem hv
  obtain ⟨_, htask', hslot'⟩ := settled_mem hw
  simpa only [SlotWrite.key, htask, hslot, htask', hslot', toLex_ofLex, Prod.mk.eta] using hlt

theorem decode_packed (lib : Libraries V) (w : SlotWrite V) : (lib.msgpack.decode (packed lib w)).taskId = w.taskId ∧
    (lib.msgpack.decode (packed lib w)).channel = w.channel ∧
    lib.valueSerde.decode ((lib.msgpack.decode (packed lib w)).valueType,
      (lib.msgpack.decode (packed lib w)).value) = w.value := by
  simp only [packed, lib.msgpack.decode_encode, Prod.mk.eta, lib.valueSerde.decode_encode, and_self]

theorem Holds.mem_rows (h : Holds lib ws hash) {row : String × String × String × V} :
    row ∈ writeRows lib hash ↔ ∃ w ∈ settledWrites ws, w.row = row := by
  simp only [writeRows, List.mem_map, (lib.hashOrder_perm _).mem_iff, mem_settledWrites]
  constructor
  · rintro ⟨_, ⟨⟨f, bytes⟩, hmem, rfl⟩, rfl⟩
    have hlookup := AList.mem_lookup_iff.mpr hmem
    obtain ⟨task, slot, rfl⟩ := h.fields f (AList.lookup_isSome.mp (hlookup ▸ rfl))
    obtain ⟨w, hw, rfl⟩ := Option.map_eq_some_iff.mp ((h.lookup task slot).symm.trans hlookup)
    obtain ⟨_, rfl, rfl⟩ := settled_mem hw
    obtain ⟨htask, hchannel, hvalue⟩ := decode_packed lib w
    exact ⟨w, hw, by simp only [SlotWrite.row, htask, hchannel, hvalue]⟩
  · rintro ⟨w, hw, rfl⟩
    have hlookup := h.lookup w.taskId w.slot
    rw [hw] at hlookup
    obtain ⟨htask, hchannel, hvalue⟩ := decode_packed lib w
    refine ⟨_, ⟨⟨_, _⟩, AList.mem_lookup_iff.mp hlookup, rfl⟩, ?_⟩
    simp only [SlotWrite.row, htask, hchannel, hvalue]

theorem writeRows_nodup : ((writeRows lib hash).map Prod.fst).Nodup := by
  have hfst : (writeRows lib hash).map Prod.fst =
      (lib.hashOrder (hash.entries.map fun e => (e.1, e.2))).map Prod.fst := by
    simp only [writeRows, List.map_map]
    rfl
  rw [hfst, ((lib.hashOrder_perm _).map Prod.fst).nodup_iff, List.map_map]
  exact hash.nodupKeys

theorem Holds.sorted_rows (h : Holds lib ws hash) :
    (writeRows lib hash).mergeSort rowLe = (settledWrites ws).map SlotWrite.row := by
  have hperm : ((writeRows lib hash).mergeSort rowLe).Perm ((settledWrites ws).map SlotWrite.row) := by
    refine (List.mergeSort_perm _ _).trans ?_
    have hnodup : ((settledWrites ws).map SlotWrite.row).Nodup := by
      rw [List.Nodup, List.pairwise_map]
      refine settledWrites_pairwise.imp fun {v w} hlt heq => ?_
      have hfield := fieldOf_inj.mp (congrArg Prod.fst heq)
      simp only [SlotWrite.key, hfield.1, hfield.2, lt_irrefl] at hlt
    refine (List.perm_ext_iff_of_nodup writeRows_nodup.of_map hnodup).mpr fun row => ?_
    rw [h.mem_rows, List.mem_map]
  refine @List.Perm.eq_of_pairwise _ (fun r r' => rowLe r r' = true) _ _ ?_ ?_ ?_ hperm
  · intro a b ha hb hab hba
    obtain ⟨v, hv, rfl⟩ := List.mem_map.mp (hperm.subset ha)
    obtain ⟨w, hw, rfl⟩ := List.mem_map.mp hb
    rw [rowLe_row] at hab hba
    have hkey := toLex.injective (le_antisymm hab hba)
    obtain ⟨htask, hslot⟩ := Prod.mk.injEq .. ▸ hkey
    have hv := mem_settledWrites.mp hv
    rw [htask, hslot, mem_settledWrites.mp hw] at hv
    rw [Option.some.inj hv]
  · refine List.pairwise_mergeSort (fun a b c hab hbc => ?_) (fun a b => ?_) _
    · simp only [rowLe, decide_eq_true_eq] at hab hbc ⊢
      exact hab.trans hbc
    · simp only [rowLe, Bool.or_eq_true, decide_eq_true_eq]
      exact le_total _ _
  · rw [List.pairwise_map]
    refine settledWrites_pairwise.imp fun {v w} hlt => ?_
    rw [rowLe_row]
    exact hlt.le

end Holds

section Runs

variable {V : Type} (lib : Libraries V) (saver : ValkeySaver)

def SaverCall.apply (s : Valkey) (now : Nat) : SaverCall V → Valkey
  | .aput config checkpoint metadata => (saver.aput lib now s config checkpoint metadata).2
  | .aputWrites config writes taskId taskPath =>
    match saver.aputWrites lib now s config writes taskId taskPath with
    | .ok s' => s'
    | .error _ => s

def runCalls (calls : List (Nat × SaverCall V)) : Valkey :=
  calls.foldl (fun s c => c.2.apply lib saver s c.1) {}

abbrev Place := String × String × String

def SaverCall.place : SaverCall V → Option Place
  | .aput config checkpoint _ => some (config.threadId, config.checkpointNs, checkpoint.id)
  | .aputWrites config _ _ _ =>
    config.checkpointId.map fun cid => (config.threadId, config.checkpointNs, cid)

structure KeysApart (used : Set Place) : Prop where
  cp : ∀ a ∈ used, ∀ b ∈ used, saver.cp a.1 a.2.1 a.2.2 = saver.cp b.1 b.2.1 b.2.2 → a = b
  idx : ∀ a ∈ used, ∀ b ∈ used, saver.idx a.1 a.2.1 = saver.idx b.1 b.2.1 →
    a.1 = b.1 ∧ a.2.1 = b.2.1

/-- The calls come in order, and at time `t` no key has expired. -/
structure Unexpired (t : Nat) (calls : List (Nat × SaverCall V)) : Prop where
  sorted : calls.Pairwise fun c d => c.1 ≤ d.1
  live : ∀ c ∈ calls, c.1 ≤ t ∧ t < c.1 + saver.ttl

def Put.hash (put : Put V) : CheckpointHash :=
  let cp := lib.checkpointSerde.encode put.checkpoint
  let md := lib.metadataSerde.encode put.metadata
  { cpT := cp.1, cp := cp.2, mdT := md.1, md := md.2, parent := put.parent.getD "" }

/-- At time `t` the store holds at the places in use what the history says. -/
structure Stands (used : Set Place) (calls : List (SaverCall V)) (t : Nat) (s : Valkey) : Prop where
  checkpoint : ∀ a ∈ used, s.checkpoints.read t (saver.cp a.1 a.2.1 a.2.2) =
    (lastPut lib calls a.1 a.2.1 a.2.2).map (Put.hash lib)
  index : ∀ a ∈ used, (s.indexes.read t (saver.idx a.1 a.2.1)).getD ∅ = putIds lib calls a.1 a.2.1
  writes : ∀ a ∈ used, Holds lib (written lib calls a.1 a.2.1 a.2.2)
    ((s.writes.read t (saver.w a.1 a.2.1 a.2.2)).getD ∅)

end Runs

section Step

variable {V : Type} {lib : Libraries V} {saver : ValkeySaver} {used : Set Place}
  {calls : List (SaverCall V)} {call : SaverCall V} {s : Valkey} {now t : Nat}
  {thread ns cid : String} {config : RunnableConfig V} {checkpoint : Checkpoint V}
  {metadata : Metadata V} {writes : List (String × V)} {task path : String} {a b : Place}

theorem lastPut_snoc : lastPut lib (calls ++ [call]) thread ns cid =
    ((call.put lib thread ns).filter fun put => put.checkpoint.id = cid).or
      (lastPut lib calls thread ns cid) := by
  cases h : call.put lib thread ns with
  | none => simp [lastPut, puts, h]
  | some put =>
    by_cases hid : put.checkpoint.id = cid <;> simp [lastPut, puts, h, hid, Option.filter]

theorem putIds_snoc : putIds lib (calls ++ [call]) thread ns =
    ((call.put lib thread ns).map fun put => put.checkpoint.id).toFinset ∪
      putIds lib calls thread ns := by
  cases h : call.put lib thread ns with
  | none => simp [putIds, puts, h]
  | some put =>
    ext id
    simp [putIds, puts, h]

theorem written_snoc : written lib (calls ++ [call]) thread ns cid =
    written lib calls thread ns cid ++ call.slotWrites lib thread ns cid := by
  simp [written]

theorem KeysApart.w (h : KeysApart saver used) (ha : a ∈ used) (hb : b ∈ used)
    (heq : saver.w a.1 a.2.1 a.2.2 = saver.w b.1 b.2.1 b.2.2) : a = b := by
  refine h.cp a ha b hb (String.toList_inj.mp ?_)
  have hlist := congrArg String.toList heq
  simp only [ValkeySaver.w, ValkeySaver.cp, String.toList_append, List.append_assoc,
    List.append_cancel_left_eq] at hlist ⊢
  exact hlist

theorem getCheckpointId_getD : (getCheckpointId config).getD "" = config.checkpointId.getD "" := by
  unfold getCheckpointId
  cases config.checkpointId with
  | none => rfl
  | some cid => by_cases h : cid = "" <;> simp [Option.filter, h]

theorem Stands.aput (hapart : KeysApart saver used) (h : Stands lib saver used calls t s)
    (hnow : Stands lib saver used calls now s) (hlive : t < now + saver.ttl)
    (hplace : (config.threadId, config.checkpointNs, checkpoint.id) ∈ used) :
    Stands lib saver used (calls ++ [.aput config checkpoint metadata]) t
      (saver.aput lib now s config checkpoint metadata).2 := by
  refine ⟨fun a ha => ?_, fun a ha => ?_, fun a ha => ?_⟩
  · rw [lastPut_snoc]
    by_cases heq : (config.threadId, config.checkpointNs, checkpoint.id) = a
    · subst heq
      simp only [ValkeySaver.aput, Keyspace.read_expire, hlive, if_true, Keyspace.read_write]
      simp [SaverCall.put, Option.filter, Put.hash, getCheckpointId_getD]
    · have hne : saver.cp a.1 a.2.1 a.2.2 ≠
          saver.cp config.threadId config.checkpointNs checkpoint.id :=
        fun hkey => heq (hapart.cp a ha _ hplace hkey).symm
      have hother : ((SaverCall.aput config checkpoint metadata).put lib a.1 a.2.1).filter
          (fun put => put.checkpoint.id = a.2.2) = none := by
        refine Option.filter_eq_none_iff.mpr fun put hput hid => heq ?_
        simp only [SaverCall.put, Option.ite_none_right_eq_some, Option.some.injEq] at hput
        obtain ⟨⟨hthread, hns⟩, rfl⟩ := hput
        rw [hthread, hns, of_decide_eq_true hid]
      rw [hother, Option.none_or, ← h.checkpoint a ha]
      simp only [ValkeySaver.aput, Keyspace.read_expire_ne hne, Keyspace.read_write_ne hne]
  · rw [putIds_snoc]
    by_cases heq : config.threadId = a.1 ∧ config.checkpointNs = a.2.1
    · have hids := hnow.index a ha
      simp only [← heq.1, ← heq.2] at hids ⊢
      simp only [ValkeySaver.aput, Keyspace.read_expire, hlive, if_true, Keyspace.read_write]
      simp [SaverCall.put, hids]
    · have hne : saver.idx a.1 a.2.1 ≠ saver.idx config.threadId config.checkpointNs :=
        fun hkey => heq ((hapart.idx a ha _ hplace hkey).imp Eq.symm Eq.symm)
      simp only [SaverCall.put, heq, if_false]
      rw [← h.index a ha]
      simp [ValkeySaver.aput, Keyspace.read_expire_ne hne, Keyspace.read_write_ne hne]
  · rw [written_snoc, SaverCall.slotWrites, List.append_nil]
    exact h.writes a ha

theorem Stands.writesOnly (h : Stands lib saver used calls t s)
    {written' : Keyspace String (AList fun _ : String => Bytes)}
    (hwrites : ∀ a ∈ used, Holds lib (written lib
      (calls ++ [.aputWrites config writes task path]) a.1 a.2.1 a.2.2)
      ((written'.read t (saver.w a.1 a.2.1 a.2.2)).getD ∅)) :
    Stands lib saver used (calls ++ [.aputWrites config writes task path]) t
      { s with writes := written' } := by
  refine ⟨fun a ha => ?_, fun a ha => ?_, hwrites⟩
  · simpa [lastPut_snoc, SaverCall.put] using h.checkpoint a ha
  · simpa [putIds_snoc, SaverCall.put] using h.index a ha

theorem slotWrites_ne {a : Place} (hcid : config.checkpointId = some cid)
    (hne : (config.threadId, config.checkpointNs, cid) ≠ a) :
    (SaverCall.aputWrites config writes task path).slotWrites lib a.1 a.2.1 a.2.2 = [] := by
  refine if_neg ?_
  rintro ⟨hthread, hns, hid⟩
  rw [hcid] at hid
  exact hne (by rw [hthread, hns, Option.some.inj hid])

theorem Stands.aputWrites (hapart : KeysApart saver used) (h : Stands lib saver used calls t s)
    (hnow : Stands lib saver used calls now s) (hlive : t < now + saver.ttl)
    (hcid : config.checkpointId = some cid)
    (hplace : (config.threadId, config.checkpointNs, cid) ∈ used) :
    Stands lib saver used (calls ++ [.aputWrites config writes task path]) t
      (SaverCall.apply lib saver s now (.aputWrites config writes task path)) := by
  simp only [SaverCall.apply, ValkeySaver.aputWrites, hcid]
  have hown : (SaverCall.aputWrites config writes task path).slotWrites lib config.threadId
      config.checkpointNs cid = taskWrites lib task path writes := by
    simp [SaverCall.slotWrites, hcid]
  split_ifs with hempty
  · refine h.writesOnly fun a ha => ?_
    rw [written_snoc]
    by_cases heq : (config.threadId, config.checkpointNs, cid) = a
    · subst heq
      have happend : Holds lib (written lib calls config.threadId config.checkpointNs cid ++
          taskWrites lib task path writes) _ :=
        (h.writes _ hplace).append fun f => (hnow.writes _ hplace).mem_iff (h.writes _ hplace) f
      rw [hempty] at happend
      rw [hown]
      exact happend
    · rw [slotWrites_ne hcid heq, List.append_nil]
      exact h.writes a ha
  · refine h.writesOnly fun a ha => ?_
    rw [written_snoc]
    by_cases heq : (config.threadId, config.checkpointNs, cid) = a
    · subst heq
      simp only [Keyspace.read_expire, hlive, if_true, Keyspace.read_write, Option.getD_some]
      rw [hown]
      exact (hnow.writes _ hplace).append fun f => Iff.rfl
    · have hne : saver.w a.1 a.2.1 a.2.2 ≠ saver.w config.threadId config.checkpointNs cid :=
        fun hkey => heq (hapart.w ha hplace hkey).symm
      rw [slotWrites_ne hcid heq, List.append_nil, Keyspace.read_expire_ne hne,
        Keyspace.read_write_ne hne]
      exact h.writes a ha

theorem Stands.step (hapart : KeysApart saver used) (h : Stands lib saver used calls t s)
    (hnow : Stands lib saver used calls now s) (hlive : t < now + saver.ttl)
    (hplace : ∀ a, call.place = some a → a ∈ used) :
    Stands lib saver used (calls ++ [call]) t (call.apply lib saver s now) := by
  cases call with
  | aput config checkpoint metadata => exact h.aput hapart hnow hlive (hplace _ rfl)
  | aputWrites config writes task path =>
    cases hcid : config.checkpointId with
    | none =>
      have hstay : SaverCall.apply lib saver s now (.aputWrites config writes task path) = s := by
        simp [SaverCall.apply, ValkeySaver.aputWrites, hcid]
      rw [hstay]
      refine h.writesOnly fun a ha => ?_
      have hnone : (SaverCall.aputWrites config writes task path).slotWrites lib a.1 a.2.1 a.2.2 =
          [] := by
        simp [SaverCall.slotWrites, hcid]
      rw [written_snoc, hnone, List.append_nil]
      exact h.writes a ha
    | some cid =>
      exact h.aputWrites hapart hnow hlive hcid (hplace _ (by simp [SaverCall.place, hcid]))

theorem stands_run (hapart : KeysApart saver used) {calls : List (Nat × SaverCall V)}
    (hlive : Unexpired saver t calls) (hplace : ∀ c ∈ calls, ∀ a, c.2.place = some a → a ∈ used) :
    Stands lib saver used (calls.map Prod.snd) t (runCalls lib saver calls) := by
  induction calls using List.reverseRecOn generalizing t with
  | nil => exact ⟨fun _ _ => rfl, fun _ _ => rfl, fun _ _ => Holds.empty⟩
  | append_singleton calls c ih =>
    obtain ⟨hsorted, _, hlast⟩ := List.pairwise_append.mp hlive.sorted
    have hc := hlive.live c (by simp)
    have hplace' : ∀ d ∈ calls, ∀ a, d.2.place = some a → a ∈ used :=
      fun d hd => hplace d (List.mem_append_left _ hd)
    have hafter := ih ⟨hsorted, fun d hd => hlive.live d (List.mem_append_left _ hd)⟩ hplace'
    have hbefore := ih (t := c.1) ⟨hsorted, fun d hd => by
      have hd' := hlive.live d (List.mem_append_left _ hd)
      exact ⟨hlast d hd c (by simp), by omega⟩⟩ hplace'
    rw [List.map_append, List.map_singleton, runCalls, List.foldl_append]
    exact hafter.step hapart hbefore hc.2 (hplace c (by simp))

end Step

end Doci
