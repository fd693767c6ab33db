import Doci.Keyspace
import Doci.Glob
import Doci.Mime
import Mathlib.Data.Finset.Sort
import Mathlib.Data.List.AList
import Mathlib.Data.Prod.Lex
import Mathlib.Data.String.Basic

/-! `doci/workflows/checkpoint.py`: LangGraph checkpoints as Valkey hashes and sets. -/

namespace Doci

open Expiring

structure Codec (α β : Type) where
  encode : α → β
  decode : β → α
  decode_encode : ∀ a, decode (encode a) = a

section Saver

variable {V : Type}

/-- A JSON object: `none` is `None`. -/
abbrev Metadata (V : Type) := List (String × Option V)

/-- `metadata.get(k)`. -/
def Metadata.get (metadata : Metadata V) (k : String) : Option V := (metadata.lookup k).join

/-- `config["configurable"]`, and the `config["metadata"]` that is merged into a checkpoint's. -/
structure RunnableConfig (V : Type) where
  threadId : String
  checkpointNs : String := ""
  checkpointId : Option String := none
  metadata : Metadata V := []

structure Checkpoint (V : Type) where
  id : String
  channelValues : V
  deriving DecidableEq

structure CheckpointTuple (V : Type) where
  config : RunnableConfig V
  checkpoint : Checkpoint V
  metadata : Metadata V
  parentConfig : Option (RunnableConfig V)
  pendingWrites : List (String × String × V)

/-- `[task_id, channel, vt, vb, task_path]`. -/
structure PackedWrite where
  taskId : String
  channel : String
  valueType : String
  value : Bytes
  taskPath : String

/-- What the saver takes from LangGraph, msgpack and the Valkey client. `hashOrder` is the order in
which a hash lists its fields. -/
structure Libraries (V : Type) where
  checkpointSerde : Codec (Checkpoint V) (String × Bytes)
  metadataSerde : Codec (Metadata V) (String × Bytes)
  valueSerde : Codec V (String × Bytes)
  msgpack : Codec PackedWrite Bytes
  writesIdxMap : String → Option Int
  writesIdxMap_neg : ∀ channel slot, writesIdxMap channel = some slot → slot < 0
  getCheckpointMetadata : RunnableConfig V → Metadata V → Metadata V
  hashOrder : List (String × Bytes) → List (String × Bytes)
  hashOrder_perm : ∀ fields, (hashOrder fields).Perm fields

/-- The fields `aput` writes at once. -/
structure CheckpointHash where
  cpT : String
  cp : Bytes
  mdT : String
  md : Bytes
  parent : String

structure Valkey where
  checkpoints : Keyspace String CheckpointHash := .empty
  indexes : Keyspace String (Finset String) := .empty
  writes : Keyspace String (AList fun _ : String => Bytes) := .empty

structure ValkeySaver where
  ttl : Nat := 3 * 24 * 60 * 60
  keyPrefix : String := "doci:ckpt:"

def ValkeySaver.cp (saver : ValkeySaver) (thread ns cid : String) : String :=
  saver.keyPrefix ++ "cp:" ++ thread ++ ":" ++ ns ++ ":" ++ cid

def ValkeySaver.idx (saver : ValkeySaver) (thread ns : String) : String :=
  saver.keyPrefix ++ "idx:" ++ thread ++ ":" ++ ns

def ValkeySaver.w (saver : ValkeySaver) (thread ns cid : String) : String :=
  saver.keyPrefix ++ "w:" ++ thread ++ ":" ++ ns ++ ":" ++ cid

/-- An id that is not empty. -/
def getCheckpointId (config : RunnableConfig V) : Option String :=
  config.checkpointId.filter (· ≠ "")

variable (lib : Libraries V) (saver : ValkeySaver) (now : Nat)

def ValkeySaver.aput (s : Valkey) (config : RunnableConfig V) (checkpoint : Checkpoint V)
    (metadata : Metadata V) : RunnableConfig V × Valkey :=
  let thread := config.threadId
  let ns := config.checkpointNs
  let cid := checkpoint.id
  let parent := config.checkpointId.getD ""
  let cp := lib.checkpointSerde.encode checkpoint
  let md := lib.metadataSerde.encode (lib.getCheckpointMetadata config metadata)
  let cpKey := saver.cp thread ns cid
  let idxKey := saver.idx thread ns
  let hash := { cpT := cp.1, cp := cp.2, mdT := md.1, md := md.2, parent := parent }
  ({ threadId := thread, checkpointNs := ns, checkpointId := some cid },
    { s with
      checkpoints := (s.checkpoints.write now cpKey fun _ => hash).expire now saver.ttl cpKey
      indexes := (s.indexes.write now idxKey fun ids => insert cid (ids.getD ∅)).expire now
        saver.ttl idxKey })

def fieldOf (taskId : String) (slot : Int) : String := taskId ++ ":" ++ slot.repr

/-- The commands of `aput_writes`: a first write of a slot is not replaced, a special one is. -/
def writeCommands (existing : List String) (taskId taskPath : String) (writes : List (String × V)) :
    List (String × Bytes) :=
  writes.zipIdx.filterMap fun ((channel, value), idx) =>
    let widx := (lib.writesIdxMap channel).getD idx
    let field := fieldOf taskId widx
    if 0 ≤ widx ∧ field ∈ existing then none
    else
      let v := lib.valueSerde.encode value
      some (field, lib.msgpack.encode ⟨taskId, channel, v.1, v.2, taskPath⟩)

/-- `config["configurable"]["checkpoint_id"]` raises `KeyError` when the id is missing. -/
inductive SaverError where
  | missingCheckpointId

def ValkeySaver.aputWrites (s : Valkey) (config : RunnableConfig V) (writes : List (String × V))
    (taskId taskPath : String) : Except SaverError Valkey :=
  match config.checkpointId with
  | none => .error .missingCheckpointId
  | some cid =>
    let wKey := saver.w config.threadId config.checkpointNs cid
    let existing := ((s.writes.read now wKey).getD ∅).keys
    let commands := writeCommands lib existing taskId taskPath writes
    if commands = [] then .ok s
    else
      let written := s.writes.write now wKey fun hash =>
        commands.foldl (fun hash c => hash.insert c.1 c.2) (hash.getD ∅)
      .ok { s with writes := written.expire now saver.ttl wKey }

def ValkeySaver.latest (s : Valkey) (thread ns : String) : Option String :=
  let ids := (s.indexes.read now (saver.idx thread ns)).getD ∅
  if h : ids.Nonempty then some (ids.max' h) else none

/-- `int(field.rsplit(":", 1)[1])`. -/
def slotOf (field : String) : Int :=
  let suffix := (field.toList.reverse.takeWhile (· ≠ ':')).reverse
  ((String.ofList suffix).toInt?).getD 0

/-- The rows of a hash of pending writes: field, task, channel and value. -/
def writeRows (fields : AList fun _ : String => Bytes) : List (String × String × String × V) :=
  (lib.hashOrder (fields.entries.map fun e => (e.1, e.2))).map fun (field, packed) =>
    let row := lib.msgpack.decode packed
    (field, row.taskId, row.channel, lib.valueSerde.decode (row.valueType, row.value))

def rowLe (r r' : String × String × String × V) : Bool :=
  decide (toLex (r.2.1, slotOf r.1) ≤ toLex (r'.2.1, slotOf r'.1))

def ValkeySaver.pendingWrites (s : Valkey) (thread ns cid : String) :
    List (String × String × V) :=
  let raw := (s.writes.read now (saver.w thread ns cid)).getD ∅
  ((writeRows lib raw).mergeSort rowLe).map fun row => row.2

def ValkeySaver.agetTuple (s : Valkey) (config : RunnableConfig V) : Option (CheckpointTuple V) := do
  let thread := config.threadId
  let ns := config.checkpointNs
  let cid ← (getCheckpointId config).or (saver.latest now s thread ns)
  let data ← s.checkpoints.read now (saver.cp thread ns cid)
  return {
    config := { threadId := thread, checkpointNs := ns, checkpointId := some cid }
    checkpoint := lib.checkpointSerde.decode (data.cpT, data.cp)
    metadata := lib.metadataSerde.decode (data.mdT, data.md)
    parentConfig :=
      if data.parent = "" then none
      else some { threadId := thread, checkpointNs := ns, checkpointId := some data.parent }
    pendingWrites := saver.pendingWrites lib now s thread ns cid }

variable [DecidableEq V]

instance string_ge_trans : IsTrans String (· ≥ ·) := ⟨fun _ _ _ h h' => le_trans h' h⟩

instance string_ge_antisymm : Std.Antisymm (fun a b : String => a ≥ b) := ⟨fun _ _ h h' => le_antisymm h' h⟩

/-- An empty filter is none. -/
def passes (filter : Option (Metadata V)) (metadata : Metadata V) : Bool :=
  (filter.getD []).all fun (k, v) => decide (metadata.get k = v)

/-- The loop of `alist` over the sorted ids. -/
def ValkeySaver.alistLoop (s : Valkey) (thread ns : String) (onlyId beforeId : Option String)
    (filter : Option (Metadata V)) : Option Int → List String → List (CheckpointTuple V)
  | _, [] => []
  | limit, cid :: ids =>
    if onlyId.any (cid ≠ ·) || beforeId.any (· ≤ cid) then
      ValkeySaver.alistLoop s thread ns onlyId beforeId filter limit ids
    else
      match saver.agetTuple lib now s
        { threadId := thread, checkpointNs := ns, checkpointId := some cid } with
      | none => ValkeySaver.alistLoop s thread ns onlyId beforeId filter limit ids
      | some tup =>
        if ¬ passes filter tup.metadata then
          ValkeySaver.alistLoop s thread ns onlyId beforeId filter limit ids
        else
          match limit with
          | none => tup :: ValkeySaver.alistLoop s thread ns onlyId beforeId filter none ids
          | some n =>
            if n ≤ 0 then []
            else tup :: ValkeySaver.alistLoop s thread ns onlyId beforeId filter (some (n - 1)) ids

def ValkeySaver.alist (s : Valkey) (config : Option (RunnableConfig V))
    (filter : Option (Metadata V)) (before : Option (RunnableConfig V)) (limit : Option Int) :
    List (CheckpointTuple V) :=
  match config with
  | none => []
  | some config =>
    let thread := config.threadId
    let ns := config.checkpointNs
    let members := (s.indexes.read now (saver.idx thread ns)).getD ∅
    saver.alistLoop lib now s thread ns (getCheckpointId config) (before.bind getCheckpointId) filter
      limit (members.sort (· ≥ ·))

end Saver

def utf8 (text : String) : Bytes := text.toList.flatMap String.utf8EncodeChar

/-- Every key that matches the pattern is deleted, and the index of the default namespace. -/
def ValkeySaver.adeleteThread (saver : ValkeySaver) (s : Valkey) (threadId : String) : Valkey :=
  let pattern := saver.keyPrefix ++ "*:" ++ threadId ++ ":*"
  let doomed (key : String) : Bool :=
    Glob.matchesText (utf8 pattern) (utf8 key) || key = saver.idx threadId ""
  { checkpoints := s.checkpoints.delete doomed
    indexes := s.indexes.delete doomed
    writes := s.writes.delete doomed }

end Doci
