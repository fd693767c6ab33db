import Doci.CheckpointReads

/-! `langgraph_meta` of `doci/workflows/runtime.py`: the deadline that is recorded for a checkpoint,
against the lifetime of its keys. -/

namespace Doci

open Expiring

structure SaverPut (V : Type) where
  time : Nat
  config : RunnableConfig V
  checkpoint : Checkpoint V
  metadata : Metadata V

structure CheckpointMeta where
  threadId : String
  checkpointId : Option String
  checkpointDeadline : Option Nat
  deriving DecidableEq

section Deadline

variable {V : Type} (lib : Libraries V) (saver : ValkeySaver)

def ValkeySaver.langgraphMeta (now : Nat) (s : Valkey) (threadId : String) : CheckpointMeta :=
  let tup := saver.agetTuple lib now s { threadId := threadId, checkpointNs := "" }
  let checkpointId := tup.bind fun tup => tup.config.checkpointId
  { threadId := threadId
    checkpointId := checkpointId
    checkpointDeadline := checkpointId.map fun _ => now + saver.ttl }

def SaverPut.cpKey (p : SaverPut V) : String :=
  saver.cp p.config.threadId p.config.checkpointNs p.checkpoint.id

def SaverPut.idxKey (p : SaverPut V) : String :=
  saver.idx p.config.threadId p.config.checkpointNs

def runSaver (puts : List (SaverPut V)) : Valkey :=
  puts.foldl (fun s p => (saver.aput lib p.time s p.config p.checkpoint p.metadata).2) {}

/-- When a key was written last. -/
def lastAt (keyOf : SaverPut V → String) (puts : List (SaverPut V)) (key : String) : Option Nat :=
  (puts.reverse.find? fun p => keyOf p = key).map SaverPut.time

/-- The checkpoint that is there for the id until the deadline, as it is now. -/
def HeldUntil (s : Valkey) (thread cid : String) (now deadline : Nat) : Prop :=
  ∃ checkpoint, ∀ t, now ≤ t → t < deadline →
    (saver.agetTuple lib t s { threadId := thread, checkpointNs := "", checkpointId := some cid }).map
      CheckpointTuple.checkpoint = some checkpoint

variable {lib saver} {puts : List (SaverPut V)} {key thread cid : String} {now t : Nat} {s : Valkey}

theorem runSaver_concat (p : SaverPut V) : runSaver lib saver (puts ++ [p]) =
    (saver.aput lib p.time (runSaver lib saver puts) p.config p.checkpoint p.metadata).2 := by
  simp [runSaver]

/-- A keyspace in which every put writes one key and sets its deadline. -/
theorem runSaver_entry {W : Type} {space : Valkey → Keyspace String W} {keyOf : SaverPut V → String}
    {value : SaverPut V → Option W → W} (hempty : space {} = .empty)
    (hput : ∀ s p, space (saver.aput lib p.time s p.config p.checkpoint p.metadata).2 =
      ((space s).write p.time (keyOf p) (value p)).expire p.time saver.ttl (keyOf p)) (key : String) :
    (lastAt keyOf puts key = none ∧ (space (runSaver lib saver puts)).entry key = none) ∨
    ∃ w time, lastAt keyOf puts key = some time ∧
      (space (runSaver lib saver puts)).entry key = some ⟨w, some (time + saver.ttl)⟩ := by
  induction puts using List.reverseRecOn with
  | nil => exact .inl ⟨rfl, by rw [runSaver, List.foldl_nil, hempty]; rfl⟩
  | append_singleton puts p ih =>
    rw [runSaver_concat, hput, Keyspace.entry_write_expire]
    by_cases hkey : key = keyOf p
    · exact .inr ⟨_, p.time, by simp [lastAt, hkey], if_pos hkey⟩
    · have hlast : lastAt keyOf (puts ++ [p]) key = lastAt keyOf puts key := by
        simp [lastAt, Ne.symm hkey]
      rw [hlast, if_neg hkey]
      exact ih

theorem runSaver_checkpoints (lib : Libraries V) (saver : ValkeySaver) (puts : List (SaverPut V))
    (key : String) :
    (lastAt (SaverPut.cpKey saver) puts key = none ∧
      (runSaver lib saver puts).checkpoints.entry key = none) ∨
    ∃ hash time, lastAt (SaverPut.cpKey saver) puts key = some time ∧
      (runSaver lib saver puts).checkpoints.entry key = some ⟨hash, some (time + saver.ttl)⟩ :=
  runSaver_entry rfl (fun _ _ => rfl) key

theorem runSaver_indexes (lib : Libraries V) (saver : ValkeySaver) (puts : List (SaverPut V))
    (key : String) :
    (lastAt (SaverPut.idxKey saver) puts key = none ∧
      (runSaver lib saver puts).indexes.entry key = none) ∨
    ∃ ids time, lastAt (SaverPut.idxKey saver) puts key = some time ∧
      (runSaver lib saver puts).indexes.entry key = some ⟨ids, some (time + saver.ttl)⟩ :=
  runSaver_entry rfl (fun _ _ => rfl) key

theorem lastAt_le {keyOf : SaverPut V → String} {time : Nat} (hnow : ∀ p ∈ puts, p.time ≤ now)
    (h : lastAt keyOf puts key = some time) : time ≤ now := by
  obtain ⟨p, hfind, rfl⟩ := Option.map_eq_some_iff.mp h
  exact hnow p (List.mem_reverse.mp (List.mem_of_find?_eq_some hfind))

/-- The tuple's checkpoint when hash and index have these deadlines. -/
theorem checkpoint_at {hash : CheckpointHash} {ids : Finset String} {put indexed : Nat}
    (hcp : s.checkpoints.entry (saver.cp thread "" cid) = some ⟨hash, some (put + saver.ttl)⟩)
    (hidx : s.indexes.entry (saver.idx thread "") = some ⟨ids, some (indexed + saver.ttl)⟩)
    (hids : ids.Nonempty) (hmax : ids.max' hids = cid) (t : Nat) :
    (saver.agetTuple lib t s { threadId := thread, checkpointNs := "", checkpointId := some cid }).map
        CheckpointTuple.checkpoint =
      if t < put + saver.ttl ∧ (cid = "" → t < indexed + saver.ttl) then
        some (lib.checkpointSerde.decode (hash.cpT, hash.cp))
      else none := by
  have hread : s.checkpoints.read t (saver.cp thread "" cid) =
      if t < put + saver.ttl then some hash else none := by
    rw [Keyspace.read_of_entry hcp]
    simp [Entry.live]
  have hlatest : saver.latest t s thread "" = if t < indexed + saver.ttl then some cid else none := by
    rw [ValkeySaver.latest, Keyspace.read_of_entry hidx]
    by_cases hlive : t < indexed + saver.ttl <;> simp [Entry.live, hlive, hids, hmax]
  by_cases hempty : cid = ""
  · by_cases hlive : t < indexed + saver.ttl
    · by_cases hheld : t < put + saver.ttl <;>
        simp [ValkeySaver.agetTuple, getCheckpointId, hempty ▸ hread, hlatest, hempty, hlive, hheld, Option.filter]
    · simp [ValkeySaver.agetTuple, getCheckpointId, hlatest, hempty, hlive, Option.filter]
  · by_cases hheld : t < put + saver.ttl <;>
      simp [ValkeySaver.agetTuple, getCheckpointId, hread, hempty, hheld, Option.filter]

/-- What a recorded checkpoint says of the keys. -/
theorem recorded_entries {deadline : Nat}
    (h : saver.langgraphMeta lib now (runSaver lib saver puts) thread =
      ⟨thread, some cid, some deadline⟩) :
    deadline = now + saver.ttl ∧ ∃ hash ids put indexed, ∃ hids : ids.Nonempty,
      ids.max' hids = cid ∧ now < put + saver.ttl ∧
      lastAt (SaverPut.cpKey saver) puts (saver.cp thread "" cid) = some put ∧
      (runSaver lib saver puts).checkpoints.entry (saver.cp thread "" cid) =
        some ⟨hash, some (put + saver.ttl)⟩ ∧
      lastAt (SaverPut.idxKey saver) puts (saver.idx thread "") = some indexed ∧
      (runSaver lib saver puts).indexes.entry (saver.idx thread "") =
        some ⟨ids, some (indexed + saver.ttl)⟩ := by
  simp only [ValkeySaver.langgraphMeta, CheckpointMeta.mk.injEq, true_and] at h
  obtain ⟨hcid, hdeadline⟩ := h
  rw [hcid, Option.map_some, Option.some.injEq] at hdeadline
  obtain ⟨tup, htup, hid⟩ := Option.bind_eq_some_iff.mp hcid
  simp only [ValkeySaver.agetTuple, getCheckpointId, Option.filter_none, Option.none_or,
    Option.bind_eq_bind, Option.bind_eq_some_iff] at htup
  obtain ⟨latest, hlatest, data, hread, htup⟩ := htup
  obtain rfl : latest = cid := by
    simp only [Option.pure_def, Option.some.injEq] at htup
    subst htup
    simpa using hid
  refine ⟨hdeadline.symm, ?_⟩
  obtain ⟨_, hnone⟩ | ⟨ids, indexed, hindexed, hidx⟩ := runSaver_indexes lib saver puts
    (saver.idx thread "")
  · simp [ValkeySaver.latest, Keyspace.read, Keyspace.liveEntry, hnone] at hlatest
  obtain ⟨_, hnone⟩ | ⟨hash, put, hput, hcp⟩ := runSaver_checkpoints lib saver puts
    (saver.cp thread "" latest)
  · simp [Keyspace.read, Keyspace.liveEntry, hnone] at hread
  rw [Keyspace.read_of_entry hcp] at hread
  rw [ValkeySaver.latest, Keyspace.read_of_entry hidx] at hlatest
  have hlive : now < put + saver.ttl := by
    by_contra hdead
    simp [Entry.live, hdead] at hread
  by_cases hindex : now < indexed + saver.ttl
  · simp only [Entry.live, Option.all_some, hindex, decide_true, if_true, Option.getD_some,
      Option.dite_none_right_eq_some, Option.some.injEq] at hlatest
    obtain ⟨hids, hmax⟩ := hlatest
    exact ⟨hash, ids, put, indexed, hids, hmax, hlive, hput, hcp, hindexed, hidx⟩
  · simp [Entry.live, hindex] at hlatest

/-- The deadline is counted from the time at which the metadata is captured, the keys live from
the last put: the checkpoint is there until the recorded deadline exactly when no time has passed
between the two. -/
theorem deadline_honoured_iff {deadline : Nat} (hnow : ∀ p ∈ puts, p.time ≤ now)
    (h : saver.langgraphMeta lib now (runSaver lib saver puts) thread =
      ⟨thread, some cid, some deadline⟩) :
    HeldUntil lib saver (runSaver lib saver puts) thread cid now deadline ↔
      lastAt (SaverPut.cpKey saver) puts (saver.cp thread "" cid) = some now ∧
      (cid = "" → lastAt (SaverPut.idxKey saver) puts (saver.idx thread "") = some now) := by
  obtain ⟨rfl, hash, ids, put, indexed, hids, hmax, hlive, hput, hcp, hindexed, hidx⟩ :=
    recorded_entries h
  have hput_now := lastAt_le hnow hput
  have hindexed_now := lastAt_le hnow hindexed
  simp only [HeldUntil, checkpoint_at hcp hidx hids hmax, hput, hindexed, Option.some.injEq]
  constructor
  · rintro ⟨checkpoint, hheld⟩
    have hlast := hheld (now + saver.ttl - 1) (by omega) (by omega)
    simp only [Option.ite_none_right_eq_some] at hlast
    obtain ⟨⟨hput', hindexed'⟩, _⟩ := hlast
    exact ⟨by omega, fun hempty => by have := hindexed' hempty; omega⟩
  · rintro ⟨rfl, hsame⟩
    refine ⟨lib.checkpointSerde.decode (hash.cpT, hash.cp), fun t _ ht => if_pos ⟨ht, fun hempty => ?_⟩⟩
    rw [hsame hempty]
    exact ht

end Deadline

section Example

def onePut : List (SaverPut Unit) := [⟨0, { threadId := "t", checkpointNs := "" }, ⟨"a", ()⟩, []⟩]

theorem deadline_honoured_at_once :
    HeldUntil unitLibraries { ttl := 10 } (runSaver unitLibraries { ttl := 10 } onePut) "t" "a" 0 10 :=
  (deadline_honoured_iff (by decide) (by decide)).mpr (by decide)

/-- The metadata is captured three seconds after the put and promises three seconds too many. -/
theorem deadline_missed :
    ({ ttl := 10 } : ValkeySaver).langgraphMeta unitLibraries 3
        (runSaver unitLibraries { ttl := 10 } onePut) "t" = ⟨"t", some "a", some 13⟩ ∧
      ({ ttl := 10 } : ValkeySaver).agetTuple unitLibraries 10
        (runSaver unitLibraries { ttl := 10 } onePut)
        { threadId := "t", checkpointNs := "", checkpointId := some "a" } = none := by
  constructor <;> rfl

end Example

end Doci
