import Doci.CheckpointReads

/-! Checkpoints of one thread and namespace over time: the index is refreshed by every put while
the hashes of older checkpoints expire under it. -/

namespace Doci

open Expiring

/-- A call of `aput` on the thread and namespace at hand. -/
structure TimedPut (V : Type) where
  time : Nat
  parent : Option String
  configMetadata : Metadata V
  checkpoint : Checkpoint V
  metadata : Metadata V

section Expiry

variable {V : Type} (lib : Libraries V) (saver : ValkeySaver) (thread ns : String)

def TimedPut.config (p : TimedPut V) : RunnableConfig V :=
  { threadId := thread, checkpointNs := ns, checkpointId := p.parent, metadata := p.configMetadata }

def TimedPut.put (p : TimedPut V) : Put V :=
  let config := p.config thread ns
  ⟨p.checkpoint, lib.getCheckpointMetadata config p.metadata, getCheckpointId config⟩

def TimedPut.tuple (p : TimedPut V) : CheckpointTuple V :=
  (p.put lib thread ns).tuple thread ns p.checkpoint.id []

def TimedPut.alive (t : Nat) (p : TimedPut V) : Bool := decide (t < p.time + saver.ttl)

def runPuts (puts : List (TimedPut V)) : Valkey :=
  puts.foldl (fun s p =>
    (saver.aput lib p.time s (p.config thread ns) p.checkpoint p.metadata).2) {}

structure Increasing (puts : List (TimedPut V)) : Prop where
  times : puts.Pairwise fun p q => p.time ≤ q.time
  ids : puts.Pairwise fun p q => p.checkpoint.id < q.checkpoint.id

structure Members (puts : List (TimedPut V)) (last : TimedPut V) (ids : Finset String) : Prop where
  put : ∀ cid ∈ ids, ∃ p ∈ puts, p.checkpoint.id = cid
  kept : ∀ p ∈ puts, last.time < p.time + saver.ttl → p.checkpoint.id ∈ ids

structure Timely (puts : List (TimedPut V)) (s : Valkey) : Prop where
  checkpoint : ∀ t, (∀ p ∈ puts, p.time ≤ t) → ∀ cid,
    s.checkpoints.read t (saver.cp thread ns cid) =
      ((puts.find? fun p => p.checkpoint.id = cid).filter (TimedPut.alive saver t)).map
        fun p => (p.put lib thread ns).hash lib
  index : ∀ t, (∀ p ∈ puts, p.time ≤ t) → puts = [] →
    s.indexes.read t (saver.idx thread ns) = none
  members : ∀ last, puts.getLast? = some last → ∃ ids, Members saver puts last ids ∧
    ∀ t, (∀ p ∈ puts, p.time ≤ t) → s.indexes.read t (saver.idx thread ns) =
      if last.alive saver t then some ids else none
  writes : ∀ t key, s.writes.read t key = none

end Expiry

section Proofs

variable {V : Type} {lib : Libraries V} {saver : ValkeySaver} {thread ns cid cid' : String}
  {puts : List (TimedPut V)} {p last : TimedPut V} {s : Valkey} {t : Nat} {ids : Finset String}

theorem cp_inj : saver.cp thread ns cid = saver.cp thread ns cid' ↔ cid = cid' := by
  simp only [ValkeySaver.cp, String.append_right_inj]

theorem pairwise_getLast? {α : Type} {R : α → α → Prop} {l : List α} {a b : α}
    (h : l.Pairwise R) (hb : l.getLast? = some b) (ha : a ∈ l) : a = b ∨ R a b := by
  obtain ⟨init, rfl⟩ := List.getLast?_eq_some_iff.mp hb
  rcases List.mem_append.mp ha with ha | ha
  · exact .inr ((List.pairwise_append.mp h).2.2 a ha b List.mem_cons_self)
  · exact .inl (List.mem_singleton.mp ha)

theorem Timely.start : Timely lib saver thread ns ([] : List (TimedPut V)) {} :=
  ⟨fun _ _ _ => rfl, fun _ _ _ => rfl, fun _ h => (by cases h), fun _ _ => rfl⟩

theorem Timely.checkpoint_step (h : Timely lib saver thread ns puts s)
    (hless : ∀ q ∈ puts, q.checkpoint.id < p.checkpoint.id)
    (ht : ∀ q ∈ puts ++ [p], q.time ≤ t) :
    (saver.aput lib p.time s (p.config thread ns) p.checkpoint p.metadata).2.checkpoints.read t
        (saver.cp thread ns cid) =
      (((puts ++ [p]).find? fun q => q.checkpoint.id = cid).filter (TimedPut.alive saver t)).map
        fun q => (q.put lib thread ns).hash lib := by
  by_cases hcid : cid = p.checkpoint.id
  · subst hcid
    have hnone : (puts.find? fun q => q.checkpoint.id = p.checkpoint.id) = none := by
      refine List.find?_eq_none.mpr fun q hq => ?_
      simpa using (hless q hq).ne
    rw [List.find?_append, hnone, Option.none_or]
    by_cases hlive : t < p.time + saver.ttl
    · simp [ValkeySaver.aput, TimedPut.config, Keyspace.read_expire, Keyspace.read_write, hlive,
        TimedPut.alive, TimedPut.put, Put.hash, Option.filter, getCheckpointId_getD]
    · simp [ValkeySaver.aput, TimedPut.config, Keyspace.read_expire, hlive, TimedPut.alive,
        Option.filter]
  · have hne : saver.cp thread ns cid ≠ saver.cp thread ns p.checkpoint.id :=
      fun hkey => hcid (cp_inj.mp hkey)
    have hsame : ((puts ++ [p]).find? fun q => q.checkpoint.id = cid) =
        puts.find? fun q => q.checkpoint.id = cid := by
      simp [List.find?_append, Ne.symm hcid]
    rw [hsame, ← h.checkpoint t fun q hq => ht q (List.mem_append_left _ hq)]
    simp only [ValkeySaver.aput, TimedPut.config, Keyspace.read_expire_ne hne,
      Keyspace.read_write_ne hne]

theorem Timely.members_step (h : Timely lib saver thread ns puts s)
    (hinc : puts.Pairwise fun p q => p.time ≤ q.time) (hbefore : ∀ q ∈ puts, q.time ≤ p.time) :
    Members saver (puts ++ [p]) p
      (insert p.checkpoint.id ((s.indexes.read p.time (saver.idx thread ns)).getD ∅)) := by
  cases hlast : puts.getLast? with
  | none =>
    obtain rfl := List.getLast?_eq_none_iff.mp hlast
    rw [h.index p.time hbefore rfl]
    exact ⟨by simp, by simp⟩
  | some last =>
    obtain ⟨ids, hmembers, hread⟩ := h.members last hlast
    rw [hread p.time hbefore]
    have hmem := List.mem_of_getLast? hlast
    refine ⟨fun cid hcid => ?_, fun q hq hkept => ?_⟩
    · rcases Finset.mem_insert.mp hcid with rfl | hcid
      · exact ⟨p, by simp, rfl⟩
      · split at hcid
        · obtain ⟨q, hq, rfl⟩ := hmembers.put cid hcid
          exact ⟨q, List.mem_append_left _ hq, rfl⟩
        · simp at hcid
    · rcases List.mem_append.mp hq with hq | hq
      · have hq_last : q.time ≤ last.time := by
          rcases pairwise_getLast? hinc hlast hq with rfl | hle
          · exact le_rfl
          · exact hle
        have hlast_p := hbefore last hmem
        have hlive : last.alive saver p.time = true := by
          simp only [TimedPut.alive, decide_eq_true_eq]
          omega
        rw [if_pos hlive]
        exact Finset.mem_insert_of_mem (hmembers.kept q hq (by omega))
      · rw [List.mem_singleton.mp hq]
        exact Finset.mem_insert_self _ _

theorem Timely.step (h : Timely lib saver thread ns puts s) (hinc : Increasing (puts ++ [p])) :
    Timely lib saver thread ns (puts ++ [p])
      (saver.aput lib p.time s (p.config thread ns) p.checkpoint p.metadata).2 := by
  obtain ⟨hsorted, _, htimes⟩ := List.pairwise_append.mp hinc.times
  obtain ⟨_, _, hids⟩ := List.pairwise_append.mp hinc.ids
  have hless : ∀ q ∈ puts, q.checkpoint.id < p.checkpoint.id :=
    fun q hq => hids q hq p List.mem_cons_self
  have hmembers := h.members_step hsorted fun q hq => htimes q hq p List.mem_cons_self
  refine ⟨fun t ht cid => h.checkpoint_step hless ht, fun _ _ hnil => by simp at hnil,
    fun last hlast => ?_, h.writes⟩
  obtain rfl : p = last := by simpa using hlast
  refine ⟨_, hmembers, fun t ht => ?_⟩
  by_cases hlive : t < p.time + saver.ttl
  · simp [ValkeySaver.aput, TimedPut.config, Keyspace.read_expire, Keyspace.read_write, hlive,
      TimedPut.alive]
  · simp [ValkeySaver.aput, TimedPut.config, Keyspace.read_expire, hlive, TimedPut.alive]

theorem timely_run (hinc : Increasing puts) :
    Timely lib saver thread ns puts (runPuts lib saver thread ns puts) := by
  induction puts using List.reverseRecOn with
  | nil => exact Timely.start
  | append_singleton puts p ih =>
    have hbefore : Increasing puts :=
      ⟨(List.pairwise_append.mp hinc.times).1, (List.pairwise_append.mp hinc.ids).1⟩
    rw [runPuts, List.foldl_append]
    exact (ih hbefore).step hinc

theorem find?_id (hinc : Increasing puts) (hp : p ∈ puts) :
    (puts.find? fun q => q.checkpoint.id = p.checkpoint.id) = some p := by
  have hids := hinc.ids
  induction puts with
  | nil => cases hp
  | cons q puts ih =>
    obtain ⟨hless, hrest⟩ := List.pairwise_cons.mp hids
    rcases List.mem_cons.mp hp with rfl | hp
    · simp
    · have hne := (hless p hp).ne
      rw [List.find?_cons_of_neg (by simpa using hne)]
      exact ih ⟨(List.pairwise_cons.mp hinc.times).2, hrest⟩ hp hrest

def livePut (saver : ValkeySaver) (puts : List (TimedPut V)) (t : Nat) (cid : String) :
    Option (TimedPut V) :=
  (puts.find? fun p => p.checkpoint.id = cid).filter (TimedPut.alive saver t)

theorem mem_livePut (hinc : Increasing puts) :
    livePut saver puts t cid = some p ↔ p ∈ puts ∧ p.alive saver t = true ∧ p.checkpoint.id = cid := by
  simp only [livePut, Option.filter_eq_some_iff]
  constructor
  · rintro ⟨hfind, halive⟩
    exact ⟨List.mem_of_find?_eq_some hfind, halive, by simpa using List.find?_some hfind⟩
  · rintro ⟨hp, halive, rfl⟩
    exact ⟨find?_id hinc hp, halive⟩

theorem Timely.tuple {config : RunnableConfig V}
    (h : Timely lib saver config.threadId config.checkpointNs puts s)
    (ht : ∀ p ∈ puts, p.time ≤ t) (hinc : Increasing puts)
    (hcid : (getCheckpointId config).or (saver.latest t s config.threadId config.checkpointNs) =
      some cid) :
    saver.agetTuple lib t s config =
      (livePut saver puts t cid).map (TimedPut.tuple lib config.threadId config.checkpointNs) := by
  have hread : s.checkpoints.read t (saver.cp config.threadId config.checkpointNs cid) =
      ((livePut saver puts t cid).map (TimedPut.put lib config.threadId config.checkpointNs)).map
        (Put.hash lib) := by
    rw [Option.map_map]
    exact h.checkpoint t ht cid
  have hpending : saver.pendingWrites lib t s config.threadId config.checkpointNs cid = [] := by
    have hempty : writeRows lib (∅ : AList fun _ : String => Bytes) = [] := by
      rw [writeRows, List.map_eq_nil_iff, ← List.perm_nil]
      exact lib.hashOrder_perm _
    rw [ValkeySaver.pendingWrites, h.writes, Option.getD_none, hempty, List.mergeSort_nil,
      List.map_nil]
  have hparent : ∀ put, (livePut saver puts t cid).map
      (TimedPut.put lib config.threadId config.checkpointNs) = some put →
      put.parent.filter (· ≠ "") = put.parent := by
    intro put hput
    obtain ⟨p, _, rfl⟩ := Option.map_eq_some_iff.mp hput
    simp only [TimedPut.put, getCheckpointId, Option.filter_filter, Bool.and_self]
  rw [agetTuple_eq hcid hread hparent, hpending, Option.map_map]
  refine Option.map_congr fun p hp => ?_
  obtain ⟨_, _, rfl⟩ := (mem_livePut hinc).mp hp
  rfl

theorem Timely.indexed (h : Timely lib saver thread ns puts s) (ht : ∀ p ∈ puts, p.time ≤ t)
    (hcid : cid ∈ (s.indexes.read t (saver.idx thread ns)).getD ∅) :
    ∃ p ∈ puts, p.checkpoint.id = cid := by
  cases hlast : puts.getLast? with
  | none =>
    rw [h.index t ht (List.getLast?_eq_none_iff.mp hlast)] at hcid
    simp at hcid
  | some last =>
    obtain ⟨ids, hmembers, hread⟩ := h.members last hlast
    rw [hread t ht] at hcid
    split at hcid
    · exact hmembers.put cid hcid
    · simp at hcid

theorem Members.max (h : Members saver puts last ids) (hinc : Increasing puts)
    (hlast : puts.getLast? = some last) (hmem : last.checkpoint.id ∈ ids) (hne : ids.Nonempty) :
    ids.max' hne = last.checkpoint.id := by
  refine le_antisymm (ids.max'_le hne _ fun cid hcid => ?_) (ids.le_max' _ hmem)
  obtain ⟨p, hp, rfl⟩ := h.put cid hcid
  rcases pairwise_getLast? hinc.ids hlast hp with rfl | hlt
  · exact le_rfl
  · exact hlt.le

theorem Timely.latest (h : Timely lib saver thread ns puts s) (ht : ∀ p ∈ puts, p.time ≤ t)
    (hinc : Increasing puts) : saver.latest t s thread ns =
      (puts.getLast?.filter (TimedPut.alive saver t)).map fun p => p.checkpoint.id := by
  cases hlast : puts.getLast? with
  | none =>
    rw [ValkeySaver.latest, h.index t ht (List.getLast?_eq_none_iff.mp hlast)]
    simp
  | some last =>
    obtain ⟨ids, hmembers, hread⟩ := h.members last hlast
    have hmem := List.mem_of_getLast? hlast
    have hlast_t := ht last hmem
    rw [ValkeySaver.latest, hread t ht]
    by_cases hlive : last.alive saver t = true
    · have hkept : last.checkpoint.id ∈ ids := by
        refine hmembers.kept last hmem ?_
        simp only [TimedPut.alive, decide_eq_true_eq] at hlive
        omega
      simp only [hlive, if_true, Option.getD_some, Option.filter, Option.map_some]
      rw [dif_pos ⟨_, hkept⟩, hmembers.max hinc hlast hkept]
    · simp [hlive, Option.filter]

theorem Timely.listed (h : Timely lib saver thread ns puts s) (ht : ∀ p ∈ puts, p.time ≤ t)
    (hinc : Increasing puts) :
    (((s.indexes.read t (saver.idx thread ns)).getD ∅).sort (· ≥ ·)).filterMap (livePut saver puts t) =
      puts.reverse.filter (TimedPut.alive saver t) := by
  have hmem : ∀ p, p ∈ puts → p.alive saver t = true →
      p.checkpoint.id ∈ (s.indexes.read t (saver.idx thread ns)).getD ∅ := by
    intro p hp halive
    obtain ⟨last, hlast⟩ : ∃ last, puts.getLast? = some last :=
      Option.ne_none_iff_exists'.mp fun hnone =>
        List.ne_nil_of_mem hp (List.getLast?_eq_none_iff.mp hnone)
    obtain ⟨ids, hmembers, hread⟩ := h.members last hlast
    have hlast_t := ht last (List.mem_of_getLast? hlast)
    have hp_last : p.time ≤ last.time := by
      rcases pairwise_getLast? hinc.times hlast hp with rfl | hle
      · exact le_rfl
      · exact hle
    simp only [TimedPut.alive, decide_eq_true_eq] at halive
    have hlive : last.alive saver t = true := by
      simp only [TimedPut.alive, decide_eq_true_eq]
      omega
    rw [hread t ht, if_pos hlive]
    exact hmembers.kept p hp (by omega)
  have hsorted : ((((s.indexes.read t (saver.idx thread ns)).getD ∅).sort (· ≥ ·)).filterMap
      (livePut saver puts t)).Pairwise fun p q => q.checkpoint.id < p.checkpoint.id := by
    rw [List.pairwise_filterMap]
    refine (Finset.sortedGT_sort _).pairwise.imp fun {a b} hlt p hp q hq => ?_
    obtain ⟨_, _, rfl⟩ := (mem_livePut hinc).mp hp
    obtain ⟨_, _, rfl⟩ := (mem_livePut hinc).mp hq
    exact hlt
  have hsorted' : (puts.reverse.filter (TimedPut.alive saver t)).Pairwise
      fun p q => q.checkpoint.id < p.checkpoint.id :=
    (List.pairwise_reverse.mpr hinc.ids).filter _
  have hne : ∀ {l : List (TimedPut V)}, (l.Pairwise fun p q => q.checkpoint.id < p.checkpoint.id) →
      l.Nodup := fun hl => hl.imp fun hlt heq => absurd hlt (by rw [heq]; exact lt_irrefl _)
  refine List.Perm.eq_of_pairwise (fun p q _ _ hlt hlt' => absurd hlt hlt'.asymm) hsorted hsorted' ?_
  refine (List.perm_ext_iff_of_nodup (hne hsorted) (hne hsorted')).mpr fun p => ?_
  simp only [List.mem_filterMap, mem_livePut hinc, Finset.mem_sort, List.mem_filter,
    List.mem_reverse]
  constructor
  · rintro ⟨_, _, hp, halive, _⟩
    exact ⟨hp, halive⟩
  · rintro ⟨hp, halive⟩
    exact ⟨_, hmem p hp halive, hp, halive, rfl⟩

end Proofs

/-- Reads find the puts of the last `ttl`. A put without an id is listed as the latest one. -/
theorem expiry_exact {V : Type} [DecidableEq V] {lib : Libraries V} {saver : ValkeySaver}
    {thread ns : String} {puts : List (TimedPut V)} {t : Nat} (hinc : Increasing puts)
    (ht : ∀ p ∈ puts, p.time ≤ t) :
    saver.agetTuple lib t (runPuts lib saver thread ns puts)
        { threadId := thread, checkpointNs := ns } =
      (puts.getLast?.filter (TimedPut.alive saver t)).map (TimedPut.tuple lib thread ns) ∧
    ((∀ p ∈ puts, p.checkpoint.id ≠ "") →
      saver.alist lib t (runPuts lib saver thread ns puts)
          (some { threadId := thread, checkpointNs := ns }) none none none =
        (puts.reverse.filter (TimedPut.alive saver t)).map (TimedPut.tuple lib thread ns)) := by
  have h : Timely lib saver thread ns puts (runPuts lib saver thread ns puts) := timely_run hinc
  have hlatest := h.latest ht hinc
  constructor
  · cases hlast : puts.getLast?.filter (TimedPut.alive saver t) with
    | none =>
      rw [hlast] at hlatest
      simp only [ValkeySaver.agetTuple, hlatest]
      rfl
    | some last =>
      rw [hlast] at hlatest
      obtain ⟨hmem, halive⟩ := Option.filter_eq_some_iff.mp hlast
      have hlive : livePut saver puts t last.checkpoint.id = some last :=
        (mem_livePut hinc).mpr ⟨List.mem_of_getLast? hmem, halive, rfl⟩
      have htuple := @Timely.tuple V lib saver last.checkpoint.id puts _ t
        { threadId := thread, checkpointNs := ns } h ht hinc hlatest
      rw [htuple, hlive]
  · intro hids
    let members := ((runPuts lib saver thread ns puts).indexes.read t (saver.idx thread ns)).getD ∅
    have hget : ∀ cid ∈ members.sort (· ≥ ·), saver.agetTuple lib t (runPuts lib saver thread ns puts)
        { threadId := thread, checkpointNs := ns, checkpointId := some cid } =
        (livePut saver puts t cid).map (TimedPut.tuple lib thread ns) := by
      intro cid hcid
      obtain ⟨p, hp, rfl⟩ := h.indexed ht ((Finset.mem_sort _).mp hcid)
      refine @Timely.tuple V lib saver p.checkpoint.id puts _ t
        { threadId := thread, checkpointNs := ns, checkpointId := some p.checkpoint.id } h ht hinc ?_
      simp [getCheckpointId, Option.filter, hids p hp]
    rw [← h.listed ht hinc, List.map_filterMap]
    refine (alistLoop_eq (members.sort (· ≥ ·)) hget none).trans ?_
    simp [limited, passes, getCheckpointId, members]

section Example

def twoPuts (first second : String) : List (TimedPut Unit) :=
  [⟨0, none, [], ⟨first, ()⟩, []⟩, ⟨5, none, [], ⟨second, ()⟩, []⟩]

theorem increasing_two {first second : String} (h : first < second) :
    Increasing (twoPuts first second) :=
  ⟨List.pairwise_pair.mpr (Nat.zero_le 5), List.pairwise_pair.mpr h⟩

theorem expiry_exact_two :
    ({ ttl := 10 } : ValkeySaver).alist unitLibraries 12
      (runPuts unitLibraries { ttl := 10 } "t" "" (twoPuts "a" "b"))
      (some { threadId := "t", checkpointNs := "" }) none none none =
      [TimedPut.tuple unitLibraries "t" "" ⟨5, none, [], ⟨"b", ()⟩, []⟩] := by
  refine (expiry_exact (increasing_two (by decide)) (by decide)).2 (by decide)

/-- The put with the empty id is listed as the other one. -/
theorem empty_id_hides_put :
    (({ ttl := 10 } : ValkeySaver).alist unitLibraries 6
      (runPuts unitLibraries { ttl := 10 } "t" "" (twoPuts "" "a"))
      (some { threadId := "t", checkpointNs := "" }) none none none).map
        (fun tup => tup.checkpoint.id) = ["a", "a"] ∧
    ((twoPuts "" "a").reverse.filter (TimedPut.alive { ttl := 10 } 6)).map
        (fun p => p.checkpoint.id) = ["a", ""] := by
  have hinc : Increasing (twoPuts "" "a") := increasing_two (by decide)
  have ht : ∀ p ∈ twoPuts "" "a", p.time ≤ 6 := by decide
  have h : Timely unitLibraries { ttl := 10 } "t" "" (twoPuts "" "a") (runPuts unitLibraries
      { ttl := 10 } "t" "" (twoPuts "" "a")) := timely_run hinc
  have hindex : (runPuts unitLibraries { ttl := 10 } "t" "" (twoPuts "" "a")).indexes.read 6
      (({ ttl := 10 } : ValkeySaver).idx "t" "") = some {"", "a"} := by
    simp [runPuts, twoPuts, ValkeySaver.aput, TimedPut.config, Keyspace.read_expire,
      Keyspace.read_write, Finset.pair_comm]
  have hget : ∀ cid ∈ ["a", ""], ({ ttl := 10 } : ValkeySaver).agetTuple unitLibraries 6
      (runPuts unitLibraries { ttl := 10 } "t" "" (twoPuts "" "a"))
      { threadId := "t", checkpointNs := "", checkpointId := some cid } =
      (livePut { ttl := 10 } (twoPuts "" "a") 6 "a").map (TimedPut.tuple unitLibraries "t" "") := by
    intro cid hcid
    refine @Timely.tuple Unit unitLibraries { ttl := 10 } "a" (twoPuts "" "a") _ 6
        { threadId := "t", checkpointNs := "", checkpointId := some cid } h ht hinc ?_
    rw [h.latest ht hinc]
    rcases List.mem_pair.mp hcid with rfl | rfl <;> rfl
  constructor
  · simp only [ValkeySaver.alist, hindex, Option.getD_some, sort_two]
    rw [alistLoop_eq _ hget]
    rfl
  · rfl

end Example

end Doci
