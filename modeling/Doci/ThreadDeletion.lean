import Doci.CheckpointExpiry

/-! Which keys `adelete_thread` deletes: those in which the thread id stands between colons. -/

namespace Doci

open Expiring

abbrev Uuid := BitVec 128

def hexDigits (u : Uuid) (start count : Nat) : List Char :=
  (List.range count).map fun i => Nat.digitChar (u.toNat / 16 ^ (31 - start - i) % 16)

/-- `str(uuid)`. -/
def uuidText (u : Uuid) : String :=
  String.ofList (hexDigits u 0 8 ++ '-' :: hexDigits u 8 4 ++ '-' :: hexDigits u 12 4 ++
    '-' :: hexDigits u 16 4 ++ '-' :: hexDigits u 20 12)

/-- The threads of an execution: its own, those of the audit's agents and one for each page. -/
inductive CheckpointThread where
  | execution (t : Uuid)
  | find (t : Uuid)
  | reflect (t : Uuid)
  | verdict (t : Uuid)
  | page (t : Uuid) (number : Nat)

def CheckpointThread.text : CheckpointThread → String
  | execution t => uuidText t
  | find t => uuidText t ++ ":find"
  | reflect t => uuidText t ++ ":reflect"
  | verdict t => uuidText t ++ ":verdict"
  | page t number => uuidText t ++ ":p" ++ number.repr

inductive StoredKey where
  | cp (thread : CheckpointThread) (ns cid : String)
  | idx (thread : CheckpointThread) (ns : String)
  | w (thread : CheckpointThread) (ns cid : String)

def StoredKey.thread : StoredKey → CheckpointThread
  | cp thread _ _ => thread
  | idx thread _ => thread
  | w thread _ _ => thread

def StoredKey.rest : StoredKey → String
  | cp thread ns cid => "cp:" ++ thread.text ++ ":" ++ ns ++ ":" ++ cid
  | idx thread ns => "idx:" ++ thread.text ++ ":" ++ ns
  | w thread ns cid => "w:" ++ thread.text ++ ":" ++ ns ++ ":" ++ cid

def StoredKey.key (saver : ValkeySaver) : StoredKey → String
  | cp thread ns cid => saver.cp thread.text ns cid
  | idx thread ns => saver.idx thread.text ns
  | w thread ns cid => saver.w thread.text ns cid

def StoredKey.Present (saver : ValkeySaver) (now : Nat) (s : Valkey) (r : StoredKey) : Prop :=
  match r with
  | cp _ _ _ => (s.checkpoints.read now (r.key saver)).isSome
  | idx _ _ => (s.indexes.read now (r.key saver)).isSome
  | w _ _ _ => (s.writes.read now (r.key saver)).isSome

def StoredKey.Unchanged (saver : ValkeySaver) (now : Nat) (s s' : Valkey) (r : StoredKey) : Prop :=
  match r with
  | cp _ _ _ => s'.checkpoints.read now (r.key saver) = s.checkpoints.read now (r.key saver)
  | idx _ _ => s'.indexes.read now (r.key saver) = s.indexes.read now (r.key saver)
  | w _ _ _ => s'.writes.read now (r.key saver) = s.writes.read now (r.key saver)

/-- `adelete_thread` deletes the key. -/
def KeyDoomed (saver : ValkeySaver) (thread : CheckpointThread) (key : String) : Prop :=
  Glob.matchesText (utf8 (saver.keyPrefix ++ "*:" ++ thread.text ++ ":*")) (utf8 key) = true ∨
    key = saver.idx thread.text ""

/-- Of the stored keys those of the thread are gone and the others are as they were. -/
def DeletesOnly (saver : ValkeySaver) (now : Nat) (s : Valkey) (stored : Set StoredKey)
    (thread : CheckpointThread) : Prop :=
  ∀ r ∈ stored,
    (r.thread.text = thread.text → ¬ r.Present saver now (saver.adeleteThread s thread.text)) ∧
    (r.thread.text ≠ thread.text → r.Unchanged saver now s (saver.adeleteThread s thread.text))

section Deletion

variable {saver : ValkeySaver} {now : Nat} {s : Valkey} {stored : Set StoredKey}
  {thread : CheckpointThread} {r : StoredKey}

theorem gone_iff (h : r.Present saver now s) :
    ¬ r.Present saver now (saver.adeleteThread s thread.text) ↔
      KeyDoomed saver thread (r.key saver) := by
  rw [KeyDoomed, ← decide_eq_true_iff (p := r.key saver = _), ← Bool.or_eq_true]
  cases r with
  | cp t ns cid => exact Keyspace.delete_gone_iff h
  | idx t ns => exact Keyspace.delete_gone_iff h
  | w t ns cid => exact Keyspace.delete_gone_iff h

theorem unchanged_iff (h : r.Present saver now s) :
    r.Unchanged saver now s (saver.adeleteThread s thread.text) ↔
      ¬ KeyDoomed saver thread (r.key saver) := by
  rw [KeyDoomed, ← decide_eq_true_iff (p := r.key saver = _), ← Bool.or_eq_true]
  cases r with
  | cp t ns cid => exact Keyspace.delete_kept_iff h
  | idx t ns => exact Keyspace.delete_kept_iff h
  | w t ns cid => exact Keyspace.delete_kept_iff h

theorem utf8_append (a b : String) : utf8 (a ++ b) = utf8 a ++ utf8 b := by
  simp only [utf8, String.toList_append, List.flatMap_append]

theorem key_eq (saver : ValkeySaver) (r : StoredKey) : r.key saver = saver.keyPrefix ++ r.rest := by
  cases r <;> simp only [StoredKey.key, StoredKey.rest, ValkeySaver.cp, ValkeySaver.idx,
    ValkeySaver.w, String.append_assoc]

def PlainChars (l : List Char) : Prop := ∀ c ∈ l, Glob.Plain (String.utf8EncodeChar c)

theorem plain_digitChar {n : Nat} (h : n < 16) :
    Glob.Plain (String.utf8EncodeChar (Nat.digitChar n)) := by
  have hall : ∀ n < 16, ∀ b ∈ String.utf8EncodeChar (Nat.digitChar n), b ∉ Glob.special := by
    decide +kernel
  exact hall n h

theorem plain_hexDigits (u : Uuid) (start count : Nat) : PlainChars (hexDigits u start count) := by
  intro c hc
  obtain ⟨i, _, rfl⟩ := List.mem_map.mp hc
  exact plain_digitChar (Nat.mod_lt _ (by decide))

theorem plain_repr (n : Nat) : PlainChars n.repr.toList := by
  intro c hc
  rw [Nat.toList_repr] at hc
  have hdigit := Nat.isDigit_of_mem_toDigits (by decide) (by decide) hc
  simp only [Char.isDigit, ge_iff_le, Bool.and_eq_true, decide_eq_true_eq, UInt32.le_iff_toNat_le]
    at hdigit
  have hrange : 48 ≤ c.toNat ∧ c.toNat ≤ 57 := hdigit
  have hc' : Nat.digitChar (c.toNat - 48) = c := by
    apply Char.toNat_inj.mp
    rw [Nat.toNat_digitChar_of_lt_ten (by omega)]
    omega
  rw [← hc']
  exact plain_digitChar (by omega)

theorem PlainChars.append {l l' : List Char} (h : PlainChars l) (h' : PlainChars l') :
    PlainChars (l ++ l') :=
  fun c hc => (List.mem_append.mp hc).elim (h c) (h' c)

theorem plain_literal {text : String}
    (h : ∀ c ∈ text.toList, ∀ b ∈ String.utf8EncodeChar c, b ∉ Glob.special) :
    PlainChars text.toList := h

theorem plain_uuid (u : Uuid) : PlainChars (uuidText u).toList := by
  have hdash : PlainChars ['-'] := by
    intro c hc
    obtain rfl := List.mem_singleton.mp hc
    exact fun b => by revert b; decide +kernel
  have hcons : ∀ start count, PlainChars ('-' :: hexDigits u start count) := fun start count =>
    hdash.append (plain_hexDigits u start count)
  rw [uuidText, String.toList_ofList]
  exact ((((plain_hexDigits u 0 8).append (hcons 8 4)).append (hcons 12 4)).append
    (hcons 16 4)).append (hcons 20 12)

theorem plain_thread (thread : CheckpointThread) : PlainChars thread.text.toList := by
  cases thread with
  | execution t => exact plain_uuid t
  | find t =>
    rw [CheckpointThread.text, String.toList_append]
    exact (plain_uuid t).append (plain_literal (by simp [Glob.special, String.utf8EncodeChar]))
  | reflect t =>
    rw [CheckpointThread.text, String.toList_append]
    exact (plain_uuid t).append (plain_literal (by simp [Glob.special, String.utf8EncodeChar]))
  | verdict t =>
    rw [CheckpointThread.text, String.toList_append]
    exact (plain_uuid t).append (plain_literal (by simp [Glob.special, String.utf8EncodeChar]))
  | page t number =>
    rw [CheckpointThread.text, String.toList_append, String.toList_append]
    exact ((plain_uuid t).append (plain_literal (by simp [Glob.special, String.utf8EncodeChar]))).append (plain_repr number)

def CheckpointThread.marker (thread : CheckpointThread) : Bytes := utf8 (":" ++ thread.text ++ ":")

theorem plain_marker (thread : CheckpointThread) : Glob.Plain thread.marker := by
  have hcolon : PlainChars ":".toList := plain_literal (by simp [Glob.special, String.utf8EncodeChar])
  have hchars := (hcolon.append (plain_thread thread)).append hcolon
  rw [← String.toList_append, ← String.toList_append] at hchars
  intro b hb
  obtain ⟨c, hc, hb⟩ := List.mem_flatMap.mp hb
  exact hchars c hc b hb

theorem marker_infix_own (h : r.thread.text = thread.text) : thread.marker <:+: utf8 r.rest := by
  have hbetween : ∀ before after : String,
      thread.marker <:+: utf8 (before ++ (":" ++ thread.text ++ ":") ++ after) := fun before after =>
    ⟨utf8 before, utf8 after, by simp only [CheckpointThread.marker, utf8_append]⟩
  cases r with
  | cp t ns cid =>
    have hrest : (StoredKey.cp t ns cid).rest =
        "cp" ++ (":" ++ thread.text ++ ":") ++ (ns ++ ":" ++ cid) := by
      simp only [StoredKey.rest, ← h, StoredKey.thread, ← String.append_assoc]
      rfl
    exact hrest ▸ hbetween _ _
  | idx t ns =>
    have hrest : (StoredKey.idx t ns).rest = "idx" ++ (":" ++ thread.text ++ ":") ++ ns := by
      simp only [StoredKey.rest, ← h, StoredKey.thread, ← String.append_assoc]
      rfl
    exact hrest ▸ hbetween _ _
  | w t ns cid =>
    have hrest : (StoredKey.w t ns cid).rest =
        "w" ++ (":" ++ thread.text ++ ":") ++ (ns ++ ":" ++ cid) := by
      simp only [StoredKey.rest, ← h, StoredKey.thread, ← String.append_assoc]
      rfl
    exact hrest ▸ hbetween _ _

theorem keyDoomed_iff (hplain : Glob.Plain (utf8 saver.keyPrefix)) :
    KeyDoomed saver thread (r.key saver) ↔ thread.marker <:+: utf8 r.rest := by
  have hpattern : utf8 (saver.keyPrefix ++ "*:" ++ thread.text ++ ":*") =
      utf8 saver.keyPrefix ++ 42 :: thread.marker ++ [42] := by
    simp only [utf8_append, CheckpointThread.marker]
    simp [utf8, String.utf8EncodeChar]
  rw [KeyDoomed, hpattern, key_eq, utf8_append, Glob.matchesText_infix hplain (plain_marker thread)]
  refine or_iff_left_of_imp fun hkey => ?_
  have hrest : r.rest = (StoredKey.idx thread "").rest :=
    (String.append_right_inj saver.keyPrefix).mp (hkey.trans (key_eq saver (.idx thread "")))
  rw [hrest]
  exact marker_infix_own rfl

end Deletion

/-- Deleting a thread touches that thread only if and only if the keys that are deleted are its
own. With a plain prefix these are the keys in which its id stands between colons. -/
theorem deletes_only_iff {saver : ValkeySaver} {now : Nat} {s : Valkey} {stored : Set StoredKey}
    {thread : CheckpointThread} (hstored : ∀ r ∈ stored, r.Present saver now s) :
    (DeletesOnly saver now s stored thread ↔
      ∀ r ∈ stored, KeyDoomed saver thread (r.key saver) ↔ r.thread.text = thread.text) ∧
    (Glob.Plain (utf8 saver.keyPrefix) → (DeletesOnly saver now s stored thread ↔
      ∀ r ∈ stored, r.thread.text ≠ thread.text → ¬ thread.marker <:+: utf8 r.rest)) := by
  have hexact : DeletesOnly saver now s stored thread ↔
      ∀ r ∈ stored, KeyDoomed saver thread (r.key saver) ↔ r.thread.text = thread.text := by
    refine forall₂_congr fun r hr => ?_
    rw [gone_iff (hstored r hr), unchanged_iff (hstored r hr)]
    exact ⟨fun h => ⟨fun hdoomed => not_not.mp fun hne => h.2 hne hdoomed, h.1⟩,
      fun h => ⟨h.mpr, fun hne hdoomed => hne (h.mp hdoomed)⟩⟩
  refine ⟨hexact, fun hplain => hexact.trans (forall₂_congr fun r hr => ?_)⟩
  rw [keyDoomed_iff hplain]
  exact ⟨fun h hne hmarker => hne (h.mp hmarker),
    fun h => ⟨fun hmarker => not_not.mp fun hne => h hne hmarker, marker_infix_own⟩⟩

section Example

def storeOf (thread : CheckpointThread) : Valkey :=
  runPuts unitLibraries {} thread.text "" [⟨0, none, [], ⟨"a", ()⟩, []⟩]

theorem plain_default : Glob.Plain (utf8 ({} : ValkeySaver).keyPrefix) := by
  unfold Glob.Plain
  decide +kernel

theorem present_storeOf (thread : CheckpointThread) :
    (StoredKey.cp thread "" "a").Present {} 0 (storeOf thread) := by
  simp [StoredKey.Present, StoredKey.key, storeOf, runPuts, ValkeySaver.aput, TimedPut.config,
    Keyspace.read_expire, Keyspace.read_write]

def putIn (s : Valkey) (thread : CheckpointThread) : Valkey :=
  (({} : ValkeySaver).aput unitLibraries 0 s { threadId := thread.text } ⟨"a", ()⟩ []).2

/-- The checkpoints of two executions, and of an agent of the second one. -/
def threeThreads : Valkey :=
  [CheckpointThread.execution 0, .execution 1, .find 1].foldl putIn {}

theorem deletes_only_other : DeletesOnly {} 0 threeThreads
    {.cp (.execution 0) "" "a", .idx (.execution 0) "", .cp (.execution 1) "" "a",
      .idx (.execution 1) "", .cp (.find 1) "" "a"} (.execution 0) := by
  have hstored : ∀ r ∈ ({.cp (.execution 0) "" "a", .idx (.execution 0) "", .cp (.execution 1) "" "a",
      .idx (.execution 1) "", .cp (.find 1) "" "a"} : Set StoredKey), r.Present {} 0 threeThreads := by
    rintro r (rfl | rfl | rfl | rfl | rfl) <;> simp only [StoredKey.Present] <;> decide +kernel
  refine ((deletes_only_iff hstored).2 plain_default).mpr ?_
  rintro r (rfl | rfl | rfl | rfl | rfl) hne
  · exact absurd rfl hne
  · exact absurd rfl hne
  all_goals decide +kernel

/-- Deleting the thread of an audit deletes the checkpoints of its find agent. -/
theorem agent_thread_deleted :
    (StoredKey.cp (.find 0) "" "a").Present {} 0 (storeOf (.find 0)) ∧
    ¬ (StoredKey.cp (.find 0) "" "a").Present {} 0
      (({} : ValkeySaver).adeleteThread (storeOf (.find 0)) (CheckpointThread.execution 0).text) ∧
    (CheckpointThread.find 0).text ≠ (CheckpointThread.execution 0).text := by
  refine ⟨present_storeOf _, ?_, by decide +kernel⟩
  refine (gone_iff (present_storeOf _)).mpr ((keyDoomed_iff plain_default).mpr ?_)
  decide +kernel

end Example

end Doci
