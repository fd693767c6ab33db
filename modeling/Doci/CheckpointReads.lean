import Doci.CheckpointHistory

/-! What the saver reads back is what the plain checkpoint store would return. -/

namespace Doci

open Expiring

/-- The thread and namespace are in use, and so is the id if there is one. -/
def RunnableConfig.Within {V : Type} (used : Set Place) (config : RunnableConfig V) : Prop :=
  ∃ cid, (∀ id, getCheckpointId config = some id → id = cid) ∧
    (config.threadId, config.checkpointNs, cid) ∈ used

section Reads

variable {V : Type} {lib : Libraries V} {saver : ValkeySaver} {used : Set Place}
  {calls : List (SaverCall V)} {s : Valkey} {t : Nat} {thread ns cid : String}
  {config : RunnableConfig V} {put : Put V}

theorem mem_puts : put ∈ puts lib calls thread ns ↔
    ∃ config checkpoint metadata, .aput config checkpoint metadata ∈ calls ∧
      config.threadId = thread ∧ config.checkpointNs = ns ∧
      put = ⟨checkpoint, lib.getCheckpointMetadata config metadata, getCheckpointId config⟩ := by
  simp only [puts, List.mem_filterMap]
  constructor
  · rintro ⟨call, hcall, hput⟩
    cases call with
    | aput config checkpoint metadata =>
      simp only [SaverCall.put, Option.ite_none_right_eq_some, Option.some.injEq] at hput
      exact ⟨config, checkpoint, metadata, hcall, hput.1.1, hput.1.2, hput.2.symm⟩
    | aputWrites config writes task path => cases hput
  · rintro ⟨config, checkpoint, metadata, hcall, rfl, rfl, rfl⟩
    exact ⟨_, hcall, by simp [SaverCall.put]⟩

theorem mem_putIds : cid ∈ putIds lib calls thread ns ↔
    ∃ call ∈ calls, ∃ config checkpoint metadata, call = .aput config checkpoint metadata ∧
      config.threadId = thread ∧ config.checkpointNs = ns ∧ checkpoint.id = cid := by
  simp only [putIds, List.mem_toFinset, List.mem_map, mem_puts]
  constructor
  · rintro ⟨_, ⟨config, checkpoint, metadata, hcall, hthread, hns, rfl⟩, rfl⟩
    exact ⟨_, hcall, config, checkpoint, metadata, rfl, hthread, hns, rfl⟩
  · rintro ⟨_, hcall, config, checkpoint, metadata, rfl, hthread, hns, rfl⟩
    exact ⟨_, ⟨config, checkpoint, metadata, hcall, hthread, hns, rfl⟩, rfl⟩

theorem mem_used_of_putIds (hplace : ∀ call ∈ calls, ∀ a, call.place = some a → a ∈ used)
    (h : cid ∈ putIds lib calls thread ns) : (thread, ns, cid) ∈ used := by
  obtain ⟨call, hcall, config, checkpoint, metadata, rfl, rfl, rfl, rfl⟩ := mem_putIds.mp h
  exact hplace _ hcall _ rfl

theorem lastPut_parent (h : lastPut lib calls thread ns cid = some put) :
    put.parent.filter (· ≠ "") = put.parent := by
  have hmem := List.mem_reverse.mp (List.mem_of_find?_eq_some h)
  obtain ⟨config, checkpoint, metadata, _, _, _, rfl⟩ := mem_puts.mp hmem
  simp only [getCheckpointId, Option.filter_filter, Bool.and_self]

theorem head?_sort_ge (ids : Finset String) :
    (ids.sort (· ≥ ·)).head? = if h : ids.Nonempty then some (ids.max' h) else none := by
  cases hl : ids.sort (· ≥ ·) with
  | nil =>
    have hempty : ids = ∅ := by
      rw [← Finset.sort_toFinset ids (· ≥ ·), hl, List.toFinset_nil]
    subst hempty
    rfl
  | cons a rest =>
    have hmem : ∀ b, b ∈ ids ↔ b ∈ a :: rest := fun b => by rw [← hl, Finset.mem_sort]
    have hsorted : (a :: rest).Pairwise (· ≥ ·) := hl ▸ Finset.pairwise_sort ids (· ≥ ·)
    have hne : ids.Nonempty := ⟨a, (hmem a).mpr List.mem_cons_self⟩
    rw [dif_pos hne, List.head?_cons]
    congr 1
    refine le_antisymm (ids.le_max' a ((hmem a).mpr List.mem_cons_self)) (ids.max'_le hne a ?_)
    intro b hb
    rcases List.mem_cons.mp ((hmem b).mp hb) with rfl | hb
    · exact le_rfl
    · exact (List.pairwise_cons.mp hsorted).1 b hb

theorem Stands.latest (h : Stands lib saver used calls t s) (hused : (thread, ns, cid) ∈ used) :
    saver.latest t s thread ns = greatestPut lib calls thread ns := by
  have hindex : (s.indexes.read t (saver.idx thread ns)).getD ∅ = putIds lib calls thread ns :=
    h.index (thread, ns, cid) hused
  rw [greatestPut, head?_sort_ge, ValkeySaver.latest, hindex]

theorem Stands.pendingWrites (h : Stands lib saver used calls t s)
    (hused : (thread, ns, cid) ∈ used) : saver.pendingWrites lib t s thread ns cid =
      (settledWrites (written lib calls thread ns cid)).map fun w =>
        (w.taskId, w.channel, w.value) := by
  have hholds : Holds lib (written lib calls thread ns cid)
      ((s.writes.read t (saver.w thread ns cid)).getD ∅) := h.writes (thread, ns, cid) hused
  rw [ValkeySaver.pendingWrites, hholds.sorted_rows, List.map_map]
  rfl

theorem parentConfig_eq {parent : Option String} (h : parent.filter (· ≠ "") = parent) :
    (if parent.getD "" = "" then none
      else some ({ threadId := thread, checkpointNs := ns, checkpointId := some (parent.getD "") } :
        RunnableConfig V)) =
      parent.map fun parent => { threadId := thread, checkpointNs := ns, checkpointId := parent } := by
  cases parent with
  | none => rfl
  | some id =>
    have hne : id ≠ "" := by
      rintro rfl
      simp [Option.filter] at h
    simp [hne]

theorem agetTuple_eq {stored : Option (Put V)}
    (hcid : (getCheckpointId config).or (saver.latest t s config.threadId config.checkpointNs) =
      some cid)
    (hread : s.checkpoints.read t (saver.cp config.threadId config.checkpointNs cid) =
      stored.map (Put.hash lib))
    (hparent : ∀ put, stored = some put → put.parent.filter (· ≠ "") = put.parent) :
    saver.agetTuple lib t s config =
      stored.map fun put => put.tuple config.threadId config.checkpointNs cid
        (saver.pendingWrites lib t s config.threadId config.checkpointNs cid) := by
  simp only [ValkeySaver.agetTuple, hcid, hread, Option.bind_eq_bind, Option.bind_some]
  cases hput : stored with
  | none => rfl
  | some put =>
    simp only [Option.map_some, Option.bind_some, Put.hash, Put.tuple, Prod.mk.eta,
      lib.checkpointSerde.decode_encode, lib.metadataSerde.decode_encode,
      parentConfig_eq (hparent put hput), Option.pure_def]

theorem Stands.tuple (h : Stands lib saver used calls t s)
    (hcid : (getCheckpointId config).or (saver.latest t s config.threadId config.checkpointNs) =
      some cid) (hused : (config.threadId, config.checkpointNs, cid) ∈ used) :
    saver.agetTuple lib t s config =
      storedTuple lib calls config.threadId config.checkpointNs cid := by
  have hread : s.checkpoints.read t (saver.cp config.threadId config.checkpointNs cid) =
      (lastPut lib calls config.threadId config.checkpointNs cid).map (Put.hash lib) :=
    h.checkpoint (config.threadId, config.checkpointNs, cid) hused
  rw [agetTuple_eq hcid hread fun _ => lastPut_parent, h.pendingWrites hused]
  rfl

theorem Stands.get (h : Stands lib saver used calls t s)
    (hplace : ∀ call ∈ calls, ∀ a, call.place = some a → a ∈ used) (hconfig : config.Within used) :
    saver.agetTuple lib t s config = storedGet lib calls config := by
  obtain ⟨cid, hcid, hused⟩ := hconfig
  have hlatest := h.latest hused
  cases hid : getCheckpointId config with
  | some id =>
    obtain rfl := hcid id hid
    rw [h.tuple (by rw [hid, Option.some_or]) hused, storedGet, hid, Option.some_or,
      Option.bind_some]
  | none =>
    rw [storedGet, hid, Option.none_or]
    cases hgreatest : greatestPut lib calls config.threadId config.checkpointNs with
    | none =>
      simp only [ValkeySaver.agetTuple, hid, hlatest, hgreatest]
      rfl
    | some greatest =>
      have hmem : greatest ∈ putIds lib calls config.threadId config.checkpointNs := by
        rw [← Finset.mem_sort (· ≥ ·)]
        exact List.mem_of_head? hgreatest
      rw [Option.bind_some]
      exact h.tuple (by rw [hid, Option.none_or, hlatest, hgreatest])
        (mem_used_of_putIds hplace hmem)

variable [DecidableEq V]

theorem alistLoop_eq {onlyId beforeId : Option String} {filter : Option (Metadata V)}
    {tupleOf : String → Option (CheckpointTuple V)} (ids : List String)
    (hget : ∀ cid ∈ ids, saver.agetTuple lib t s
      { threadId := thread, checkpointNs := ns, checkpointId := some cid } = tupleOf cid)
    (limit : Option Int) :
    saver.alistLoop lib t s thread ns onlyId beforeId filter limit ids =
      limited limit (((ids.filter fun cid => onlyId.all (cid = ·) && beforeId.all (cid < ·)).filterMap
        tupleOf).filter fun tup => passes filter tup.metadata) := by
  induction ids generalizing limit with
  | nil => cases limit <;> simp [ValkeySaver.alistLoop, limited]
  | cons cid ids ih =>
    have hrest := ih fun c hc => hget c (List.mem_cons_of_mem _ hc)
    have hskip : (onlyId.any (cid ≠ ·) || beforeId.any (· ≤ cid)) =
        !(onlyId.all (cid = ·) && beforeId.all (cid < ·)) := by
      cases onlyId <;> cases beforeId <;> simp [not_lt.symm]
    rw [ValkeySaver.alistLoop, hskip, hget cid List.mem_cons_self]
    cases hasked : onlyId.all (cid = ·) && beforeId.all (cid < ·) with
    | false => simp only [hrest, Bool.not_false, if_true, List.filter_cons, hasked, Bool.false_eq_true,
        if_false]
    | true =>
      simp only [Bool.not_true, Bool.false_eq_true, if_false, List.filter_cons, hasked, if_true,
        List.filterMap_cons]
      cases htup : tupleOf cid with
      | none => simp only [hrest]
      | some tup =>
        by_cases hpass : passes filter tup.metadata = true
        · cases limit with
          | none => simp [hpass, hrest, limited]
          | some n =>
            by_cases hn : n ≤ 0
            · simp [hpass, hn, limited]
            · obtain ⟨k, rfl⟩ : ∃ k : Nat, n = k + 1 := ⟨(n - 1).toNat, by omega⟩
              simp [hpass, hn, hrest, limited]
        · simp [hpass, hrest]

theorem Stands.list (h : Stands lib saver used calls t s)
    (hplace : ∀ call ∈ calls, ∀ a, call.place = some a → a ∈ used) (hconfig : config.Within used)
    (hids : "" ∉ putIds lib calls config.threadId config.checkpointNs)
    (filter : Option (Metadata V)) (before : Option (RunnableConfig V)) (limit : Option Int) :
    saver.alist lib t s (some config) filter before limit =
      storedList lib calls (some config) filter before limit := by
  obtain ⟨cid, _, hused⟩ := hconfig
  have hindex : (s.indexes.read t (saver.idx config.threadId config.checkpointNs)).getD ∅ =
      putIds lib calls config.threadId config.checkpointNs :=
    h.index (config.threadId, config.checkpointNs, cid) hused
  simp only [ValkeySaver.alist, storedList, hindex]
  refine alistLoop_eq _ (fun cid hcid => ?_) limit
  have hmem := (Finset.mem_sort _).mp hcid
  have hne : cid ≠ "" := fun heq => hids (heq ▸ hmem)
  exact h.tuple (by simp [getCheckpointId, Option.filter, hne]) (mem_used_of_putIds hplace hmem)

end Reads

/-- The saver returns what the plain store would, as long as keys differ and none has expired. The
empty id stands for no id, and `alist` asks by id. -/
theorem saver_refines {V : Type} [DecidableEq V] {lib : Libraries V} {saver : ValkeySaver}
    {used : Set Place} {t : Nat} {calls : List (Nat × SaverCall V)} (hapart : KeysApart saver used)
    (hlive : Unexpired saver t calls) (hplace : ∀ c ∈ calls, ∀ a, c.2.place = some a → a ∈ used) :
    (∀ config : RunnableConfig V, config.Within used →
      saver.agetTuple lib t (runCalls lib saver calls) config =
        storedGet lib (calls.map Prod.snd) config) ∧
    ∀ config filter before limit, (∀ c, config = some c → c.Within used ∧
        "" ∉ putIds lib (calls.map Prod.snd) c.threadId c.checkpointNs) →
      saver.alist lib t (runCalls lib saver calls) config filter before limit =
        storedList lib (calls.map Prod.snd) config filter before limit := by
  have hstands : Stands lib saver used (calls.map Prod.snd) t (runCalls lib saver calls) :=
    stands_run hapart hlive hplace
  have hplace' : ∀ call ∈ calls.map Prod.snd, ∀ a, call.place = some a → a ∈ used := by
    intro call hcall
    obtain ⟨c, hc, rfl⟩ := List.mem_map.mp hcall
    exact hplace c hc
  refine ⟨fun config hconfig => hstands.get hplace' hconfig, ?_⟩
  intro config filter before limit hconfig
  cases config with
  | none => rfl
  | some config =>
    obtain ⟨hwithin, hids⟩ := hconfig config rfl
    exact hstands.list hplace' hwithin hids filter before limit

section Example

instance encodableChar : Encodable Char :=
  Encodable.ofLeftInverse Char.toNat Char.ofNat Char.ofNat_toNat

instance encodableString : Encodable String :=
  Encodable.ofLeftInverse String.toList String.ofList fun _ => String.ofList_toList

instance encodableByte : Encodable UInt8 :=
  Encodable.ofLeftInverse UInt8.toNat UInt8.ofNat fun _ => UInt8.ofNat_toNat

instance encodableCheckpoint : Encodable (Checkpoint Unit) :=
  Encodable.ofLeftInverse Checkpoint.id (⟨·, ()⟩) fun _ => rfl

instance encodablePackedWrite : Encodable PackedWrite :=
  Encodable.ofLeftInverse (fun w => (w.taskId, w.channel, w.valueType, w.value, w.taskPath))
    (fun w => ⟨w.1, w.2.1, w.2.2.1, w.2.2.2.1, w.2.2.2.2⟩) fun _ => rfl

def unary {α : Type} [Encodable α] (default : α) : Codec α Bytes where
  encode a := List.replicate (Encodable.encode a) 0
  decode bytes := (Encodable.decode bytes.length).getD default
  decode_encode := by simp

def unaryTyped {α : Type} [Encodable α] (default : α) : Codec α (String × Bytes) where
  encode a := ("msgpack", (unary default).encode a)
  decode typed := (unary default).decode typed.2
  decode_encode := (unary default).decode_encode

def specialSlot : String → Option Int
  | "__error__" => some (-1)
  | "__scheduled__" => some (-2)
  | "__interrupt__" => some (-3)
  | "__resume__" => some (-4)
  | _ => none

theorem specialSlot_neg (channel : String) (slot : Int) (h : specialSlot channel = some slot) :
    slot < 0 := by
  unfold specialSlot at h
  split at h <;> simp_all <;> omega

def unitLibraries : Libraries Unit where
  checkpointSerde := unaryTyped ⟨"", ()⟩
  metadataSerde := unaryTyped []
  valueSerde := unaryTyped ()
  msgpack := unary ⟨"", "", "", [], ""⟩
  writesIdxMap := specialSlot
  writesIdxMap_neg := specialSlot_neg
  getCheckpointMetadata config metadata := metadata ++ config.metadata
  hashOrder := id
  hashOrder_perm _ := List.Perm.refl _

/-- Two checkpoints of thread `t`. -/
def putTwo (first second : String) : List (Nat × SaverCall Unit) :=
  [(0, .aput { threadId := "t" } ⟨first, ()⟩ []), (1, .aput { threadId := "t" } ⟨second, ()⟩ [])]

def twoPlaces (first second : String) : Set Place := {("t", "", first), ("t", "", second)}

theorem keysApart_two (first second : String) : KeysApart {} (twoPlaces first second) := by
  refine ⟨?_, ?_⟩
  · rintro a (rfl | rfl) b (rfl | rfl) h
    all_goals
      simp only [ValkeySaver.cp, String.append_right_inj] at h
      simp [h]
  · rintro a (rfl | rfl) b (rfl | rfl) _
    all_goals exact ⟨rfl, rfl⟩

theorem unexpired_two (first second : String) : Unexpired {} 1 (putTwo first second) := by
  refine ⟨by simp [putTwo], fun c hc => ?_⟩
  have httl : ({} : ValkeySaver).ttl = 259200 := rfl
  simp only [putTwo, List.mem_cons, List.not_mem_nil, or_false] at hc
  rcases hc with rfl | rfl <;> exact ⟨by omega, by omega⟩

theorem places_two (first second : String) : ∀ c ∈ putTwo first second, ∀ a, c.2.place = some a →
    a ∈ twoPlaces first second := by
  intro c hc a ha
  simp only [putTwo, List.mem_cons, List.not_mem_nil, or_false] at hc
  rcases hc with rfl | rfl
  · exact .inl (Option.some.inj ha).symm
  · exact .inr (Option.some.inj ha).symm

theorem saver_refines_two :
    ({} : ValkeySaver).agetTuple unitLibraries 1 (runCalls unitLibraries {} (putTwo "a" "b"))
      { threadId := "t" } = storedGet unitLibraries ((putTwo "a" "b").map Prod.snd)
      { threadId := "t" } ∧
    ({} : ValkeySaver).alist unitLibraries 1 (runCalls unitLibraries {} (putTwo "a" "b"))
      (some { threadId := "t" }) none none (some 1) =
      storedList unitLibraries ((putTwo "a" "b").map Prod.snd) (some { threadId := "t" }) none none
        (some 1) := by
  have hwithin : ({ threadId := "t" } : RunnableConfig Unit).Within (twoPlaces "a" "b") :=
    ⟨"a", nofun, .inl rfl⟩
  refine ⟨(saver_refines (keysApart_two "a" "b") (unexpired_two "a" "b")
    (places_two "a" "b")).1 _ hwithin, (saver_refines (keysApart_two "a" "b")
    (unexpired_two "a" "b") (places_two "a" "b")).2 _ none none (some 1) fun c hc => ?_⟩
  obtain rfl := Option.some.inj hc
  refine ⟨hwithin, ?_⟩
  decide

theorem sort_two : ({"", "a"} : Finset String).sort (· ≥ ·) = ["a", ""] := by
  rw [Finset.pair_comm, Finset.sort_insert _ (by decide) (by decide), Finset.sort_singleton]

/-- The empty id is listed as the latest checkpoint. -/
theorem empty_id_lists_another :
    (({} : ValkeySaver).alist unitLibraries 1 (runCalls unitLibraries {} (putTwo "" "a"))
      (some { threadId := "t" }) none none none).map (fun tup => tup.checkpoint.id) = ["a", "a"] ∧
    (storedList unitLibraries ((putTwo "" "a").map Prod.snd) (some { threadId := "t" }) none none
      none).map (fun tup => tup.checkpoint.id) = ["a", ""] := by
  have hstands : Stands unitLibraries {} (twoPlaces "" "a") ((putTwo "" "a").map Prod.snd) 1
      (runCalls unitLibraries {} (putTwo "" "a")) :=
    stands_run (keysApart_two "" "a") (unexpired_two "" "a") (places_two "" "a")
  have hids : putIds unitLibraries ((putTwo "" "a").map Prod.snd) "t" "" = {"", "a"} := by decide
  have hgreatest : greatestPut unitLibraries ((putTwo "" "a").map Prod.snd) "t" "" = some "a" := by
    rw [greatestPut, hids, sort_two, List.head?_cons]
  have hused : (("t", "", "a") : Place) ∈ twoPlaces "" "a" := .inr rfl
  have hindex := hstands.index ("t", "", "a") hused
  have hget : ∀ cid ∈ ["a", ""], ({} : ValkeySaver).agetTuple unitLibraries 1
      (runCalls unitLibraries {} (putTwo "" "a"))
      { threadId := "t", checkpointNs := "", checkpointId := some cid } =
      storedTuple unitLibraries ((putTwo "" "a").map Prod.snd) "t" "" "a" := by
    intro cid hcid
    refine hstands.tuple ?_ hused
    rw [hstands.latest hused, hgreatest]
    rcases List.mem_pair.mp hcid with rfl | rfl <;> rfl
  constructor
  · simp only [ValkeySaver.alist, hindex, hids, sort_two]
    rw [alistLoop_eq _ hget]
    rfl
  · simp only [storedList, hids, sort_two]
    rfl

end Example

end Doci
