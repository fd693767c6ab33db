import Doci.Uuids

/-! The keys of `ValkeySaver` over the threads and namespaces of the runs: the text of a
key gives back its arguments. -/

namespace Doci

/-- The thread ids of the runs: a UUID, alone or with the part of the run it is for. -/
inductive ThreadText : String → Prop
  | run (u : Uuid) : ThreadText (uuidText u)
  | find (u : Uuid) : ThreadText (uuidText u ++ ":find")
  | reflect (u : Uuid) : ThreadText (uuidText u ++ ":reflect")
  | verdict (u : Uuid) : ThreadText (uuidText u ++ ":verdict")
  | page (u : Uuid) (digits : String) (hne : digits ≠ "") (h : ∀ c ∈ digits.toList, c.isDigit = true) :
      ThreadText (uuidText u ++ ":p" ++ digits)

/-- A name or an id of a namespace. -/
def BareText (s : List Char) : Prop := s ≠ [] ∧ ':' ∉ s ∧ '|' ∉ s

instance (s : List Char) : Decidable (BareText s) := inferInstanceAs (Decidable (_ ∧ _ ∧ _))

/-- LangGraph's namespaces: segments of a name and an id, none for the root graph. -/
def NamespaceText (ns : String) : Prop :=
  ∃ segments : List (List Char × List Char), (∀ s ∈ segments, BareText s.1 ∧ BareText s.2) ∧
    ns.toList = ['|'].intercalate (segments.map fun s => s.1 ++ ':' :: s.2)

variable {thread thread' ns ns' cid cid' : String} {saver : ValkeySaver}

/-- Two texts agree up to their separators if neither holds the other's before its own. -/
theorem separated {a b r r' : List Char} {x y : Char} (hy : y ∉ a) (hx : x ∉ b)
    (h : a ++ x :: r = b ++ y :: r') : a = b ∧ x = y ∧ r = r' := by
  induction a generalizing b with
  | nil =>
    cases b with
    | nil => exact ⟨rfl, List.cons.inj h⟩
    | cons c b => exact absurd ((List.cons.inj h).1 ▸ List.mem_cons_self) hx
  | cons c a ih =>
    cases b with
    | nil => exact absurd ((List.cons.inj h).1 ▸ List.mem_cons_self) hy
    | cons d b =>
      obtain ⟨rfl, htail⟩ := List.cons.inj h
      obtain ⟨rfl, hrest⟩ := ih (fun hm => hy (List.mem_cons_of_mem _ hm))
        (fun hm => hx (List.mem_cons_of_mem _ hm)) htail
      exact ⟨rfl, hrest⟩

theorem CheckpointThread.threadText (thread : CheckpointThread) : ThreadText thread.text := by
  cases thread with
  | execution t => exact .run t
  | find t => exact .find t
  | reflect t => exact .reflect t
  | verdict t => exact .verdict t
  | page t number =>
    refine .page t number.repr (fun h => ?_) fun c hc => ?_
    · have hne : number.repr.toList ≠ [] := by
        rw [Nat.toList_repr]
        exact Nat.toDigits_ne_nil
      exact hne (by rw [h]; rfl)
    · rw [Nat.toList_repr] at hc
      exact Nat.isDigit_of_mem_toDigits (by decide) (by decide) hc

theorem ThreadText.parts (h : ThreadText thread) : ':' ∉ thread.toList ∨
    ∃ run part, thread.toList = run ++ ':' :: part ∧ ':' ∉ run ∧ BareText part := by
  have hrun : ∀ u : Uuid, ':' ∉ (uuidText u).toList := fun u => not_mem_uuidText (by decide)
  cases h with
  | run u => exact .inl (hrun u)
  | find u => exact .inr ⟨(uuidText u).toList, "find".toList, by simp, hrun u, by decide⟩
  | reflect u => exact .inr ⟨(uuidText u).toList, "reflect".toList, by simp, hrun u, by decide⟩
  | verdict u => exact .inr ⟨(uuidText u).toList, "verdict".toList, by simp, hrun u, by decide⟩
  | page u digits _ hdigits =>
    refine .inr ⟨(uuidText u).toList, 'p' :: digits.toList, by simp, hrun u, List.cons_ne_nil _ _, ?_, ?_⟩
    all_goals
      intro hc
      rcases List.mem_cons.mp hc with hp | hc
      · exact absurd hp (by decide)
      · exact absurd (hdigits _ hc) (by decide)

/-- A namespace is empty or begins with a segment, which a bar or the end follows. -/
theorem NamespaceText.first (h : NamespaceText ns) : ns.toList = [] ∨
    ∃ name id rest, BareText name ∧ BareText id ∧ ns.toList = name ++ ':' :: (id ++ rest) ∧
      (rest = [] ∨ rest.head? = some '|') := by
  obtain ⟨segments, hbare, heq⟩ := h
  cases segments with
  | nil => exact .inl heq
  | cons s segments =>
    obtain ⟨hname, hid⟩ := hbare s List.mem_cons_self
    refine .inr ⟨s.1, s.2, ?_⟩
    cases segments with
    | nil => exact ⟨[], hname, hid, by simpa [List.intercalate] using heq, .inl rfl⟩
    | cons s' segments =>
      rw [List.map_cons, List.map_cons, List.intercalate_cons_cons] at heq
      exact ⟨_, hname, hid, by simpa [List.append_assoc] using heq, .inr rfl⟩

/-- No namespace is another one behind the part of a thread. -/
theorem NamespaceText.ne_part {part : List Char} (h : NamespaceText ns) (h' : NamespaceText ns')
    (hpart : BareText part) : ns.toList ≠ part ++ ':' :: ns'.toList := by
  intro heq
  rcases h.first with hnil | ⟨name, id, rest, hname, hid, hns, hrest⟩
  · rw [hnil] at heq
    simp at heq
  obtain ⟨-, -, htail⟩ := separated hname.2.1 hpart.2.1 (hns ▸ heq)
  rcases h'.first with hnil | ⟨name', id', rest', hname', hid', hns', hrest'⟩
  · rw [hnil, List.append_eq_nil_iff] at htail
    exact hid.1 htail.1
  rw [hns'] at htail
  rcases hrest with rfl | hbar
  · -- the id is followed by the end, so it would have to hold the next colon
    rw [List.append_nil] at htail
    exact hid.2.1 (htail ▸ by simp)
  · -- the id is followed by a bar, which the next name does not hold
    obtain ⟨more, rfl⟩ : ∃ more, rest = '|' :: more := by
      cases rest with
      | nil => cases hbar
      | cons c more => exact ⟨more, by rw [Option.some.inj hbar]⟩
    have hsep := separated hid.2.1 hname'.2.2 htail
    exact absurd hsep.2.1 (by decide)

/-- The last colon of a text with a colon-free end is the one before that end. -/
theorem colon_last {a b c d : List Char} (hb : ':' ∉ b) (hd : ':' ∉ d)
    (h : a ++ ':' :: b = c ++ ':' :: d) : a = c ∧ b = d := by
  have hrev : b.reverse ++ ':' :: a.reverse = d.reverse ++ ':' :: c.reverse := by
    simpa using congrArg List.reverse h
  obtain ⟨hend, -, hfront⟩ := separated (by simpa using hb) (by simpa using hd) hrev
  exact ⟨List.reverse_injective hfront, List.reverse_injective hend⟩

/-- A thread with a namespace is read back from the two, joined by a colon. -/
theorem thread_ns_inj (ht : ThreadText thread) (ht' : ThreadText thread') (hn : NamespaceText ns)
    (hn' : NamespaceText ns')
    (h : thread.toList ++ ':' :: ns.toList = thread'.toList ++ ':' :: ns'.toList) :
    thread = thread' ∧ ns = ns' := by
  rcases ht.parts with hrun | ⟨run, part, hthread, hrun, hpart⟩ <;>
    rcases ht'.parts with hrun' | ⟨run', part', hthread', hrun', hpart'⟩
  · obtain ⟨heq, -, hns⟩ := separated hrun hrun' h
    exact ⟨String.toList_injective heq, String.toList_injective hns⟩
  · rw [hthread', List.append_assoc, List.cons_append] at h
    obtain ⟨-, -, hns⟩ := separated hrun hrun' h
    exact absurd hns (hn.ne_part hn' hpart')
  · rw [hthread, List.append_assoc, List.cons_append] at h
    obtain ⟨-, -, hns⟩ := separated hrun hrun' h
    exact absurd hns.symm (hn'.ne_part hn hpart)
  · rw [hthread, hthread', List.append_assoc, List.append_assoc, List.cons_append,
      List.cons_append] at h
    obtain ⟨heq, -, hrest⟩ := separated hrun hrun' h
    obtain ⟨hpeq, -, hns⟩ := separated hpart.2.1 hpart'.2.1 hrest
    exact ⟨String.toList_injective (by rw [hthread, hthread', heq, hpeq]),
      String.toList_injective hns⟩

theorem ValkeySaver.cp_toList (saver : ValkeySaver) (thread ns cid : String) :
    (saver.cp thread ns cid).toList = saver.keyPrefix.toList ++ "cp:".toList ++
      ((thread.toList ++ ':' :: ns.toList) ++ ':' :: cid.toList) := by
  simp [ValkeySaver.cp]

theorem ValkeySaver.w_toList (saver : ValkeySaver) (thread ns cid : String) :
    (saver.w thread ns cid).toList = saver.keyPrefix.toList ++ "w:".toList ++
      ((thread.toList ++ ':' :: ns.toList) ++ ':' :: cid.toList) := by
  simp [ValkeySaver.w]

theorem ValkeySaver.idx_toList (saver : ValkeySaver) (thread ns : String) :
    (saver.idx thread ns).toList = saver.keyPrefix.toList ++ "idx:".toList ++
      (thread.toList ++ ':' :: ns.toList) := by
  simp [ValkeySaver.idx]

/-- The families part at the first character behind the prefix. -/
theorem family_ne {p k k' : List Char} {key key' : String} (hkey : key.toList = p ++ k)
    (hkey' : key'.toList = p ++ k') (h : k.head? ≠ k'.head?) : key ≠ key' := by
  intro heq
  rw [heq, hkey'] at hkey
  exact h (congrArg List.head? (List.append_cancel_left hkey).symm)

theorem checkpoint_families (saver : ValkeySaver) (thread ns cid thread' ns' cid' : String) :
    saver.cp thread ns cid ≠ saver.idx thread' ns' ∧
      saver.cp thread ns cid ≠ saver.w thread' ns' cid' ∧
      saver.idx thread ns ≠ saver.w thread' ns' cid' := by
  have hcp := saver.cp_toList thread ns cid
  have hidx := saver.idx_toList thread' ns'
  have hidx' := saver.idx_toList thread ns
  have hw := saver.w_toList thread' ns' cid'
  rw [List.append_assoc] at hcp hidx hidx' hw
  exact ⟨family_ne hcp hidx (by simp), family_ne hcp hw (by simp), family_ne hidx' hw (by simp)⟩

/-- The keys of two triples are equal only for equal arguments, and never across families. -/
def NamesArguments (saver : ValkeySaver) (thread ns cid thread' ns' cid' : String) : Prop :=
  (saver.cp thread ns cid = saver.cp thread' ns' cid' → thread = thread' ∧ ns = ns' ∧ cid = cid') ∧
    (saver.w thread ns cid = saver.w thread' ns' cid' → thread = thread' ∧ ns = ns' ∧ cid = cid') ∧
    (saver.idx thread ns = saver.idx thread' ns' → thread = thread' ∧ ns = ns') ∧
    saver.cp thread ns cid ≠ saver.idx thread' ns' ∧
    saver.cp thread ns cid ≠ saver.w thread' ns' cid' ∧
    saver.idx thread ns ≠ saver.w thread' ns' cid'

/-- On the threads and the namespaces of the runs the keys are unambiguous. -/
theorem checkpoint_keys_apart (saver : ValkeySaver) (thread thread' ns ns' cid cid' : String)
    (ht : ThreadText thread) (ht' : ThreadText thread') (hn : NamespaceText ns)
    (hn' : NamespaceText ns') (hc : ':' ∉ cid.toList) (hc' : ':' ∉ cid'.toList) :
    NamesArguments saver thread ns cid thread' ns' cid' := by
  have hinj := thread_ns_inj ht ht' hn hn'
  have hlast := fun h => colon_last (a := thread.toList ++ ':' :: ns.toList)
    (c := thread'.toList ++ ':' :: ns'.toList) hc hc' h
  refine ⟨fun h => ?_, fun h => ?_, fun h => ?_, checkpoint_families saver thread ns cid thread' ns' cid'⟩
  · have hkey := congrArg String.toList h
    rw [ValkeySaver.cp_toList, ValkeySaver.cp_toList] at hkey
    obtain ⟨hleft, hcid⟩ := hlast (List.append_cancel_left hkey)
    exact ⟨(hinj hleft).1, (hinj hleft).2, String.toList_injective hcid⟩
  · have hkey := congrArg String.toList h
    rw [ValkeySaver.w_toList, ValkeySaver.w_toList] at hkey
    obtain ⟨hleft, hcid⟩ := hlast (List.append_cancel_left hkey)
    exact ⟨(hinj hleft).1, (hinj hleft).2, String.toList_injective hcid⟩
  · have hkey := congrArg String.toList h
    rw [ValkeySaver.idx_toList, ValkeySaver.idx_toList] at hkey
    exact hinj (List.append_cancel_left hkey)

/-- The finding agent's thread beside the execution's in a namespace of that name. -/
theorem checkpoint_keys_apart_find :
    NamesArguments {} (uuidText 0 ++ ":find") "" "1" (uuidText 0) "find:1" "1" :=
  checkpoint_keys_apart {} _ _ _ _ _ _ (.find 0) (.run 0) ⟨[], by simp, rfl⟩
    ⟨[("find".toList, "1".toList)], by simp; decide, by simp⟩ (by simp) (by simp)

end Doci
