import Mathlib.Data.List.Sort
import Mathlib.Order.Basic

/-! Sets whose members have scores, kept from the lowest score up and by member among equal
scores. -/

namespace Scored

section SortedSet

variable {K S : Type} [LinearOrder K] [LinearOrder S]

def Before (a b : K × S) : Prop := a.2 < b.2 ∨ a.2 = b.2 ∧ a.1 ≤ b.1

instance : DecidableRel (Before (K := K) (S := S)) :=
  fun a b => inferInstanceAs (Decidable (a.2 < b.2 ∨ a.2 = b.2 ∧ a.1 ≤ b.1))

theorem before_total (a b : K × S) : Before a b ∨ Before b a := by
  rcases lt_trichotomy a.2 b.2 with h | h | h
  · exact .inl (.inl h)
  · rcases le_total a.1 b.1 with hle | hle
    · exact .inl (.inr ⟨h, hle⟩)
    · exact .inr (.inr ⟨h.symm, hle⟩)
  · exact .inr (.inl h)

theorem Before.trans {a b c : K × S} (h : Before a b) (h' : Before b c) : Before a c := by
  rcases h with h | ⟨h, hle⟩ <;> rcases h' with h' | ⟨h', hle'⟩
  · exact .inl (h.trans h')
  · exact .inl (h' ▸ h)
  · exact .inl (h ▸ h')
  · exact .inr ⟨h.trans h', hle.trans hle'⟩

theorem Before.le {a b : K × S} (h : Before a b) : a.2 ≤ b.2 :=
  h.elim le_of_lt fun h => h.1.le

instance : Std.Total (Before (K := K) (S := S)) := ⟨before_total⟩

instance : IsTrans (K × S) Before := ⟨fun _ _ _ => Before.trans⟩

structure SortedSet (K S : Type) [LinearOrder K] [LinearOrder S] where
  entries : List (K × S)
  nodup : (entries.map Prod.fst).Nodup
  ordered : entries.Pairwise Before

def SortedSet.empty : SortedSet K S := ⟨[], .nil, .nil⟩

def SortedSet.filter (z : SortedSet K S) (p : K × S → Bool) : SortedSet K S where
  entries := z.entries.filter p
  nodup := z.nodup.sublist (List.filter_sublist.map Prod.fst)
  ordered := z.ordered.sublist List.filter_sublist

def SortedSet.rem (z : SortedSet K S) (k : K) : SortedSet K S := z.filter fun e => e.1 ≠ k

/-- Remove the members whose scores are at most `s`. -/
def SortedSet.remUpTo (z : SortedSet K S) (s : S) : SortedSet K S := z.filter fun e => s < e.2

theorem SortedSet.nodup_insert (z : SortedSet K S) (k : K) (s : S) :
    (((z.rem k).entries.orderedInsert Before (k, s)).map Prod.fst).Nodup := by
  have hperm := (List.perm_orderedInsert Before (k, s) (z.rem k).entries).map Prod.fst
  refine hperm.nodup_iff.mpr (List.nodup_cons.mpr ⟨fun h => ?_, (z.rem k).nodup⟩)
  obtain ⟨e, he, rfl⟩ := List.mem_map.mp h
  simpa using (List.mem_filter.mp he).2

def SortedSet.add (z : SortedSet K S) (k : K) (s : S) : SortedSet K S where
  entries := (z.rem k).entries.orderedInsert Before (k, s)
  nodup := z.nodup_insert k s
  ordered := (z.rem k).ordered.orderedInsert _ _

/-- The members of ranks `start` to `stop`, the highest score first. -/
def SortedSet.revRange (z : SortedSet K S) (start stop : Nat) : List K :=
  ((z.entries.reverse.map Prod.fst).drop start).take (stop + 1 - start)

variable {z : SortedSet K S} {k k' : K} {s s' : S} {start stop : Nat}

theorem SortedSet.mem_rem : (k', s') ∈ (z.rem k).entries ↔ (k', s') ∈ z.entries ∧ k' ≠ k := by
  simp [rem, filter]

theorem SortedSet.mem_remUpTo :
    (k', s') ∈ (z.remUpTo s).entries ↔ (k', s') ∈ z.entries ∧ s < s' := by
  simp [remUpTo, filter]

theorem SortedSet.mem_add :
    (k', s') ∈ (z.add k s).entries ↔ k' = k ∧ s' = s ∨ (k', s') ∈ z.entries ∧ k' ≠ k := by
  have hmem : (k', s') ∈ (z.add k s).entries ↔ (k', s') = (k, s) ∨ (k', s') ∈ (z.rem k).entries :=
    List.mem_orderedInsert Before
  rw [hmem, mem_rem, Prod.mk.injEq]

theorem SortedSet.entries_foldl_rem {ks : List K} :
    (ks.foldl SortedSet.rem z).entries = z.entries.filter fun e => e.1 ∉ ks := by
  induction ks generalizing z with
  | nil => simp
  | cons k ks ih =>
    rw [List.foldl_cons, ih]
    simp only [rem, filter, List.filter_filter, List.mem_cons, not_or, Bool.decide_and, Bool.and_comm]

theorem SortedSet.revRange_all (hlength : z.entries.length ≤ stop + 1) :
    z.revRange 0 stop = z.entries.reverse.map Prod.fst := by
  unfold revRange
  rw [List.drop_zero, List.take_of_length_le (by simpa using hlength)]

theorem SortedSet.revRange_sublist :
    (z.revRange start stop).Sublist (z.entries.reverse.map Prod.fst) :=
  (List.take_sublist _ _).trans (List.drop_sublist _ _)

theorem SortedSet.revRange_nodup : (z.revRange start stop).Nodup := by
  refine revRange_sublist.nodup ?_
  rw [List.map_reverse]
  exact List.nodup_reverse.mpr z.nodup

theorem SortedSet.mem_of_mem_revRange (h : k ∈ z.revRange start stop) :
    ∃ s, (k, s) ∈ z.entries := by
  obtain ⟨e, he, rfl⟩ := List.mem_map.mp (revRange_sublist.subset h)
  exact ⟨e.2, List.mem_reverse.mp he⟩

/-- The members are listed by whatever their scores are. -/
theorem SortedSet.revRange_ordered {score : K → S} (h : ∀ e ∈ z.entries, e.2 = score e.1) :
    (z.revRange start stop).Pairwise fun a b => score b ≤ score a := by
  have hall : (z.entries.reverse.map Prod.fst).Pairwise fun a b => score b ≤ score a := by
    rw [List.pairwise_map, List.pairwise_reverse]
    refine z.ordered.imp_of_mem fun {a b} ha hb hab => ?_
    rw [← h a ha, ← h b hb]
    exact hab.le
  exact hall.sublist revRange_sublist

end SortedSet

end Scored
