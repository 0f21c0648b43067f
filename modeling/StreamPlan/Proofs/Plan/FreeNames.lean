import Mathlib.Data.List.Nodup
import Mathlib.Data.List.Perm.Subperm
import StreamPlan.Plan.StageNames

/-!
# The name that is found is free

The search for a name tries as many numbers as there are names, one after another, and
takes the next one without a look.  It may: all numbers it has passed over are taken,
and they stand for different names, so there is no taken name left for the last.

## Main results

* `StageNames.contains_fst_allocate` — **the first free name of a word is free.**
-/

namespace StreamPlan
namespace StageNames

/-- The search for a word starts at its floor or later. -/
theorem le_firstFree (s : StageNames) (stem : String) (steps n : Nat) :
    n ≤ s.firstFree stem steps n := by
  induction steps generalizing n with
  | zero => exact Nat.le_refl n
  | succ steps ih =>
    rw [firstFree]
    split
    · exact Nat.le_trans (Nat.le_succ n) (ih (n + 1))
    · exact Nat.le_refl n

theorem floor_allocate (s : StageNames) (stem other : String) :
    (s.allocate stem).2.floor other =
      if stem = other then s.firstFree stem s.size (s.floor stem) else s.floor other := by
  simp [allocate, floor, Std.TreeMap.getD_insert]

theorem one_le_floor_allocate {s : StageNames} (h : ∀ stem, 1 ≤ s.floor stem)
    (stem other : String) : 1 ≤ (s.allocate stem).2.floor other := by
  rw [floor_allocate]
  split
  · exact Nat.le_trans (h stem) (le_firstFree s stem s.size (s.floor stem))
  · exact h other

/-- The numbers that the search passes over are taken. -/
theorem contains_of_lt_firstFree (s : StageNames) (stem : String) {steps n k : Nat} (hn : n ≤ k)
    (hk : k < s.firstFree stem steps n) : s.contains (numbered stem k) = true := by
  induction steps generalizing n with
  | zero =>
    rw [firstFree] at hk
    omega
  | succ steps ih =>
    rw [firstFree] at hk
    split at hk
    · next htaken =>
      rcases Nat.eq_or_lt_of_le hn with heq | hlt
      · rw [← heq]
        exact htaken
      · exact ih hlt hk
    · omega

/-- The search ends at a free name, unless it has run out of steps. -/
theorem firstFree_eq_of_contains (s : StageNames) (stem : String) {steps n : Nat}
    (h : s.contains (numbered stem (s.firstFree stem steps n)) = true) :
    s.firstFree stem steps n = n + steps := by
  induction steps generalizing n with
  | zero => rfl
  | succ steps ih =>
    rw [firstFree] at h ⊢
    by_cases htaken : s.contains (numbered stem n) = true
    · rw [if_pos htaken] at h ⊢
      rw [ih h]
      omega
    · rw [if_neg htaken] at h
      exact absurd h htaken

/-- There are not more taken numbers in a row than names. -/
theorem length_le_size_of_contains (s : StageNames) (stem : String) {n count : Nat}
    (h : ∀ k, n ≤ k → k < n + count → s.contains (numbered stem k) = true) : count ≤ s.size := by
  have hnodup : ((List.range' n count).map (numbered stem)).Nodup :=
    (List.nodup_range').map fun _ _ => numbered_inj.mp
  have hsubset : (List.range' n count).map (numbered stem) ⊆ s.taken.toList := by
    intro name hname
    obtain ⟨k, hk, rfl⟩ := List.mem_map.mp hname
    rw [List.mem_range'_1] at hk
    rw [Std.TreeSet.mem_toList, ← Std.TreeSet.contains_iff_mem]
    exact h k hk.1 hk.2
  have hlength := (hnodup.subperm hsubset).length_le
  rw [List.length_map, List.length_range', Std.TreeSet.length_toList] at hlength
  exact hlength

/-- **The first free name of a word is free.** -/
theorem contains_fst_allocate (s : StageNames) (stem : String) :
    s.contains (s.allocate stem).1 = false := by
  by_contra htaken
  rw [Bool.not_eq_false] at htaken
  have hend := s.firstFree_eq_of_contains stem htaken
  have hall : ∀ k, s.floor stem ≤ k → k < s.floor stem + (s.size + 1) →
      s.contains (numbered stem k) = true := by
    intro k hk hlt
    rcases Nat.lt_or_ge k (s.floor stem + s.size) with hbefore | hlast
    · exact s.contains_of_lt_firstFree stem hk (by rw [hend]; exact hbefore)
    · have heq : k = s.floor stem + s.size := by omega
      rw [heq, ← hend]
      exact htaken
  have := s.length_le_size_of_contains stem hall
  omega

end StageNames
end StreamPlan
