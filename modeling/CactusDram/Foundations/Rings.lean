import Mathlib.Data.List.Nodup
import Mathlib.Data.List.Range
import Mathlib.Data.Nat.ModEq

/-! The slots in use of a ring buffer. -/
namespace Foundations

/-- The slots of a ring of `n` that hold `size` elements from `ptr` on, the oldest first. -/
def ringSlots (n ptr size : ℕ) : List ℕ := (List.range size).map fun k => (ptr + k) % n

variable {n ptr size : ℕ}

@[simp]
theorem ringSlots_zero (n ptr : ℕ) : ringSlots n ptr 0 = [] := rfl

theorem ringSlots_push (n ptr size : ℕ) :
    ringSlots n ptr (size + 1) = ringSlots n ptr size ++ [(ptr + size) % n] := by
  simp [ringSlots, List.range_succ]

theorem ringSlots_pop (hptr : ptr < n) (size : ℕ) :
    ringSlots n ptr (size + 1) = ptr :: ringSlots n ((ptr + 1) % n) size := by
  unfold ringSlots
  rw [List.range_succ_eq_map, List.map_cons, List.map_map, Nat.add_zero, Nat.mod_eq_of_lt hptr]
  congr 1
  apply List.map_congr_left
  intro k _
  rw [Function.comp_apply, Nat.mod_add_mod]
  congr 1
  omega

/-- A ring that is not overfull uses every slot once. -/
theorem nodup_ringSlots (ptr : ℕ) (hsize : size ≤ n) : (ringSlots n ptr size).Nodup := by
  refine List.Nodup.map_on (fun a ha b hb hab => ?_) List.nodup_range
  rw [List.mem_range] at ha hb
  have hmod : a ≡ b [MOD n] := Nat.ModEq.add_left_cancel' ptr hab
  rwa [Nat.ModEq, Nat.mod_eq_of_lt (by omega), Nat.mod_eq_of_lt (by omega)] at hmod

theorem next_not_mem_ringSlots (ptr : ℕ) (hsize : size < n) : (ptr + size) % n ∉ ringSlots n ptr size := by
  have hnodup := nodup_ringSlots ptr (Nat.succ_le_of_lt hsize)
  rw [ringSlots_push, List.nodup_append] at hnodup
  intro hmem
  exact hnodup.2.2 _ hmem _ List.mem_cons_self rfl

end Foundations
