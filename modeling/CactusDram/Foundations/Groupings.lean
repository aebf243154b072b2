import Mathlib.Data.Set.Function
import Mathlib.Data.Nat.ModEq
import Mathlib.Data.Int.ModEq
import Mathlib.Data.Nat.Bitwise
import Mathlib.Tactic.LinearCombination
import Mathlib.Tactic.Zify

/-! Rows in groups of one size: the row at an offset of a group, and the group of a row. -/
namespace Foundations

/-- The rows below `rows` in groups: `row t l` is the row at offset `l` of group `t`, and `group`
finds the group of a row. -/
structure Grouping (groups size rows : ℕ) (row : ℕ → ℕ → ℕ) (group : ℕ → ℕ) : Prop where
  row_lt : ∀ t < groups, ∀ l < size, row t l < rows
  group_row : ∀ t < groups, ∀ l < size, group (row t l) = t
  offset_unique : ∀ t < groups, ∀ l < size, ∀ l' < size, row t l = row t l' → l = l'
  exists_offset : ∀ r < rows, group r < groups ∧ ∃ l < size, row (group r) l = r

namespace Grouping
variable {groups size rows : ℕ} {row : ℕ → ℕ → ℕ} {group : ℕ → ℕ}

theorem bijOn (h : Grouping groups size rows row group) :
    Set.BijOn (fun p : ℕ × ℕ => row p.1 p.2) (Set.Iio groups ×ˢ Set.Iio size) (Set.Iio rows) := by
  refine ⟨?_, ?_, ?_⟩
  · rintro ⟨t, l⟩ ⟨ht, hl⟩
    exact h.row_lt t ht l hl
  · rintro ⟨t, l⟩ ⟨ht, hl⟩ ⟨t', l'⟩ ⟨ht', hl'⟩ heq
    have hsame : t = t' := by
      rw [← h.group_row t ht l hl, ← h.group_row t' ht' l' hl']
      exact congrArg group heq
    subst hsame
    rw [h.offset_unique t ht l hl l' hl' heq]
  · intro r hr
    obtain ⟨hgroup, l, hl, heq⟩ := h.exists_offset r hr
    exact ⟨(group r, l), ⟨hgroup, hl⟩, heq⟩

theorem group_eq_iff (h : Grouping groups size rows row group) {r t : ℕ} (hr : r < rows)
    (ht : t < groups) : group r = t ↔ ∃ l < size, r = row t l := by
  constructor
  · rintro rfl
    obtain ⟨_, l, hl, heq⟩ := h.exists_offset r hr
    exact ⟨l, hl, heq.symm⟩
  · rintro ⟨l, hl, rfl⟩
    exact h.group_row t ht l hl

end Grouping

/-- Groups of neighbours. -/
theorem grouping_div {groups size : ℕ} : Grouping groups size (groups * size)
    (fun t l => t * size + l) (fun r => r / size) where
  row_lt t ht l hl := by
    have hle := Nat.mul_le_mul_right size (Nat.succ_le_of_lt ht)
    rw [Nat.succ_mul] at hle
    omega
  group_row t _ l hl := by
    rw [Nat.mul_comm, Nat.mul_add_div (by omega), Nat.div_eq_of_lt hl, Nat.add_zero]
  offset_unique t _ l _ l' _ h := by omega
  exists_offset r hr := by
    have hsize : 0 < size := Nat.pos_of_mul_pos_left (Nat.zero_lt_of_lt hr)
    exact ⟨(Nat.div_lt_iff_lt_mul hsize).mpr hr, r % size, Nat.mod_lt _ hsize, Nat.div_add_mod' r size⟩

/-- Groups of rows at a fixed distance, all of them shifted. -/
theorem grouping_skewed {groups size : ℕ} (hgroups : 0 < groups) (b : ℕ) :
    Grouping groups size (groups * size) (fun t l => (t + b + l * groups) % (groups * size))
      (fun r => (((r : ℤ) - b) % groups).toNat) where
  row_lt t _ l hl := Nat.mod_lt _ (Nat.mul_pos hgroups (by omega))
  group_row t ht l _ := by
    have hmod : (((t + b + l * groups) % (groups * size) : ℕ) : ℤ) % groups = (t + b : ℤ) % groups := by
      push_cast
      rw [Int.emod_emod_of_dvd _ (Dvd.intro _ rfl), Int.add_mul_emod_self_right]
    rw [Int.sub_emod, hmod, ← Int.sub_emod, add_sub_cancel_right, Int.emod_eq_of_lt] <;> omega
  offset_unique t _ l hl l' hl' h := by
    have hmul : l * groups ≡ l' * groups [MOD groups * size] :=
      Nat.ModEq.add_left_cancel' (t + b) h
    have hoffset : l ≡ l' [MOD size] := by
      apply Nat.ModEq.mul_right_cancel' (Nat.ne_of_gt hgroups)
      rwa [Nat.mul_comm size groups]
    exact Nat.ModEq.eq_of_lt_of_lt hoffset hl hl'
  exists_offset r hr := by
    have hsize : 0 < size := Nat.pos_of_mul_pos_left (Nat.zero_lt_of_lt hr)
    have hnonneg := Int.emod_nonneg ((r : ℤ) - b) (b := groups) (by omega)
    have hlt := Int.emod_lt_of_pos ((r : ℤ) - b) (b := groups) (by omega)
    -- the quotient, taken modulo the offsets, is the offset
    have hquot := Int.emod_nonneg (((r : ℤ) - b) / groups) (b := size) (by omega)
    have hquot' := Int.emod_lt_of_pos (((r : ℤ) - b) / groups) (b := size) (by omega)
    refine ⟨by omega, ((((r : ℤ) - b) / groups) % size).toNat, by omega, ?_⟩
    have hshift : ((r : ℤ) - b) % groups + b + ((r : ℤ) - b) / groups % size * groups =
        r - groups * size * (((r : ℤ) - b) / groups / size) := by
      have hdiv := Int.emod_add_mul_ediv ((r : ℤ) - b) groups
      have hdiv' := Int.emod_add_mul_ediv (((r : ℤ) - b) / groups) size
      linear_combination hdiv + groups * hdiv'
    zify
    rw [Int.toNat_of_nonneg hnonneg, Int.toNat_of_nonneg hquot, hshift, Int.sub_mul_emod_self_left]
    exact Int.emod_eq_of_lt (by omega) (by exact_mod_cast hr)

/-- Groups of neighbours, with the group at each offset masked. -/
theorem grouping_xor {n size : ℕ} (hsize : 0 < size) {mask : ℕ → ℕ} (hmask : ∀ l < size, mask l < 2 ^ n) :
    Grouping (2 ^ n) size (2 ^ n * size) (fun t l => (t ^^^ mask l) * size + l)
      (fun r => r / size ^^^ mask (r % size)) where
  row_lt t ht l hl := by
    exact grouping_div.row_lt _ (Nat.xor_lt_two_pow ht (hmask l hl)) l hl
  group_row t ht l hl := by
    have hdiv := grouping_div.group_row (t ^^^ mask l) (Nat.xor_lt_two_pow ht (hmask l hl)) l hl
    rw [hdiv, Nat.mul_add_mod', Nat.mod_eq_of_lt hl, Nat.xor_assoc, Nat.xor_self, Nat.xor_zero]
  offset_unique t _ l hl l' hl' h := by
    have hmod : ((t ^^^ mask l) * size + l) % size = ((t ^^^ mask l') * size + l') % size :=
      congrArg (· % size) h
    rwa [Nat.mul_add_mod', Nat.mul_add_mod', Nat.mod_eq_of_lt hl, Nat.mod_eq_of_lt hl'] at hmod
  exists_offset r hr := by
    have hmod := Nat.mod_lt r hsize
    have hdiv : r / size < 2 ^ n := (Nat.div_lt_iff_lt_mul hsize).mpr hr
    refine ⟨Nat.xor_lt_two_pow hdiv (hmask _ hmod), r % size, hmod, ?_⟩
    rw [Nat.xor_assoc, Nat.xor_self, Nat.xor_zero]
    exact Nat.div_add_mod' r size

end Foundations
