import Mathlib.Order.Nat

/-! A register that keeps the best of the values touched since it was last empty. -/
namespace Foundations

variable {ι : Type*} {val val' : ι → ℕ} {touched touched' : ι → Prop} {reg : Option ι}

/-- An empty register has seen nothing; a full one holds a touched index of positive value that no
touched index exceeds. -/
def HoldsMax (val : ι → ℕ) (touched : ι → Prop) : Option ι → Prop
  | none => ∀ i, ¬touched i
  | some m => touched m ∧ 0 < val m ∧ ∀ i, touched i → val i ≤ val m

/-- Values may fall under the register, except the one it holds. -/
theorem HoldsMax.lower (h : HoldsMax val touched reg) (hle : ∀ i, touched i → val' i ≤ val i)
    (hkeep : ∀ m, reg = some m → val' m = val m) : HoldsMax val' touched reg := by
  cases reg with
  | none => exact h
  | some m =>
    obtain ⟨hm, hpos, hmax⟩ := h
    have hval := hkeep m rfl
    refine ⟨hm, by omega, fun i hi => ?_⟩
    have hi' := hmax i hi
    have hfall := hle i hi
    omega

theorem HoldsMax.congr (h : HoldsMax val touched reg) (hiff : ∀ i, touched' i ↔ touched i) :
    HoldsMax val touched' reg := by
  have heq : touched' = touched := funext fun i => propext (hiff i)
  rwa [heq]

/-- An index counts and the register takes it if it is empty or now holds less. -/
theorem HoldsMax.count (h : HoldsMax val touched reg) {n : ι} (hn : val' n = val n + 1)
    (hother : ∀ i, i ≠ n → val' i = val i) (htouched : ∀ i, touched' i ↔ i = n ∨ touched i) :
    HoldsMax val' touched' (if reg.all fun m => val' m < val' n then some n else reg) := by
  have hrise (i : ι) : val i ≤ val' i := by
    by_cases hi : i = n
    · subst hi
      omega
    · exact Nat.le_of_eq (hother i hi).symm
  cases reg with
  | none =>
    refine ⟨(htouched n).mpr (.inl rfl), by omega, fun i hi => ?_⟩
    obtain rfl | hi := (htouched i).mp hi
    · exact Nat.le_refl _
    · exact absurd hi (h i)
  | some m =>
    obtain ⟨hm, hpos, hmax⟩ := h
    have hm' := hrise m
    split_ifs with hless
    · have hless : val' m < val' n := by simpa using hless
      refine ⟨(htouched n).mpr (.inl rfl), by omega, fun i hi => ?_⟩
      obtain rfl | hi := (htouched i).mp hi
      · exact Nat.le_refl _
      · by_cases hne : i = n
        · exact hne ▸ Nat.le_refl _
        · have hi' := hmax i hi
          have hval := hother i hne
          omega
    · have hless : val' n ≤ val' m := by simpa using hless
      refine ⟨(htouched m).mpr (.inr hm), by omega, fun i hi => ?_⟩
      obtain rfl | hi := (htouched i).mp hi
      · exact hless
      · by_cases hne : i = n
        · exact hne ▸ hless
        · have hi' := hmax i hi
          have hval := hother i hne
          omega

end Foundations
