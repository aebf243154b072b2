import CactusDram.Foundations.Windows
import Mathlib.Tactic

/-! Turns of a counter that now and then skips one. -/
namespace Foundations

/-- The turn taken when the counter moves on by one, and by one more after every `g` turns. -/
def skippingTurn (g n k : ℕ) : ℕ := (k + k / g) % n

theorem skippingTurn_lt {g n : ℕ} (hn : 0 < n) (k : ℕ) : skippingTurn g n k < n := Nat.mod_lt _ hn

/-- Without a skip that matters, the turns are a progression with a step prime to `n`. -/
theorem exists_coprime_turn {g n : ℕ} (h : n = 1 ∨ g = 1 ∧ Odd n) :
    ∃ d, d.Coprime n ∧ ∀ k, skippingTurn g n k = (0 + k * d) % n := by
  obtain rfl | ⟨rfl, hodd⟩ := h
  · exact ⟨1, rfl, fun k => by simp [skippingTurn, Nat.mod_one]⟩
  · refine ⟨2, Nat.coprime_two_left.mpr hodd, fun k => ?_⟩
    rw [skippingTurn, Nat.div_one, Nat.zero_add, Nat.mul_two]

/-- A turn comes back after `n` others, if each of the two windows around it holds it once. -/
theorem turn_add_period {f : ℕ → ℕ} {n a : ℕ}
    (hfirst : (List.range' a n).countP (fun k => f k = f a) = 1)
    (hsecond : (List.range' (a + 1) n).countP (fun k => f k = f a) = 1) : f (a + n) = f a := by
  have hcons : (List.range' a (n + 1)).countP (fun k => f k = f a) = 2 := by
    rw [List.range'_succ, List.countP_cons, hsecond]
    simp
  rw [← List.range'_append_1, List.countP_append, hfirst] at hcons
  by_contra hne
  simp [hne] at hcons

/-- Windows of `n` turns that each meet every residue once leave no skip that matters. -/
theorem turn_condition {g n : ℕ} (hg : 0 < g) (hn : 0 < n)
    (h : ∀ a ≤ g, ∀ r < n, (List.range' a n).countP (fun k => skippingTurn g n k = r) = 1) :
    n = 1 ∨ g = 1 ∧ Odd n := by
  have hback : skippingTurn g n (g - 1 + n) = skippingTurn g n (g - 1) :=
    turn_add_period (h _ (by omega) _ (skippingTurn_lt hn _)) (h _ (by omega) _ (skippingTurn_lt hn _))
  unfold skippingTurn at hback
  rw [Nat.div_eq_of_lt (show g - 1 < g by omega), Nat.add_zero, Nat.add_assoc] at hback
  -- the skips of one round, at least one and at most one a turn
  have hdvd : n ∣ (g - 1 + n) / g := by
    have hmod : n + (g - 1 + n) / g ≡ 0 [MOD n] :=
      Nat.ModEq.add_left_cancel' (g - 1) (by rw [Nat.add_zero]; exact hback)
    rw [Nat.ModEq, Nat.add_mod_left] at hmod
    exact Nat.dvd_of_mod_eq_zero (by simpa using hmod)
  have hpos : 0 < (g - 1 + n) / g := Nat.div_pos (by omega) hg
  have hle : n * g ≤ g - 1 + n := (Nat.le_div_iff_mul_le hg).mp (Nat.le_of_dvd hpos hdvd)
  by_cases hone : n = 1
  · exact .inl hone
  · obtain rfl : g = 1 := by
      by_contra hg1
      obtain ⟨a, rfl⟩ := Nat.exists_eq_add_of_le (show 2 ≤ n by omega)
      obtain ⟨b, rfl⟩ := Nat.exists_eq_add_of_le (show 2 ≤ g by omega)
      rw [Nat.add_mul, Nat.mul_add a] at hle
      omega
    refine .inr ⟨rfl, ?_⟩
    by_contra heven
    obtain ⟨m, rfl⟩ := Nat.not_odd_iff_even.mp heven
    -- halfway through the round the first turn comes again
    have hcount := h 0 (by omega) 0 hn
    rw [← List.range'_append_1, List.countP_append] at hcount
    have hfirst : 0 < (List.range' 0 m).countP (fun k => skippingTurn 1 (m + m) k = 0) :=
      List.countP_pos_iff.mpr ⟨0, by simp; omega, by simp [skippingTurn]⟩
    have hsecond : 0 < (List.range' (0 + m) m).countP (fun k => skippingTurn 1 (m + m) k = 0) :=
      List.countP_pos_iff.mpr ⟨m, by simp; omega, by simp [skippingTurn]⟩
    omega

end Foundations
