import Mathlib.Data.List.Count
import Mathlib.Tactic

/-! Events in windows of equal length: so many in each, so far apart, at admissible times only. Times are
listed with the newest first. -/
namespace Foundations

variable {W k : ℕ} {limit dist : ℕ → ℕ} {ok : ℕ → Prop} {times : List ℕ}

/-- The times before `k` at which something happened, in windows of length `W`. -/
structure Paced (W : ℕ) (limit dist : ℕ → ℕ) (ok : ℕ → Prop) (times : List ℕ) (k : ℕ) : Prop where
  past : ∀ t ∈ times, t < k
  limited : ∀ w, times.countP (fun t => t / W = w) ≤ limit w
  spaced : times.Pairwise fun later earlier => earlier < later ∧ earlier + dist (later / W) ≤ later
  admissible : ∀ t ∈ times, ok t

theorem paced_nil (W : ℕ) (limit dist : ℕ → ℕ) (ok : ℕ → Prop) (k : ℕ) : Paced W limit dist ok [] k where
  past _ ht := absurd ht List.not_mem_nil
  limited _ := Nat.zero_le _
  spaced := .nil
  admissible _ ht := absurd ht List.not_mem_nil

namespace Paced

theorem wait (h : Paced W limit dist ok times k) : Paced W limit dist ok times (k + 1) :=
  ⟨fun t ht => Nat.lt_succ_of_lt (h.past t ht), h.limited, h.spaced, h.admissible⟩

/-- What comes after the newest time by the distance comes after all of them by it. -/
theorem push (h : Paced W limit dist ok times k)
    (hroom : times.countP (fun t => t / W = k / W) < limit (k / W))
    (hdist : dist (k / W) ≤ k - times.headD 0) (hok : ok k) :
    Paced W limit dist ok (k :: times) (k + 1) where
  past t ht := by
    rcases List.mem_cons.mp ht with rfl | ht
    · exact Nat.lt_succ_self _
    · exact Nat.lt_succ_of_lt (h.past t ht)
  limited w := by
    rw [List.countP_cons]
    by_cases hw : k / W = w
    · subst hw
      simpa using hroom
    · simpa [hw] using h.limited w
  spaced := by
    refine List.pairwise_cons.mpr ⟨fun t ht => ⟨h.past t ht, ?_⟩, h.spaced⟩
    cases times with
    | nil => exact absurd ht List.not_mem_nil
    | cons s older =>
      rw [List.headD_cons] at hdist
      have hs := h.past s List.mem_cons_self
      rcases List.mem_cons.mp ht with rfl | ht
      · omega
      · have hlt := ((List.pairwise_cons.mp h.spaced).1 t ht).1
        omega
  admissible t ht := by
    rcases List.mem_cons.mp ht with rfl | ht
    · exact hok
    · exact h.admissible t ht

/-- Nothing has happened yet in a window that has just begun. -/
theorem countP_new_window (h : Paced W limit dist ok times k) (hnew : (k - 1) / W ≠ k / W) :
    times.countP (fun t => t / W = k / W) = 0 := by
  rw [List.countP_eq_zero]
  intro t ht
  have hle : t ≤ k - 1 := Nat.le_sub_one_of_lt (h.past t ht)
  have hdiv : t / W ≤ (k - 1) / W := Nat.div_le_div_right hle
  have hmono : (k - 1) / W ≤ k / W := Nat.div_le_div_right (Nat.sub_le k 1)
  simp only [decide_eq_true_eq]
  omega

end Paced
end Foundations
