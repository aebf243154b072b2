import Mathlib.Data.List.Basic
import Mathlib.Tactic

/-! A limiter of `n` events in any `width` time units. It keeps the expiries of recent events, and
drops at most the oldest of them for every event it admits. -/
namespace Foundations

variable {n width now : ℕ} {times window : List ℕ}

/-- Times, the newest first: each comes `width` after all but the `n` newest up to it. -/
def Spaced (n width : ℕ) : List ℕ → Prop
  | [] => True
  | s :: older => (∀ t ∈ (s :: older).drop n, t + width ≤ s) ∧ Spaced n width older

/-- No window of `width` time units holds more than `n` spaced times. -/
theorem Spaced.countP_le (h : Spaced n width times) (a : ℕ) :
    times.countP (fun t => a ≤ t ∧ t < a + width) ≤ n := by
  induction times with
  | nil => exact Nat.zero_le _
  | cons s older ih =>
    by_cases hs : a ≤ s ∧ s < a + width
    · -- all but the first `n` lie before the window
      have hold : ((s :: older).drop n).countP (fun t => a ≤ t ∧ t < a + width) = 0 := by
        rw [List.countP_eq_zero]
        intro t ht
        have := h.1 t ht
        simp only [decide_eq_true_eq]
        omega
      rw [← List.take_append_drop n (s :: older), List.countP_append, hold, Nat.add_zero]
      exact List.countP_le_length.trans (List.length_take_le _ _)
    · rw [List.countP_cons_of_neg (by simpa using hs)]
      exact ih h.2

/-- A limiter after the given times, the newest first. -/
structure Limits (n width : ℕ) (times window : List ℕ) : Prop where
  kept : window = ((times.take window.length).map (· + width)).reverse
  short : window.length ≤ n
  expired : ∀ t ∈ times.drop window.length, ∀ s, (∀ u ∈ times, u ≤ s) → t + width ≤ s
  sorted : times.Pairwise fun s t => t ≤ s
  spaced : Spaced n width times

namespace Limits

theorem nil (n width : ℕ) : Limits n width [] [] :=
  ⟨rfl, Nat.zero_le _, by simp, .nil, trivial⟩

/-- One more time, when all but the `k` newest have expired. -/
theorem cons {k : ℕ} (h : Limits n width times window) (hnow : ∀ t ∈ times, t ≤ now)
    (hk : k < n) (hlen : k ≤ times.length) (hexpired : ∀ t ∈ times.drop k, t + width ≤ now) :
    Limits n width (now :: times) (((times.take k).map (· + width)).reverse ++ [now + width]) := by
  have hlength : (((times.take k).map (· + width)).reverse ++ [now + width]).length = k + 1 := by
    simp [hlen]
  refine ⟨?_, ?_, fun t ht s hs => ?_, List.pairwise_cons.mpr ⟨hnow, h.sorted⟩, fun t ht => ?_,
    h.spaced⟩
  · rw [hlength, List.take_succ_cons, List.map_cons, List.reverse_cons]
  · rw [hlength]
    exact hk
  · rw [hlength, List.drop_succ_cons] at ht
    exact (hexpired t ht).trans (hs now List.mem_cons_self)
  · obtain ⟨m, rfl⟩ := Nat.exists_eq_add_of_le' (Nat.succ_le_of_lt (Nat.zero_lt_of_lt hk))
    rw [List.drop_succ_cons] at ht
    apply hexpired t
    rw [show m = k + (m - k) by omega, ← List.drop_drop] at ht
    exact List.mem_of_mem_drop ht

theorem length_le (h : Limits n width times window) : window.length ≤ times.length := by
  have hlen := congrArg List.length h.kept
  rw [List.length_reverse, List.length_map, List.length_take] at hlen
  omega

/-- Admit an event while there is room. -/
theorem push (h : Limits n width times window) (hnow : ∀ t ∈ times, t ≤ now)
    (hroom : window.length < n) : Limits n width (now :: times) (window ++ [now + width]) := by
  have hcons := h.cons hnow hroom h.length_le fun t ht => h.expired t ht now hnow
  rwa [← h.kept] at hcons

/-- Admit an event in the place of the oldest one, which has expired. -/
theorem replace {t : ℕ} {ts : List ℕ} (h : Limits n width times (t :: ts))
    (hnow : ∀ u ∈ times, u ≤ now) (ht : t ≤ now) :
    Limits n width (now :: times) (ts ++ [now + width]) := by
  have hlen := h.length_le
  have hshort := h.short
  have hkept := h.kept
  rw [List.length_cons] at hlen hshort hkept
  rw [List.take_succ_eq_append_getElem (by omega), List.map_append, List.reverse_append] at hkept
  obtain ⟨hhead, hrest⟩ := List.cons.inj hkept
  change t = times[ts.length] + width at hhead
  have hcons := h.cons hnow (k := ts.length) (by omega) (by omega) fun u hu => by
    rw [List.drop_eq_getElem_cons (by omega)] at hu
    obtain rfl | hu := List.mem_cons.mp hu
    · omega
    · exact h.expired u hu now hnow
  change ts = ((times.take ts.length).map (· + width)).reverse at hrest
  rwa [← hrest] at hcons

/-- The expiries are in order. -/
theorem window_sorted (h : Limits n width times window) : window.Pairwise (· ≤ ·) := by
  rw [h.kept, List.pairwise_reverse, List.pairwise_map]
  exact (h.sorted.sublist (List.take_sublist _ _)).imp fun hle => Nat.add_le_add_right hle width

end Limits
end Foundations
