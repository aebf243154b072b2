import Mathlib.Data.List.Forall2
import Mathlib.Tactic

/-! Drawing one element from every window of so many: when a window is full, one of its elements is
kept and the next window begins. -/
namespace Foundations

variable {α : Type*} {W : ℕ} {all picks rest : List α}

/-- `all` has come in, `picks` was drawn, and `rest` is the window that is still open. A window is full
as soon as it has `W` elements, and not before it has one. -/
inductive Drawn (W : ℕ) : List α → List α → List α → Prop
  | nil : Drawn W [] [] []
  | wait {all picks rest : List α} {x : α} (h : Drawn W all picks rest) (hopen : rest.length + 1 < W) :
      Drawn W (all ++ [x]) picks (rest ++ [x])
  | draw {all picks rest : List α} {x y : α} (h : Drawn W all picks rest) (hfull : W ≤ rest.length + 1)
      (hy : y ∈ rest ++ [x]) : Drawn W (all ++ [x]) (picks ++ [y]) []

namespace Drawn

theorem rest_lt (h : Drawn W all picks rest) : rest.length < max 1 W := by
  induction h with
  | nil => exact lt_max_of_lt_left Nat.one_pos
  | wait _ hopen =>
    rw [List.length_append, List.length_singleton]
    exact lt_max_of_lt_right hopen
  | draw => exact lt_max_of_lt_left Nat.one_pos

/-- The windows lie one after the other, all equally long, and each has given one element. -/
theorem windows (h : Drawn W all picks rest) : ∃ windows : List (List α), all = windows.flatten ++ rest ∧
    (∀ w ∈ windows, w.length = max 1 W) ∧ List.Forall₂ (· ∈ ·) picks windows := by
  induction h with
  | nil => exact ⟨[], rfl, fun _ hw => absurd hw List.not_mem_nil, .nil⟩
  | wait _ _ ih =>
    obtain ⟨windows, rfl, hlength, hpicks⟩ := ih
    exact ⟨windows, List.append_assoc _ _ _, hlength, hpicks⟩
  | @draw all picks rest x y h hfull hy ih =>
    obtain ⟨windows, rfl, hlength, hpicks⟩ := ih
    refine ⟨windows ++ [rest ++ [x]], by simp, fun w hw => ?_, List.rel_append hpicks (.cons hy .nil)⟩
    rcases List.mem_append.mp hw with hw | hw
    · exact hlength w hw
    · rw [List.mem_singleton.mp hw, List.length_append, List.length_singleton]
      have hlt := h.rest_lt
      omega

end Drawn
end Foundations
