import Mathlib.Data.List.Perm.Basic
import Mathlib.Data.List.Range

/-! Lists that are made of given blocks, one after the other, each in an order of its own. -/
namespace Foundations

variable {α : Type*} {f : ℕ → List α} {n : ℕ} {l b : List α}

/-- The first `n` blocks of `f` in their order, each permuted. -/
inductive InBlocks (f : ℕ → List α) : ℕ → List α → Prop
  | zero : InBlocks f 0 []
  | succ {n : ℕ} {l b : List α} (h : InBlocks f n l) (hb : b.Perm (f n)) : InBlocks f (n + 1) (l ++ b)

/-- Blocks of one element leave no choice of order. -/
theorem InBlocks.eq_map {g : ℕ → α} (h : InBlocks (fun i => [g i]) n l) : l = (List.range n).map g := by
  induction h with
  | zero => rfl
  | @succ n l b _ hb ih =>
    rw [List.range_succ, List.map_append, ih, List.perm_singleton.mp hb]
    rfl

end Foundations
