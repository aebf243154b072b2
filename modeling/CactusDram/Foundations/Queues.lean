import Mathlib.Algebra.BigOperators.Group.Finset.Basic
import Mathlib.Algebra.BigOperators.Ring.Finset
import Mathlib.Tactic

/-! Numbered queues: what a bound on them, a property of their elements and a count of their elements
become when one of them receives or gives away an element. -/
namespace Foundations
open Finset
variable {α : Type*} {queues : ℕ → List α} {depth i n : ℕ} {x : α} {rest : List α} {P : α → Prop}

theorem length_push_le (h : ∀ j, (queues j).length ≤ depth) (hroom : (queues i).length < depth) (j : ℕ) :
    (Function.update queues i (queues i ++ [x]) j).length ≤ depth := by
  by_cases hj : j = i
  · subst hj
    rw [Function.update_self, List.length_append]
    exact hroom
  · rw [Function.update_of_ne hj]
    exact h j

theorem length_pop_le (h : ∀ j, (queues j).length ≤ depth) (hi : queues i = x :: rest) (j : ℕ) :
    (Function.update queues i rest j).length ≤ depth := by
  by_cases hj : j = i
  · subst hj
    have hle := h j
    rw [hi, List.length_cons] at hle
    rw [Function.update_self]
    omega
  · rw [Function.update_of_ne hj]
    exact h j

theorem forall_push (h : ∀ j, ∀ y ∈ queues j, P y) (hx : P x) (j : ℕ) :
    ∀ y ∈ Function.update queues i (queues i ++ [x]) j, P y := by
  by_cases hj : j = i
  · subst hj
    rw [Function.update_self]
    simpa only [List.forall_mem_append, List.forall_mem_singleton] using And.intro (h j) hx
  · rw [Function.update_of_ne hj]
    exact h j

theorem forall_pop (h : ∀ j, ∀ y ∈ queues j, P y) (hi : queues i = x :: rest) (j : ℕ) :
    ∀ y ∈ Function.update queues i rest j, P y := by
  by_cases hj : j = i
  · subst hj
    rw [Function.update_self]
    exact fun y hy => h j y (hi ▸ List.mem_cons_of_mem x hy)
  · rw [Function.update_of_ne hj]
    exact h j

/-- How many elements of the first `n` queues meet the test. -/
def total (n : ℕ) (queues : ℕ → List α) (p : α → Bool) : ℕ := ∑ j ∈ range n, (queues j).countP p

theorem total_update (queues : ℕ → List α) (hi : i < n) (q : List α) (p : α → Bool) :
    total n (Function.update queues i q) p + (queues i).countP p = total n queues p + q.countP p := by
  have hmem : i ∈ range n := mem_range.mpr hi
  have hrest : ∑ j ∈ (range n).erase i, (Function.update queues i q j).countP p =
      ∑ j ∈ (range n).erase i, (queues j).countP p :=
    sum_congr rfl fun j hj => by rw [Function.update_of_ne (ne_of_mem_erase hj)]
  have hnew := add_sum_erase (range n) (fun j => (Function.update queues i q j).countP p) hmem
  have hold := add_sum_erase (range n) (fun j => (queues j).countP p) hmem
  rw [hrest, Function.update_self] at hnew
  unfold total
  omega

theorem total_push (hi : i < n) (p : α → Bool) :
    total n (Function.update queues i (queues i ++ [x])) p = total n queues p + if p x then 1 else 0 := by
  have h := total_update queues hi (queues i ++ [x]) p
  rw [List.countP_append, List.countP_singleton] at h
  omega

theorem total_pop (hi : i < n) (h : queues i = x :: rest) (p : α → Bool) :
    total n (Function.update queues i rest) p + (if p x then 1 else 0) = total n queues p := by
  have hupdate := total_update queues hi rest p
  rw [h, List.countP_cons] at hupdate
  omega

end Foundations
