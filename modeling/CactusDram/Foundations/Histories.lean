import Mathlib.Tactic

/-! Properties of every event of a history, given the events before it. A history lists its newest
event first. -/
namespace Foundations

variable {α : Type*} {p : List α → α → Prop} {e : α} {older : List α}

/-- Every event has the property, in view of what came before it. -/
def AtEvery (p : List α → α → Prop) (h : List α) : Prop :=
  ∀ newer e older, h = newer ++ e :: older → p older e

theorem atEvery_nil (p : List α → α → Prop) : AtEvery p [] := by
  intro newer e older h
  simp at h

theorem AtEvery.cons (h : AtEvery p older) (he : p older e) : AtEvery p (e :: older) := by
  intro newer e' older' heq
  cases newer with
  | nil =>
    obtain ⟨rfl, rfl⟩ := List.cons.inj heq
    exact he
  | cons _ newer => exact h newer e' older' (List.cons.inj heq).2

theorem AtEvery.append (h : AtEvery p older) {es : List α} (hes : ∀ e ∈ es, ∀ older, p older e) :
    AtEvery p (es ++ older) := by
  induction es with
  | nil => exact h
  | cons e es ih =>
    apply AtEvery.cons
    · exact ih fun e' he' => hes e' (List.mem_cons_of_mem e he')
    · exact hes e List.mem_cons_self _

end Foundations
