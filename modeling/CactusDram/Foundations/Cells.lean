import CactusDram.Foundations.Histories

/-! A memory cell behind a write buffer. Values are counted: the n-th write to the cell writes n. -/
namespace Foundations

/-- What the cell was given, what it holds, and what the reads that wait for it were promised. -/
structure Cell where
  given : ℕ := 0
  held : ℕ := 0
  promised : List ℕ := []

inductive Cell.Event
  | write
  | forward
  | read
  | load
  | store
  deriving DecidableEq

namespace Cell

/-- A write is given to the buffer, and a store brings the newest one to the cell. A read is promised
the newest write. A load answers the reads that wait. -/
def step (c : Cell) : Event → Cell
  | .write => { c with given := c.given + 1 }
  | .forward => c
  | .read => { c with promised := c.given :: c.promised }
  | .load => { c with promised := [] }
  | .store => { c with held := c.given }

/-- The cell after a history. -/
def after (h : List Event) : Cell := h.foldr (fun e c => c.step e) {}

@[simp] theorem after_nil : after [] = {} := rfl

@[simp] theorem after_cons (e : Event) (h : List Event) : after (e :: h) = (after h).step e := rfl

/-- The buffer answers a read when it holds a newer write, and only then; a store overtakes no read. -/
def Guarded (c : Cell) : Event → Prop
  | .forward => c.held < c.given
  | .read => c.held = c.given
  | .store => c.promised = []
  | .write | .load => True

/-- Every read that waits finds in the cell what it was promised. -/
def Kept (c : Cell) : Prop := ∀ v ∈ c.promised, v = c.held

variable {c : Cell} {e : Event} {h : List Event}

theorem Kept.step (hc : c.Kept) (he : c.Guarded e) : (c.step e).Kept := by
  cases e with
  | write | forward => exact hc
  | read =>
    intro v hv
    rcases List.mem_cons.mp hv with rfl | hv
    · exact Eq.symm he
    · exact hc v hv
  | load => exact fun v hv => absurd hv List.not_mem_nil
  | store =>
    intro v hv
    rw [Cell.step, show c.promised = [] from he] at hv
    cases hv

theorem kept_of_guarded (hh : AtEvery (fun older e => (after older).Guarded e) h) : (after h).Kept := by
  induction h with
  | nil => exact fun v hv => absurd hv List.not_mem_nil
  | cons e h ih =>
    refine Kept.step (ih fun newer e' older heq => ?_) (hh [] e h rfl)
    exact hh (e :: newer) e' older (congrArg (e :: ·) heq)

/-- When all events of a history are guarded, promises are kept at each of them. -/
theorem kept_at_every (hh : AtEvery (fun older e => (after older).Guarded e) h) :
    AtEvery (fun older e => (after older).Guarded e ∧ (after older).Kept) h := by
  intro newer e older heq
  refine ⟨hh newer e older heq, kept_of_guarded fun newer' e' older' heq' => ?_⟩
  apply hh (newer ++ e :: newer')
  rw [heq, heq', List.append_assoc, List.cons_append]

theorem held_le_given (h : List Event) : (after h).held ≤ (after h).given := by
  induction h with
  | nil => exact le_rfl
  | cons e h ih =>
    cases e with
    | write => exact ih.trans (Nat.le_succ _)
    | store => exact le_rfl
    | forward | read | load => exact ih

end Cell
end Foundations
