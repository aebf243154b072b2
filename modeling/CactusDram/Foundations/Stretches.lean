import Mathlib.Data.List.Basic

/-! A history, the newest event first, cut at its marked events. -/
namespace Foundations

variable {α β : Type*} (mark : α → Option β)

/-- The marks of a history, the newest first, each with the events from it up to the next one. -/
def stretches : List α → List (β × List α)
  | [] => []
  | e :: older =>
    match mark e, stretches older with
    | some b, rest => (b, []) :: rest
    | none, [] => []
    | none, (b, es) :: rest => (b, e :: es) :: rest

variable {mark} {e : α} {es log : List α}

theorem stretches_mark {b : β} (h : mark e = some b) (log : List α) :
    stretches mark (e :: log) = (b, []) :: stretches mark log := by
  simp [stretches, h]

/-- Unmarked events belong to the last mark before them. -/
theorem stretches_append_cons {b : β} {rest : List (β × List α)} {old : List α}
    (hes : ∀ e ∈ es, mark e = none) (h : stretches mark log = (b, old) :: rest) :
    stretches mark (es ++ log) = (b, es ++ old) :: rest := by
  induction es with
  | nil => exact h
  | cons e es ih =>
    have hrest := ih fun e' he' => hes e' (List.mem_cons_of_mem e he')
    simp only [List.cons_append, stretches, hes e List.mem_cons_self, hrest]

theorem stretches_append_nil (hes : ∀ e ∈ es, mark e = none) (h : stretches mark log = []) :
    stretches mark (es ++ log) = [] := by
  induction es with
  | nil => exact h
  | cons e es ih =>
    have hrest := ih fun e' he' => hes e' (List.mem_cons_of_mem e he')
    simp only [List.cons_append, stretches, hes e List.mem_cons_self, hrest]

/-- Unmarked events that a filter drops do not show in the filtered stretches. -/
theorem stretches_append_filter {p : α → Bool} (hes : ∀ e ∈ es, mark e = none ∧ p e = false) :
    (stretches mark (es ++ log)).map (fun s => (s.1, s.2.filter p)) =
      (stretches mark log).map fun s => (s.1, s.2.filter p) := by
  have hnone : ∀ e ∈ es, mark e = none := fun e he => (hes e he).1
  cases h : stretches mark log with
  | nil => rw [stretches_append_nil hnone h]
  | cons s rest =>
    have hdrop : es.filter p = [] := List.filter_eq_nil_iff.mpr fun e he => by simp [(hes e he).2]
    rw [stretches_append_cons hnone h]
    simp [List.filter_append, hdrop]

/-- A marked event and what the filter keeps of the events after it are one more stretch. -/
theorem stretches_append_mark {b : β} {p : α → Bool} {dropped kept : List α}
    (hdropped : ∀ e ∈ dropped, mark e = none ∧ p e = false)
    (hkept : ∀ e ∈ kept, mark e = none ∧ p e = true) (h : mark e = some b) (log : List α) :
    (stretches mark (dropped ++ (kept ++ e :: log))).map (fun s => (s.1, s.2.filter p)) =
      (b, kept) :: (stretches mark log).map fun s => (s.1, s.2.filter p) := by
  have hlast := stretches_append_cons (fun e he => (hkept e he).1) (stretches_mark h log)
  have hall : kept.filter p = kept := List.filter_eq_self.mpr fun e he => (hkept e he).2
  rw [stretches_append_filter hdropped, hlast, List.map_cons, List.append_nil, hall]

theorem map_fst_stretches (log : List α) :
    (stretches mark log).map Prod.fst = log.filterMap mark := by
  induction log with
  | nil => rfl
  | cons e log ih =>
    cases he : mark e with
    | some b => rw [stretches_mark he, List.map_cons, ih, List.filterMap_cons_some he]
    | none =>
      rw [List.filterMap_cons_none he, ← ih]
      cases hs : stretches mark log <;> simp [stretches, he, hs]

end Foundations
