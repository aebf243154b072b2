import Mathlib.Data.List.Dedup
import Mathlib.Data.List.Perm.Basic
import Mathlib.Data.List.DropRight
import Mathlib.Data.Finset.Card
import Mathlib.Logic.Function.Basic

/-! Recency: the distinct elements of a history in the order of their last use, and slots whose
lines carry the time of their last use. -/
namespace Foundations
universe u v w

section Recent
variable {α : Type u} [DecidableEq α]

/-- The distinct elements of a history, latest use first; the history is newest first too. -/
def recent : List α → List α
  | [] => []
  | a :: h => a :: (recent h).erase a

/-- A use of `a` in a list of at most `k` elements: `a` moves, or comes, to the front. -/
def touch (k : ℕ) (a : α) (l : List α) : List α := (a :: l.erase a).take k

theorem nodup_recent (h : List α) : (recent h).Nodup := by
  induction h with
  | nil => exact List.nodup_nil
  | cons a h ih => exact List.nodup_cons.mpr ⟨ih.not_mem_erase, ih.erase a⟩

theorem mem_recent {a : α} {h : List α} : a ∈ recent h ↔ a ∈ h := by
  induction h with
  | nil => rfl
  | cons b h ih =>
    rw [recent, List.mem_cons, List.mem_cons, (nodup_recent h).mem_erase_iff, ih]
    by_cases hab : a = b
    · simp [hab]
    · simp [hab]

theorem length_recent (h : List α) : (recent h).length = h.toFinset.card := by
  rw [← List.toFinset_card_of_nodup (nodup_recent h)]
  congr 1
  ext a
  simp [mem_recent]

/-- Beyond `k` elements nothing matters for the next `k`. -/
theorem take_erase_take (k : ℕ) (a : α) (l : List α) :
    ((l.take (k + 1)).erase a).take k = (l.erase a).take k := by
  induction l generalizing k with
  | nil => simp
  | cons b l ih =>
    rw [List.take_succ_cons]
    by_cases hb : b = a
    · subst hb
      simp
    · rw [List.erase_cons_tail (by simpa using hb), List.erase_cons_tail (by simpa using hb)]
      cases k with
      | zero => rfl
      | succ k => rw [List.take_succ_cons, List.take_succ_cons, ih]

/-- The most recent `k` elements after one more use. -/
theorem take_recent_cons (k : ℕ) (a : α) (h : List α) :
    (recent (a :: h)).take k = touch k a ((recent h).take k) := by
  cases k with
  | zero => rfl
  | succ k => rw [recent, touch, List.take_succ_cons, List.take_succ_cons, take_erase_take]

end Recent

section Slots
variable {ι : Type u} {E : Type v}

/-- The lines in some slots. -/
def held (W : List ι) (slot : ι → Option E) : List E := W.filterMap slot

theorem mem_held {W : List ι} {slot : ι → Option E} {e : E} :
    e ∈ held W slot ↔ ∃ i ∈ W, slot i = some e :=
  List.mem_filterMap

theorem held_congr {W : List ι} {slot slot' : ι → Option E} (h : ∀ i ∈ W, slot' i = slot i) :
    held W slot' = held W slot :=
  List.filterMap_congr h

theorem length_held_le (W : List ι) (slot : ι → Option E) : (held W slot).length ≤ W.length :=
  List.length_filterMap_le slot W

theorem length_held_lt {W : List ι} {slot : ι → Option E} {i : ι} (hi : i ∈ W)
    (hempty : slot i = none) : (held W slot).length < W.length := by
  obtain ⟨pre, post, rfl⟩ := List.append_of_mem hi
  have hpre := length_held_le pre slot
  have hpost := length_held_le post slot
  simp only [held, List.filterMap_append, List.filterMap_cons, hempty, List.length_append,
    List.length_cons] at hpre hpost ⊢
  omega

theorem length_held_of_full {W : List ι} {slot : ι → Option E} (hfull : ∀ i ∈ W, (slot i).isSome) :
    (held W slot).length = W.length := by
  induction W with
  | nil => rfl
  | cons i W ih =>
    obtain ⟨e, he⟩ := Option.isSome_iff_exists.mp (hfull i List.mem_cons_self)
    have hrest := ih fun j hj => hfull j (List.mem_cons_of_mem i hj)
    simpa [held, he] using hrest

variable [DecidableEq ι]

/-- A new line takes the place of what its slot held. -/
theorem held_update {W : List ι} (hW : W.Nodup) {i : ι} (hi : i ∈ W) (slot : ι → Option E) (e : E) :
    ∃ rest, (held W slot).Perm ((slot i).toList ++ rest) ∧
      (held W (Function.update slot i (some e))).Perm (e :: rest) := by
  have hperm := List.perm_cons_erase hi
  have hrest : (W.erase i).filterMap (Function.update slot i (some e)) =
      (W.erase i).filterMap slot := by
    refine held_congr fun j hj => Function.update_of_ne ?_ _ _
    rintro rfl
    exact hW.not_mem_erase hj
  refine ⟨(W.erase i).filterMap slot, ?_, ?_⟩
  · refine (hperm.filterMap slot).trans (.of_eq ?_)
    cases h : slot i <;> simp [h]
  · refine (hperm.filterMap _).trans (.of_eq ?_)
    rw [List.filterMap_cons, Function.update_self, hrest]

end Slots

section Ranked
variable {E : Type v} {α : Type w} {key : E → α} {stamp : E → ℕ}
  {lines lines' rest : List E} {order : List α} {e f : E} {k : ℕ}

/-- The keys of the lines, latest stamp first, each once. -/
structure Ranked (key : E → α) (stamp : E → ℕ) (lines : List E) (order : List α) : Prop where
  nodup : order.Nodup
  sorted : ∃ l, lines.Perm l ∧ l.Pairwise (fun e f => stamp f < stamp e) ∧ l.map key = order

namespace Ranked

theorem nil : Ranked key stamp [] [] := ⟨.nil, [], .refl _, .nil, rfl⟩

theorem length_eq (h : Ranked key stamp lines order) : order.length = lines.length := by
  obtain ⟨l, hl, _, rfl⟩ := h.sorted
  rw [List.length_map, hl.length_eq]

theorem perm (h : Ranked key stamp lines order) : (lines.map key).Perm order := by
  obtain ⟨l, hl, _, rfl⟩ := h.sorted
  exact hl.map key

theorem mem_iff (h : Ranked key stamp lines order) {a : α} :
    a ∈ order ↔ ∃ g ∈ lines, key g = a := by
  rw [← h.perm.mem_iff, List.mem_map]

/-- Two lines with one key are one line. -/
theorem eq_of_key_eq (h : Ranked key stamp lines order) (he : e ∈ lines) (hf : f ∈ lines)
    (heq : key e = key f) : e = f := by
  have hnodup : (lines.map key).Nodup := h.perm.nodup_iff.mpr h.nodup
  exact List.inj_on_of_nodup_map hnodup he hf heq

/-- Take one line out of the order. -/
theorem split (h : Ranked key stamp lines order) (hold : lines.Perm (f :: rest)) :
    ∃ pre post, rest.Perm (pre ++ post) ∧ (pre ++ f :: post).Pairwise (fun e f => stamp f < stamp e) ∧
      (pre ++ f :: post).map key = order ∧ lines.Perm (pre ++ f :: post) := by
  obtain ⟨l, hl, hsorted, hmap⟩ := h.sorted
  have hf : f ∈ l := (hold.symm.trans hl).mem_iff.mp List.mem_cons_self
  obtain ⟨pre, post, rfl⟩ := List.append_of_mem hf
  exact ⟨pre, post, ((hold.symm.trans hl).trans List.perm_middle).cons_inv, hsorted, hmap, hl⟩

/-- A line comes into a free slot. -/
theorem add (h : Ranked key stamp lines order) (hnew : lines'.Perm (e :: lines))
    (hfresh : key e ∉ order) (hlate : ∀ g ∈ lines, stamp g < stamp e) :
    Ranked key stamp lines' (key e :: order) := by
  obtain ⟨l, hl, hsorted, rfl⟩ := h.sorted
  refine ⟨List.nodup_cons.mpr ⟨hfresh, h.nodup⟩, e :: l, hnew.trans (hl.cons e), ?_, rfl⟩
  exact List.pairwise_cons.mpr ⟨fun g hg => hlate g (hl.mem_iff.mpr hg), hsorted⟩

/-- The line with the oldest stamp stands last. -/
theorem eq_append_of_oldest (h : Ranked key stamp lines order) (hold : lines.Perm (f :: rest))
    (holdest : ∀ g ∈ lines, stamp f ≤ stamp g) :
    ∃ pre, rest.Perm pre ∧ pre.Pairwise (fun e f => stamp f < stamp e) ∧
      order = pre.map key ++ [key f] := by
  obtain ⟨pre, post, hrest, hsorted, hmap, hl⟩ := h.split hold
  have hpost : post = [] := by
    refine List.eq_nil_iff_forall_not_mem.mpr fun g hg => ?_
    have hlt := (List.pairwise_cons.mp (List.pairwise_append.mp hsorted).2.1).1 g hg
    have hle := holdest g (hl.mem_iff.mpr (List.mem_append_right _ (List.mem_cons_of_mem _ hg)))
    omega
  subst hpost
  refine ⟨pre, by simpa using hrest, (List.pairwise_append.mp hsorted).1, ?_⟩
  rw [← hmap, List.map_append, List.map_singleton]

/-- A line takes the place of the oldest one. -/
theorem replace (h : Ranked key stamp lines order) (hold : lines.Perm (f :: rest))
    (hnew : lines'.Perm (e :: rest)) (holdest : ∀ g ∈ lines, stamp f ≤ stamp g)
    (hfresh : key e ∉ order) (hlate : ∀ g ∈ lines, stamp g < stamp e) :
    Ranked key stamp lines' (key e :: order.dropLast) := by
  obtain ⟨pre, hrest, hsorted, rfl⟩ := h.eq_append_of_oldest hold holdest
  have hnodup := h.nodup
  rw [List.dropLast_concat]
  refine ⟨List.nodup_cons.mpr ⟨fun hmem => hfresh (List.mem_append_left _ hmem),
    (List.nodup_append.mp hnodup).1⟩, e :: pre, hnew.trans (hrest.cons e), ?_, rfl⟩
  refine List.pairwise_cons.mpr ⟨fun g hg => hlate g (hold.symm.mem_iff.mp ?_), hsorted⟩
  exact List.mem_cons_of_mem f (hrest.mem_iff.mpr hg)

variable [DecidableEq α]

/-- A line is used again. -/
theorem renew (h : Ranked key stamp lines order) (hold : lines.Perm (f :: rest))
    (hnew : lines'.Perm (e :: rest)) (hkey : key f = key e)
    (hlate : ∀ g ∈ lines, stamp g < stamp e) :
    Ranked key stamp lines' (key e :: order.erase (key e)) := by
  obtain ⟨pre, post, hrest, hsorted, rfl, hl⟩ := h.split hold
  have hnodup := h.nodup
  rw [List.map_append, List.map_cons, hkey] at hnodup ⊢
  have hpre : key e ∉ pre.map key := (List.nodup_middle.mp hnodup).notMem ∘ List.mem_append_left _
  rw [List.erase_append_right _ hpre, List.erase_cons_head]
  refine ⟨List.nodup_middle.mp hnodup, e :: (pre ++ post), hnew.trans (hrest.cons e), ?_, by simp⟩
  refine List.pairwise_cons.mpr ⟨fun g hg => ?_, ?_⟩
  · refine hlate g (hold.symm.mem_iff.mp ?_)
    exact List.mem_cons_of_mem f (hrest.mem_iff.mpr hg)
  · exact hsorted.sublist ((List.Sublist.refl pre).append (List.sublist_cons_self f post))

theorem touch_of_renew (h : Ranked key stamp lines order) (hk : lines.length ≤ k) {a : α}
    (ha : a ∈ order) : touch k a order = a :: order.erase a := by
  refine List.take_of_length_le ?_
  rw [List.length_cons, List.length_erase_of_mem ha, Nat.sub_add_cancel (List.length_pos_of_mem ha),
    h.length_eq]
  exact hk

theorem touch_of_add (h : Ranked key stamp lines order) (hk : lines.length < k) {a : α}
    (ha : a ∉ order) : touch k a order = a :: order := by
  unfold touch
  rw [List.erase_of_not_mem ha]
  refine List.take_of_length_le ?_
  rw [List.length_cons, h.length_eq]
  exact hk

theorem touch_of_replace (h : Ranked key stamp lines order) (hk : lines.length = k) (hpos : 0 < k)
    {a : α} (ha : a ∉ order) : touch k a order = a :: order.dropLast := by
  obtain ⟨n, rfl⟩ : ∃ n, k = n + 1 := ⟨k - 1, by omega⟩
  unfold touch
  rw [List.erase_of_not_mem ha, List.take_succ_cons, List.dropLast_eq_take, h.length_eq, hk,
    Nat.add_sub_cancel]

end Ranked
end Ranked
end Foundations
