import Mathlib.Data.List.Nodup
import Mathlib.Algebra.Order.Group.Nat

/-! Frequency summaries: a table of counted keys, and a spill count for all the others. A summary
bounds the true frequencies from above. -/
namespace Foundations

/-- The first hit of a search cuts a list in two. -/
theorem split_of_findIdx? {α : Type*} {p : α → Bool} {l : List α} {i : ℕ}
    (h : l.findIdx? p = some i) :
    ∃ pre a post, l = pre ++ a :: post ∧ pre.length = i ∧ p a := by
  obtain ⟨hi, hp, _⟩ := List.findIdx?_eq_some_iff_getElem.mp h
  refine ⟨l.take i, l[i], l.drop (i + 1), ?_, List.length_take_of_le hi.le, hp⟩
  rw [List.getElem_cons_drop, List.take_append_drop]

theorem modify_append_cons {α : Type*} (f : α → α) (pre post : List α) (a : α) :
    (pre ++ a :: post).modify pre.length f = pre ++ f a :: post := by
  induction pre with
  | nil => rfl
  | cons b pre ih => simp [ih]

namespace Frequency
variable {α κ : Type*} (key : α → κ) (ctr : α → ℕ)

/-- Each key has one entry at most; a listed key is bounded by its counter, every other key by the
spill count. -/
structure Bounds (table : List α) (spill : ℕ) (f : κ → ℕ) : Prop where
  nodup : (table.map key).Nodup
  listed : ∀ a ∈ table, f (key a) ≤ ctr a
  unlisted : ∀ k ∉ table.map key, f k ≤ spill

variable {key ctr} {table pre post : List α} {a a' : α} {spill : ℕ} {f f' : κ → ℕ}

theorem bounds_nil {f : κ → ℕ} (hf : ∀ k, f k = 0) : Bounds key ctr [] spill f where
  nodup := List.nodup_nil
  listed _ h := nomatch h
  unlisted k _ := by simp [hf k]

theorem Bounds.mono (h : Bounds key ctr table spill f) (hf : ∀ k, f' k ≤ f k) :
    Bounds key ctr table spill f' where
  nodup := h.nodup
  listed a ha := (hf _).trans (h.listed a ha)
  unlisted k hk := (hf _).trans (h.unlisted k hk)

/-- Counting a listed key. -/
theorem Bounds.count (h : Bounds key ctr (pre ++ a :: post) spill f) (hkey : key a' = key a)
    (hctr : f' (key a) ≤ ctr a') (hf : ∀ k ≠ key a, f' k ≤ f k) :
    Bounds key ctr (pre ++ a' :: post) spill f' := by
  have hmap : (pre ++ a' :: post).map key = (pre ++ a :: post).map key := by simp [hkey]
  refine ⟨hmap ▸ h.nodup, fun x hx => ?_, fun k hk => ?_⟩
  · by_cases hxk : key x = key a
    · have hxa : x = a' := by
        have hnd := h.nodup
        simp only [List.map_append, List.map_cons, List.nodup_append, List.nodup_cons] at hnd
        rcases List.mem_append.mp hx with hx | hx
        · exact absurd hxk (hnd.2.2 _ (List.mem_map_of_mem hx) _ List.mem_cons_self)
        · rcases List.mem_cons.mp hx with hx | hx
          · exact hx
          · exact absurd (hxk ▸ List.mem_map_of_mem hx) hnd.2.1.1
      rw [hxa, hkey]
      exact hctr
    · have hmem : x ∈ pre ++ a :: post := by
        rcases List.mem_append.mp hx with hx | hx
        · exact List.mem_append_left _ hx
        · rcases List.mem_cons.mp hx with rfl | hx
          · exact absurd hkey hxk
          · exact List.mem_append_right _ (List.mem_cons_of_mem _ hx)
      exact (hf _ hxk).trans (h.listed x hmem)
  · rw [hmap] at hk
    have hne : k ≠ key a := fun he => hk (by simp [he])
    exact (hf k hne).trans (h.unlisted k hk)

/-- Dropping an entry whose key the spill count bounds. -/
theorem Bounds.erase (h : Bounds key ctr (pre ++ a :: post) spill f) (ha : f (key a) ≤ spill) :
    Bounds key ctr (pre ++ post) spill f := by
  have hsub : (pre ++ post).Sublist (pre ++ a :: post) :=
    (List.Sublist.refl pre).append (List.sublist_cons_self a post)
  refine ⟨h.nodup.sublist (hsub.map key), fun x hx => h.listed x (hsub.mem hx), fun k hk => ?_⟩
  by_cases hka : k = key a
  · rw [hka]
    exact ha
  · refine h.unlisted k fun hmem => hk ?_
    simp only [List.map_append, List.map_cons, List.mem_append, List.mem_cons] at hmem ⊢
    tauto

/-- Listing a key that is not in the table. -/
theorem Bounds.insert (h : Bounds key ctr (pre ++ post) spill f)
    (hnew : key a' ∉ (pre ++ post).map key) (hctr : f' (key a') ≤ ctr a')
    (hf : ∀ k ≠ key a', f' k ≤ f k) : Bounds key ctr (pre ++ a' :: post) spill f' := by
  refine ⟨?_, fun x hx => ?_, fun k hk => ?_⟩
  · have hperm : (pre ++ a' :: post).Perm (a' :: (pre ++ post)) := List.perm_middle
    rw [(hperm.map key).nodup_iff, List.map_cons, List.nodup_cons]
    exact ⟨hnew, h.nodup⟩
  · rw [List.mem_append, List.mem_cons] at hx
    by_cases hxa : x = a'
    · rw [hxa]
      exact hctr
    · have hmem : x ∈ pre ++ post := List.mem_append.mpr (by tauto)
      have hne : key x ≠ key a' := fun he => hnew (he ▸ List.mem_map_of_mem hmem)
      exact (hf _ hne).trans (h.listed x hmem)
  · simp only [List.map_append, List.map_cons, List.mem_append, List.mem_cons, not_or] at hk
    refine (hf k hk.2.1).trans (h.unlisted k ?_)
    simp only [List.map_append, List.mem_append, not_or]
    exact ⟨hk.1, hk.2.2⟩

/-- Counting a key that is not listed for all such keys. -/
theorem Bounds.countUnlisted (h : Bounds key ctr table spill f) {k : κ} (hk : k ∉ table.map key)
    (hself : f' k ≤ f k + 1) (hf : ∀ k' ≠ k, f' k' ≤ f k') :
    Bounds key ctr table (spill + 1) f' := by
  refine ⟨h.nodup, fun a ha => ?_, fun k' hk' => ?_⟩
  · have hne : key a ≠ k := fun he => hk (he ▸ List.mem_map_of_mem ha)
    exact (hf _ hne).trans (h.listed a ha)
  · by_cases hkk : k' = k
    · rw [hkk]
      exact hself.trans (Nat.add_le_add_right (h.unlisted k hk) 1)
    · exact (hf k' hkk).trans ((h.unlisted k' hk').trans (Nat.le_succ _))

end Frequency
end Foundations
