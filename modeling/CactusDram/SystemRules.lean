import CactusDram.System

/-! Ticks of a memory system from what they do on each of its channels. What a channel is known for may
not depend on the cache and the random numbers, which the others change. -/
namespace CactusDram
open Foundations

/-- Only one entry of a list contributes. -/
theorem flatMap_of_single {α β : Type*} {f : α → List β} {a : α} {l : List α} (hl : l.Nodup) (ha : a ∈ l)
    (hf : ∀ b, b ≠ a → f b = []) : l.flatMap f = f a := by
  obtain ⟨l₁, l₂, rfl⟩ := List.append_of_mem ha
  obtain ⟨_, hl₂, hapart⟩ := List.nodup_append.mp hl
  have h₁ : l₁.flatMap f = [] :=
    List.flatMap_eq_nil_iff.mpr fun b hb => hf b (hapart b hb a List.mem_cons_self)
  have h₂ : l₂.flatMap f = [] :=
    List.flatMap_eq_nil_iff.mpr fun b hb => hf b fun h => (List.nodup_cons.mp hl₂).1 (h ▸ hb)
  rw [List.flatMap_append, List.flatMap_cons, h₁, h₂, List.nil_append, List.append_nil]

namespace JedecDRAMSystem

/-- What the other channels do to a controller does not matter. -/
def Steady (P : ℕ → Controller → Prop) : Prop :=
  ∀ (i : ℕ) (c : Controller) (cs : ChannelState), P i c → P i (c.share cs)

variable {cfg : Config} {s s' : JedecDRAMSystem} {P Q R : ℕ → Controller → Prop} {done : ℕ → List Callback}
  {l : List ℕ}

theorem returnAll_rule (hP : Steady P) (hQ : Steady Q)
    (hreturn : ∀ i ∈ l, ∀ c, P i c → (returnLoop s.clk c.returnQueue.length c).1 = done i ∧
      Q i (returnLoop s.clk c.returnQueue.length c).2)
    (hl : l.Nodup) (hp : ∀ i ∈ l, P i (s.ctrls i)) (hq : ∀ i ∉ l, Q i (s.ctrls i)) :
    (∀ i, Q i ((l.foldl returnDone s).ctrls i)) ∧
      (l.foldl returnDone s).callbacks = s.callbacks ++ l.flatMap done ∧
      (l.foldl returnDone s).clk = s.clk := by
  induction l generalizing s with
  | nil => exact ⟨fun i => hq i List.not_mem_nil, by simp, rfl⟩
  | cons i l ih =>
    obtain ⟨hi, hl⟩ := List.nodup_cons.mp hl
    obtain ⟨hdone, hqi⟩ := hreturn i List.mem_cons_self _ (hp i List.mem_cons_self)
    have hother {j : ℕ} (hj : j ≠ i) :
        (s.returnDone i).ctrls j = (s.ctrls j).share ((s.returnDone i).ctrls i).channelState := by
      simp [returnDone, store, hj]
    have hself : (s.returnDone i).ctrls i =
        (returnLoop s.clk (s.ctrls i).returnQueue.length (s.ctrls i)).2 := by
      simp [returnDone, store]
    obtain ⟨hall, hcallbacks, hclk⟩ := ih (s := s.returnDone i)
      (fun j hj => hreturn j (List.mem_cons_of_mem i hj)) hl
      (fun j hj => by
        rw [hother fun h => hi (h ▸ hj)]
        exact hP _ _ _ (hp j (List.mem_cons_of_mem i hj)))
      (fun j hj => by
        by_cases hji : j = i
        · subst hji
          rw [hself]
          exact hqi
        · rw [hother hji]
          exact hQ _ _ _ (hq j (by simp [hji, hj])))
    refine ⟨hall, ?_, hclk⟩
    rw [List.foldl_cons, hcallbacks, List.flatMap_cons, ← hdone, ← List.append_assoc]
    rfl

theorem tickAll_rule (hP : Steady P) (hQ : Steady Q)
    (htick : ∀ i ∈ l, ∀ c c', P i c → c.clockTick cfg = .ok c' → Q i c')
    (hl : l.Nodup) (hp : ∀ i ∈ l, P i (s.ctrls i)) (hq : ∀ i ∉ l, Q i (s.ctrls i))
    (h : l.foldlM (tickChannel cfg) s = .ok s') :
    (∀ i, Q i (s'.ctrls i)) ∧ s'.callbacks = s.callbacks ∧ s'.clk = s.clk := by
  induction l generalizing s with
  | nil =>
    cases h
    exact ⟨fun i => hq i List.not_mem_nil, rfl, rfl⟩
  | cons i l ih =>
    obtain ⟨hi, hl⟩ := List.nodup_cons.mp hl
    rw [List.foldlM_cons, bind_ok_iff] at h
    obtain ⟨s₁, hstep, h⟩ := h
    obtain ⟨c, hc, hstep⟩ := bind_ok_iff.mp hstep
    cases hstep
    have hother {j : ℕ} (hj : j ≠ i) : (s.store i c).ctrls j = (s.ctrls j).share c.channelState := if_neg hj
    have hself : (s.store i c).ctrls i = c := if_pos rfl
    obtain ⟨hall, hrest⟩ := ih (s := s.store i c) (fun j hj => htick j (List.mem_cons_of_mem i hj)) hl
      (fun j hj => by
        rw [hother fun h => hi (h ▸ hj)]
        exact hP _ _ _ (hp j (List.mem_cons_of_mem i hj)))
      (fun j hj => by
        by_cases hji : j = i
        · subst hji
          rw [hself]
          exact htick _ List.mem_cons_self _ _ (hp _ List.mem_cons_self) hc
        · rw [hother hji]
          exact hQ _ _ _ (hq j (by simp [hji, hj])))
      h
    exact ⟨hall, hrest⟩

theorem tickAll_total (hP : Steady P) (hok : ∀ i ∈ l, ∀ c, P i c → ∃ c', c.clockTick cfg = .ok c')
    (hl : l.Nodup) (hp : ∀ i ∈ l, P i (s.ctrls i)) : ∃ s', l.foldlM (tickChannel cfg) s = .ok s' := by
  induction l generalizing s with
  | nil => exact ⟨s, rfl⟩
  | cons i l ih =>
    obtain ⟨hi, hl⟩ := List.nodup_cons.mp hl
    obtain ⟨c, hc⟩ := hok i List.mem_cons_self _ (hp i List.mem_cons_self)
    obtain ⟨s', hs'⟩ := ih (s := s.store i c) (fun j hj => hok j (List.mem_cons_of_mem i hj)) hl
      fun j hj => by
      have hother : (s.store i c).ctrls j = (s.ctrls j).share c.channelState :=
        if_neg fun h : j = i => hi (h ▸ hj)
      rw [hother]
      exact hP _ _ _ (hp j (List.mem_cons_of_mem i hj))
    refine ⟨s', ?_⟩
    rw [List.foldlM_cons, bind_ok_iff]
    exact ⟨_, bind_ok_iff.mpr ⟨c, hc, rfl⟩, hs'⟩

theorem steady_guard {n : ℕ} (hP : Steady P) : Steady fun i c => i < n → P i c :=
  fun i c cs h hi => hP i c cs (h hi)

section Tick
variable (hP : Steady P) (hQ : Steady Q)
  (hreturn : ∀ i < cfg.channels, ∀ c, P i c → (returnLoop s.clk c.returnQueue.length c).1 = done i ∧
    Q i (returnLoop s.clk c.returnQueue.length c).2)
include hP hQ hreturn

/-- Once all channels have handed back what is due. -/
theorem returned_rule (hs : ∀ i < cfg.channels, P i (s.ctrls i)) :
    (∀ i, i < cfg.channels → Q i (((List.range cfg.channels).foldl returnDone s).ctrls i)) ∧
      ((List.range cfg.channels).foldl returnDone s).callbacks =
        s.callbacks ++ (List.range cfg.channels).flatMap done ∧
      ((List.range cfg.channels).foldl returnDone s).clk = s.clk := by
  refine returnAll_rule (Q := fun i c => i < cfg.channels → Q i c) hP (steady_guard hQ) ?_ List.nodup_range ?_ ?_
  · intro i hi c hc
    obtain ⟨hdone, hq⟩ := hreturn i (List.mem_range.mp hi) c hc
    exact ⟨hdone, fun _ => hq⟩
  · exact fun i hi => hs i (List.mem_range.mp hi)
  · exact fun i hi hlt => absurd (List.mem_range.mpr hlt) hi

/-- A tick, from what it does on each channel: `P` before, `Q` once the completed transactions are handed
back, `R` after. -/
theorem clockTick_rule (hR : Steady R)
    (htick : ∀ i < cfg.channels, ∀ c c', Q i c → c.clockTick cfg = .ok c' → R i c')
    (hs : ∀ i < cfg.channels, P i (s.ctrls i)) (h : s.clockTick cfg = .ok s') :
    (∀ i < cfg.channels, R i (s'.ctrls i)) ∧
      s'.callbacks = s.callbacks ++ (List.range cfg.channels).flatMap done ∧ s'.clk = s.clk + 1 := by
  obtain ⟨hq, hcallbacks, hclk⟩ := returned_rule hP hQ hreturn hs
  obtain ⟨s₁, htickAll, h⟩ := bind_ok_iff.mp h
  cases h
  obtain ⟨hr, hcallbacks', hclk'⟩ := tickAll_rule (Q := fun i c => i < cfg.channels → R i c)
    hQ (steady_guard hR) (fun i hi c c' hc hc' _ => htick i (List.mem_range.mp hi) c c' hc hc')
    List.nodup_range (fun i hi => hq i (List.mem_range.mp hi))
    (fun i hi hlt => absurd (List.mem_range.mpr hlt) hi) htickAll
  exact ⟨hr, hcallbacks'.trans hcallbacks, congrArg (· + 1) (hclk'.trans hclk)⟩

theorem clockTick_total (hok : ∀ i < cfg.channels, ∀ c, Q i c → ∃ c', c.clockTick cfg = .ok c')
    (hs : ∀ i < cfg.channels, P i (s.ctrls i)) : ∃ s', s.clockTick cfg = .ok s' := by
  obtain ⟨hq, _⟩ := returned_rule hP hQ hreturn hs
  obtain ⟨s₁, hs₁⟩ := tickAll_total hQ (fun i hi => hok i (List.mem_range.mp hi)) List.nodup_range
    fun i hi => hq i (List.mem_range.mp hi)
  exact ⟨_, bind_ok_iff.mpr ⟨s₁, hs₁, rfl⟩⟩

end Tick

end JedecDRAMSystem
end CactusDram
