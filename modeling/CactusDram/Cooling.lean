import CactusDram.CounterHistory

/-! When a mitigation leaves the counter it serves below the threshold. -/
namespace CactusDram
open Foundations

namespace ChannelState
variable {cfg : Config} {cs cs' : ChannelState}

/-- The next activation finds the counter below the threshold and, unless the threshold is one,
does not bring it there. -/
def CactusCold (cfg : Config) (cs : ChannelState) (idx : ℕ) : Prop :=
  cs.cactusVal cfg idx < cactusThreshold cfg ∧
    (cfg.cactusTh ≠ 1 → (cs.cactusCounted idx).cactusVal cfg idx < cactusThreshold cfg)

instance (cs : ChannelState) (idx : ℕ) : Decidable (cs.CactusCold cfg idx) :=
  inferInstanceAs (Decidable (_ ∧ _))

def tuscCounted (cs : ChannelState) (idx : ℕ) : ChannelState :=
  { cs with tusc := Function.update cs.tusc idx (u32 (cs.tusc idx + 1)) }

def TuscCold (cfg : Config) (cs : ChannelState) (idx : ℕ) : Prop :=
  cs.tuscVal cfg idx < tuscThreshold cfg ∧
    (cfg.dreamTh ≠ 1 → (cs.tuscCounted idx).tuscVal cfg idx < tuscThreshold cfg)

/-- The calls since the last reset become the previous epoch of a mitigated counter: added to the
current one, they must leave room below twice the threshold. -/
def LeavesRoom (prevEnable : Bool) (th : ℤ) (calls : ℕ) : Prop :=
  prevEnable → calls + (if th = 1 then 0 else 1) < 2 * th

/-- The comparisons on a counter whose current epoch is empty. -/
theorem cold_iff_leavesRoom {prevEnable : Bool} {th : ℤ} {calls : ℕ} (hth : 1 ≤ th)
    (hint : th < 2 ^ 31) (hcalls : calls < 2 ^ 32) :
    ((if prevEnable then u32 ((0 : ℕ) + calls) else 0) < (if prevEnable then u32 (th * 2) else u32 th) ∧
      (th ≠ 1 → (if prevEnable then u32 (u32 ((0 : ℕ) + 1) + calls) else u32 ((0 : ℕ) + 1)) <
        (if prevEnable then u32 (th * 2) else u32 th))) ↔ LeavesRoom prevEnable th calls := by
  unfold LeavesRoom u32
  cases prevEnable with
  | false => simp only [Bool.false_eq_true, if_false, false_imp_iff, iff_true]; omega
  | true =>
    simp only [if_true, true_imp_iff]
    split_ifs <;> omega

theorem cactusCold_mitigated (hth : 1 ≤ cfg.cactusTh) (hint : cfg.cactusTh < 2 ^ 31) {idx : ℕ}
    (hword : cs.cactus idx < 2 ^ 32) (hcur : cs'.cactus idx = 0)
    (hprev : cs'.cactusPrev idx = cs.cactus idx) :
    cs'.CactusCold cfg idx ↔ LeavesRoom cfg.cactusPrevEnable cfg.cactusTh (cs.cactus idx) := by
  rw [← cold_iff_leavesRoom hth hint hword]
  unfold CactusCold cactusVal cactusThreshold cactusCounted
  simp only [hcur, hprev, Function.update_self]

theorem tuscCold_mitigated (hth : 1 ≤ cfg.dreamTh) (hint : cfg.dreamTh < 2 ^ 31) {idx : ℕ}
    (hword : cs.tusc idx < 2 ^ 32) (hcur : cs'.tusc idx = 0)
    (hprev : cs'.tuscPrev idx = cs.tusc idx) :
    cs'.TuscCold cfg idx ↔ LeavesRoom cfg.dreamPrevEnable cfg.dreamTh (cs.tusc idx) := by
  rw [← cold_iff_leavesRoom hth hint hword]
  unfold TuscCold tuscVal tuscThreshold tuscCounted
  simp only [hcur, hprev, Function.update_self]

end ChannelState

/-- In every state reached, a mitigation cools the counter it serves exactly when the previous
epoch is not added, or the calls since the last reset stay below twice the threshold, with one to
spare unless the threshold is one. -/
theorem mitigation_cools_iff (cfg : Config) (boot : Boot cfg) (ops : List (CounterOp cfg))
    (s s' : CounterRun) (hrun : (CounterRun.start boot).run ops = .ok s) :
    (cfg.cactusMode = 1 → 1 ≤ cfg.cactusTh → cfg.cactusTh < 2 ^ 31 → ∀ rank idx hidx,
      s.step (.cactusMitigCounter rank idx hidx : CounterOp cfg) = .ok s' →
        (s'.cs.CactusCold cfg idx ↔
          ChannelState.LeavesRoom cfg.cactusPrevEnable cfg.cactusTh (s.cs.cactus idx))) ∧
    (cfg.dreamMode = 1 → 1 ≤ cfg.dreamTh → cfg.dreamTh < 2 ^ 31 → ∀ idx rest,
      s.cs.tuscQ = idx :: rest → s.step (.dreamMitig : CounterOp cfg) = .ok s' →
        (s'.cs.TuscCold cfg idx ↔
          ChannelState.LeavesRoom cfg.dreamPrevEnable cfg.dreamTh (s.cs.tusc idx))) := by
  have hs := (CounterRun.recorded_start boot).run hrun
  constructor
  · intro hmode hth hint rank idx hidx hstep
    have hword : s.cs.cactus idx < 2 ^ 32 := by
      rw [(hs.cactus (by omega)).current idx]
      exact Nat.mod_lt _ (by decide)
    obtain ⟨cs', happly, rfl⟩ := CounterRun.step_ok_iff.mp hstep
    have hcounters := ChannelState.cactusMitigCounter_counters (by omega) happly
    have hcur : cs'.cactus = Function.update s.cs.cactus idx 0 := congrArg Counters.cactus hcounters
    have hprev : cs'.cactusPrev = Function.update s.cs.cactusPrev idx (s.cs.cactus idx) :=
      congrArg Counters.cactusPrev hcounters
    exact ChannelState.cactusCold_mitigated hth hint hword (by simp [hcur]) (by simp [hprev])
  · intro hmode hth hint idx rest hq hstep
    have hword : s.cs.tusc idx < 2 ^ 32 := by
      rw [(hs.dream hmode).current idx]
      exact Nat.mod_lt _ (by decide)
    obtain ⟨cs', happly, rfl⟩ := CounterRun.step_ok_iff.mp hstep
    cases happly
    have hcounters := ChannelState.dreamMitig_counters hmode hq
    have hcur : (s.cs.dreamMitig cfg).tusc = Function.update s.cs.tusc idx 0 :=
      congrArg Counters.tusc hcounters
    have hprev : (s.cs.dreamMitig cfg).tuscPrev = Function.update s.cs.tuscPrev idx (s.cs.tusc idx) :=
      congrArg Counters.tuscPrev hcounters
    exact ChannelState.tuscCold_mitigated hth hint hword (by simp [hcur]) (by simp [hprev])

/-- Both trackers on the small channel, the previous epoch added, thresholds of two. -/
def coolingConfig : Config :=
  { smallConfig with
    cactusMode := 1, cactusTh := 2, cactusPrevEnable := true
    dreamMode := 1, dreamTh := 2, dreamPrevEnable := true }

/-- Some activations of row 0 in bank 0. -/
def hammer (n : ℕ) : List (CounterOp coolingConfig) :=
  List.replicate n (.cactusPreact ⟨0, 0, 0⟩ 0 0 (by decide) (by decide))

theorem mitigation_cools_iff_small : ∃ s s' : CounterRun,
    (CounterRun.start ({} : Boot coolingConfig)).run (hammer 2) = .ok s ∧
    s.step (.cactusMitigCounter 0 0 (by decide) : CounterOp coolingConfig) = .ok s' ∧
    s'.cs.CactusCold coolingConfig 0 := by
  obtain ⟨s, hrun, hs⟩ := exists_ok_of_any
    (x := (CounterRun.start ({} : Boot coolingConfig)).run (hammer 2))
    (p := fun s => s.cs.cactus 0 = 2 &&
      (s.step (.cactusMitigCounter 0 0 (by decide) : CounterOp coolingConfig)).toOption.any
        fun _ => true)
    (by decide +kernel)
  simp only [Bool.and_eq_true, decide_eq_true_eq] at hs
  obtain ⟨s', hstep, _⟩ := exists_ok_of_any hs.2
  refine ⟨s, s', hrun, hstep, ?_⟩
  have hcool := (mitigation_cools_iff coolingConfig {} (hammer 2) s s' hrun).1 rfl (by decide)
    (by decide) 0 0 (by decide) hstep
  rw [hcool, hs.1]
  unfold ChannelState.LeavesRoom
  decide

/-- Four activations bring the counter to twice the threshold. Its mitigation moves them to the
previous epoch, where the next comparison finds them again. -/
theorem mitigation_leaves_hot : ∃ s s' : CounterRun,
    (CounterRun.start ({} : Boot coolingConfig)).run (hammer 4) = .ok s ∧
    s.step (.cactusMitigCounter 0 0 (by decide) : CounterOp coolingConfig) = .ok s' ∧
    ¬s'.cs.cactusVal coolingConfig 0 < ChannelState.cactusThreshold coolingConfig := by
  obtain ⟨s, hrun, hs⟩ := exists_ok_of_any
    (x := (CounterRun.start ({} : Boot coolingConfig)).run (hammer 4))
    (p := fun s => (s.step (.cactusMitigCounter 0 0 (by decide) : CounterOp coolingConfig)).toOption.any
      fun s' => ¬s'.cs.cactusVal coolingConfig 0 < ChannelState.cactusThreshold coolingConfig)
    (by decide +kernel)
  obtain ⟨s', hstep, hhot⟩ := exists_ok_of_any hs
  exact ⟨s, s', hrun, hstep, by simpa using hhot⟩

end CactusDram
