import CactusDram.CactusMapping

/-! What the mitigation of a counter changes, and how hot it leaves the counter. -/
namespace CactusDram
open Foundations

/-- The rows within distance two of an aggressor, itself excluded, that the bank has. -/
def Victim (cfg : Config) (aggressor row : ℕ) : Prop :=
  row < cfg.rows ∧ (row + 2 = aggressor ∨ row + 1 = aggressor ∨ row = aggressor + 1 ∨
    row = aggressor + 2)

instance (cfg : Config) (aggressor row : ℕ) : Decidable (Victim cfg aggressor row) :=
  inferInstanceAs (Decidable (_ ∧ _))

namespace BankState
variable {cfg : Config}

/-- Clear the rows of a set and forget their samples. -/
def refreshRows (b : BankState) (rows : ℕ → Prop) [DecidablePred rows] : BankState :=
  { b with
    prac := fun row => if rows row then 0 else b.prac row
    drfmQ := b.drfmQ.filter fun e => ¬rows e.rowid }

theorem refreshRow_eq (b : BankState) (rowid : ℕ) : b.refreshRow rowid = b.refreshRows (· = rowid) := by
  unfold refreshRow refreshRows
  congr 2
  funext row
  simp [Function.update_apply]

theorem refreshRows_refreshRows (b : BankState) (p q : ℕ → Prop) [DecidablePred p]
    [DecidablePred q] : (b.refreshRows p).refreshRows q = b.refreshRows fun row => p row ∨ q row := by
  unfold refreshRows
  dsimp only
  congr 1
  · congr 1
    funext row
    by_cases hp : p row <;> by_cases hq : q row <;> simp [hp, hq]
  · rw [List.filter_filter]
    congr 1
    funext e
    by_cases hp : p e.rowid <;> by_cases hq : q e.rowid <;> simp [hp, hq]

theorem refreshRows_congr (b : BankState) {p q : ℕ → Prop} [DecidablePred p] [DecidablePred q]
    (h : ∀ row, p row ↔ q row) : b.refreshRows p = b.refreshRows q := by
  unfold refreshRows
  simp only [h]

theorem refreshRows_none (b : BankState) : b.refreshRows (fun _ => False) = b := by
  simp [refreshRows]

/-- The four guarded refreshes of a mitigation are one refresh of the victims. -/
theorem cactusMitig_eq (b : BankState) {aggressor : ℕ} (h : aggressor < cfg.rows) :
    b.cactusMitig cfg aggressor = b.refreshRows (Victim cfg aggressor) := by
  have hguard (b : BankState) (c : Prop) [Decidable c] (rowid : ℕ) :
      (if c then b.refreshRow rowid else b) = b.refreshRows fun row => c ∧ row = rowid := by
    by_cases hc : c
    · rw [if_pos hc, refreshRow_eq]
      exact b.refreshRows_congr fun row => by simp [hc]
    · rw [if_neg hc]
      exact (b.refreshRows_none).symm.trans (b.refreshRows_congr fun row => by simp [hc])
  unfold cactusMitig
  dsimp only
  rw [hguard, hguard, hguard, hguard, refreshRows_refreshRows, refreshRows_refreshRows,
    refreshRows_refreshRows]
  apply refreshRows_congr
  intro row
  unfold Victim
  omega

end BankState

namespace ChannelState
variable {cfg : Config} {cs : ChannelState} {boot : Boot cfg}

/-- The walk over the banks mitigates in each of them the row its permutation gives. -/
theorem mitigateBanks_eq {l : List BankId} (hl : l.Nodup) {idx : ℕ} {aggressor : BankId → ℕ}
    (hrow : ∀ i ∈ l, cs.getCactusRowIdx cfg i idx = .ok (aggressor i)) :
    l.foldlM (fun cs i => do
        let aggressor ← cs.getCactusRowIdx cfg i idx
        .ok (cs.modifyBank i fun b => b.cactusMitig cfg aggressor)) cs =
      (.ok { cs with bankStates := fun i =>
          if i ∈ l then (cs.bankStates i).cactusMitig cfg (aggressor i) else cs.bankStates i } :
        Except Exit ChannelState) := by
  induction l generalizing cs with
  | nil => simp [pure, Except.pure]
  | cons j l ih =>
    obtain ⟨hj, hl⟩ := List.nodup_cons.mp hl
    rw [List.foldlM_cons, hrow j List.mem_cons_self]
    -- the permutations do not depend on the banks
    have hrest : ∀ i ∈ l, (cs.modifyBank j fun b => b.cactusMitig cfg (aggressor j)).getCactusRowIdx
        cfg i idx = .ok (aggressor i) := fun i hi => hrow i (List.mem_cons_of_mem j hi)
    change List.foldlM _ (cs.modifyBank j fun b => b.cactusMitig cfg (aggressor j)) l = _
    rw [ih hl hrest]
    simp only [modifyBank]
    congr 2
    funext i
    by_cases hij : i = j
    · subst hij
      simp [hj]
    · simp [hij]

end ChannelState

/-- Mitigating a counter of a rank clears, in every bank of the rank, the victims of the row that
the counter stands for there, and their samples; it restarts the counter, clears the register of
the rank when it holds the counter, and changes nothing else. -/
theorem cactus_mitigation_frame (cfg : Config) (hmode : cfg.cactusMode = 1) (boot : Boot cfg)
    (cs : ChannelState) (hcs : cs.fixed = boot.channelState.fixed)
    (hpolicy : cfg.cactusPolicy = 0 ∨ cfg.cactusPolicy = 1) (rank : ℕ) (hrank : rank < cfg.ranks)
    (idx : ℕ) (hle : rank * cfg.rows ≤ idx) (hlt : idx < (rank + 1) * cfg.rows) :
    idx < cfg.ranks * cfg.rows ∧ ∃ aggressor : BankId → ℕ,
      (∀ i ∈ cfg.rankBanks rank, cs.getCactusRowIdx cfg i idx = .ok (aggressor i) ∧
        ChannelState.bankIdx cfg i * cfg.rows + (idx - rank * cfg.rows) <
          cfg.ranks * cfg.bankgroups * cfg.banksPerGroup * cfg.rows ∧
        aggressor i < cfg.rows) ∧
      cs.cactusMitigCounter cfg rank idx = .ok { cs with
        bankStates := fun i =>
          if i ∈ cfg.rankBanks rank then { cs.bankStates i with
            prac := fun row => if Victim cfg (aggressor i) row then 0 else (cs.bankStates i).prac row
            drfmQ := (cs.bankStates i).drfmQ.filter fun e => ¬Victim cfg (aggressor i) e.rowid }
          else cs.bankStates i
        cactusPrev := Function.update cs.cactusPrev idx (cs.cactus idx)
        cactus := Function.update cs.cactus idx 0
        cactusTrefMaxCounterIdx := fun r =>
          if r = rank ∧ cs.cactusTrefMaxCounterIdx r = idx then -1
          else cs.cactusTrefMaxCounterIdx r
        log := .cactusMitig idx :: cs.log } := by
  have hbank {i : BankId} (hi : i ∈ cfg.rankBanks rank) : i ∈ cfg.allBanks ∧ i.rank = rank := by
    obtain ⟨hr, hg, hk⟩ := cfg.mem_rankBanks.mp hi
    exact ⟨cfg.mem_allBanks.mpr ⟨⟨rank, hrank, hr⟩, hg, hk⟩, hr⟩
  have hspec (i : BankId) (hi : i ∈ cfg.rankBanks rank) : ∃ row, row < cfg.rows ∧
      cs.getCactusRowIdx cfg i idx = .ok row := by
    obtain ⟨hall, hr⟩ := hbank hi
    have hin : ChannelState.InRank cfg i.rank idx := by
      rw [hr]
      exact ⟨hle, hlt⟩
    obtain ⟨row, hrow, hget, _⟩ := ChannelState.getCactusRowIdx_spec hall hcs hpolicy hin
    exact ⟨row, hrow, hget⟩
  have hidx : idx < cfg.ranks * cfg.rows :=
    lt_of_lt_of_le hlt (Nat.mul_le_mul_right _ hrank)
  choose! aggressor hrows hget using hspec
  refine ⟨hidx, aggressor, fun i hi => ⟨hget i hi, ?_, hrows i hi⟩, ?_⟩
  · have hb := ChannelState.bankIdx_lt (hbank hi).1
    have hslice := Nat.mul_le_mul_right cfg.rows (Nat.succ_le_of_lt hb)
    rw [Nat.succ_mul] at hslice
    rw [Nat.add_mul] at hlt
    unfold ChannelState.totalBanks at hslice
    omega
  · unfold ChannelState.cactusMitigCounter
    rw [if_neg (by omega), ChannelState.mitigateBanks_eq (cfg.rankBanks_nodup rank) hget]
    have hstates : (fun i => if i ∈ cfg.rankBanks rank then
        (cs.bankStates i).cactusMitig cfg (aggressor i) else cs.bankStates i) = fun i =>
        if i ∈ cfg.rankBanks rank then
          (cs.bankStates i).refreshRows (Victim cfg (aggressor i)) else cs.bankStates i := by
      funext i
      split_ifs with hi
      · exact BankState.cactusMitig_eq _ (hrows i hi)
      · rfl
    rw [hstates]
    simp only [bind, Except.bind]
    split_ifs with hreg
    · congr 2
      funext r
      by_cases hr : r = rank
      · subst hr
        simp [hreg]
      · simp [hr]
    · congr 2
      funext r
      by_cases hr : r = rank
      · subst hr
        simp [hreg]
      · simp [hr]

theorem cactus_mitigation_frame_small : ∃ cs', (({} : Boot
    { smallConfig with cactusMode := 1 }).channelState).cactusMitigCounter
      { smallConfig with cactusMode := 1 } (0 : ℕ) 2 = .ok cs' ∧ cs'.cactus 2 = 0 ∧
        cs'.log = [.cactusMitig 2] := by
  obtain ⟨_, _, _, hmitig⟩ := cactus_mitigation_frame { smallConfig with cactusMode := 1 } rfl {} _
    rfl (.inl rfl) 0 (by decide) 2 (by decide) (by decide)
  exact ⟨_, hmitig, by simp, rfl⟩

end CactusDram
