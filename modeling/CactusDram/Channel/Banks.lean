import CactusDram.Channel.Issue

/-! What an issued command leaves of each bank: what the bank made of the command, later deadlines,
and for CACTUS the rows that were refreshed. -/
namespace CactusDram
open Foundations

namespace BankState
variable {cfg : Config} {b b' b'' : BankState}

/-- Deadlines have moved, and CACTUS may have refreshed rows: their counts and their places in the
sampler are gone. -/
structure Leaves (cfg : Config) (b b' : BankState) : Prop where
  eq : ∃ t p q, b' = { b with cmdTiming := t, prac := p, drfmQ := q }
  sampler : b'.drfmQ.Sublist b.drfmQ
  off : cfg.cactusMode = 0 → b'.prac = b.prac ∧ b'.drfmQ = b.drfmQ

theorem Leaves.refl (b : BankState) : Leaves cfg b b :=
  ⟨⟨_, _, _, rfl⟩, .refl _, fun _ => ⟨rfl, rfl⟩⟩

theorem Leaves.trans (h : Leaves cfg b b') (h' : Leaves cfg b' b'') : Leaves cfg b b'' := by
  refine ⟨?_, h'.sampler.trans h.sampler, fun hc => ?_⟩
  · obtain ⟨_, _, _, rfl⟩ := h.eq
    obtain ⟨_, _, _, rfl⟩ := h'.eq
    exact ⟨_, _, _, rfl⟩
  · exact ⟨(h'.off hc).1.trans (h.off hc).1, (h'.off hc).2.trans (h.off hc).2⟩

theorem leaves_refreshRow (hmode : cfg.cactusMode ≠ 0) (b : BankState) (rowid : ℕ) :
    Leaves cfg b (b.refreshRow rowid) :=
  ⟨⟨_, _, _, rfl⟩, List.filter_sublist, fun hc => absurd hc hmode⟩

theorem leaves_cactusMitig (hmode : cfg.cactusMode ≠ 0) (b : BankState) (aggressor : ℕ) :
    Leaves cfg b (b.cactusMitig cfg aggressor) := by
  have hite (p : Prop) [Decidable p] (b : BankState) (row : ℕ) :
      Leaves cfg b (if p then b.refreshRow row else b) := by
    split_ifs
    · exact leaves_refreshRow hmode b row
    · exact .refl b
  unfold cactusMitig
  exact (((hite _ _ _).trans (hite _ _ _)).trans (hite _ _ _)).trans (hite _ _ _)

theorem leaves_updateTiming (b : BankState) (ty : CommandType) (time : ℕ) :
    Leaves cfg b (b.updateTiming ty time) :=
  ⟨⟨_, _, _, rfl⟩, .refl _, fun _ => ⟨rfl, rfl⟩⟩

end BankState

namespace ChannelState
variable {cfg : Config} {cs cs' cs'' : ChannelState} {cmd : Command} {clk : ℕ} {origin : Origin}

/-- Each bank is left as `BankState.Leaves` says. -/
def BanksLeft (cfg : Config) (cs cs' : ChannelState) : Prop :=
  ∀ j, (cs.bankStates j).Leaves cfg (cs'.bankStates j)

theorem BanksLeft.of_eq (h : cs'.bankStates = cs.bankStates) : BanksLeft cfg cs cs' := by
  intro j
  rw [h]
  exact .refl _

theorem BanksLeft.trans (h : BanksLeft cfg cs cs') (h' : BanksLeft cfg cs' cs'') :
    BanksLeft cfg cs cs'' := fun j => (h j).trans (h' j)

theorem banksLeft_modifyBank {i : BankId} {f : BankState → BankState}
    (hf : ∀ b : BankState, b.Leaves cfg (f b)) : BanksLeft cfg cs (cs.modifyBank i f) := by
  intro j
  by_cases hj : j = i
  · subst hj
    simpa [modifyBank] using hf _
  · simpa [modifyBank, Function.update_of_ne hj] using .refl _

theorem banksLeft_cactusMitigCounter {rank : ℤ} {idx : ℕ}
    (h : cs.cactusMitigCounter cfg rank idx = .ok cs') : BanksLeft cfg cs cs' := by
  unfold cactusMitigCounter at h
  split_ifs at h with hmode
  · cases h
    exact .of_eq rfl
  · obtain ⟨cs₁, hfold, h⟩ := bind_ok_iff.mp h
    have hleft : BanksLeft cfg cs cs₁ := by
      refine foldlM_invariant (P := BanksLeft cfg cs) (fun c i _ c' hc hi => ?_) hfold (.of_eq rfl)
      obtain ⟨aggressor, _, hi⟩ := bind_ok_iff.mp hi
      cases hi
      exact hc.trans (banksLeft_modifyBank fun b => BankState.leaves_cactusMitig hmode b aggressor)
    dsimp only at h
    split_ifs at h <;> cases h <;> exact hleft.trans (.of_eq rfl)

theorem banksLeft_cactusMitig {rank : ℤ} (h : cs.cactusMitig cfg rank = .ok cs') :
    BanksLeft cfg cs cs' := by
  unfold cactusMitig at h
  split_ifs at h
  · cases h
    exact .of_eq rfl
  · cases h
    exact .of_eq rfl
  · obtain ⟨cs₁, h₁, h⟩ := bind_ok_iff.mp h
    cases h
    exact (banksLeft_cactusMitigCounter h₁).trans (.of_eq rfl)

theorem banksLeft_cactusTrefMitig {rank : ℤ} (h : cs.cactusTrefMitig cfg rank = .ok cs') :
    BanksLeft cfg cs cs' := by
  unfold cactusTrefMitig at h
  split_ifs at h
  · cases h
    exact .of_eq rfl
  · cases h
    exact .of_eq rfl
  · cases h
    exact .of_eq rfl
  · obtain ⟨cs₁, h₁, h⟩ := bind_ok_iff.mp h
    cases h
    exact (banksLeft_cactusMitig h₁).trans (.of_eq rfl)

theorem banksLeft_cactusTrefMaxMitig {rank : ℤ} (h : cs.cactusTrefMaxMitig cfg rank = .ok cs') :
    BanksLeft cfg cs cs' := by
  unfold cactusTrefMaxMitig at h
  dsimp only at h
  split_ifs at h
  · cases h
    exact .of_eq rfl
  · cases h
    exact .of_eq rfl
  · cases h
    exact .of_eq rfl
  · cases h
    exact .of_eq rfl
  · cases h
    exact .of_eq rfl
  · obtain ⟨cs₁, h₁, h⟩ := bind_ok_iff.mp h
    have hleft : BanksLeft cfg cs cs₁ := by
      have hcounted := banksLeft_cactusMitigCounter h₁
      exact hcounted
    split_ifs at h <;> cases h
    · exact hleft.trans (.of_eq rfl)
    · exact hleft

theorem dreamRefresh_bankStates (reset : Bool) :
    (cs.dreamRefresh cfg reset).bankStates = cs.bankStates := by
  unfold dreamRefresh
  split_ifs <;> rfl

theorem cactusRefresh_bankStates (rank : ℤ) (reset : Bool) :
    (cs.cactusRefresh cfg rank reset).bankStates = cs.bankStates := by
  unfold cactusRefresh
  dsimp only
  split_ifs <;> rfl

theorem abacusRefresh_bankStates (reset : Bool) :
    (cs.abacusRefresh cfg reset).bankStates = cs.bankStates := by
  unfold abacusRefresh
  split_ifs <;> rfl

theorem refreshTrackers_bankStates : (cs.refreshTrackers cfg cmd).bankStates = cs.bankStates := by
  unfold refreshTrackers
  rw [abacusRefresh_bankStates, cactusRefresh_bankStates, dreamRefresh_bankStates]

theorem updateREFCounter_bankStates (h : cs.updateREFCounter cfg cmd = .ok cs') :
    cs'.bankStates = cs.bankStates := by
  unfold updateREFCounter at h
  dsimp only at h
  split_ifs at h <;> cases h <;> rfl

theorem banksLeft_rankServed (h : cs.rankServed cfg cmd = .ok cs') : BanksLeft cfg cs cs' := by
  unfold rankServed at h
  dsimp only at h
  split_ifs at h
  · obtain ⟨cs₁, h₁, h⟩ := bind_ok_iff.mp h
    cases h
    have hneed : BanksLeft cfg cs (cs.rankNeedRFM cmd.rank false) := .of_eq rfl
    exact (hneed.trans (banksLeft_cactusMitig h₁)).trans (.of_eq rfl)
  · cases h
    exact .of_eq rfl
  · obtain ⟨cs₁, h₁, h⟩ := bind_ok_iff.mp h
    obtain ⟨cs₂, h₂, h⟩ := bind_ok_iff.mp h
    have hreset : BanksLeft cfg cs ((cs.rankNeedRefresh cmd.rank false).refreshTrackers cfg cmd) :=
      .of_eq (refreshTrackers_bankStates.trans rfl)
    exact (hreset.trans (banksLeft_cactusTrefMitig h₁)).trans
      ((banksLeft_cactusTrefMaxMitig h₂).trans (.of_eq (updateREFCounter_bankStates h)))
  · cases h
    refine .of_eq ?_
    unfold dreamMitig abacusMitig
    split_ifs <;> (try split) <;> (try split) <;> rfl
  all_goals
    cases h
    exact .of_eq rfl

theorem banksLeft_banksetServed (h : cs.banksetServed cfg cmd = .ok cs') : BanksLeft cfg cs cs' := by
  unfold banksetServed at h
  split_ifs at h
  · cases h
    exact .of_eq rfl
  · cases h
    exact .of_eq rfl
  · exact .of_eq ((updateREFCounter_bankStates h).trans (refreshTrackers_bankStates.trans rfl))
  · cases h
    exact .of_eq rfl

theorem bankServed_bankStates : (cs.bankServed cmd).bankStates = cs.bankStates := by
  unfold bankServed
  split_ifs <;> rfl

theorem banksLeft_applyTiming (updates : List TimingUpdate) :
    BanksLeft cfg cs (cs.applyTiming updates clk) := by
  induction updates generalizing cs with
  | nil => exact .of_eq rfl
  | cons u updates ih =>
    have hu : BanksLeft cfg cs (cs.modifyBank u.1 fun b => b.updateTiming u.2.1 (addDelay clk u.2.2)) :=
      banksLeft_modifyBank fun b => BankState.leaves_updateTiming b _ _
    exact hu.trans ih

/-- The banks of a command see it; afterwards each bank is left with later deadlines. -/
theorem updateTimingAndStates_banks (h : cs.updateTimingAndStates cfg cmd clk origin = .ok cs')
    (i : BankId) : ∃ b, (i ∈ covered cfg cmd → (cs.bankStates i).updateState cfg cmd = .ok b) ∧
      (i ∉ covered cfg cmd → b = cs.bankStates i) ∧ b.Leaves cfg (cs'.bankStates i) := by
  obtain ⟨cs₁, h₁, h⟩ := bind_ok_iff.mp h
  obtain ⟨cs₂, h₂, h⟩ := bind_ok_iff.mp h
  cases h
  obtain ⟨bs, hbs, hserved⟩ := updateState_eq h₁
  obtain ⟨hin, hout⟩ := (updateEach_ok_iff (covered_nodup cfg cmd)).mp hbs
  have hleft : BanksLeft cfg { cs.record (.issue cmd clk origin cs.bankStates) with bankStates := bs }
      cs₁ := by
    rcases hserved with ⟨_, h⟩ | ⟨_, _, h⟩ | ⟨_, _, rfl⟩
    · exact banksLeft_rankServed h
    · exact banksLeft_banksetServed h
    · exact .of_eq bankServed_bankStates
  obtain ⟨_, _, _, _, _, _, hcs₂, _⟩ := countAndAlert_eq h₂
  have hcount : BanksLeft cfg cs₁ cs₂ := .of_eq (by rw [hcs₂])
  have htiming : BanksLeft cfg cs₂ (cs₂.applyTiming (timingUpdates cfg cmd) clk) :=
    banksLeft_applyTiming _
  exact ⟨bs i, hin i, hout i, ((hleft.trans hcount).trans htiming) i⟩

end ChannelState
end CactusDram
