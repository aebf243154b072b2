import CactusDram.Invariants

/-! The activation windows and the refresh counters of a channel: which functions leave them alone. -/
namespace CactusDram
open Foundations

/-- The expiries in the activation windows, and the counters of served refreshes. -/
structure Pace where
  fourAw : ℤ → List ℕ
  thirtyTwoAw : ℤ → List ℕ
  fgrCounter : ℕ
  refIdx : ℕ

namespace ChannelState
variable {cfg : Config} {cs cs' : ChannelState} {cmd : Command} {clk : ℕ}

def pace (cs : ChannelState) : Pace := ⟨cs.fourAw, cs.thirtyTwoAw, cs.fgrCounter, cs.refIdx⟩

/-- What a mitigation of CACTUS writes. -/
structure CactusSide where
  bankStates : BankId → BankState
  rfmQ : List Command
  cactus : ℕ → ℕ
  cactusPrev : ℕ → ℕ
  cactusPendingCounterIdx : ℤ → ℤ
  cactusAlertPending : ℤ → Bool
  cactusRfmInflight : ℤ → Bool
  cactusActsSinceRfm : ℤ → ℤ
  cactusTrefRefabCount : ℤ → ℤ
  cactusTrefMaxCounterIdx : ℤ → ℤ
  log : List Event
  rfmCalls : List RfmCall

def withCactus (cs : ChannelState) (s : CactusSide) : ChannelState :=
  { cs with
    bankStates := s.bankStates
    rfmQ := s.rfmQ
    cactus := s.cactus
    cactusPrev := s.cactusPrev
    cactusPendingCounterIdx := s.cactusPendingCounterIdx
    cactusAlertPending := s.cactusAlertPending
    cactusRfmInflight := s.cactusRfmInflight
    cactusActsSinceRfm := s.cactusActsSinceRfm
    cactusTrefRefabCount := s.cactusTrefRefabCount
    cactusTrefMaxCounterIdx := s.cactusTrefMaxCounterIdx
    log := s.log
    rfmCalls := s.rfmCalls }

def cactusSide (cs : ChannelState) : CactusSide :=
  ⟨cs.bankStates, cs.rfmQ, cs.cactus, cs.cactusPrev, cs.cactusPendingCounterIdx,
    cs.cactusAlertPending, cs.cactusRfmInflight, cs.cactusActsSinceRfm, cs.cactusTrefRefabCount,
    cs.cactusTrefMaxCounterIdx, cs.log, cs.rfmCalls⟩

/-- Only what CACTUS writes differs. -/
def CactusOnly (cs cs' : ChannelState) : Prop := cs' = cs.withCactus cs'.cactusSide

theorem CactusOnly.trans {cs₁ cs₂ cs₃ : ChannelState} (h : CactusOnly cs₁ cs₂)
    (h' : CactusOnly cs₂ cs₃) : CactusOnly cs₁ cs₃ := by
  unfold CactusOnly at h h' ⊢
  calc cs₃ = cs₂.withCactus cs₃.cactusSide := h'
    _ = (cs₁.withCactus cs₂.cactusSide).withCactus cs₃.cactusSide := by rw [← h]
    _ = cs₁.withCactus cs₃.cactusSide := rfl

theorem CactusOnly.pace (h : CactusOnly cs cs') : cs'.pace = cs.pace := by
  have hpace : cs'.pace = (cs.withCactus cs'.cactusSide).pace := congrArg ChannelState.pace h
  exact hpace

theorem cactusOnly_needRFM (req : Command) (target : Command → Bool) (need : Bool) :
    CactusOnly cs (cs.needRFM req target need) := by
  unfold needRFM
  split_ifs <;> rfl

theorem cactusOnly_cactusMitigCounter {rank : ℤ} {idx : ℕ}
    (h : cs.cactusMitigCounter cfg rank idx = .ok cs') : CactusOnly cs cs' := by
  by_cases hmode : cfg.cactusMode = 0
  · unfold cactusMitigCounter at h
    rw [if_pos hmode] at h
    cases h
    rfl
  · obtain ⟨bs, m, rfl, _⟩ := cactusMitigCounter_eq hmode h
    rfl

theorem cactusOnly_cactusMitig {rank : ℤ} (h : cs.cactusMitig cfg rank = .ok cs') :
    CactusOnly cs cs' := by
  unfold cactusMitig at h
  split_ifs at h
  · cases h
    rfl
  · cases h
    rfl
  · obtain ⟨cs₁, h₁, h⟩ := bind_ok_iff.mp h
    cases h
    exact (cactusOnly_cactusMitigCounter h₁).trans rfl

theorem cactusOnly_cactusTrefMitig {rank : ℤ} (h : cs.cactusTrefMitig cfg rank = .ok cs') :
    CactusOnly cs cs' := by
  unfold cactusTrefMitig at h
  split_ifs at h
  · cases h
    rfl
  · cases h
    rfl
  · cases h
    rfl
  · obtain ⟨cs₁, h₁, h⟩ := bind_ok_iff.mp h
    cases h
    have hclear : CactusOnly cs₁ ((cs₁.clearAlert rank).clearInflight rank) := rfl
    exact (cactusOnly_cactusMitig h₁).trans (hclear.trans (cactusOnly_needRFM _ _ _))

theorem cactusOnly_cactusTrefMaxMitig {rank : ℤ} (h : cs.cactusTrefMaxMitig cfg rank = .ok cs') :
    CactusOnly cs cs' := by
  unfold cactusTrefMaxMitig at h
  dsimp only at h
  split_ifs at h
  · cases h
    rfl
  · cases h
    rfl
  · cases h
    rfl
  · cases h
    rfl
  · cases h
    rfl
  · obtain ⟨cs₁, h₁, h⟩ := bind_ok_iff.mp h
    have hcount : CactusOnly cs { cs with
        cactusTrefRefabCount :=
          Function.update cs.cactusTrefRefabCount rank (cs.cactusTrefRefabCount rank + 1) } := rfl
    have hmitig := hcount.trans (cactusOnly_cactusMitigCounter h₁)
    split_ifs at h
    · cases h
      have hclear : CactusOnly cs₁ (((cs₁.clearPending rank).clearAlert rank).clearInflight rank) := rfl
      exact hmitig.trans (hclear.trans (cactusOnly_needRFM _ _ _))
    · cases h
      exact hmitig

theorem pace_needRFM (req : Command) (target : Command → Bool) (need : Bool) :
    (cs.needRFM req target need).pace = cs.pace :=
  (cactusOnly_needRFM req target need).pace

theorem pace_launchDRFM (h : cs.launchDRFM cfg cmd = .ok cs') : cs'.pace = cs.pace := by
  obtain ⟨_, _, _, rfl, _⟩ := launchDRFM_eq h
  rfl

theorem pace_hydraCheck {ok : Bool} (h : cs.hydraCheck cfg cmd = (ok, cs')) : cs'.pace = cs.pace := by
  obtain ⟨_, _, _, rfl⟩ := hydraCheck_eq h
  rfl

theorem pace_preactHooks {full : Bool} (h : cs.preactHooks cfg cmd clk = .ok (full, cs')) :
    cs'.pace = cs.pace := by
  obtain ⟨s, idx, ds, as, _, _, _, _, rfl⟩ := preactHooks_eq h
  have hcount : ((cs.noted ds).cactusCount cfg cmd.rank idx clk).pace = cs.pace := by
    obtain ⟨m, hc | ⟨_, _, _, _, hc⟩⟩ := (cs.noted ds).cactusCount_eq cfg clk cmd.rank idx
    · rw [hc]
      rfl
    · rw [hc]
      rfl
  exact hcount

theorem Answer.pace {r? : Option Command} (h : Answer cfg cs cmd clk r? cs') : cs'.pace = cs.pace := by
  cases h with
  | wait | divert | allReady | single => rfl
  | needRFMsb | needRFMab => exact pace_needRFM _ _ _
  | eager _ _ h => exact pace_launchDRFM h
  | hydraWait h => exact pace_hydraCheck h
  | lazy _ hcheck hhook h =>
    exact (pace_launchDRFM h).trans ((pace_preactHooks hhook).trans (pace_hydraCheck hcheck))
  | activate _ hcheck hhook => exact (pace_preactHooks hhook).trans (pace_hydraCheck hcheck)

theorem pace_getReadyHydraCommand {r? : Option Command}
    (h : cs.getReadyHydraCommand cfg clk = .ok (r?, cs')) : cs'.pace = cs.pace := by
  obtain ⟨⟨_, _, _, rfl⟩, _⟩ := getReadyHydraCommand_eq h
  rfl

theorem pace_clockTick : (cs.clockTick cfg clk).pace = cs.pace :=
  clockTick_keeps pace (fun _ _ => pace_needRFM _ _ _) (fun _ _ => rfl) (fun _ => rfl)
    fun _ _ _ => rfl

theorem pace_dreamMitig : (cs.dreamMitig cfg).pace = cs.pace := by
  unfold dreamMitig
  split_ifs
  · rfl
  · split <;> rfl

theorem pace_abacusMitig : (cs.abacusMitig cfg).pace = cs.pace := by
  unfold abacusMitig
  split_ifs
  · rfl
  · split <;> rfl

theorem pace_dreamRefresh (reset : Bool) : (cs.dreamRefresh cfg reset).pace = cs.pace := by
  unfold dreamRefresh
  split_ifs <;> rfl

theorem pace_cactusRefresh (rank : ℤ) (reset : Bool) :
    (cs.cactusRefresh cfg rank reset).pace = cs.pace := by
  unfold cactusRefresh
  dsimp only
  split_ifs <;> rfl

theorem pace_abacusRefresh (reset : Bool) : (cs.abacusRefresh cfg reset).pace = cs.pace := by
  unfold abacusRefresh
  split_ifs <;> rfl

theorem pace_refreshTrackers : (cs.refreshTrackers cfg cmd).pace = cs.pace :=
  (pace_abacusRefresh _).trans ((pace_cactusRefresh _ _).trans (pace_dreamRefresh _))

/-- Refreshes count, in a way that depends on the counters alone. -/
def paceAfter (cfg : Config) (cmd : Command) (p : Pace) : Pace :=
  if cmd.cmdType = .refSb then
    { p with
      fgrCounter := (p.fgrCounter + 1) % (2 * cfg.banksPerGroup)
      refIdx := if (p.fgrCounter + 1) % (2 * cfg.banksPerGroup) = 0 then
        (p.refIdx + 1) % cfg.refchunks else p.refIdx }
  else if cmd.cmdType = .refAb then
    { p with
      fgrCounter := (p.fgrCounter + 1) % 2
      refIdx := if !cfg.fgr || (p.fgrCounter + 1) % 2 = 0 then (p.refIdx + 1) % cfg.refchunks
        else p.refIdx }
  else p

theorem pace_updateREFCounter (h : cs.updateREFCounter cfg cmd = .ok cs') :
    cs'.pace = paceAfter cfg cmd cs.pace := by
  unfold updateREFCounter at h
  unfold paceAfter
  by_cases hsb : cmd.cmdType = .refSb
  · rw [if_pos hsb] at h ⊢
    cases h
    rfl
  · rw [if_neg hsb] at h ⊢
    by_cases hab : cmd.cmdType = .refAb
    · rw [if_pos hab] at h ⊢
      cases h
      rfl
    · rw [if_neg hab] at h
      cases h

theorem paceAfter_of_ne (hsb : cmd.cmdType ≠ .refSb) (hab : cmd.cmdType ≠ .refAb) (p : Pace) :
    paceAfter cfg cmd p = p := by
  rw [paceAfter, if_neg hsb, if_neg hab]

theorem paceAfter_of_not_isRefresh (hcmd : cmd.isRefresh = false) (p : Pace) :
    paceAfter cfg cmd p = p := by
  apply paceAfter_of_ne
  · intro h
    simp [Command.isRefresh, h] at hcmd
  · intro h
    simp [Command.isRefresh, h] at hcmd

theorem pace_rankServed (h : cs.rankServed cfg cmd = .ok cs') :
    cs'.pace = paceAfter cfg cmd cs.pace := by
  unfold rankServed at h
  dsimp only at h
  split_ifs at h with hrfm _ href
  · obtain ⟨cs₁, h₁, h⟩ := bind_ok_iff.mp h
    cases h
    rw [paceAfter_of_not_isRefresh (not_isRefresh_of_isRFM hrfm)]
    exact (cactusOnly_cactusMitig h₁).pace.trans (pace_needRFM _ _ _)
  · cases h
    rw [paceAfter_of_not_isRefresh (not_isRefresh_of_isRFM hrfm)]
    exact pace_needRFM _ _ _
  · obtain ⟨cs₁, h₁, h⟩ := bind_ok_iff.mp h
    obtain ⟨cs₂, h₂, h⟩ := bind_ok_iff.mp h
    have hkeep : cs₂.pace = cs.pace := (cactusOnly_cactusTrefMaxMitig h₂).pace.trans
      ((cactusOnly_cactusTrefMitig h₁).pace.trans pace_refreshTrackers)
    rw [pace_updateREFCounter h, hkeep]
  all_goals
    rw [paceAfter_of_not_isRefresh (by simpa using href)]
    cases h
  · exact pace_abacusMitig.trans (pace_dreamMitig.trans (pace_needRFM _ _ _))
  · rfl
  · rfl
  · rfl

theorem pace_banksetServed (h : cs.banksetServed cfg cmd = .ok cs') :
    cs'.pace = paceAfter cfg cmd cs.pace := by
  unfold banksetServed at h
  split_ifs at h with hrfm hdrfm href
  · cases h
    rw [paceAfter_of_not_isRefresh (not_isRefresh_of_isRFM hrfm)]
    exact pace_needRFM _ _ _
  · cases h
    rw [paceAfter_of_not_isRefresh (not_isRefresh_of_isDRFM hdrfm)]
    exact pace_needRFM _ _ _
  · have hkeep : ((cs.banksetNeedRefresh cmd.rank cmd.bank false).refreshTrackers cfg cmd).pace =
        cs.pace := pace_refreshTrackers
    rw [pace_updateREFCounter h, hkeep]
  · cases h
    rw [paceAfter_of_not_isRefresh (by simpa using href)]

theorem pace_bankServed (hrank : cmd.isRankCMD = false) (hsb : cmd.isSbCMD = false) :
    (cs.bankServed cmd).pace = paceAfter cfg cmd cs.pace := by
  have hne : cmd.cmdType ≠ .refSb ∧ cmd.cmdType ≠ .refAb := by
    constructor
    · intro h
      simp [Command.isSbCMD, h] at hsb
    · intro h
      simp [Command.isRankCMD, h] at hrank
  rw [paceAfter_of_ne hne.1 hne.2]
  unfold bankServed
  split_ifs
  · rfl
  · exact pace_needRFM _ _ _
  · rfl

/-- An issued command moves the counters only as a refresh. -/
theorem pace_updateState (h : cs.updateState cfg cmd = .ok cs') :
    cs'.pace = paceAfter cfg cmd cs.pace := by
  obtain ⟨bs, _, ⟨_, h⟩ | ⟨_, _, h⟩ | ⟨hm, hs, rfl⟩⟩ := updateState_eq h
  · have hserved := pace_rankServed h
    exact hserved
  · have hserved := pace_banksetServed h
    exact hserved
  · exact pace_bankServed hm hs

/-- An activation enters the windows of its rank. -/
def paceActivated (cfg : Config) (rank : ℤ) (clk : ℕ) (p : Pace) : Pace :=
  { p with
    fourAw := Function.update p.fourAw rank
      (slide (p.fourAw rank) clk (addDelay clk cfg.tFAW))
    thirtyTwoAw :=
      if cfg.isGDDR then Function.update p.thirtyTwoAw rank
        (slide (p.thirtyTwoAw rank) clk (addDelay clk cfg.t32AW))
      else p.thirtyTwoAw }

theorem pace_updateActivationTimes (cfg : Config) (cs : ChannelState) (rank : ℤ) (clk : ℕ) :
    (cs.updateActivationTimes cfg rank clk).pace = paceActivated cfg rank clk cs.pace := by
  unfold updateActivationTimes paceActivated
  dsimp only
  split_ifs <;> rfl

theorem pace_triggerAlert (rank : ℤ) (banks : List BankId) :
    (cs.triggerAlert cfg rank banks clk).pace = cs.pace := by
  obtain ⟨a, t, es, heq, _⟩ : ∃ a t es, cs.triggerAlert cfg rank banks clk = _ ∧ _ :=
    triggerAlert_eq rank banks
  rw [heq]
  rfl

theorem pace_countAndAlert (h : cs.countAndAlert cfg cmd clk = .ok cs') : cs'.pace =
    if cmd.cmdType = .activate then paceActivated cfg cmd.rank clk cs.pace else cs.pace := by
  unfold countAndAlert at h
  split at h <;> rename_i hty
  · rw [if_pos hty]
    cases h
    exact (pace_triggerAlert _ _).trans (pace_updateActivationTimes cfg _ _ _)
  all_goals
    rw [if_neg (by simp [hty])]
    first
      | (cases h; done)
      | (cases h; exact pace_triggerAlert _ _)
      | (cases h; rfl)

/-- What an issued command does to windows and counters. -/
theorem pace_updateTimingAndStates {origin : Origin}
    (h : cs.updateTimingAndStates cfg cmd clk origin = .ok cs') : cs'.pace =
      if cmd.cmdType = .activate then paceActivated cfg cmd.rank clk cs.pace
      else paceAfter cfg cmd cs.pace := by
  obtain ⟨cs₁, h₁, h⟩ := bind_ok_iff.mp h
  obtain ⟨cs₂, h₂, h⟩ := bind_ok_iff.mp h
  have hstate := pace_updateState h₁
  have hcount := pace_countAndAlert h₂
  have htiming : cs'.pace = cs₂.pace := by
    obtain ⟨⟨bs, hbs⟩, _⟩ := applyTiming_eq cs₂ clk (timingUpdates cfg cmd)
    cases h
    rw [hbs]
    rfl
  rw [htiming, hcount, hstate]
  split_ifs with hty
  · rw [paceAfter_of_ne (by simp [hty]) (by simp [hty])]
    rfl
  · rfl

end ChannelState

/-- Between two issued commands the windows and counters stay as they are. -/
theorem Chan.Step.pace {cfg : Config} {π : Micro.Policy} {v v' : Chan} (h : Chan.Step cfg π v v') :
    v'.cs.pace = v.cs.pace ∧ v.clk ≤ v'.clk ∧
        (∃ extra, v'.cs.log = extra ++ v.cs.log ∧ ∀ e ∈ extra, e.isIssue = false) ∨
      ∃ p, v.ticket = some p ∧ v'.clk = v.clk ∧
        v.cs.updateTimingAndStates cfg p.cmd v.clk p.origin = .ok v'.cs := by
  cases h with
  | environment | drop => exact .inl ⟨rfl, le_rfl, [], rfl, by simp⟩
  | tock => exact .inl ⟨rfl, Nat.le_succ _, [], rfl, by simp⟩
  | requestRefresh => exact .inl ⟨rfl, le_rfl, [_], rfl, by simp [Event.isIssue]⟩
  | tick => exact .inl ⟨ChannelState.pace_clockTick, le_rfl, ChannelState.queried_clockTick.log⟩
  | query _ h => exact .inl ⟨h.pace, le_rfl, h.queried.log⟩
  | hydraQuery h =>
    exact .inl ⟨ChannelState.pace_getReadyHydraCommand h, le_rfl,
      (ChannelState.queried_getReadyHydraCommand h).log⟩
  | pick _ _ _ h => exact .inl ⟨h.pace, le_rfl, h.queried.log⟩
  | pickHydra _ h =>
    exact .inl ⟨ChannelState.pace_getReadyHydraCommand h, le_rfl,
      (ChannelState.queried_getReadyHydraCommand h).log⟩
  | issue h => exact .inr ⟨_, rfl, rfl, h⟩

end CactusDram
