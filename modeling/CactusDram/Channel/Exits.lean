import CactusDram.Channel.Issue

/-! How a query or an issued command can end the process: a tracker meets an unknown policy, or a
bank is in a state that does not allow the command. -/
namespace CactusDram
open Foundations

def Exit.IsAbrupt (e : Exit) : Prop := ∃ site, e = .abruptExit site

namespace BankState
variable {cfg : Config} {b : BankState} {cmd : Command} {e : Exit}

theorem updateState_error (h : b.updateState cfg cmd = .error e) : e.IsAbrupt := by
  unfold updateState at h
  dsimp only at h
  split at h <;> (try split at h) <;> cases h <;> exact ⟨_, rfl⟩

end BankState

namespace ChannelState
variable {cfg : Config} {cs cs' : ChannelState} {cmd : Command} {clk : ℕ} {e : Exit}

/-- The policies the trackers know. -/
structure KnownPolicies (cfg : Config) : Prop where
  cactus : cfg.cactusPolicy = 0 ∨ cfg.cactusPolicy = 1
  dream : cfg.dreamPolicy = 0 ∨ cfg.dreamPolicy = 1 ∨ cfg.dreamPolicy = 2
  drfm : cfg.drfmMode = 0 ∨ cfg.drfmMode = 1 ∨ cfg.drfmMode = 2 ∨ cfg.drfmMode = 3

/-- The exit of a tracker that meets a policy it does not know. -/
def UnknownPolicy (cfg : Config) (e : Exit) : Prop := e.IsAbrupt ∧ ¬KnownPolicies cfg

theorem getTuscIdx_error {i : BankId} {rowid : ℕ} (h : cs.getTuscIdx cfg i rowid = .error e) :
    UnknownPolicy cfg e := by
  unfold getTuscIdx at h
  split_ifs at h
  cases h
  exact ⟨⟨_, rfl⟩, fun hpol => by rcases hpol.dream with h | h | h <;> contradiction⟩

theorem getRowIdx_error {i : BankId} {idx row : ℕ} (h : cs.getRowIdx cfg i idx row = .error e) :
    UnknownPolicy cfg e := by
  unfold getRowIdx at h
  split_ifs at h
  cases h
  exact ⟨⟨_, rfl⟩, fun hpol => by rcases hpol.dream with h | h | h <;> contradiction⟩

theorem getCactusIdx_error {i : BankId} {rowid : ℕ} (h : cs.getCactusIdx cfg i rowid = .error e) :
    UnknownPolicy cfg e := by
  unfold getCactusIdx at h
  split_ifs at h
  cases h
  exact ⟨⟨_, rfl⟩, fun hpol => by rcases hpol.cactus with h | h <;> contradiction⟩

theorem getCactusRowIdx_error {i : BankId} {idx : ℕ} (h : cs.getCactusRowIdx cfg i idx = .error e) :
    UnknownPolicy cfg e := by
  unfold getCactusRowIdx at h
  dsimp only at h
  split_ifs at h
  cases h
  exact ⟨⟨_, rfl⟩, fun hpol => by rcases hpol.cactus with h | h <;> contradiction⟩

theorem dreamPreact_error {i : BankId} {rowid : ℕ} (h : cs.dreamPreact cfg i rowid = .error e) :
    UnknownPolicy cfg e := by
  rcases bind_error_iff.mp h with h | ⟨idx, _, h⟩
  · exact getTuscIdx_error h
  · dsimp only at h
    split_ifs at h
    rcases bind_error_iff.mp h with h | ⟨_, _, h⟩
    · obtain ⟨cs₁, j, _, h⟩ := foldlM_error h
      obtain ⟨cs₂, l, _, h⟩ := foldlM_error h
      rcases bind_error_iff.mp h with h | ⟨_, _, h⟩
      · exact getRowIdx_error h
      · cases h
    · cases h

theorem preactHooks_error (h : cs.preactHooks cfg cmd clk = .error e) : UnknownPolicy cfg e := by
  unfold preactHooks at h
  dsimp only at h
  rcases bind_error_iff.mp h with h | ⟨cs₁, _, h⟩
  · exact dreamPreact_error h
  · rcases bind_error_iff.mp h with h | ⟨cs₂, _, h⟩
    · rcases bind_error_iff.mp h with h | ⟨_, _, h⟩
      · exact getCactusIdx_error h
      · cases h
    · cases h

theorem cactusMitigCounter_error {rank : ℤ} {idx : ℕ}
    (h : cs.cactusMitigCounter cfg rank idx = .error e) : UnknownPolicy cfg e := by
  unfold cactusMitigCounter at h
  split_ifs at h
  rcases bind_error_iff.mp h with h | ⟨_, _, h⟩
  · obtain ⟨cs₁, i, _, h⟩ := foldlM_error h
    rcases bind_error_iff.mp h with h | ⟨_, _, h⟩
    · exact getCactusRowIdx_error h
    · cases h
  · cases h

theorem cactusMitig_error {rank : ℤ} (h : cs.cactusMitig cfg rank = .error e) :
    UnknownPolicy cfg e := by
  unfold cactusMitig at h
  split_ifs at h
  rcases bind_error_iff.mp h with h | ⟨_, _, h⟩
  · exact cactusMitigCounter_error h
  · cases h

theorem cactusTrefMitig_error {rank : ℤ} (h : cs.cactusTrefMitig cfg rank = .error e) :
    UnknownPolicy cfg e := by
  unfold cactusTrefMitig at h
  split_ifs at h
  rcases bind_error_iff.mp h with h | ⟨_, _, h⟩
  · exact cactusMitig_error h
  · cases h

theorem cactusTrefMaxMitig_error {rank : ℤ} (h : cs.cactusTrefMaxMitig cfg rank = .error e) :
    UnknownPolicy cfg e := by
  unfold cactusTrefMaxMitig at h
  dsimp only at h
  split_ifs at h
  rcases bind_error_iff.mp h with h | ⟨_, _, h⟩
  · exact cactusMitigCounter_error h
  · cases h

/-- A full sampler means that DRFM is on, so a known mode is launched. -/
theorem launchDRFM_error (hmode : cfg.drfmMode ≠ 0) (h : cs.launchDRFM cfg cmd = .error e) :
    UnknownPolicy cfg e := by
  unfold launchDRFM at h
  dsimp only at h
  split_ifs at h
  cases h
  exact ⟨⟨_, rfl⟩, fun hpol => by rcases hpol.drfm with h | h | h | h <;> contradiction⟩

theorem isSamplerFull_mode {b : BankState} (h : b.isSamplerFull cfg = true) : cfg.drfmMode ≠ 0 := by
  intro h0
  simp [BankState.isSamplerFull, h0] at h

theorem preactHooks_full_mode (h : cs.preactHooks cfg cmd clk = .ok (true, cs')) :
    cfg.drfmMode ≠ 0 := by
  unfold preactHooks at h
  dsimp only at h
  obtain ⟨cs₁, _, h⟩ := bind_ok_iff.mp h
  obtain ⟨cs₂, _, h⟩ := bind_ok_iff.mp h
  have hfull := congrArg Prod.fst (Except.ok.inj h)
  intro h0
  simp [BankState.isSamplerFull, h0] at hfull

theorem readyActivate_error {ready : Command} (h : cs.readyActivate cfg cmd ready clk = .error e) :
    UnknownPolicy cfg e := by
  unfold readyActivate at h
  dsimp only at h
  split_ifs at h with _ hfull
  · rcases bind_error_iff.mp h with h | ⟨_, _, h⟩
    · exact launchDRFM_error (isSamplerFull_mode hfull.2) h
    · cases h
  · rcases bind_error_iff.mp h with h | ⟨⟨full, cs₁⟩, hhook, h⟩
    · exact preactHooks_error h
    · simp only at h
      split_ifs at h with hlazy
      obtain ⟨_, rfl⟩ := hlazy
      rcases bind_error_iff.mp h with h | ⟨_, _, h⟩
      · exact launchDRFM_error (preactHooks_full_mode hhook) h
      · cases h

/-- A query fails at an unknown policy, or because a bank does not serve the request. -/
theorem getReadyCommand_error (h : cs.getReadyCommand cfg cmd clk = .error e) :
    UnknownPolicy cfg e ∨ ∃ i, (cs.bankStates i).requiredType cfg cmd = .error e := by
  unfold getReadyCommand at h
  split_ifs at h
  · rcases bind_error_iff.mp h with h | ⟨_, _, h⟩
    · obtain ⟨i, _, h⟩ := scanReady_error h
      exact .inr ⟨i, h⟩
    · cases h
  · rcases bind_error_iff.mp h with h | ⟨_, _, h⟩
    · obtain ⟨i, _, h⟩ := scanReady_error h
      exact .inr ⟨i, h⟩
    · cases h
  · rcases bind_error_iff.mp h with h | ⟨r?, _, h⟩
    · exact .inr ⟨_, BankState.getReadyCommand_error_iff.mp h⟩
    · cases r? with
      | none => cases h
      | some r =>
        simp only at h
        split at h
        · cases h
        · cases h
        · exact .inl (readyActivate_error h)
        · cases h

theorem updateREFCounter_ne_error (hcmd : cmd.isRefresh) (hm : cmd.isRankCMD ∨ cmd.isSbCMD) :
    cs.updateREFCounter cfg cmd ≠ .error e := by
  unfold updateREFCounter
  obtain ⟨ty, _, _⟩ := cmd
  cases ty <;> simp_all [Command.isRefresh, Command.isRankCMD, Command.isSbCMD]

theorem rankServed_error (hm : cmd.isRankCMD) (h : cs.rankServed cfg cmd = .error e) :
    UnknownPolicy cfg e := by
  unfold rankServed at h
  dsimp only at h
  split_ifs at h with _ _ href
  · rcases bind_error_iff.mp h with h | ⟨_, _, h⟩
    · exact cactusMitig_error h
    · cases h
  · rcases bind_error_iff.mp h with h | ⟨_, _, h⟩
    · exact cactusTrefMitig_error h
    · rcases bind_error_iff.mp h with h | ⟨_, _, h⟩
      · exact cactusTrefMaxMitig_error h
      · exact absurd h (updateREFCounter_ne_error href (.inl hm))

theorem banksetServed_ne_error (hm : cmd.isSbCMD) : cs.banksetServed cfg cmd ≠ .error e := by
  intro h
  unfold banksetServed at h
  split_ifs at h with _ _ href
  exact updateREFCounter_ne_error href (.inr hm) h

theorem countAndAlert_error (h : cs.countAndAlert cfg cmd clk = .error e) :
    cmd.cmdType = .size ∧ e.IsAbrupt := by
  unfold countAndAlert at h
  split at h <;> cases h
  exact ⟨‹_›, _, rfl⟩

/-- An issue fails at an unknown policy, at an unknown command, or because a bank cannot take the
command. -/
theorem updateTimingAndStates_error {origin : Origin}
    (h : cs.updateTimingAndStates cfg cmd clk origin = .error e) :
    UnknownPolicy cfg e ∨ (cmd.cmdType = .size ∧ e.IsAbrupt) ∨
      ∃ i ∈ covered cfg cmd, (cs.bankStates i).updateState cfg cmd = .error e := by
  rcases bind_error_iff.mp h with h | ⟨cs₁, _, h⟩
  · have hbanks (banks : List BankId) (hcov : covered cfg cmd = banks)
        (h : (cs.record (.issue cmd clk origin cs.bankStates)).updateBanks cfg cmd banks = .error e) :
        ∃ i ∈ covered cfg cmd, (cs.bankStates i).updateState cfg cmd = .error e := by
      rcases bind_error_iff.mp h with h | ⟨_, _, h⟩
      · rw [← hcov] at h
        exact updateEach_error (covered_nodup cfg cmd) h
      · cases h
    unfold updateState at h
    split_ifs at h with hrank hsb
    · rcases bind_error_iff.mp h with h | ⟨_, _, h⟩
      · exact .inr (.inr (hbanks _ (by simp [covered, hrank]) h))
      · exact .inl (rankServed_error hrank h)
    · rcases bind_error_iff.mp h with h | ⟨_, _, h⟩
      · exact .inr (.inr (hbanks _ (by simp [covered, hrank, hsb]) h))
      · exact absurd h (banksetServed_ne_error hsb)
    · rcases bind_error_iff.mp h with h | ⟨_, _, h⟩
      · exact .inr (.inr (hbanks _ (by simp [covered, hrank, hsb]) h))
      · cases h
  · rcases bind_error_iff.mp h with h | ⟨_, _, h⟩
    · exact .inr (.inl (countAndAlert_error h))
    · cases h

end ChannelState
end CactusDram
