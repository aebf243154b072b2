import CactusDram.Channel.Banks
import CactusDram.Run

/-! The banks that a same-bank command acts on, and the delays each of them receives. -/
namespace CactusDram
open Foundations

namespace BankState
variable {b : BankState} {clk : ℕ}

/-- A bank after delays were registered with it, in order. -/
def registered (b : BankState) (clk : ℕ) (delays : List (CommandType × ℤ)) : BankState :=
  delays.foldl (fun b d => b.updateTiming d.1 (addDelay clk d.2)) b

@[simp] theorem registered_nil : b.registered clk [] = b := rfl

theorem registered_cons (d : CommandType × ℤ) (delays : List (CommandType × ℤ)) :
    b.registered clk (d :: delays) = (b.updateTiming d.1 (addDelay clk d.2)).registered clk delays := rfl

/-- A delay that has passed anyway changes nothing. -/
theorem updateTiming_eq_self_iff {ty : CommandType} {time : ℕ} :
    b.updateTiming ty time = b ↔ time ≤ b.cmdTiming ty := by
  constructor
  · intro h
    have htiming := congrFun (congrArg (fun b : BankState => b.cmdTiming) h) ty
    simp only [updateTiming, Function.update_self] at htiming
    omega
  · intro h
    unfold updateTiming
    rw [max_eq_left h, Function.update_eq_self]

end BankState

namespace ChannelState
variable {cfg : Config} {cs cs' : ChannelState} {cmd : Command} {clk : ℕ} {i : BankId}

/-- The delays that a list of registrations holds for one bank. -/
def delaysOf (i : BankId) (updates : List TimingUpdate) : List (CommandType × ℤ) :=
  (updates.filter fun u => u.1 = i).map (·.2)

theorem delaysOf_append (i : BankId) (us vs : List TimingUpdate) :
    delaysOf i (us ++ vs) = delaysOf i us ++ delaysOf i vs := by
  simp [delaysOf]

theorem delaysOf_onBanks {banks : List BankId} (hnodup : banks.Nodup)
    (delays : List (CommandType × ℤ)) :
    delaysOf i (onBanks banks delays) = if i ∈ banks then delays else [] := by
  induction banks with
  | nil => rfl
  | cons j banks ih =>
    obtain ⟨hj, hnodup⟩ := List.nodup_cons.mp hnodup
    have hcons : onBanks (j :: banks) delays =
        delays.map (fun d => (j, d.1, d.2)) ++ onBanks banks delays := rfl
    rw [hcons, delaysOf_append, ih hnodup]
    by_cases hij : i = j
    · subst hij
      rw [if_neg hj, if_pos List.mem_cons_self, List.append_nil, delaysOf, List.filter_eq_self.mpr]
      · simp
      · intro u hu
        obtain ⟨d, _, rfl⟩ := List.mem_map.mp hu
        exact decide_eq_true rfl
    · have hnone : delaysOf i (delays.map fun d => (j, d.1, d.2)) = [] := by
        rw [delaysOf, List.filter_eq_nil_iff.mpr]
        · rfl
        · intro u hu
          obtain ⟨d, _, rfl⟩ := List.mem_map.mp hu
          simp [Ne.symm hij]
      rw [hnone, List.nil_append]
      simp [hij]

/-- Registrations act on each bank by its own delays. -/
theorem bankStates_applyTiming (cs : ChannelState) (clk : ℕ) (updates : List TimingUpdate) :
    (cs.applyTiming updates clk).bankStates i =
      (cs.bankStates i).registered clk (delaysOf i updates) := by
  induction updates generalizing cs with
  | nil => rfl
  | cons u updates ih =>
    have hcons : cs.applyTiming (u :: updates) clk =
        (cs.modifyBank u.1 fun b => b.updateTiming u.2.1 (addDelay clk u.2.2)).applyTiming
          updates clk := rfl
    rw [hcons, ih]
    by_cases hu : u.1 = i
    · subst hu
      simp [delaysOf, modifyBank, BankState.registered_cons]
    · have hne : i ≠ u.1 := fun h => hu h.symm
      simp [delaysOf, modifyBank, hu, hne]

theorem banksetServed_bankStates (h : cs.banksetServed cfg cmd = .ok cs') :
    cs'.bankStates = cs.bankStates := by
  unfold banksetServed at h
  split_ifs at h
  · cases h; rfl
  · cases h; rfl
  · unfold updateREFCounter at h
    split_ifs at h <;> cases h <;> exact refreshTrackers_bankStates
  · cases h; rfl

/-- A refresh, RFM or DRFM of a bankset. -/
def IsBankset (cmd : Command) : Prop :=
  cmd.cmdType = .refSb ∨ cmd.cmdType = .rfmSb ∨ cmd.cmdType = .drfmSb

/-- Every bank after a same-bank command: the banks of its bankset have seen it and its first
delays, those of another index in any rank have received the others. -/
theorem banksetCommand_bank (hcmd : IsBankset cmd) {origin : Origin}
    (h : cs.updateTimingAndStates cfg cmd clk origin = .ok cs') :
    ∃ bs : BankId → BankState, (∀ i ∈ cfg.banksetBanks cmd.rank cmd.bank,
        (cs.bankStates i).updateState cfg cmd = .ok (bs i)) ∧
      (∀ i ∉ cfg.banksetBanks cmd.rank cmd.bank, bs i = cs.bankStates i) ∧
      ∀ i, cs'.bankStates i = (bs i).registered clk
        ((if i ∈ cfg.banksetBanks cmd.rank cmd.bank then cfg.sameBankset cmd.cmdType else []) ++
          if i ∈ cfg.allBanks ∧ i.bank ≠ cmd.bank then cfg.otherBanksets cmd.cmdType else []) := by
  have hsb : cmd.isSbCMD := by
    obtain h | h | h := hcmd <;> simp [Command.isSbCMD, h]
  have hrank : cmd.isRankCMD = false := by
    obtain h | h | h := hcmd <;> simp [Command.isRankCMD, h]
  have hcovered : covered cfg cmd = cfg.banksetBanks cmd.rank cmd.bank := by
    simp [covered, hsb, hrank]
  have hupdates : timingUpdates cfg cmd =
      updateSameBankset cfg cmd.addr (cfg.sameBankset cmd.cmdType) ++
        updateOtherBanksets cfg cmd.addr (cfg.otherBanksets cmd.cmdType) := by
    unfold timingUpdates
    obtain h | h | h := hcmd <;> rw [h] <;> rfl
  obtain ⟨cs₁, h₁, h⟩ := bind_ok_iff.mp h
  obtain ⟨cs₂, h₂, h⟩ := bind_ok_iff.mp h
  cases h
  obtain ⟨bs, hbs, ⟨hm, _⟩ | ⟨_, _, hserved⟩ | ⟨_, hs, _⟩⟩ := updateState_eq h₁
  · simp [hrank] at hm
  · obtain ⟨hin, hout⟩ := (updateEach_ok_iff (covered_nodup cfg cmd)).mp hbs
    rw [hcovered] at hin hout
    refine ⟨bs, hin, hout, fun i => ?_⟩
    obtain ⟨_, _, _, _, _, _, rfl, _⟩ := countAndAlert_eq h₂
    rw [bankStates_applyTiming, hupdates, delaysOf_append, updateSameBankset, updateOtherBanksets,
      delaysOf_onBanks (cfg.banksetBanks_nodup _ _), delaysOf_onBanks (cfg.allBanks_nodup.filter _)]
    simp only [banksetServed_bankStates hserved, List.mem_filter, decide_eq_true_eq]
    rfl
  · simp [hsb] at hs

end ChannelState

/-- What a same-bank command may do: the banks of the other ranks stay as they are; in its own rank
the banks of the bankset are updated and receive the delays of `same_bankset`, the other banks
receive those of `other_banksets`. -/
structure StaysInRank (cfg : Config) (cmd : Command) (clk : ℕ) (cs cs' : ChannelState) : Prop where
  otherRanks : ∀ i ∈ cfg.allBanks, i.rank ≠ cmd.rank → cs'.bankStates i = cs.bankStates i
  bankset : ∀ i ∈ cfg.allBanks, i.rank = cmd.rank → i.bank = cmd.bank →
    ∃ b, (cs.bankStates i).updateState cfg cmd = .ok b ∧
      cs'.bankStates i = b.registered clk (cfg.sameBankset cmd.cmdType)
  otherBanksets : ∀ i ∈ cfg.allBanks, i.rank = cmd.rank → i.bank ≠ cmd.bank →
    cs'.bankStates i = (cs.bankStates i).registered clk (cfg.otherBanksets cmd.cmdType)

/-- A same-bank command keeps to its rank exactly if it is no REFsb, or the banks of another index in
the other ranks may not be activated before tREFSBRD has passed anyway. -/
theorem bankset_command_scope (cfg : Config) (cs cs' : ChannelState) (cmd : Command)
    (hcmd : cmd.cmdType = .refSb ∨ cmd.cmdType = .rfmSb ∨ cmd.cmdType = .drfmSb) (clk : ℕ)
    (origin : Origin) (h : cs.updateTimingAndStates cfg cmd clk origin = .ok cs') :
    StaysInRank cfg cmd clk cs cs' ↔
      (cmd.cmdType = .refSb → ∀ i ∈ cfg.allBanks, i.rank ≠ cmd.rank → i.bank ≠ cmd.bank →
        addDelay clk cfg.tREFSBRD ≤ (cs.bankStates i).cmdTiming .activate) := by
  obtain ⟨bs, hin, hout, hbank⟩ := ChannelState.banksetCommand_bank hcmd h
  have hmem {i : BankId} (hi : i ∈ cfg.allBanks) :
      i ∈ cfg.banksetBanks cmd.rank cmd.bank ↔ i.rank = cmd.rank ∧ i.bank = cmd.bank := by
    rw [Config.mem_banksetBanks]
    exact ⟨fun h => ⟨h.1, h.2.2⟩, fun h => ⟨h.1, (cfg.mem_allBanks.mp hi).2.1, h.2⟩⟩
  constructor
  · intro hstays hty i hi hrank hne
    have hsame := hstays.otherRanks i hi hrank
    have hnot : i ∉ cfg.banksetBanks cmd.rank cmd.bank := fun hb => hrank ((hmem hi).mp hb).1
    rw [hbank i, hout i hnot, if_neg hnot, if_pos ⟨hi, hne⟩, hty, List.nil_append] at hsame
    exact BankState.updateTiming_eq_self_iff.mp hsame
  · intro hcond
    refine ⟨fun i hi hrank => ?_, fun i hi hrank hk => ?_, fun i hi hrank hne => ?_⟩
    · have hnot : i ∉ cfg.banksetBanks cmd.rank cmd.bank := fun hb => hrank ((hmem hi).mp hb).1
      rw [hbank i, hout i hnot, if_neg hnot, List.nil_append]
      by_cases hne : i.bank = cmd.bank
      · rw [if_neg (by simp [hne]), BankState.registered_nil]
      · rw [if_pos ⟨hi, hne⟩]
        obtain hty | hty | hty := hcmd
        · rw [hty]
          exact BankState.updateTiming_eq_self_iff.mpr (hcond hty i hi hrank hne)
        · rw [hty]
          rfl
        · rw [hty]
          rfl
    · have hmem' := (hmem hi).mpr ⟨hrank, hk⟩
      refine ⟨bs i, hin i hmem', ?_⟩
      rw [hbank i, if_pos hmem', if_neg (by simp [hk]), List.append_nil]
    · have hnot : i ∉ cfg.banksetBanks cmd.rank cmd.bank := fun hb => hne ((hmem hi).mp hb).2
      rw [hbank i, hout i hnot, if_neg hnot, if_pos ⟨hi, hne⟩, List.nil_append]

/-- A REFsb of bank 0 of rank 0. -/
def firstRefSb : Command := ChannelState.request .refSb 0 (-1) 0

theorem bankset_command_scope_small : ∃ cs',
    ({} : Boot smallConfig).channelState.updateTimingAndStates smallConfig firstRefSb 8
      (.refresh firstRefSb) = .ok cs' ∧
    StaysInRank smallConfig firstRefSb 8 ({} : Boot smallConfig).channelState cs' := by
  obtain ⟨cs', hok, _⟩ := exists_ok_of_any
    (x := ({} : Boot smallConfig).channelState.updateTimingAndStates smallConfig firstRefSb 8
      (.refresh firstRefSb)) (p := fun _ => true) (by decide +kernel)
  refine ⟨cs', hok, (bankset_command_scope smallConfig _ cs' firstRefSb (.inl rfl) 8 _ hok).mpr ?_⟩
  intro _ i hi hrank
  obtain ⟨⟨r, hr, hir⟩, _⟩ := smallConfig.mem_allBanks.mp hi
  have hone : smallConfig.ranks = 1 := rfl
  have hzero : firstRefSb.rank = 0 := rfl
  omega

/-- Two ranks of two banks. -/
def rankPair : Config :=
  { smallConfig with
    ranks := 2, ranks_pos := smallConfig.banksPerGroup_pos, rows_lt := twice_smallConfig_rows_lt
    tREFSBRD := 5 }

/-- A REFsb of rank 0 holds back the activations of rank 1. -/
theorem bankset_command_leaves_rank : ∃ cs',
    ({} : Boot rankPair).channelState.updateTimingAndStates rankPair firstRefSb 8
      (.refresh firstRefSb) = .ok cs' ∧
    (({} : Boot rankPair).channelState.bankStates ⟨1, 0, 1⟩).cmdTiming .activate = 0 ∧
    (cs'.bankStates ⟨1, 0, 1⟩).cmdTiming .activate = 13 ∧
    ¬StaysInRank rankPair firstRefSb 8 ({} : Boot rankPair).channelState cs' := by
  obtain ⟨cs', hok, hcs⟩ := exists_ok_of_any
    (x := ({} : Boot rankPair).channelState.updateTimingAndStates rankPair firstRefSb 8
      (.refresh firstRefSb))
    (p := fun cs => (cs.bankStates ⟨1, 0, 1⟩).cmdTiming .activate = 13) (by decide +kernel)
  have htiming := of_decide_eq_true hcs
  refine ⟨cs', hok, rfl, htiming, fun hstays => ?_⟩
  have hsame := hstays.otherRanks ⟨1, 0, 1⟩ (by decide) (by decide)
  rw [hsame] at htiming
  cases htiming

end CactusDram
