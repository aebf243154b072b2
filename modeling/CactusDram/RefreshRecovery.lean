import CactusDram.TimingSoundness
import CactusDram.RefreshChunks

/-! The recovery time of a refreshed bank. -/
namespace CactusDram
open Foundations ChannelState

/-- After a refresh of its bank, an activation waits for the recovery time of that refresh. -/
def Event.Recovers (cfg : Config) (later earlier : Event) : Prop :=
  match later, earlier with
  | .issue cmd t _ _, .issue cmd' s _ _ =>
    cmd.cmdType = .activate → cmd.bankId ∈ covered cfg cmd' →
      (cmd'.cmdType = .refAb → (s : ℤ) + cfg.tRFC ≤ t) ∧
      (cmd'.cmdType = .refSb → (s : ℤ) + cfg.tRFCsb ≤ t) ∧
      (cmd'.cmdType = .refreshBank → (s : ℤ) + cfg.tRFCb ≤ t)
  | _, _ => True

instance (cfg : Config) (later earlier : Event) : Decidable (later.Recovers cfg earlier) := by
  unfold Event.Recovers
  split <;> infer_instance

/-- What `UpdateTiming` registers for the banks that a refresh of a rank or a bankset covers. -/
theorem ChannelState.mem_timingUpdates_refresh {cfg : Config} {cmd : Command} {i : BankId}
    (hi : i ∈ covered cfg cmd) :
    (cmd.cmdType = .refAb → (i, .activate, cfg.tRFC) ∈ timingUpdates cfg cmd) ∧
      (cmd.cmdType = .refSb → (i, .activate, cfg.tRFCsb) ∈ timingUpdates cfg cmd) := by
  constructor
  · intro hty
    have hcov : covered cfg cmd = cfg.rankBanks cmd.rank := if_pos (by simp [Command.isRankCMD, hty])
    unfold timingUpdates
    simp only [hty]
    exact mem_onBanks (hcov ▸ hi) (by simp [Config.timing, Config.sameRank])
  · intro hty
    have hcov : covered cfg cmd = cfg.banksetBanks cmd.rank cmd.bank := by
      rw [covered, if_neg (by simp [Command.isRankCMD, hty]), if_pos (by simp [Command.isSbCMD, hty])]
    unfold timingUpdates
    simp only [hty]
    exact List.mem_append_left _
      (mem_onBanks (hcov ▸ hi) (by simp [Config.timing, Config.sameBankset]))

namespace Chan
variable {cfg : Config} {π : Micro.Policy} {v v' : Chan}

/-- The deadlines that an issued command found are still in force. -/
def Remembered (cs : ChannelState) : Prop :=
  ∀ cmd s o found, .issue cmd s o found ∈ cs.log → ∀ i ty,
    (found i).cmdTiming ty ≤ (cs.cores i).cmdTiming ty

theorem Remembered.step (hv : Remembered v.cs) (h : Step cfg π v v') : Remembered v'.cs := by
  intro cmd s o found hmem i ty
  obtain ⟨hcores, _, extra, hlog, hextra⟩ | ⟨p, _, _, hi⟩ := h.cores
  · rw [hcores]
    rw [hlog, List.mem_append] at hmem
    obtain hmem | hmem := hmem
    · cases hextra _ hmem
    · exact hv cmd s o found hmem i ty
  · obtain ⟨extra, hlog, hextra⟩ := hi.log
    rw [hlog, List.mem_append, List.mem_cons] at hmem
    obtain hmem | hmem | hmem := hmem
    · cases hextra _ hmem
    · cases hmem
      exact hi.timing_mono i ty
    · exact (hv cmd s o found hmem i ty).trans (hi.timing_mono i ty)

/-- An issued command waits for the deadlines that an earlier one found on its banks. -/
def WaitsFor (cfg : Config) (later earlier : Event) : Prop :=
  match later, earlier with
  | .issue cmd t _ _, .issue _ _ _ found =>
    cmd.cmdType ≠ .preAb → cmd.cmdType ≠ .preSb → ∀ i ∈ covered cfg cmd,
      (found i).cmdTiming cmd.cmdType ≤ t
  | _, _ => True

structure Patient (cfg : Config) (v : Chan) : Prop where
  ready : Ready cfg v
  remembered : Remembered v.cs
  pairwise : v.cs.log.Pairwise (WaitsFor cfg)

theorem Patient.step (hen : cfg.enableSelfRefresh = false) (hmode : cfg.hydraMode ≠ 1)
    (hv : Patient cfg v) (h : Step cfg π v v') : Patient cfg v' := by
  refine ⟨hv.ready.step h, hv.remembered.step h, pairwise_step (fun e e' he => ?_) hv.pairwise h
    fun p cmd s o found hp hmem hab hsb i hi => ?_⟩
  · cases e <;> cases e' <;> simp_all [Event.isIssue, WaitsFor]
  · exact (hv.remembered cmd s o found hmem i _).trans
      ((hv.ready.ticket p hp).timing hen hmode hab hsb hi)

theorem patient_boot (boot : Boot cfg) : Patient cfg ⟨boot.channelState, 0, none, []⟩ :=
  ⟨ready_boot boot, fun _ _ _ _ h => (nomatch h), .nil⟩

end Chan

/-- Only the bank-level policy issues REFRESH_BANK. -/
theorem Micro.Reached.policy_of_refreshBank {cfg : Config} {π : Policy} {m : Micro}
    (h : Reached cfg π m) {cmd : Command} {s : ℕ} {o : Origin} {found : BankId → BankState}
    (hmem : .issue cmd s o found ∈ m.ctl.channelState.log) (hty : cmd.cmdType = .refreshBank) :
    cfg.refreshPolicy = .bankLevelStaggered := by
  have hissued : cmd ∈ m.ctl.channelState.refreshesIssued :=
    List.mem_filterMap.mpr ⟨_, List.mem_reverse.mpr hmem, by
      simp [Event.refreshIssue, Command.isRefresh, hty]⟩
  have hord : m.ctl.channelState.refreshRequests = _ := h.ordered.requests
  obtain ⟨hasks, _⟩ := h.asked.2 cmd (hord ▸ List.mem_append_left _ hissued)
  rw [hty] at hasks
  cases hpolicy : cfg.refreshPolicy <;> rw [hpolicy] at hasks <;> first | rfl | cases hasks

/-- The condition of a REFRESH_BANK: its bank must not be activated within the recovery time anyway. -/
def Event.FindsRecovery (cfg : Config) : Event → Prop
  | .issue cmd s _ found => cmd.cmdType = .refreshBank →
    (s : ℤ) + cfg.tRFCb ≤ (found cmd.bankId).cmdTiming .activate
  | _ => True

/-- After a REFab or REFsb the banks it covers are not activated within its recovery time. For a
REFRESH_BANK this holds when the bank already had to wait for that long: `UpdateTiming` looks its
delays up in `same_bank`, and they are in `same_rank`. -/
theorem refresh_recovery_protects (cfg : Config) (hmode : cfg.hydraMode = 0)
    (hen : cfg.enableSelfRefresh = false) (c : Controller) (h : Reachable cfg c)
    (hfinds : cfg.refreshPolicy ≠ .bankLevelStaggered ∨
      ∀ e ∈ c.channelState.log, e.FindsRecovery cfg) :
    c.channelState.log.Pairwise (Event.Recovers cfg) := by
  have hne : cfg.hydraMode ≠ 1 := by omega
  have hr := Micro.reached_of_reachable h
  have hwaits := (hr.chan_induct (P := Chan.Patient cfg) Chan.patient_boot fun _ _ hv hs =>
    hv.step hen hne hs).pairwise
  have hrespects := (hr.chan_induct (P := Chan.Timely cfg) Chan.timely_boot fun _ _ hv hs =>
    hv.step hen hne hs).pairwise
  refine (hwaits.and hrespects).imp_of_mem fun {later earlier} _ hmem hpair => ?_
  obtain ⟨hwait, hrespect⟩ := hpair
  cases later with
  | issue cmd t o f =>
    cases earlier with
    | issue cmd' s o' found =>
      intro hty hcov
      have hone : covered cfg cmd = [cmd.bankId] :=
        Chan.covered_single (by simp [Command.isRankCMD, hty]) (by simp [Command.isSbCMD, hty])
      have hself : cmd.bankId ∈ covered cfg cmd := hone ▸ List.mem_singleton_self _
      have hdelay := hrespect (by simp [hty]) (by simp [hty]) cmd.bankId hself
      obtain ⟨hab, hsb⟩ := mem_timingUpdates_refresh hcov
      rw [hty] at hdelay
      refine ⟨fun hty' => hdelay _ (hab hty'), fun hty' => hdelay _ (hsb hty'), fun hty' => ?_⟩
      obtain hpolicy | hfinds := hfinds
      · exact absurd (hr.policy_of_refreshBank hmem hty') hpolicy
      · have hone' : covered cfg cmd' = [cmd'.bankId] :=
          Chan.covered_single (by simp [Command.isRankCMD, hty']) (by simp [Command.isSbCMD, hty'])
        have hbank : cmd.bankId = cmd'.bankId := List.mem_singleton.mp (hone' ▸ hcov)
        have hfound : (s : ℤ) + cfg.tRFCb ≤ (found cmd'.bankId).cmdTiming .activate :=
          hfinds _ hmem hty'
        have hle := hwait (by simp [hty]) (by simp [hty]) cmd.bankId hself
        rw [hty, hbank] at hle
        omega
    | _ => trivial
  | _ => trivial

/-- Rank-level refresh with a recovery time of five cycles. -/
def rankRecovery : Config :=
  { smallConfig with refreshPolicy := .rankLevelStaggered, tREFI := 8, tRFC := 5 }

/-- A read that arrives with the refresh. -/
def refreshedRead : List Input := List.replicate 8 .clockTick ++ Input.request 0 false 6

theorem refresh_recovery_protects_small : ∃ c,
    Controller.run rankRecovery ({} : Boot rankRecovery).controller refreshedRead = .ok c ∧
    c.channelState.log.filterMap Event.issued? = [(.activate, ⟨0, 0, 0⟩, 13), (.refAb, ⟨0, -1, -1⟩, 8)] ∧
    c.channelState.log.Pairwise (Event.Recovers rankRecovery) := by
  obtain ⟨c, hrun, hc⟩ := exists_ok_of_any
    (x := Controller.run rankRecovery ({} : Boot rankRecovery).controller refreshedRead)
    (p := fun c => c.channelState.log.filterMap Event.issued? =
      [(.activate, ⟨0, 0, 0⟩, 13), (.refAb, ⟨0, -1, -1⟩, 8)]) (by decide +kernel)
  exact ⟨c, hrun, of_decide_eq_true hc, refresh_recovery_protects rankRecovery rfl rfl c
    ⟨{}, refreshedRead, hrun⟩ (.inl (by decide))⟩

/-- Bank-level refresh with a recovery time of ten cycles. -/
def bankRecovery : Config :=
  { smallConfig with refreshPolicy := .bankLevelStaggered, tREFIb := 8, tRFCb := 10 }

/-- Bank 0 is refreshed at cycle 8 and activated at cycle 9. -/
theorem refreshed_bank_activated : ∃ c,
    Controller.run bankRecovery ({} : Boot bankRecovery).controller refreshedRead = .ok c ∧
    c.channelState.log.filterMap Event.issued? =
      [(.read, ⟨0, 0, 0⟩, 10), (.activate, ⟨0, 0, 0⟩, 9), (.refreshBank, ⟨0, 0, 0⟩, 8)] ∧
    ¬c.channelState.log.Pairwise (Event.Recovers bankRecovery) := by
  obtain ⟨c, hrun, hc⟩ := exists_ok_of_any
    (x := Controller.run bankRecovery ({} : Boot bankRecovery).controller refreshedRead)
    (p := fun c => c.channelState.log.filterMap Event.issued? =
      [(.read, ⟨0, 0, 0⟩, 10), (.activate, ⟨0, 0, 0⟩, 9), (.refreshBank, ⟨0, 0, 0⟩, 8)] ∧
      ¬c.channelState.log.Pairwise (Event.Recovers bankRecovery)) (by decide +kernel)
  exact ⟨c, hrun, of_decide_eq_true hc⟩

end CactusDram
