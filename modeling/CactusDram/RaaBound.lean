import CactusDram.Channel.Banks
import CactusDram.TimingSoundness

/-! The rolling activation count of a bank. Activations stop at the RFM threshold, and refreshes and
RFMs never credit more than was counted. -/
namespace CactusDram
open Foundations ChannelState

/-- The count at which a bank waits for an RFM. -/
def Config.rfmTh (cfg : Config) : ℤ := if cfg.rfmPolicy ≠ 0 then cfg.raammt else cfg.raaimt

namespace BankState
variable {cfg : Config} {b b' : BankState} {cmd : Command}

/-- The count is within its bounds. -/
def Counted (cfg : Config) (b : BankState) : Prop := 0 ≤ b.raaCtr ∧ b.raaCtr ≤ cfg.rfmTh

/-- A bank asks for an activation below the threshold only. -/
theorem raaCtr_lt_of_requires_activate (hmode : cfg.rfmMode = 1 ∨ cfg.rfmMode = 2)
    (h : b.requiredType cfg cmd = .ok (some .activate)) : b.raaCtr < cfg.rfmTh := by
  have hrw := isReadWrite_of_requires_activate h
  obtain ⟨ty, addr, hex⟩ := cmd
  by_contra hge
  rw [not_lt, Config.rfmTh] at hge
  unfold requiredType at h
  dsimp only at h
  cases hs : b.state <;> rw [hs] at h <;> cases ty <;>
    simp_all [Command.isReadWrite, Command.isRead, Command.isWrite] <;> grind

/-- The credit a bank receives is at most its count. -/
theorem counted_credit {d : ℤ} (hd : 0 ≤ d) (h : b.Counted cfg)
    (h' : b'.raaCtr = b.raaCtr - min b.raaCtr d) : b'.Counted cfg := by
  unfold Counted at h ⊢
  omega

theorem rfmSbServed_raaCtr : (b.rfmSbServed cfg).raaCtr = b.raaCtr - min b.raaCtr cfg.rfmRaaDecrement :=
  rfl

theorem rfmAbServed_raaCtr :
    (b.rfmAbServed cfg).raaCtr = b.raaCtr - min b.raaCtr cfg.rfmRaaDecrement := by
  obtain ⟨_, _, h⟩ := b.moatMitig_eq cfg
  rw [rfmAbServed, h]
  rfl

theorem drfmServed_raaCtr :
    (b.drfmServed cfg).raaCtr = b.raaCtr - min b.raaCtr cfg.rfmRaaDecrement := by
  unfold drfmServed
  dsimp only
  rw [rfmAbServed_raaCtr]
  dsimp only
  rw [trackersMitig_core]

theorem refreshed_raaCtr :
    (b.refreshed cfg).raaCtr = b.raaCtr - min b.raaCtr cfg.refRaaDecrement := by
  have hmoat (b : BankState) : (b.moatRefresh cfg).raaCtr = b.raaCtr := by
    unfold moatRefresh
    split_ifs <;> rfl
  have hprac (b : BankState) : (b.pracRefresh cfg).raaCtr = b.raaCtr := rfl
  unfold refreshed
  dsimp only
  split_ifs
  · rw [hprac, hmoat, hydraRefresh_core, grapheneRefresh_core]
  · rfl

theorem activated_raaCtr : (b.activated cfg cmd).raaCtr = b.raaCtr + 1 := by
  unfold activated moatAct drfmPostAct
  dsimp only
  split_ifs <;> dsimp only <;> split <;> rfl

/-- A legal command keeps the count within its bounds, if an activation finds it below the
threshold. -/
theorem Counted.updateState (href : 0 ≤ cfg.refRaaDecrement) (hrfm : 0 ≤ cfg.rfmRaaDecrement)
    (hb : b.Counted cfg) (hact : cmd.cmdType = .activate → b.raaCtr < cfg.rfmTh)
    (h : b.updateState cfg cmd = .ok b') : b'.Counted cfg := by
  obtain ⟨ty, addr, hex⟩ := cmd
  unfold BankState.updateState at h
  dsimp only at h
  cases hs : b.state with
  | «open» =>
    rw [hs] at h
    cases ty <;> cases h <;> exact hb
  | closed =>
    rw [hs] at h
    cases ty with
    | refSb | refreshBank | refAb =>
      cases h
      exact counted_credit href hb refreshed_raaCtr
    | drfmB | drfmSb | drfmAb =>
      cases h
      exact counted_credit hrfm hb drfmServed_raaCtr
    | rfmAb =>
      cases h
      exact counted_credit hrfm hb rfmAbServed_raaCtr
    | rfmSb =>
      cases h
      exact counted_credit hrfm hb rfmSbServed_raaCtr
    | activate =>
      cases h
      have hlt := hact rfl
      unfold Counted at hb ⊢
      rw [activated_raaCtr]
      dsimp only
      omega
    | _ => cases h <;> exact hb
  | sref =>
    rw [hs] at h
    cases ty <;> cases h
    exact hb
  | pd | size =>
    rw [hs] at h
    cases h

end BankState

/-- What an issued command finds: every count within its bounds, and an activation finds its own
below the threshold. -/
def Event.RaaSafe (cfg : Config) : Event → Prop
  | .issue cmd _ _ found => (∀ i, (found i).Counted cfg) ∧
      (cmd.cmdType = .activate → (found cmd.bankId).raaCtr < cfg.rfmTh)
  | _ => True

theorem Event.raaSafe_of_isIssue {cfg : Config} {e : Event} (h : e.isIssue = false) : e.RaaSafe cfg := by
  cases e with
  | issue => cases h
  | _ => trivial

namespace Chan
variable {cfg : Config}

/-- Every count is within its bounds, now and at every issued command, and the chosen activation is
below the threshold. -/
structure RaaSafe (cfg : Config) (v : Chan) : Prop where
  counted : ∀ i, (v.cs.bankStates i).Counted cfg
  ticket : ∀ p, v.ticket = some p → p.cmd.cmdType = .activate →
    (v.cs.bankStates p.cmd.bankId).raaCtr < cfg.rfmTh
  log : ∀ e ∈ v.cs.log, e.RaaSafe cfg

theorem raaSafe_boot (hth : 1 ≤ cfg.rfmTh) (boot : Boot cfg) :
    RaaSafe cfg ⟨boot.channelState, 0, none, []⟩ := by
  refine ⟨fun i => ?_, fun p hp => (nomatch hp), fun e he => (nomatch he)⟩
  change 0 ≤ (0 : ℤ) ∧ (0 : ℤ) ≤ cfg.rfmTh
  omega

theorem RaaSafe.issue (href : 0 ≤ cfg.refRaaDecrement) (hrfm : 0 ≤ cfg.rfmRaaDecrement) {v : Chan}
    {cs' : ChannelState} {p : Pick} (hv : RaaSafe cfg v) (hp : v.ticket = some p)
    (h : v.cs.updateTimingAndStates cfg p.cmd v.clk p.origin = .ok cs') (i : BankId) :
    (cs'.bankStates i).Counted cfg := by
  obtain ⟨b, hin, hout, hleft⟩ := updateTimingAndStates_banks h i
  have hb : b.Counted cfg := by
    by_cases hi : i ∈ covered cfg p.cmd
    · refine (hv.counted i).updateState href hrfm (fun hact => ?_) (hin hi)
      have hcov : covered cfg p.cmd = [p.cmd.bankId] :=
        covered_single (by simp [Command.isRankCMD, hact]) (by simp [Command.isSbCMD, hact])
      rw [hcov, List.mem_singleton] at hi
      subst hi
      exact hv.ticket p hp hact
    · rw [hout hi]
      exact hv.counted i
  obtain ⟨_, _, _, heq⟩ := hleft.eq
  rw [heq]
  exact hb

theorem RaaSafe.step (hmode : cfg.rfmMode = 1 ∨ cfg.rfmMode = 2) (href : 0 ≤ cfg.refRaaDecrement)
    (hrfm : 0 ≤ cfg.rfmRaaDecrement) {π : Micro.Policy} {v v' : Chan} (hv : RaaSafe cfg v)
    (h : Step cfg π v v') : RaaSafe cfg v' := by
  have hlog : ∀ e ∈ v'.cs.log, e.RaaSafe cfg := by
    intro e he
    rcases h.log_mem he with hold | hno | ⟨p, hp, _, rfl⟩
    · exact hv.log e hold
    · exact Event.raaSafe_of_isIssue hno
    · exact ⟨hv.counted, hv.ticket p hp⟩
  have hticket : ∀ p, v'.ticket = some p → p.cmd.cmdType = .activate →
      (v.cs.bankStates p.cmd.bankId).raaCtr < cfg.rfmTh := by
    intro p hp hact
    obtain ⟨cmd, heq, hreq⟩ := h.requires_activate hp hact
    rw [heq]
    exact BankState.raaCtr_lt_of_requires_activate hmode hreq
  rcases h.cores_or_issue with ⟨hcores, _⟩ | ⟨p, hp, hissue⟩
  · have hraa (i : BankId) : (v'.cs.bankStates i).raaCtr = (v.cs.bankStates i).raaCtr :=
      congrArg BankCore.raaCtr (hcores i)
    refine ⟨fun i => ?_, fun p hp hact => ?_, hlog⟩
    · rw [BankState.Counted, hraa]
      exact hv.counted i
    · rw [hraa]
      exact hticket p hp hact
  · refine ⟨hv.issue href hrfm hp hissue, fun p' hp' => ?_, hlog⟩
    cases h <;> cases hp <;> cases hp'

end Chan

/-- In every run of a channel with RFM, the rolling count of every bank lies between zero and the RFM
threshold, also in front of every issued command; no activation is issued to a bank whose count has
reached the threshold. -/
theorem raa_counter_bounded (cfg : Config) (hmode : cfg.rfmMode = 1 ∨ cfg.rfmMode = 2)
    (hth : 1 ≤ cfg.rfmTh) (href : 0 ≤ cfg.refRaaDecrement) (hrfm : 0 ≤ cfg.rfmRaaDecrement)
    (c : Controller) (hc : Reachable cfg c) :
    (∀ i, (c.channelState.bankStates i).Counted cfg) ∧
      ∀ cmd clk origin found, .issue cmd clk origin found ∈ c.channelState.log →
        (∀ i, (found i).Counted cfg) ∧
          (cmd.cmdType = .activate → (found cmd.bankId).raaCtr < cfg.rfmTh) := by
  have hv : Chan.RaaSafe cfg (Micro.rest c).chan :=
    (Micro.reached_of_reachable hc).chan_induct (P := Chan.RaaSafe cfg) (Chan.raaSafe_boot hth)
      fun _ _ hv hs => hv.step hmode href hrfm hs
  exact ⟨hv.counted, fun cmd clk origin found he => hv.log _ he⟩

/-- Every activation of a bank needs an RFM of its rank before the next one. -/
def raaConfig : Config := { smallConfig with rfmMode := 2, raammt := 1, rfmRaaDecrement := 1 }

theorem raa_counter_bounded_small : ∃ c, Reachable raaConfig c ∧
    (c.channelState.log.countP fun
      | .issue cmd _ _ _ => cmd.isRFM
      | _ => false) = 1 ∧
    (c.channelState.bankStates ⟨0, 0, 0⟩).raaCtr = 1 ∧
    (c.channelState.bankStates ⟨0, 0, 0⟩).Counted raaConfig := by
  obtain ⟨c, hrun, hc⟩ := exists_ok_of_any
    (x := Controller.run raaConfig ({} : Boot raaConfig).controller
      (Input.request 0 false 5 ++ Input.request 2 false 9))
    (p := fun c => (c.channelState.log.countP fun
        | .issue cmd _ _ _ => cmd.isRFM
        | _ => false) = 1 ∧ (c.channelState.bankStates ⟨0, 0, 0⟩).raaCtr = 1) (by decide +kernel)
  obtain ⟨hrfm, hraa⟩ := of_decide_eq_true hc
  have hr : Reachable raaConfig c := ⟨{}, _, hrun⟩
  exact ⟨c, hr, hrfm, hraa,
    (raa_counter_bounded raaConfig (.inr rfl) (by decide) (by decide) (by decide) c hr).1 _⟩

end CactusDram
