import CactusDram.Registers
import CactusDram.Foundations.RateLimit

/-! The limits on activations in the windows tFAW and t32AW. -/
namespace CactusDram
open Foundations

/-- The time of an activation of a rank. -/
def Event.actTime (rank : ℤ) : Event → Option ℕ
  | .issue cmd clk _ _ => if cmd.cmdType = .activate ∧ cmd.rank = rank then some clk else none
  | _ => none

/-- The times of the activations of a rank, the newest first. -/
def ChannelState.actTimes (cs : ChannelState) (rank : ℤ) : List ℕ :=
  cs.log.filterMap (Event.actTime rank)

namespace ChannelState
variable {cfg : Config} {cs cs' : ChannelState} {cmd r : Command} {clk : ℕ}

theorem actTimes_of_log {extra : List Event} (hlog : cs'.log = extra ++ cs.log)
    (hextra : ∀ e ∈ extra, e.isIssue = false) (rank : ℤ) : cs'.actTimes rank = cs.actTimes rank := by
  have hnone : extra.filterMap (Event.actTime rank) = [] := by
    rw [List.filterMap_eq_nil_iff]
    intro e he
    have := hextra e he
    cases e with
    | issue => simp [Event.isIssue] at this
    | _ => rfl
  rw [actTimes, hlog, List.filterMap_append, hnone, List.nil_append]
  rfl

theorem activationWindowOk_pace (h : cs'.pace = cs.pace) (rank : ℤ) (clk : ℕ) :
    cs'.activationWindowOk cfg rank clk = cs.activationWindowOk cfg rank clk := by
  have hfour : cs'.fourAw = cs.fourAw := congrArg Pace.fourAw h
  have hthirtyTwo : cs'.thirtyTwoAw = cs.thirtyTwoAw := congrArg Pace.thirtyTwoAw h
  unfold activationWindowOk isFAWReady is32AWReady
  rw [hfour, hthirtyTwo]

/-- A bank that is asked for a rank or bankset never answers with an activation. -/
theorem scanReady_ne_activate (hcmd : cmd.isRankCMD ∨ cmd.isSbCMD) {banks : List BankId}
    {need k : ℕ} {last : Option Command} (hlast : ∀ l, last = some l → l.cmdType ≠ .activate)
    (h : cs.scanReady cfg cmd clk need banks k last = .ok (some r)) : r.cmdType ≠ .activate := by
  have hanswer (i : BankId) {a : Command}
      (ha : (cs.bankStates i).getReadyCommand cfg cmd clk = .ok (some a)) : a.cmdType ≠ .activate := by
    obtain ⟨ty, hty, _, rfl⟩ := BankState.getReadyCommand_some_iff.mp ha
    rintro rfl
    have hrw := BankState.isReadWrite_of_requires_activate hty
    simp [Chan.not_multi_of_isReadWrite hrw] at hcmd
  induction banks generalizing k last with
  | nil =>
    simp only [scanReady, Except.ok.injEq] at h
    split_ifs at h
    exact hlast r h
  | cons i rest ih =>
    obtain ⟨a?, ha, h⟩ := bind_ok_iff.mp h
    cases a? with
    | none => exact ih (by simp) h
    | some a =>
      simp only at h
      split_ifs at h
      · have hne := hanswer i ha
        cases h
        exact hne
      · exact ih (fun l hl => by cases hl; exact hanswer i ha) h

/-- Only an activation that the windows allow is answered. -/
theorem getReadyCommand_window (h : cs.getReadyCommand cfg cmd clk = .ok (some r, cs'))
    (hr : r.cmdType = .activate) : cs.activationWindowOk cfg r.rank clk = true := by
  unfold getReadyCommand at h
  split_ifs at h with hrank hsb hhydra
  · obtain ⟨ready?, hscan, h⟩ := bind_ok_iff.mp h
    cases h
    exact absurd hr (scanReady_ne_activate (.inl hrank) (by simp) hscan)
  · obtain ⟨ready?, hscan, h⟩ := bind_ok_iff.mp h
    cases h
    exact absurd hr (scanReady_ne_activate (.inr hsb) (by simp) hscan)
  · cases h
  · obtain ⟨ready?, hb, h⟩ := bind_ok_iff.mp h
    cases ready? with
    | none => cases h
    | some ready =>
      simp only at h
      split at h
      · cases h
      · cases h
      · unfold readyActivate at h
        dsimp only at h
        split_ifs at h with hwin hpol hcheck
        · cases h
        · obtain ⟨_, _, h⟩ := bind_ok_iff.mp h
          cases h
        · cases h
        · obtain ⟨⟨full, cs₂⟩, _, h⟩ := bind_ok_iff.mp h
          simp only at h
          split_ifs at h
          · obtain ⟨_, _, h⟩ := bind_ok_iff.mp h
            cases h
          · cases h
            simpa using hwin
      · rename_i hne
        cases h
        exact absurd hr hne

theorem getReadyHydraCommand_window (h : cs.getReadyHydraCommand cfg clk = .ok (some r, cs'))
    (hr : r.cmdType = .activate) : cs.activationWindowOk cfg r.rank clk = true := by
  have hdrain : (cs.hydraDrain cfg).pace = cs.pace := rfl
  unfold getReadyHydraCommand at h
  dsimp only at h
  split at h
  · cases h
  · obtain ⟨ready?, _, h⟩ := bind_ok_iff.mp h
    cases ready? with
    | none => cases h
    | some ready =>
      simp only at h
      split_ifs at h with hwin hrw
      · cases h
      · cases h
        simp [Command.isReadWrite, Command.isRead, Command.isWrite, hr] at hrw
      · cases h
        rw [← activationWindowOk_pace hdrain]
        simpa [hr] using hwin

end ChannelState

namespace Chan
open ChannelState
variable {cfg : Config} {π : Micro.Policy} {v v' : Chan}

/-- The windows of every rank stand for its activations, none of which lies in the future. -/
structure Windowed (cfg : Config) (v : Chan) : Prop where
  four : ∀ rank, Limits 4 cfg.tFAW.toNat (v.cs.actTimes rank) (v.cs.fourAw rank)
  thirtyTwo : ∀ rank, if cfg.isGDDR then
    Limits 32 cfg.t32AW.toNat (v.cs.actTimes rank) (v.cs.thirtyTwoAw rank)
    else v.cs.thirtyTwoAw rank = []
  past : ∀ rank, ∀ t ∈ v.cs.actTimes rank, t ≤ v.clk

theorem addDelay_nonneg (clk : ℕ) {delay : ℤ} (h : 0 ≤ delay) :
    addDelay clk delay = clk + delay.toNat := by
  unfold addDelay
  rw [if_pos (by omega)]
  omega

/-- An admitted activation slides a window. -/
theorem limits_slide {n clk : ℕ} {width : ℤ} {times window : List ℕ} (hn : 0 < n) (hwidth : 0 ≤ width)
    (h : Limits n width.toNat times window) (hpast : ∀ t ∈ times, t ≤ clk)
    (hok : ∀ t ts, window = t :: ts → ¬(clk < t ∧ n ≤ (t :: ts).length)) :
    Limits n width.toNat (clk :: times) (slide window clk (addDelay clk width)) := by
  rw [addDelay_nonneg clk hwidth]
  cases window with
  | nil => exact h.push hpast hn
  | cons t ts =>
    have hroom := hok t ts rfl
    unfold slide
    dsimp only
    split_ifs with hle
    · exact h.replace hpast hle
    · exact h.push hpast (by omega)

theorem windows_of_ok {cs : ChannelState} {rank : ℤ} {clk : ℕ}
    (h : cs.activationWindowOk cfg rank clk = true) :
    (∀ t ts, cs.fourAw rank = t :: ts → ¬(clk < t ∧ 4 ≤ (t :: ts).length)) ∧
      (cfg.isGDDR → ∀ t ts, cs.thirtyTwoAw rank = t :: ts → ¬(clk < t ∧ 32 ≤ (t :: ts).length)) := by
  have hfour (hok : cs.isFAWReady rank clk = true) (t : ℕ) (ts : List ℕ)
      (heq : cs.fourAw rank = t :: ts) : ¬(clk < t ∧ 4 ≤ (t :: ts).length) := by
    unfold isFAWReady at hok
    rw [heq] at hok
    have hready : t ≤ clk ∨ ts.length < 3 := by simpa using hok
    rw [List.length_cons]
    omega
  unfold activationWindowOk at h
  split_ifs at h with hgddr
  · obtain ⟨hok, hok'⟩ := Bool.and_eq_true_iff.mp h
    refine ⟨hfour hok, fun _ t ts heq => ?_⟩
    unfold is32AWReady at hok'
    rw [heq] at hok'
    have hready : t ≤ clk ∨ ts.length < 31 := by simpa using hok'
    rw [List.length_cons]
    omega
  · exact ⟨hfour h, fun hno => absurd hno hgddr⟩

theorem Windowed.quiet (hv : Windowed cfg v) (hpace : v'.cs.pace = v.cs.pace) (hclk : v.clk ≤ v'.clk)
    (htimes : ∀ rank, v'.cs.actTimes rank = v.cs.actTimes rank) : Windowed cfg v' := by
  have hfour : v'.cs.fourAw = v.cs.fourAw := congrArg Pace.fourAw hpace
  have hthirtyTwo : v'.cs.thirtyTwoAw = v.cs.thirtyTwoAw := congrArg Pace.thirtyTwoAw hpace
  refine ⟨fun rank => ?_, fun rank => ?_, fun rank t ht => ?_⟩
  · rw [hfour, htimes]
    exact hv.four rank
  · rw [hthirtyTwo, htimes]
    exact hv.thirtyTwo rank
  · rw [htimes] at ht
    exact (hv.past rank t ht).trans hclk

/-- Issuing a command other than an activation leaves the windows alone. -/
theorem windows_paceAfter (cfg : Config) (cmd : Command) (p : Pace) :
    (paceAfter cfg cmd p).fourAw = p.fourAw ∧ (paceAfter cfg cmd p).thirtyTwoAw = p.thirtyTwoAw := by
  unfold paceAfter
  split_ifs <;> exact ⟨rfl, rfl⟩

theorem Windowed.step (hfaw : 0 ≤ cfg.tFAW) (h32 : 0 ≤ cfg.t32AW) (hv : Windowed cfg v)
    (hok : ∀ p, v.ticket = some p → p.cmd.cmdType = .activate →
      v.cs.activationWindowOk cfg p.cmd.rank v.clk = true)
    (h : Step cfg π v v') : Windowed cfg v' := by
  obtain ⟨hpace, hclk, extra, hlog, hextra⟩ | ⟨p, hp, hclk, hissue⟩ := h.pace
  · exact hv.quiet hpace hclk (actTimes_of_log hlog hextra)
  · have hpace := pace_updateTimingAndStates hissue
    obtain ⟨extra, hlog, hextra⟩ := (updateTimingAndStates_issued hissue).log
    have htimes (rank : ℤ) : v'.cs.actTimes rank =
        (v.cs.record (.issue p.cmd v.clk p.origin v.cs.bankStates)).actTimes rank :=
      actTimes_of_log hlog (fun e he => Event.isIssue_of_internal (hextra e he)) rank
    by_cases hact : p.cmd.cmdType = .activate
    · rw [if_pos hact] at hpace
      obtain ⟨hok₄, hok₃₂⟩ := windows_of_ok (hok p hp hact)
      have hfour : v'.cs.fourAw = _ := congrArg Pace.fourAw hpace
      have hthirtyTwo : v'.cs.thirtyTwoAw = _ := congrArg Pace.thirtyTwoAw hpace
      have hother {rank : ℤ} (hrank : rank ≠ p.cmd.rank) :
          v'.cs.actTimes rank = v.cs.actTimes rank := by
        rw [htimes]
        exact List.filterMap_cons_none (by simp [Event.actTime, hrank.symm])
      have hsame : v'.cs.actTimes p.cmd.rank = v.clk :: v.cs.actTimes p.cmd.rank := by
        rw [htimes]
        exact List.filterMap_cons_some (by simp [Event.actTime, hact])
      refine ⟨fun rank => ?_, fun rank => ?_, fun rank t ht => ?_⟩
      · rw [hfour]
        by_cases hrank : rank = p.cmd.rank
        · subst hrank
          rw [hsame]
          simp only [paceActivated, Function.update_self]
          exact limits_slide (by decide) hfaw (hv.four _) (hv.past _) hok₄
        · rw [hother hrank]
          simp only [paceActivated, Function.update_of_ne hrank]
          exact hv.four rank
      · have hold := hv.thirtyTwo rank
        rw [hthirtyTwo]
        simp only [paceActivated]
        split_ifs with hgddr
        · rw [if_pos hgddr] at hold
          by_cases hrank : rank = p.cmd.rank
          · subst hrank
            rw [hsame, Function.update_self]
            exact limits_slide (by decide) h32 hold (hv.past _) (hok₃₂ hgddr)
          · rw [hother hrank, Function.update_of_ne hrank]
            exact hold
        · rw [if_neg hgddr] at hold
          exact hold
      · rw [hclk]
        by_cases hrank : rank = p.cmd.rank
        · subst hrank
          rw [hsame] at ht
          obtain rfl | ht := List.mem_cons.mp ht
          · exact le_rfl
          · exact hv.past _ t ht
        · rw [hother hrank] at ht
          exact hv.past rank t ht
    · rw [if_neg hact] at hpace
      have hsame (rank : ℤ) : v'.cs.actTimes rank = v.cs.actTimes rank := by
        rw [htimes]
        exact List.filterMap_cons_none (by simp [Event.actTime, hact])
      obtain ⟨hfour, hthirtyTwo⟩ := windows_paceAfter cfg p.cmd v.cs.pace
      have hfour' : v'.cs.fourAw = v.cs.fourAw := (congrArg Pace.fourAw hpace).trans hfour
      have hthirtyTwo' : v'.cs.thirtyTwoAw = v.cs.thirtyTwoAw :=
        (congrArg Pace.thirtyTwoAw hpace).trans hthirtyTwo
      refine ⟨fun rank => ?_, fun rank => ?_, fun rank t ht => ?_⟩
      · rw [hfour', hsame]
        exact hv.four rank
      · rw [hthirtyTwo', hsame]
        exact hv.thirtyTwo rank
      · rw [hsame] at ht
        rw [hclk]
        exact hv.past rank t ht

theorem windowed_boot (boot : Boot cfg) : Windowed cfg ⟨boot.channelState, 0, none, []⟩ := by
  refine ⟨fun rank => Limits.nil _ _, fun rank => ?_, fun rank t ht => by cases ht⟩
  split_ifs
  · exact Limits.nil _ _
  · rfl

end Chan

namespace Micro
open Controller ChannelState
variable {cfg : Config} {π : Policy} {m m' : Micro}

/-- An activation is chosen only when the windows allow it. -/
theorem Step.window_ok (h : Step cfg π m m') {p : Pick} (hp : m'.ticket = some p)
    (hact : p.cmd.cmdType = .activate) :
    m'.ctl.channelState.activationWindowOk cfg p.cmd.rank m'.ctl.clk = true := by
  cases h with
  | others | accept | returnDone | refreshTick | channelTick | startRefresh | startRFM | rotate | query
  | hydraQuery | issue | drop | powerUpdate | schedule | endTick => cases hp
  | @pickMaintenance c cmd origin r cs' hs ho hg h =>
    cases hp
    have hpace : cs'.pace = c.channelState.pace := (getReadyCommand_answer h).pace
    exact (activationWindowOk_pace hpace _ _).trans (getReadyCommand_window h hact)
  | @pickQueued c issued p' cs' q' hmay hc hq =>
    cases hp
    cases hc with
    | hydra h =>
      exact (activationWindowOk_pace (pace_getReadyHydraCommand h) _ _).trans
        (getReadyHydraCommand_window h hact)
    | demand _ _ h =>
      exact (activationWindowOk_pace (getReadyCommand_answer h).pace _ _).trans
        (getReadyCommand_window h hact)

theorem Reached.windowed (hfaw : 0 ≤ cfg.tFAW) (h32 : 0 ≤ cfg.t32AW) (h : Reached cfg π m) :
    Chan.Windowed cfg m.chan := by
  have : m.ctl.cmdQueue.WellQueued cfg ∧ (∀ p, m.ticket = some p → p.cmd.cmdType = .activate →
      m.ctl.channelState.activationWindowOk cfg p.cmd.rank m.ctl.clk = true) ∧
      Chan.Windowed cfg m.chan := by
    refine h.induct (P := fun m => m.ctl.cmdQueue.WellQueued cfg ∧
      (∀ p, m.ticket = some p → p.cmd.cmdType = .activate →
        m.ctl.channelState.activationWindowOk cfg p.cmd.rank m.ctl.clk = true) ∧
      Chan.Windowed cfg m.chan)
      (fun boot => ⟨fun _ _ h => (nomatch h), fun _ h => (nomatch h), Chan.windowed_boot boot⟩)
      fun m m' hm hs => ⟨hs.wellQueued hm.1, fun p hp hact => hs.window_ok hp hact, ?_⟩
    obtain hc | hc := hs.chan hm.1
    · exact hm.2.2.step hfaw h32 hm.2.1 hc
    · rw [hc]
      exact hm.2.2
  exact this.2.2

end Micro

/-- In every run at most four activations of a rank fall into a window of tFAW cycles, and for GDDR
at most 32 into one of t32AW cycles. The lists of expiries are in order and no longer than that. -/
theorem activations_limited {cfg : Config} (hfaw : 0 ≤ cfg.tFAW) (h32 : 0 ≤ cfg.t32AW)
    {c : Controller} (h : Reachable cfg c) (rank : ℤ) :
    (∀ a : ℕ, (c.channelState.actTimes rank).countP
      (fun t => a ≤ t ∧ t < a + cfg.tFAW.toNat) ≤ 4) ∧
    (cfg.isGDDR → ∀ a : ℕ, (c.channelState.actTimes rank).countP
      (fun t => a ≤ t ∧ t < a + cfg.t32AW.toNat) ≤ 32) ∧
    ((c.channelState.fourAw rank).length ≤ 4 ∧ (c.channelState.fourAw rank).Pairwise (· ≤ ·)) ∧
    (c.channelState.thirtyTwoAw rank).length ≤ 32 ∧
      (c.channelState.thirtyTwoAw rank).Pairwise (· ≤ ·) := by
  have hw := (Micro.reached_of_reachable h).windowed hfaw h32
  have hfour := hw.four rank
  have hthirtyTwo := hw.thirtyTwo rank
  refine ⟨hfour.spaced.countP_le, fun hgddr => ?_, ⟨hfour.short, hfour.window_sorted⟩, ?_⟩
  · rw [if_pos hgddr] at hthirtyTwo
    exact hthirtyTwo.spaced.countP_le
  · split_ifs at hthirtyTwo
    · exact ⟨hthirtyTwo.short, hthirtyTwo.window_sorted⟩
    · have hempty : c.channelState.thirtyTwoAw rank = [] := hthirtyTwo
      rw [hempty]
      exact ⟨Nat.zero_le _, .nil⟩

/-- A long window on the small channel. -/
def windowConfig : Config := { smallConfig with tFAW := 45 }

/-- Six reads of different rows of one bank in turn. -/
def windowInputs : List Input :=
  [0, 2, 4, 6, 0, 2].flatMap fun addr => Input.request addr false 10

/-- The fifth activation waits until the window of the first has passed. -/
theorem activations_limited_small : ∃ c, Reachable windowConfig c ∧
    c.channelState.actTimes 0 = [57, 46, 32, 22, 12, 1] ∧
    (c.channelState.actTimes 0).countP (fun t => 1 ≤ t ∧ t < 1 + windowConfig.tFAW.toNat) ≤ 4 := by
  obtain ⟨c, hrun, hc⟩ := exists_ok_of_any
    (x := Controller.run windowConfig ({} : Boot windowConfig).controller windowInputs)
    (p := fun c => c.channelState.actTimes 0 = [57, 46, 32, 22, 12, 1]) (by decide +kernel)
  have hr : Reachable windowConfig c := ⟨{}, windowInputs, hrun⟩
  exact ⟨c, hr, of_decide_eq_true hc, (activations_limited (by decide) (by decide) hr 0).1 1⟩

end CactusDram
