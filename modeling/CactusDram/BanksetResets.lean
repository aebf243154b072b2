import CactusDram.RefreshCoverage
import CactusDram.Registers

/-! How often each counter is reset in a window of REFsb commands. -/
namespace CactusDram
open Foundations

/-- The rank of an issued REFsb. -/
def Event.refsb? : Event → Option ℤ
  | .issue cmd _ _ _ => if cmd.cmdType = .refSb then some cmd.rank else none
  | _ => none

theorem Event.refsb_of_isIssue {e : Event} (h : e.isIssue = false) : e.refsb? = none := by
  cases e with
  | issue => simp [Event.isIssue] at h
  | _ => rfl

/-- The REFsbs of a history, the newest first, each with the events from its issue up to the next. -/
def refsbs (log : List Event) : List Refab :=
  (stretches Event.refsb? log).map fun s => ⟨s.1, s.2⟩

namespace ChannelState
variable {cfg : Config} {cs cs' : ChannelState} {cmd : Command} {clk : ℕ}

/-- The resets of the REFsb with a given number: the chunk pointer moves once in twice as many REFsbs
as there are banks in a group, and one phase of that period resets its chunk. -/
def phaseResets (cfg : Config) (rank : ℤ) (n : ℕ) : List Event :=
  if (n + 1) % (2 * cfg.banksPerGroup) = 7 then
    chunkResets cfg rank (n / (2 * cfg.banksPerGroup) % cfg.refchunks)
  else []

/-- Bookkeeping that resets nothing, issues no REFsb and moves no refresh counter. -/
structure Still (cs cs' : ChannelState) : Prop where
  log : ∃ extra, cs'.log = extra ++ cs.log ∧ ∀ e ∈ extra, e.refsb? = none ∧ e.isReset = false
  fgrCounter : cs'.fgrCounter = cs.fgrCounter
  refIdx : cs'.refIdx = cs.refIdx

/-- What a REFsb does: its resets, if it falls on the phase, and one step of the counters. -/
structure StepsPhase (cfg : Config) (cmd : Command) (cs cs' : ChannelState) : Prop where
  log : ∃ extra, cs'.log = extra ++ ((if cs.shouldReset cfg cmd then
      chunkResets cfg cmd.rank cs.refIdx else []) ++ cs.log) ∧
    ∀ e ∈ extra, e.refsb? = none ∧ e.isReset = false
  fgrCounter : cs'.fgrCounter = (cs.fgrCounter + 1) % (2 * cfg.banksPerGroup)
  refIdx : cs'.refIdx = if (cs.fgrCounter + 1) % (2 * cfg.banksPerGroup) = 0 then
    (cs.refIdx + 1) % cfg.refchunks else cs.refIdx

/-- Without a reset the trackers sit out a refresh. -/
theorem refreshTrackers_of_not_reset (h : cs.shouldReset cfg cmd = false) :
    cs.refreshTrackers cfg cmd = cs := by
  have hdream : cs.dreamRefresh cfg false = cs := by simp [dreamRefresh]
  have hcactus : cs.cactusRefresh cfg cmd.rank false = cs := by simp [cactusRefresh]
  have habacus : cs.abacusRefresh cfg false = cs := by simp [abacusRefresh]
  rw [refreshTrackers, h, hdream, hcactus, habacus]

theorem resets_refreshTrackers_phase (cfg : Config) (cs : ChannelState) (cmd : Command) :
    Resets (if cs.shouldReset cfg cmd then chunkResets cfg cmd.rank cs.refIdx else []) cs
      (cs.refreshTrackers cfg cmd) := by
  cases hreset : cs.shouldReset cfg cmd with
  | false =>
    rw [refreshTrackers_of_not_reset hreset]
    exact ⟨rfl, rfl, rfl⟩
  | true =>
    rw [if_pos rfl]
    unfold refreshTrackers chunkResets
    rw [hreset]
    have hdream := resets_dreamRefresh cfg cs
    have hcactus := resets_cactusRefresh cfg (cs.dreamRefresh cfg true) cmd.rank
    have habacus :=
      resets_abacusRefresh cfg ((cs.dreamRefresh cfg true).cactusRefresh cfg cmd.rank true)
    rw [hcactus.refIdx, hdream.refIdx] at habacus
    rw [hdream.refIdx] at hcactus
    exact (hdream.trans hcactus).trans habacus

theorem updateState_refSb_log (hcmd : cmd.cmdType = .refSb) (h : cs.updateState cfg cmd = .ok cs') :
    cs'.log = (if cs.shouldReset cfg cmd then chunkResets cfg cmd.rank cs.refIdx else []) ++ cs.log := by
  have hsb : cmd.isSbCMD := by simp [Command.isSbCMD, hcmd]
  have hrank : cmd.isRankCMD = false := by simp [Command.isRankCMD, hcmd]
  have href : cmd.isRefresh := by simp [Command.isRefresh, hcmd]
  obtain ⟨bs, _, ⟨hm, _⟩ | ⟨_, _, h⟩ | ⟨_, hs, _⟩⟩ := updateState_eq h
  · simp [hrank] at hm
  · unfold banksetServed at h
    rw [if_neg (by simp [Command.isRFM, hcmd]), if_neg (by simp [Command.isDRFM, hcmd]),
      if_pos href] at h
    have hresets : Resets _ _ _ := resets_refreshTrackers_phase cfg
      (banksetNeedRefresh { cs with bankStates := bs } cmd.rank cmd.bank false) cmd
    unfold updateREFCounter at h
    rw [if_pos hcmd] at h
    cases h
    exact hresets.log
  · simp [hsb] at hs

theorem stepsPhase_issue {origin : Origin} (hcmd : cmd.cmdType = .refSb)
    (h : cs.updateTimingAndStates cfg cmd clk origin = .ok cs') :
    StepsPhase cfg cmd (cs.record (.issue cmd clk origin cs.bankStates)) cs' := by
  have hpace := pace_updateTimingAndStates h
  rw [if_neg (by simp [hcmd]), paceAfter, if_pos hcmd] at hpace
  refine ⟨?_, congrArg Pace.fgrCounter hpace, congrArg Pace.refIdx hpace⟩
  obtain ⟨extra, hlog, hextra⟩ := (updateTimingAndStates_issued h).log
  obtain ⟨cs₁, h₁, htiming⟩ := bind_ok_iff.mp h
  obtain ⟨extra', hlog', hextra'⟩ := (quiet_updateTiming htiming).log
  rw [updateState_refSb_log hcmd h₁] at hlog'
  refine ⟨extra', hlog', fun e he => ⟨?_, (hextra' e he).1⟩⟩
  -- what comes after the issue is internal
  have hsame : extra = extra' ++ _ :=
    List.append_cancel_right (hlog.symm.trans (hlog'.trans (List.append_assoc _ _ _).symm))
  exact Event.refsb_of_isIssue
    (Event.isIssue_of_internal (hextra e (hsame ▸ List.mem_append_left _ he)))

end ChannelState

namespace Chan
open ChannelState
variable {cfg : Config} {π : Micro.Policy} {v v' : Chan}

theorem still_of_log {cs cs' : ChannelState} {extra : List Event}
    (hfgr : cs'.fgrCounter = cs.fgrCounter) (hlog : cs'.log = extra ++ cs.log)
    (hextra : ∀ e ∈ extra, e.refsb? = none) (hquiet : Quiet cs cs') : Still cs cs' := by
  obtain ⟨extra', hlog', hextra'⟩ := hquiet.log
  have hsame : extra' = extra := List.append_cancel_right (hlog'.symm.trans hlog)
  exact ⟨⟨extra, hlog, fun e he => ⟨hextra e he, (hextra' e (hsame ▸ he)).1⟩⟩, hfgr, hquiet.refIdx⟩

/-- The steps as far as REFsbs are concerned. -/
theorem Step.refsb_cases (hord : Ordered v) (href : ∀ r ∈ v.cs.refreshQ, r.cmdType = .refSb)
    (h : Step cfg π v v') :
    Still v.cs v'.cs ∨ ∃ cmd clk origin, cmd ∈ v.cs.refreshQ ∧ cmd.cmdType = .refSb ∧
      StepsPhase cfg cmd (v.cs.record (.issue cmd clk origin v.cs.bankStates)) v'.cs := by
  obtain ⟨hpace, _, extra, hlog, hextra⟩ | ⟨p, hp, _, hissue⟩ := h.pace
  · obtain hquiet | ⟨p, _, hissue⟩ := h.quiet
    · exact .inl (still_of_log (congrArg Pace.fgrCounter hpace) hlog
        (fun e he => Event.refsb_of_isIssue (hextra e he)) hquiet)
    · -- an issue shows in the history
      obtain ⟨extra', hlog', _⟩ := (updateTimingAndStates_issued hissue).log
      have hsame : extra' ++ [.issue p.cmd v.clk p.origin v.cs.bankStates] = extra := by
        have happend := hlog'.symm.trans hlog
        rw [← List.singleton_append, ← List.append_assoc] at happend
        exact List.append_cancel_right happend
      have hno := hextra _ (hsame ▸ List.mem_append_right extra' (List.mem_singleton_self _))
      cases hno
  · by_cases hcmd : p.cmd.isRefresh
    · have hmem : p.cmd ∈ v.cs.refreshQ := List.mem_of_mem_head? (hord.ticket p hp hcmd)
      have hty := href p.cmd hmem
      exact .inr ⟨p.cmd, v.clk, p.origin, hmem, hty, stepsPhase_issue hty hissue⟩
    · have hcmd : p.cmd.isRefresh = false := by simpa using hcmd
      have hne : p.cmd.cmdType ≠ .refSb := fun hty => by simp [Command.isRefresh, hty] at hcmd
      have hfgr : v'.cs.fgrCounter = v.cs.fgrCounter := by
        have hafter := congrArg Pace.fgrCounter (pace_updateTimingAndStates hissue)
        rw [paceAfter_of_not_isRefresh hcmd] at hafter
        split_ifs at hafter <;> exact hafter
      obtain ⟨extra, hlog, hextra⟩ := (updateTimingAndStates_issued hissue).log
      rw [← List.singleton_append, ← List.append_assoc] at hlog
      refine .inl (still_of_log hfgr hlog (fun e he => ?_) (quiet_updateTimingAndStates hcmd hissue))
      obtain he | he := List.mem_append.mp he
      · exact Event.refsb_of_isIssue (Event.isIssue_of_internal (hextra e he))
      · rw [List.mem_singleton.mp he]
        simp [Event.refsb?, hne]

/-- The REFsbs so far, by rank and resets. -/
def servedSb (cs : ChannelState) : List (ℤ × List Event) :=
  (refsbs cs.log).map fun r => (r.rank, r.resets)

/-- The channel's counters count the REFsbs, and each of them made the resets of its number. -/
structure Phased (cfg : Config) (cs : ChannelState) : Prop where
  fgrCounter : cs.fgrCounter = (servedSb cs).length % (2 * cfg.banksPerGroup)
  refIdx : cs.refIdx = (servedSb cs).length / (2 * cfg.banksPerGroup) % cfg.refchunks
  phases : ∀ newer r older, servedSb cs = newer ++ r :: older →
    r.2 = phaseResets cfg r.1 older.length

theorem servedSb_eq (cs : ChannelState) : servedSb cs =
    (stretches Event.refsb? cs.log).map fun s => (s.1, s.2.filter Event.isReset) := by
  unfold servedSb refsbs
  rw [List.map_map]
  rfl

theorem servedSb_still {cs cs' : ChannelState} (h : Still cs cs') : servedSb cs' = servedSb cs := by
  obtain ⟨extra, hlog, hextra⟩ := h.log
  rw [servedSb_eq, servedSb_eq, hlog]
  exact stretches_append_filter hextra

theorem phased_boot (boot : Boot cfg) : Phased cfg boot.channelState :=
  ⟨(Nat.zero_mod _).symm, by simp [servedSb, refsbs, stretches, Boot.channelState],
    fun newer r older h => by simp [servedSb, refsbs, stretches, Boot.channelState] at h⟩

theorem Phased.still {cs cs' : ChannelState} (hs : Phased cfg cs) (h : Still cs cs') :
    Phased cfg cs' := by
  refine ⟨?_, ?_, ?_⟩
  · rw [h.fgrCounter, servedSb_still h]
    exact hs.fgrCounter
  · rw [h.refIdx, servedSb_still h]
    exact hs.refIdx
  · rw [servedSb_still h]
    exact hs.phases

theorem refsb_of_mem_chunkResets {rank : ℤ} {refIdx : ℕ} {e : Event}
    (h : e ∈ chunkResets cfg rank refIdx) : e.refsb? = none := by
  have hreset := (isReset_of_mem_chunkResets h).1
  cases e <;> simp_all [Event.isReset, Event.refsb?]

/-- A REFsb is one more entry with the resets of its number. -/
theorem servedSb_stepsPhase {cs cs' : ChannelState} {cmd : Command} {clk : ℕ} {origin : Origin}
    (hcmd : cmd.cmdType = .refSb) (hs : Phased cfg cs)
    (h : StepsPhase cfg cmd (cs.record (.issue cmd clk origin cs.bankStates)) cs') :
    servedSb cs' = (cmd.rank, phaseResets cfg cmd.rank (servedSb cs).length) :: servedSb cs := by
  have hresets : (if (cs.record (.issue cmd clk origin cs.bankStates)).shouldReset cfg cmd then
      chunkResets cfg cmd.rank cs.refIdx else []) =
      phaseResets cfg cmd.rank (servedSb cs).length := by
    have hphase : (cs.record (.issue cmd clk origin cs.bankStates)).shouldReset cfg cmd =
        decide (((servedSb cs).length + 1) % (2 * cfg.banksPerGroup) = 7) := by
      unfold shouldReset
      rw [hcmd]
      change (false || (true && decide ((cs.fgrCounter + 1) % _ = 7))) = _
      rw [hs.fgrCounter, Nat.mod_add_mod]
      rfl
    unfold phaseResets
    rw [hphase, hs.refIdx]
    simp only [decide_eq_true_eq]
  obtain ⟨extra, hlog, hextra⟩ := h.log
  have hnone : ∀ e ∈ phaseResets cfg cmd.rank (servedSb cs).length,
      e.refsb? = none ∧ e.isReset = true := by
    intro e he
    unfold phaseResets at he
    split_ifs at he
    · exact ⟨refsb_of_mem_chunkResets he, (isReset_of_mem_chunkResets he).1⟩
    · cases he
  have hmark : Event.refsb? (.issue cmd clk origin cs.bankStates) = some cmd.rank := by
    simp [Event.refsb?, hcmd]
  have hlog' : cs'.log = extra ++ (phaseResets cfg cmd.rank (servedSb cs).length ++
      .issue cmd clk origin cs.bankStates :: cs.log) := by
    rw [← hresets]
    exact hlog
  rw [servedSb_eq cs', hlog', stretches_append_mark hextra hnone hmark, ← servedSb_eq]

theorem Phased.stepsPhase {cs cs' : ChannelState} {cmd : Command} {clk : ℕ} {origin : Origin}
    (hcmd : cmd.cmdType = .refSb) (hs : Phased cfg cs)
    (h : StepsPhase cfg cmd (cs.record (.issue cmd clk origin cs.bankStates)) cs') :
    Phased cfg cs' := by
  have hserved := servedSb_stepsPhase hcmd hs h
  have hfgr : cs'.fgrCounter = (cs.fgrCounter + 1) % (2 * cfg.banksPerGroup) := h.fgrCounter
  have hidx : cs'.refIdx = if (cs.fgrCounter + 1) % (2 * cfg.banksPerGroup) = 0 then
    (cs.refIdx + 1) % cfg.refchunks else cs.refIdx := h.refIdx
  rw [hs.fgrCounter, Nat.mod_add_mod] at hfgr hidx
  refine ⟨?_, ?_, fun newer r older hsplit => ?_⟩
  · rw [hfgr, hserved, List.length_cons]
  · rw [hidx, hserved, List.length_cons, hs.refIdx, Nat.mod_add_mod, Nat.succ_div]
    simp only [Nat.dvd_iff_mod_eq_zero]
    split_ifs <;> rfl
  · rw [hserved] at hsplit
    cases newer with
    | nil =>
      obtain ⟨rfl, rfl⟩ := List.cons.inj hsplit
      rfl
    | cons r' newer =>
      obtain ⟨_, hrest⟩ := List.cons.inj hsplit
      exact hs.phases newer r older hrest

end Chan

namespace Micro
variable {cfg : Config} {π : Policy} {m : Micro}

/-- Under the bankset policy the counters count the REFsbs, and with one rank these are of rank 0. -/
theorem Reached.phased (hpolicy : cfg.refreshPolicy = .banksetLevelStaggered) (hone : cfg.ranks = 1)
    (h : Reached cfg π m) : Chan.Phased cfg m.ctl.channelState ∧
      ∀ r ∈ Chan.servedSb m.ctl.channelState, r.1 = 0 := by
  have hinv : Reached cfg π m ∧ Chan.Phased cfg m.ctl.channelState ∧
      ∀ r ∈ Chan.servedSb m.ctl.channelState, r.1 = 0 := by
    refine h.induct (P := fun m => Reached cfg π m ∧ Chan.Phased cfg m.ctl.channelState ∧
      ∀ r ∈ Chan.servedSb m.ctl.channelState, r.1 = 0) (fun boot => ⟨⟨boot, .refl⟩,
        Chan.phased_boot boot, fun r hr => ?_⟩) fun m m' hm hs => ⟨hm.1.step (.single hs), ?_⟩
    · simp [Chan.servedSb, refsbs, stretches, rest, Boot.controller, Boot.channelState] at hr
    · obtain ⟨hreached, hphased, hzero⟩ := hm
      have hasked (r : Command) (hr : r ∈ m.ctl.channelState.refreshQ) :
          r.cmdType = .refSb ∧ r.rank = 0 := by
        obtain ⟨hty, k, hk, hrank⟩ := hreached.refreshQ_asked r hr
        rw [hpolicy] at hty
        exact ⟨(Option.some.inj hty).symm, by omega⟩
      obtain hc | hc := hs.chan hreached.wellQueued
      · obtain hstill | ⟨cmd, clk, origin, hmem, hty, hphase⟩ :=
          hc.refsb_cases hreached.ordered fun r hr => (hasked r hr).1
        · exact ⟨hphased.still hstill, (Chan.servedSb_still hstill).symm ▸ hzero⟩
        · have hserved : Chan.servedSb m'.ctl.channelState = _ :=
            Chan.servedSb_stepsPhase hty hphased hphase
          refine ⟨hphased.stepsPhase hty hphase, fun r hr => ?_⟩
          rw [hserved] at hr
          obtain rfl | hr := List.mem_cons.mp hr
          · exact (hasked cmd hmem).2
          · exact hzero r hr
      · rw [show m'.ctl.channelState = m.ctl.channelState from congrArg Chan.cs hc]
        exact ⟨hphased, hzero⟩
  exact hinv.2

/-- Numbered from the start, the REFsbs of a reached state by rank and resets. -/
theorem Reached.refsbs_single (hpolicy : cfg.refreshPolicy = .banksetLevelStaggered)
    (hone : cfg.ranks = 1) (h : Reached cfg π m) :
    ∃ n, (refsbs m.ctl.channelState.log).map (fun r => (r.rank, r.resets)) =
      ((List.range n).map fun n => (0, ChannelState.phaseResets cfg 0 n)).reverse := by
  obtain ⟨hphased, hzero⟩ := h.phased hpolicy hone
  refine ⟨_, eq_reverse_map_range fun newer r older hsplit => ?_⟩
  have hsplit : Chan.servedSb m.ctl.channelState = newer ++ r :: older := hsplit
  have hrank : r.1 = 0 := hzero r (hsplit ▸ List.mem_append_right newer List.mem_cons_self)
  exact Prod.ext hrank (hrank ▸ hphased.phases newer r older hsplit)

/-- The resets of a window of REFsbs: those of its chunks if the phase of the resets exists. -/
theorem Reached.countP_refsbs (hpolicy : cfg.refreshPolicy = .banksetLevelStaggered)
    (hone : cfg.ranks = 1) (h : Reached cfg π m) {window : List Refab}
    (hwindow : window <:+: refsbs m.ctl.channelState.log)
    (hlen : window.length = 2 * cfg.banksPerGroup * cfg.refchunks) {p : Event → Bool}
    (hp : ∀ e, p e = true → e.isReset = true) {hit : ℕ → Bool}
    (hhit : ∀ k, (ChannelState.chunkResets cfg 0 k).countP p = (hit k).toNat) :
    (4 ≤ cfg.banksPerGroup → ∃ a, (window.flatMap Refab.events).countP p =
      (List.range' a cfg.refchunks).countP fun k => hit (k % cfg.refchunks)) ∧
    (cfg.banksPerGroup < 4 → (window.flatMap Refab.events).countP p = 0) := by
  obtain ⟨n, hrefsbs⟩ := h.refsbs_single hpolicy hone
  have hphase (n : ℕ) : (ChannelState.phaseResets cfg 0 n).countP p =
      (decide ((n + 1) % (2 * cfg.banksPerGroup) = 7 ∧
        hit (n / (2 * cfg.banksPerGroup) % cfg.refchunks) = true)).toNat := by
    unfold ChannelState.phaseResets
    split_ifs with hseven
    · simp [hhit, hseven]
    · simp [hseven]
  obtain ⟨a, ha⟩ := countP_window hrefsbs hwindow hp hphase
  rw [ha, hlen, Nat.mul_comm (2 * cfg.banksPerGroup)]
  constructor
  · intro hfour
    obtain ⟨a', ha'⟩ := countP_stride (show 6 < 2 * cfg.banksPerGroup by omega) a cfg.refchunks
      fun k => hit (k % cfg.refchunks)
    refine ⟨a', Eq.trans ?_ ha'⟩
    congr 1
    funext k
    have hsix : (k + 1) % (2 * cfg.banksPerGroup) = 7 ↔ k % (2 * cfg.banksPerGroup) = 6 := by
      have hmod := Nat.mod_lt k (show 0 < 2 * cfg.banksPerGroup by omega)
      rw [Nat.add_mod, Nat.mod_eq_of_lt (show 1 < 2 * cfg.banksPerGroup by omega)]
      obtain hlast | hlast := Nat.lt_or_ge (k % (2 * cfg.banksPerGroup) + 1) (2 * cfg.banksPerGroup)
      · rw [Nat.mod_eq_of_lt hlast]
        omega
      · rw [Nat.mod_eq_sub_mod hlast, Nat.mod_eq_of_lt (by omega)]
        omega
    rw [decide_eq_decide, hsix]
  · intro hfew
    refine List.countP_eq_zero.mpr fun k _ => ?_
    have hmod := Nat.mod_lt (k + 1) (show 0 < 2 * cfg.banksPerGroup from
      Nat.mul_pos (by omega) cfg.banksPerGroup_pos)
    simp only [decide_eq_true_eq, not_and]
    omega

end Micro

/-- A count that is right from four banks on and nothing below. -/
theorem count_iff {count reset banks : ℕ} (hreset : 0 < reset) (hmany : 4 ≤ banks → count = reset)
    (hfew : banks < 4 → count = 0) : count = reset ↔ 4 ≤ banks := by
  constructor
  · intro hcount
    by_contra hlt
    have := hfew (by omega)
    omega
  · exact hmany

/-- Groups of four banks, refreshed in two chunks, with every counter table in use. -/
def fourBanksets : Config :=
  { smallConfig with
    banksPerGroup := 4, banksPerGroup_pos := Nat.succ_pos (nat_lit 3), rows_lt := by decide
    cactusMode := 1, dreamMode := 1, abacusMode := 1, refchunks := 2, tREFIsb := 8
    refreshPolicy := .banksetLevelStaggered }

/-- Groups of two banks: no REFsb resets anything. -/
def pairedBanksets : Config :=
  { smallConfig with
    cactusMode := 1, dreamMode := 1, abacusMode := 1, refchunks := 2, tREFIsb := 8
    refreshPolicy := .banksetLevelStaggered }

end CactusDram
