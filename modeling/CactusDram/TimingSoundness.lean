import CactusDram.Invariants

/-! Issued commands respect every delay that an earlier command registered for them. -/
namespace CactusDram
open Foundations ChannelState

/-- `later` keeps the distance that `earlier` registered for its type on each of its banks. The
precharges of several banks are left out. -/
def Event.Respects (cfg : Config) (later earlier : Event) : Prop :=
  match later, earlier with
  | .issue cmd t _ _, .issue cmd' s _ _ =>
    cmd.cmdType ≠ .preAb → cmd.cmdType ≠ .preSb → ∀ b ∈ covered cfg cmd, ∀ d : ℤ,
      (b, cmd.cmdType, d) ∈ timingUpdates cfg cmd' → (s : ℤ) + d ≤ t
  | _, _ => True

/-- The type, the bank and the time of an issued command. -/
def Event.issued? : Event → Option (CommandType × BankId × ℕ)
  | .issue cmd t _ _ => some (cmd.cmdType, cmd.bankId, t)
  | _ => none

namespace Chan
variable {cfg : Config} {cs cs' : ChannelState} {clk : ℕ} {p : Pick}

/-- A command on one bank covers its own bank. -/
theorem covered_single {cmd : Command} (hrank : cmd.isRankCMD = false) (hsb : cmd.isSbCMD = false) :
    covered cfg cmd = [cmd.bankId] := by
  simp [covered, hrank, hsb]

/-- Without self-refresh and Hydra, every bank of a chosen command is ready for it. -/
theorem Granted.timing (h : Granted cfg cs clk p) (hen : cfg.enableSelfRefresh = false)
    (hmode : cfg.hydraMode ≠ 1) (hab : p.cmd.cmdType ≠ .preAb) (hsb : p.cmd.cmdType ≠ .preSb)
    {i : BankId} (hi : i ∈ covered cfg p.cmd) : (cs.cores i).cmdTiming p.cmd.cmdType ≤ clk := by
  cases h with
  | column hrw _ _ ht =>
    obtain ⟨h₁, h₂⟩ := not_multi_of_isReadWrite hrw
    rw [covered_single h₁ h₂, List.mem_singleton] at hi
    exact hi ▸ ht
  | precharge hty _ ht =>
    rw [covered_single (by simp [Command.isRankCMD, hty]) (by simp [Command.isSbCMD, hty]),
      List.mem_singleton] at hi
    exact hi ▸ ht
  | activate hty _ ht =>
    rw [covered_single (by simp [Command.isRankCMD, hty]) (by simp [Command.isSbCMD, hty]),
      List.mem_singleton] at hi
    exact hi ▸ ht
  | maintain _ _ hall => exact (hall i hi).2
  | @prechargeAll served _ _ _ _ hm =>
    unfold BankState.prechargeFor at hab hsb
    split_ifs at hab hsb with h₁ h₂
    · exact absurd rfl hab
    · exact absurd rfl hsb
    · simp [h₁, h₂] at hm
  | sref h => simp [hen] at h
  | hydraRFM h => exact absurd h hmode

/-- Every registered delay is still in force. -/
def Registered (cfg : Config) (cs : ChannelState) : Prop :=
  ∀ cmd s o f, .issue cmd s o f ∈ cs.log → ∀ u ∈ timingUpdates cfg cmd,
    addDelay s u.2.2 ≤ (cs.cores u.1).cmdTiming u.2.1

/-- Between two issued commands the banks keep their states and deadlines. -/
theorem Step.cores {π : Micro.Policy} {v v' : Chan} (h : Step cfg π v v') :
    (∀ i, v'.cs.cores i = v.cs.cores i) ∧ v.clk ≤ v'.clk ∧
        (∃ extra, v'.cs.log = extra ++ v.cs.log ∧ ∀ e ∈ extra, e.isIssue = false) ∨
      ∃ p, v.ticket = some p ∧ v'.clk = v.clk ∧ Issued cfg v.cs p.cmd v.clk p.origin v'.cs := by
  cases h with
  | environment | drop => exact .inl ⟨fun _ => rfl, le_rfl, [], rfl, by simp⟩
  | tock => exact .inl ⟨fun _ => rfl, Nat.le_succ _, [], rfl, by simp⟩
  | requestRefresh => exact .inl ⟨fun _ => rfl, le_rfl, [_], rfl, by simp [Event.isIssue]⟩
  | tick => exact .inl ⟨queried_clockTick.cores, le_rfl, queried_clockTick.log⟩
  | query _ h => exact .inl ⟨h.queried.cores, le_rfl, h.queried.log⟩
  | hydraQuery h =>
    have hq := queried_getReadyHydraCommand h
    exact .inl ⟨hq.cores, le_rfl, hq.log⟩
  | pick _ _ _ h => exact .inl ⟨h.queried.cores, le_rfl, h.queried.log⟩
  | pickHydra _ h =>
    have hq := queried_getReadyHydraCommand h
    exact .inl ⟨hq.cores, le_rfl, hq.log⟩
  | issue h => exact .inr ⟨_, rfl, rfl, updateTimingAndStates_issued h⟩

theorem Registered.step {π : Micro.Policy} {v v' : Chan} (hv : Registered cfg v.cs)
    (h : Step cfg π v v') : Registered cfg v'.cs := by
  intro cmd s o f hmem u hu
  obtain ⟨hcores, _, extra, hlog, hextra⟩ | ⟨p, _, _, hi⟩ := h.cores
  · rw [hcores]
    rw [hlog, List.mem_append] at hmem
    rcases hmem with hmem | hmem
    · cases hextra _ hmem
    · exact hv cmd s o f hmem u hu
  · obtain ⟨extra, hlog, hextra⟩ := hi.log
    rw [hlog, List.mem_append, List.mem_cons] at hmem
    rcases hmem with hmem | hmem | hmem
    · cases hextra _ hmem
    · cases hmem
      exact hi.timing u hu
    · exact (hv cmd s o f hmem u hu).trans (hi.timing_mono u.1 u.2.1)

/-- All pairs of events are in a relation that only constrains issued commands. -/
theorem pairwise_step {π : Micro.Policy} {v v' : Chan} {R : Event → Event → Prop}
    (hR : ∀ e e', e.isIssue = false ∨ e'.isIssue = false → R e e') (hv : v.cs.log.Pairwise R)
    (h : Step cfg π v v') (hissue : ∀ p cmd s o f, v.ticket = some p →
      .issue cmd s o f ∈ v.cs.log → R (.issue p.cmd v.clk p.origin v.cs.bankStates) (.issue cmd s o f)) :
    v'.cs.log.Pairwise R := by
  have happend {extra l : List Event} (hextra : ∀ e ∈ extra, e.isIssue = false)
      (hl : l.Pairwise R) : (extra ++ l).Pairwise R :=
    List.pairwise_append.mpr ⟨List.pairwise_of_forall_mem_list fun e he e' _ =>
      hR e e' (.inl (hextra e he)), hl, fun e he e' _ => hR e e' (.inl (hextra e he))⟩
  rcases h.log with ⟨extra, hlog, hextra⟩ | ⟨p, hp, hi⟩
  · rw [hlog]
    exact happend hextra hv
  · obtain ⟨extra, hlog, hextra⟩ := hi.log
    rw [hlog]
    refine happend (fun e he => Event.isIssue_of_internal (hextra e he))
      (List.pairwise_cons.mpr ⟨fun e he => ?_, hv⟩)
    cases e with
    | issue cmd s o f => exact hissue p cmd s o f hp he
    | _ => exact hR _ _ (.inr rfl)

/-- Every registered delay is still in force, and all pairs of issued commands respect theirs. -/
structure Timely (cfg : Config) (v : Chan) : Prop where
  ready : Ready cfg v
  registered : Registered cfg v.cs
  pairwise : v.cs.log.Pairwise (Event.Respects cfg)

theorem Timely.step (hen : cfg.enableSelfRefresh = false) (hmode : cfg.hydraMode ≠ 1)
    {π : Micro.Policy} {v v' : Chan} (hv : Timely cfg v) (h : Step cfg π v v') : Timely cfg v' := by
  refine ⟨hv.ready.step h, hv.registered.step h, pairwise_step (fun e e' he => ?_) hv.pairwise h
    fun p cmd s o f hp hmem hab hsb b hb d hd => ?_⟩
  · cases e <;> cases e' <;> simp_all [Event.isIssue, Event.Respects]
  · have hreg := hv.registered cmd s o f hmem _ hd
    have hle := (hv.ready.ticket p hp).timing hen hmode hab hsb hb
    have hdelay := le_addDelay s d
    have : addDelay s d ≤ v.clk := hreg.trans hle
    omega

theorem timely_boot (boot : Boot cfg) : Timely cfg ⟨boot.channelState, 0, none, []⟩ :=
  ⟨ready_boot boot, fun _ _ _ _ h => (nomatch h), .nil⟩

end Chan

/-- In every run, every issued command keeps every delay that an earlier command registered for
it on a bank it acts on. -/
theorem issued_commands_respect_timing {cfg : Config} (hmode : cfg.hydraMode = 0)
    (hen : cfg.enableSelfRefresh = false) {c : Controller} (h : Reachable cfg c) :
    c.channelState.log.Pairwise (Event.Respects cfg) := by
  have hne : cfg.hydraMode ≠ 1 := by omega
  have hr := Micro.reached_of_reachable h
  exact (hr.chan_induct (P := Chan.Timely cfg) Chan.timely_boot fun _ _ hv hs =>
    hv.step hen hne hs).pairwise

theorem issued_commands_respect_timing_small : ∃ c, Reachable smallConfig c ∧
    (c.channelState.log.filter Event.isIssue).length = 5 ∧
    c.channelState.log.Pairwise (Event.Respects smallConfig) := by
  obtain ⟨c, hrun, hc⟩ := exists_ok_of_any
    (x := Controller.run smallConfig ({} : Boot smallConfig).controller smallInputs)
    (p := fun c => (c.channelState.log.filter Event.isIssue).length = 5) (by decide +kernel)
  have hr : Reachable smallConfig c := ⟨{}, smallInputs, hrun⟩
  exact ⟨c, hr, by simpa using hc, issued_commands_respect_timing rfl rfl hr⟩

end CactusDram
