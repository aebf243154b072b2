import CactusDram.Channel.Exits
import CactusDram.TimingSoundness

/-! Without self-refresh no command is issued in a state where it is illegal. -/
namespace CactusDram
open Foundations

namespace BankState
variable {cfg : Config} {b : BankState} {cmd : Command}

theorem updateState_of_open (hs : b.state = .open)
    (hcmd : cmd.isReadWrite ∨ cmd.cmdType = .precharge ∨ cmd.cmdType = .preAb ∨
      cmd.cmdType = .preSb) : ∃ b', b.updateState cfg cmd = .ok b' := by
  obtain ⟨ty, _, _⟩ := cmd
  unfold updateState
  dsimp only
  rw [hs]
  cases ty <;> simp_all [Command.isReadWrite, Command.isRead, Command.isWrite]

theorem updateState_of_closed (hs : b.state = .closed)
    (hcmd : cmd.cmdType = .activate ∨ cmd.isRefresh ∨ cmd.isRFM ∨ cmd.isDRFM ∨
      cmd.cmdType = .preAb ∨ cmd.cmdType = .preSb) : ∃ b', b.updateState cfg cmd = .ok b' := by
  obtain ⟨ty, _, _⟩ := cmd
  unfold updateState
  dsimp only
  rw [hs]
  cases ty <;> simp_all [Command.isRefresh, Command.isRFM, Command.isDRFM]

end BankState

namespace Chan
open ChannelState
variable {cfg : Config} {cs : ChannelState} {clk : ℕ} {p : Pick}

/-- A chosen command is legal in every bank it acts on. -/
theorem Granted.legal (h : Granted cfg cs clk p) (hreg : Regular cfg cs)
    (hen : cfg.enableSelfRefresh = false) (hmode : cfg.hydraMode ≠ 1) {i : BankId}
    (hi : i ∈ covered cfg p.cmd) : ∃ b, (cs.bankStates i).updateState cfg p.cmd = .ok b := by
  cases h with
  | column hrw hopen =>
    obtain ⟨h₁, h₂⟩ := not_multi_of_isReadWrite hrw
    rw [covered_single h₁ h₂, List.mem_singleton] at hi
    subst hi
    exact BankState.updateState_of_open hopen (.inl hrw)
  | precharge hty hopen =>
    rw [covered_single (by simp [Command.isRankCMD, hty]) (by simp [Command.isSbCMD, hty]),
      List.mem_singleton] at hi
    subst hi
    exact BankState.updateState_of_open hopen (.inr (.inl hty))
  | activate hty hclosed =>
    rw [covered_single (by simp [Command.isRankCMD, hty]) (by simp [Command.isSbCMD, hty]),
      List.mem_singleton] at hi
    subst hi
    exact BankState.updateState_of_closed hclosed (.inl hty)
  | maintain hcmd _ hall =>
    exact BankState.updateState_of_closed (hall i hi).1
      (.inr (hcmd.imp_right (Or.imp_right .inl)))
  | @prechargeAll served _ _ _ _ hm =>
    have hty : BankState.prechargeFor served = .preAb ∨ BankState.prechargeFor served = .preSb := by
      unfold BankState.prechargeFor
      split_ifs with h₁ h₂
      · exact .inl rfl
      · exact .inr rfl
      · simp [h₁, h₂] at hm
    rcases hreg.rows hen i with hs | hs
    · exact BankState.updateState_of_open hs (.inr (.inr hty))
    · exact BankState.updateState_of_closed hs (.inr (.inr (.inr (.inr hty))))
  | sref h => simp [hen] at h
  | hydraRFM h => exact absurd h hmode

theorem Granted.ne_size (h : Granted cfg cs clk p) (hen : cfg.enableSelfRefresh = false) :
    p.cmd.cmdType ≠ .size := by
  intro hty
  cases h with
  | column hrw | maintain hcmd =>
    simp_all [Command.isReadWrite, Command.isRead, Command.isWrite, Command.isRefresh,
      Command.isRFM, Command.isDRFM]
  | precharge h | activate h => simp [h] at hty
  | prechargeAll =>
    simp only [BankState.prechargeFor] at hty
    split_ifs at hty
  | sref h => simp [hen] at h
  | hydraRFM _ h => simp_all [Command.isRFM]

/-- A refresh, RFM or DRFM is only chosen as the request it was asked for. -/
theorem Granted.origin_of_maintenance (h : Granted cfg cs clk p)
    (hen : cfg.enableSelfRefresh = false) (hmode : cfg.hydraMode ≠ 1)
    (hp : p.cmd.isRefresh ∨ p.cmd.isRFM ∨ p.cmd.isDRFM) :
    p.origin = .refresh p.cmd ∨ p.origin = .rfm p.cmd := by
  cases h with
  | @column cmd _ hrw =>
    obtain ⟨ty, _, _⟩ := cmd
    cases ty <;> simp_all [Command.isReadWrite, Command.isRead, Command.isWrite, Command.isRefresh,
      Command.isRFM, Command.isDRFM]
  | precharge hty | activate hty =>
    simp [Command.isRefresh, Command.isRFM, Command.isDRFM, hty] at hp
  | maintain _ ho => exact ho
  | prechargeAll =>
    simp only [BankState.prechargeFor, Command.isRefresh, Command.isRFM, Command.isDRFM] at hp
    split_ifs at hp <;> simp at hp
  | sref h => simp [hen] at h
  | hydraRFM h => exact absurd h hmode

/-- A request of a queue is one its banks answer. -/
theorem Asks.serves {cmd : Command} {origin : Origin} (hreg : Regular cfg cs)
    (hen : cfg.enableSelfRefresh = false) (h : Asks cfg cs cmd origin) : BankState.Serves cmd := by
  unfold BankState.Serves
  rcases h.cases_type hreg with ⟨h, _⟩ | ⟨h, _⟩ | ⟨h, _⟩
  · exact .inl h
  · exact .inr (h.imp_right (Or.imp_right .inl))
  · simp [hen] at h

end Chan

namespace Micro
open Controller
variable {cfg : Config} {π : Policy} {m m' : Micro}

/-- A refresh or RFM in service waits at the front of its queue; the one that is chosen has left
service. -/
structure Serving (m : Micro) : Prop where
  ref : m.ctl.cmdQueue.isInRef → m.ctl.channelState.refreshQ ≠ []
  rfm : m.ctl.cmdQueue.isInRfm → m.ctl.channelState.rfmQ ≠ []
  chosenRef : ∀ p, m.ticket = some p → p.cmd.isRefresh →
    m.ctl.cmdQueue.isInRef = false ∧ m.ctl.cmdQueue.isInRfm = false
  chosenRfm : ∀ p, m.ticket = some p → p.cmd.isRFM ∨ p.cmd.isDRFM → m.ctl.cmdQueue.isInRfm = false

theorem Serving.of_queried {cs' : ChannelState} {c : Controller} {issued issued' : List Command}
    (hm : Serving ⟨c, none, issued⟩) (h : ChannelState.Queried cfg c.channelState cs') :
    Serving ⟨c.withChannel cs', none, issued'⟩ := by
  obtain ⟨extra, hrfmQ, _⟩ := h.rfmQ
  refine ⟨fun hin => ?_, fun hin hnil => ?_, fun _ hp => (nomatch hp), fun _ hp => nomatch hp⟩
  · exact fun hnil => hm.ref hin (h.refreshQ ▸ hnil)
  · have : c.channelState.rfmQ ++ extra = [] := hrfmQ ▸ hnil
    exact hm.rfm hin (List.append_eq_nil_iff.mp this).1

theorem Serving.step (hen : cfg.enableSelfRefresh = false) (hmode : cfg.hydraMode ≠ 1)
    (hr : Chan.Ready cfg m.chan) (hr' : Chan.Ready cfg m'.chan) (hm : Serving m)
    (h : Step cfg π m m') : Serving m' := by
  have hnone (c : Controller) (issued : List Command)
      (h₁ : c.cmdQueue.isInRef → c.channelState.refreshQ ≠ [])
      (h₂ : c.cmdQueue.isInRfm → c.channelState.rfmQ ≠ []) : Serving ⟨c, none, issued⟩ :=
    ⟨h₁, h₂, fun _ hp => (nomatch hp), fun _ hp => nomatch hp⟩
  cases h with
  | others | rotate | endTick => exact hnone _ _ hm.ref hm.rfm
  | drop => exact hnone _ _ hm.ref hm.rfm
  | @accept c addr isWrite =>
    obtain ⟨_, _, _, _, _, _, _, heq⟩ := c.addTransaction_eq cfg addr isWrite
    rw [heq]
    exact hnone _ _ hm.ref hm.rfm
  | returnDone c clk =>
    obtain ⟨_, _, heq⟩ := c.returnDoneTrans_eq clk
    rw [heq]
    exact hnone _ _ hm.ref hm.rfm
  | refreshTick c =>
    rcases c.refresh.clockTick_eq cfg c.channelState with h | ⟨req, _, h⟩
    · refine hnone _ _ ?_ ?_ <;> simp only [Controller.refreshTick, h]
      · exact hm.ref
      · exact hm.rfm
    · refine hnone _ _ ?_ ?_ <;> simp only [Controller.refreshTick, h]
      · simp [ChannelState.addRefresh]
      · exact hm.rfm
  | channelTick c => exact hm.of_queried ChannelState.queried_clockTick
  | startRefresh hq => exact hnone _ _ (fun _ => by simp [withCmdQueue, hq]) hm.rfm
  | startRFM hq => exact hnone _ _ hm.ref (fun _ => by simp [withCmdQueue, hq])
  | query _ h => exact hm.of_queried (ChannelState.getReadyCommand_answer h).queried
  | hydraQuery h => exact hm.of_queried (ChannelState.queried_getReadyHydraCommand h)
  | @pickMaintenance c cmd origin r cs' hs ho _ h =>
    have hqd : Serving ⟨c.withChannel cs', none, []⟩ :=
      hm.of_queried (ChannelState.getReadyCommand_answer h).queried
    have hg := hr'.ticket _ rfl
    cases hs with
    | refresh hq hin hrfm =>
      refine ⟨fun hin' => ?_, fun hin' => ?_, fun p hp hcmd => ?_, fun p hp _ => ?_⟩
      · exact hqd.ref hin
      · simp only [settled, withCmdQueue] at hin'
        split_ifs at hin'
        · rw [hrfm] at hin'
          cases hin'
        · exact hqd.rfm hin'
      · cases hp
        simp [settled, withCmdQueue, hcmd, hrfm]
      · simp only [settled, withCmdQueue]
        split_ifs <;> exact hrfm
    | rfm hq hin =>
      refine ⟨fun hin' => ?_, fun _ => hqd.rfm hin, fun p hp hcmd => ?_, fun p hp hcmd => ?_⟩
      · simp only [settled, withCmdQueue] at hin'
        split_ifs at hin' <;> exact hqd.ref hin'
      · cases hp
        rcases hg.origin_of_maintenance hen hmode (.inl hcmd) with hor | hor
        · cases hor
        · obtain rfl : cmd = r := by injection hor
          rcases hr.regular.rfmQ cmd (by simp [Micro.chan, hq]) with hbad | hbad
          · simp [ChannelState.not_isRefresh_of_isRFM hbad] at hcmd
          · simp [ChannelState.not_isRefresh_of_isDRFM hbad] at hcmd
      · cases hp
        have : r.isRFM || r.isDRFM := by simpa using hcmd
        simp [settled, withCmdQueue, this]
    | demand => exact absurd rfl ho
    | sref _ hsref => simp [hen] at hsref
  | @pickQueued c issued p cs' q' _ hc hq =>
    have hg := hr'.ticket p rfl
    have hqd : Serving ⟨c.withChannel cs', none, issued⟩ := by
      cases hc with
      | hydra h => exact hm.of_queried (ChannelState.queried_getReadyHydraCommand h)
      | demand _ _ h => exact hm.of_queried (ChannelState.getReadyCommand_answer h).queried
    have hflags : q'.isInRef = c.cmdQueue.isInRef ∧ q'.isInRfm = c.cmdQueue.isInRfm := by
      unfold Taken at hq
      split_ifs at hq
      · obtain ⟨qs, rfl⟩ := CommandQueue.eraseRWCommand_eq hq
        exact ⟨rfl, rfl⟩
      · subst hq
        exact ⟨rfl, rfl⟩
    have horigin : ∀ cmd, p.origin ≠ .refresh cmd ∧ p.origin ≠ .rfm cmd := by
      cases hc <;> simp
    refine ⟨fun hin => hqd.ref (hflags.1 ▸ hin), fun hin => hqd.rfm (hflags.2 ▸ hin),
      fun p' hp hcmd => ?_, fun p' hp hcmd => ?_⟩
    · cases hp
      have := hg.origin_of_maintenance hen hmode (.inl hcmd)
      exact absurd this (by simp [horigin])
    · cases hp
      have := hg.origin_of_maintenance hen hmode (.inr hcmd)
      exact absurd this (by simp [horigin])
  | @issue c p issued c' h =>
    obtain ⟨_, _, _, cs', hcs, rfl⟩ := issueCommand_frame h
    have hi := ChannelState.updateTimingAndStates_issued hcs
    refine hnone _ _ (fun hin => ?_) fun hin => ?_
    · by_cases hcmd : p.cmd.isRefresh
      · rw [(hm.chosenRef p rfl hcmd).1] at hin
        cases hin
      · rw [hi.refreshQ_eq (by simpa using hcmd)]
        exact hm.ref hin
    · by_cases hcmd : p.cmd.isRefresh
      · rw [(hm.chosenRef p rfl hcmd).2] at hin
        cases hin
      · by_cases hrfm : p.cmd.isRFM ∨ p.cmd.isDRFM
        · rw [hm.chosenRfm p rfl hrfm] at hin
          cases hin
        · rw [hi.rfmQ_eq (by simpa [not_or] using And.intro hcmd hrfm)]
          exact hm.rfm hin
  | powerUpdate c =>
    obtain ⟨f, heq⟩ := c.powerUpdate_eq cfg
    rw [heq]
    exact hnone _ _ hm.ref hm.rfm
  | schedule c =>
    obtain ⟨_, _, _, _, _, _, heq⟩ := c.scheduleTransaction_frame cfg
    rw [heq]
    exact hnone _ _ hm.ref hm.rfm

theorem Reached.serving (hen : cfg.enableSelfRefresh = false) (hmode : cfg.hydraMode ≠ 1)
    (h : Reached cfg π m) : Serving m := by
  have : Reached cfg π m ∧ Serving m := by
    refine h.induct (P := fun m => Reached cfg π m ∧ Serving m) (fun boot => ⟨⟨boot, .refl⟩, ?_⟩)
      fun m m' hm hs => ?_
    · exact ⟨fun h => (nomatch h), fun h => (nomatch h), fun _ h => (nomatch h), fun _ h => nomatch h⟩
    · obtain ⟨boot, hb⟩ := hm.1
      have hr' : Reached cfg π m' := ⟨boot, hb.tail hs⟩
      exact ⟨hr', hm.2.step hen hmode hm.1.ready hr'.ready hs⟩
  exact this.2

end Micro

/-- Every issued command is legal in every bank it acts on, as it found them. -/
def Chan.AllLegal (cfg : Config) (cs : ChannelState) : Prop :=
  ∀ cmd t o found, .issue cmd t o found ∈ cs.log → ∀ i ∈ ChannelState.covered cfg cmd,
    ∃ b, (found i).updateState cfg cmd = .ok b

theorem Chan.AllLegal.step {cfg : Config} {π : Micro.Policy} {v v' : Chan}
    (hv : AllLegal cfg v.cs) (h : Chan.Step cfg π v v') : AllLegal cfg v'.cs := by
  intro cmd t o found hmem i hi
  rcases h.log_mem hmem with hmem | hquiet | ⟨p, _, hissued, hissue⟩
  · exact hv cmd t o found hmem i hi
  · cases hquiet
  · cases hissue
    obtain ⟨b, hb, _⟩ := hissued.legal i hi
    exact ⟨b, hb⟩

/-- With a queue for every bank each maintenance command finds the queues it blocks. -/
theorem CommandQueue.maintenanceQIndices_perBank {cfg : Config} (hqueue : cfg.queueStructure = .perBank)
    (cmd : Command) : ∃ idx, maintenanceQIndices cfg cmd = .ok idx := by
  unfold maintenanceQIndices
  rw [hqueue]
  dsimp only
  split_ifs <;> exact ⟨_, rfl⟩

/-- No failing step ends the process at an illegal command, if the queues can take the requests. -/
theorem Micro.Fails.not_abrupt {cfg : Config} {π : Micro.Policy} {m : Micro} {e : Exit}
    (hen : cfg.enableSelfRefresh = false) (hmode : cfg.hydraMode ≠ 1)
    (hpol : ChannelState.KnownPolicies cfg)
    (hqueues : ∀ req ∈ m.ctl.channelState.refreshQ ++ m.ctl.channelState.rfmQ,
      ∃ idx, CommandQueue.maintenanceQIndices cfg req = .ok idx)
    (hm : Micro.Reached cfg π m) (h : Micro.Fails cfg m e) :
    e = .notInReadQueue ∨ e = .notInWriteQueue ∨ e = .cannotFindCmd := by
  have hready := hm.ready
  have hserving := hm.serving hen hmode
  have hwell := hm.wellQueued
  cases h with
  | noRefresh hin _ hq => exact absurd hq (hserving.ref hin)
  | noRFM hin hq => exact absurd hq (hserving.rfm hin)
  | start hreq h =>
    obtain ⟨idx, hidx⟩ := hqueues _ (List.mem_append.mpr hreq)
    rw [hidx] at h
    cases h
  | query hs h =>
    obtain ⟨i, hi⟩ := (ChannelState.getReadyCommand_error h).resolve_left fun h => h.2 hpol
    exact absurd hi (BankState.requiredType_ne_error (hready.regular.rows hen i)
      ((hs.asks hwell).serves hready.regular hen) e)
  | @hydraQuery c _ _ h =>
    obtain ⟨h₁, h₂, h₃⟩ := hready.regular.hydraOff hmode
    have hoff : c.channelState.getReadyHydraCommand cfg c.clk = .ok (none, c.channelState) :=
      ChannelState.getReadyHydraCommand_off h₃ h₁ h₂
    rw [hoff] at h
    cases h
  | erase _ _ h =>
    unfold CommandQueue.eraseRWCommand at h
    dsimp only at h
    split_ifs at h
    cases h
    exact .inr (.inr rfl)
  | issue h =>
    have hg := hready.ticket _ rfl
    rcases Controller.issueCommand_error h with ⟨_, _, _, rfl⟩ | ⟨_, _, _, rfl⟩ | ⟨hsize, _⟩ | h
    · exact .inl rfl
    · exact .inr (.inl rfl)
    · exact absurd hsize (hg.ne_size hen)
    · obtain ⟨i, hi, h⟩ := ((ChannelState.updateTimingAndStates_error h).resolve_left
        fun h => h.2 hpol).resolve_left fun h => hg.ne_size hen h.1
      obtain ⟨b, hb⟩ := hg.legal hready.regular hen hmode hi
      rw [Micro.chan] at hb
      rw [hb] at h
      cases h

/-- Without self-refresh and Hydra, with one queue per bank and known policies, no run ends in an
`AbruptExit`, in an unsupported queue structure or at an empty maintenance queue, and every
command it issues is legal in every bank it acts on. -/
theorem no_illegal_command {cfg : Config} (hen : cfg.enableSelfRefresh = false)
    (hmode : cfg.hydraMode = 0) (hqueue : cfg.queueStructure = .perBank)
    (hpol : ChannelState.KnownPolicies cfg) (boot : Boot cfg) (inputs : List Input) :
    (∀ e, Controller.run cfg boot.controller inputs = .error e →
      (∀ site, e ≠ .abruptExit site) ∧ e ≠ .runtimeError ∧ e ≠ .emptyFront) ∧
    ∀ c, Controller.run cfg boot.controller inputs = .ok c → Chan.AllLegal cfg c.channelState := by
  have hne : cfg.hydraMode ≠ 1 := by omega
  refine ⟨fun e he => ?_, fun c hc => ?_⟩
  · obtain ⟨m, hm, hfail⟩ := Micro.fails_of_run (Micro.meets_free _ _) he
    have hqueues := fun req (_ : req ∈ m.ctl.channelState.refreshQ ++ m.ctl.channelState.rfmQ) =>
      CommandQueue.maintenanceQIndices_perBank hqueue req
    rcases hfail.not_abrupt hen hne hpol hqueues hm with rfl | rfl | rfl <;> simp
  · have hr := Micro.reached_of_run (Micro.meets_free _ _) hc
    exact hr.chan_induct (P := fun v => Chan.AllLegal cfg v.cs) (fun _ _ _ _ _ h => nomatch h)
      fun _ _ hv hs => hv.step hs

/-- A refresh every twenty cycles, and refresh management of the rank after every two activations. -/
def maintainedConfig : Config :=
  { smallConfig with
    refreshPolicy := .rankLevelSimultaneous, tREFI := 20, rfmMode := 2, raaimt := 2, raammt := 2
    refRaaDecrement := 1, rfmRaaDecrement := 2 }

/-- Row conflicts, an RFMab and a REFab behind a PREab. -/
theorem no_illegal_command_small : ∃ c,
    Controller.run maintainedConfig ({} : Boot maintainedConfig).controller
      (Input.request 0 false 4 ++ Input.request 2 false 4 ++ Input.request 4 false 6 ++
        Input.request 0 false 9) = .ok c ∧
    c.channelState.log.filterMap (fun e => e.issued?.map (·.1)) =
      [.refAb, .preAb, .read, .activate, .precharge, .read, .activate, .rfmAb, .precharge, .read,
        .activate, .precharge, .read, .activate] ∧
    Chan.AllLegal maintainedConfig c.channelState := by
  obtain ⟨c, hrun, hc⟩ := exists_ok_of_any
    (x := Controller.run maintainedConfig ({} : Boot maintainedConfig).controller
      (Input.request 0 false 4 ++ Input.request 2 false 4 ++ Input.request 4 false 6 ++
        Input.request 0 false 9))
    (p := fun c => c.channelState.log.filterMap (fun e => e.issued?.map (·.1)) =
      [.refAb, .preAb, .read, .activate, .precharge, .read, .activate, .rfmAb, .precharge, .read,
        .activate, .precharge, .read, .activate]) (by decide +kernel)
  exact ⟨c, hrun, of_decide_eq_true hc,
    (no_illegal_command rfl rfl rfl ⟨.inl rfl, .inl rfl, .inl rfl⟩ {} _).2 c hrun⟩

end CactusDram
