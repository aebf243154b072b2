import CactusDram.IdleChannel
import CactusDram.ActivationWindows
import CactusDram.RowCycle
import CactusDram.Ledger
import CactusDram.SystemRules

/-! The latency of a read that finds the system idle: it waits for its command queue, for the activation
of its row, for the delay of that to the READ and for the delay of the READ. -/
namespace CactusDram
open Foundations Relation

namespace ChannelState
variable {cfg : Config} {cs cs' : ChannelState} {cmd r : Command} {clk a : ℕ}

theorem not_maintenance_of_isRead (h : cmd.isRead) : cmd.isRankCMD = false ∧ cmd.isSbCMD = false := by
  obtain ⟨ty, _, _⟩ := cmd
  cases ty <;> simp_all [Command.isRead, Command.isRankCMD, Command.isSbCMD]

/-- A READ of a closed bank is answered with the activation of its row. -/
theorem getReadyCommand_closed (hu : cfg.Untracked) (hpol : KnownPolicies cfg) (hoff : HydraOff cs)
    (hcmd : cmd.isRead) (hclosed : (cs.bankStates cmd.bankId).state = .closed)
    (hfree : (cs.bankStates cmd.bankId).drfmIssued = false)
    (htiming : (cs.bankStates cmd.bankId).cmdTiming .activate ≤ clk)
    (hwindow : cs.activationWindowOk cfg cmd.rank clk) :
    ∃ cs', cs.getReadyCommand cfg cmd clk = .ok (some (activation cmd), cs') := by
  obtain ⟨hrank, hsb⟩ := not_maintenance_of_isRead hcmd
  have hrequired : (cs.bankStates cmd.bankId).requiredType cfg cmd = .ok (some .activate) := by
    unfold BankState.requiredType
    rw [hclosed, hfree, hu.rfm]
    obtain ⟨ty, _, _⟩ := cmd
    cases ty <;> simp_all [Command.isRead]
  have hb : (cs.bankStates cmd.bankId).getReadyCommand cfg cmd clk = .ok (some (activation cmd)) :=
    BankState.getReadyCommand_some_iff.mpr ⟨_, hrequired, htiming, rfl⟩
  have hsampler : (cs.bankStates cmd.bankId).isSamplerFull cfg = false := by
    simp [BankState.isSamplerFull, hu.drfm]
  have hcheck : cs.hydraCheck cfg cmd = (true, cs) := hydraCheck_off (by rw [hu.hydra]; decide)
  have hready : cs.getReadyCommand cfg cmd clk = cs.readyActivate cfg cmd (activation cmd) clk := by
    unfold getReadyCommand
    rw [hrank, hsb, hb, hoff.1, hoff.2.2]
    rfl
  have hopen : cs.activationWindowOk cfg (activation cmd).rank clk = true := hwindow
  rw [hready]
  cases hhook : cs.preactHooks cfg cmd clk with
  | error e => exact absurd hpol (preactHooks_error hhook).2
  | ok p =>
    obtain ⟨_ | _, cs₁⟩ := p
    · refine ⟨cs₁, ?_⟩
      unfold readyActivate
      simp [hopen, hsampler, hcheck, hhook, bind, Except.bind]
    · exact absurd hu.drfm (preactHooks_full_mode hhook)

/-- A READ of the open row is answered with itself, once its delay has passed. -/
theorem getReadyCommand_open (hoff : HydraOff cs) (hcmd : cmd.isRead)
    (hopen : (cs.bankStates cmd.bankId).state = .open)
    (hrow : (cs.bankStates cmd.bankId).openRow = cmd.row) :
    cs.getReadyCommand cfg cmd clk =
      .ok (if (cs.bankStates cmd.bankId).cmdTiming cmd.cmdType ≤ clk then some cmd else none, cs) := by
  obtain ⟨hrank, hsb⟩ := not_maintenance_of_isRead hcmd
  have hrequired : (cs.bankStates cmd.bankId).requiredType cfg cmd = .ok (some cmd.cmdType) := by
    unfold BankState.requiredType
    rw [hopen, hrow]
    obtain ⟨ty, _, _⟩ := cmd
    cases ty <;> simp_all [Command.isRead]
  have hb : (cs.bankStates cmd.bankId).getReadyCommand cfg cmd clk =
      .ok (if (cs.bankStates cmd.bankId).cmdTiming cmd.cmdType ≤ clk then some cmd else none) := by
    unfold BankState.getReadyCommand
    rw [hrequired]
    simp only [bind, Except.bind]
    split_ifs <;> rfl
  unfold getReadyCommand
  rw [hrank, hsb, hb, hoff.1, hoff.2.2]
  by_cases hle : (cs.bankStates cmd.bankId).cmdTiming cmd.cmdType ≤ clk
  · rw [if_pos hle]
    obtain ⟨ty, _, _⟩ := cmd
    cases ty <;> first | rfl | cases hcmd
  · rw [if_neg hle]
    rfl

/-- An activation opens the row and holds its READ back for the delay. -/
theorem activation_opens {origin : Origin} (hcmd : cmd.isRead) (ha : cfg.activateToRead = a)
    (hclosed : (cs.bankStates cmd.bankId).state = .closed)
    (htiming : (cs.bankStates cmd.bankId).cmdTiming cmd.cmdType ≤ clk)
    (h : cs.updateTimingAndStates cfg (activation cmd) clk origin = .ok cs') :
    (cs'.bankStates cmd.bankId).state = .open ∧ (cs'.bankStates cmd.bankId).openRow = cmd.row ∧
      (cs'.bankStates cmd.bankId).cmdTiming cmd.cmdType = clk + a := by
  have hissued := updateTimingAndStates_issued h
  have hcovered : covered cfg (activation cmd) = [cmd.bankId] := rfl
  obtain ⟨b, hb, hstate, hrow⟩ := hissued.legal cmd.bankId (by rw [hcovered]; exact List.mem_singleton_self _)
  have hupdate : b = ({ cs.bankStates cmd.bankId with
      lastCmd := some (activation cmd) } : BankState).activated cfg (activation cmd) := by
    unfold BankState.updateState at hb
    dsimp only at hb
    rw [hclosed] at hb
    exact (Except.ok.inj hb).symm
  have hdelay : addDelay clk cfg.activateToRead = clk + a := by
    rw [ha, Chan.addDelay_nonneg clk (Int.natCast_nonneg a), Int.toNat_natCast]
  have hface : b.face = ⟨.open, cmd.row, (cs.bankStates cmd.bankId).cmdTiming⟩ := by
    rw [hupdate, BankState.activated_face]
    rfl
  have hself : (cmd.cmdType, cfg.activateToRead) ∈ cfg.sameBank .activate := by
    obtain ⟨ty, _, _⟩ := cmd
    cases ty <;> simp_all [Command.isRead, Config.sameBank, Config.columnDelays]
  have hreadDelay {d : ℤ} (hd : (cmd.cmdType, d) ∈ cfg.sameBank .activate) : d = cfg.activateToRead := by
    obtain ⟨ty, _, _⟩ := cmd
    cases ty <;> simp_all [Command.isRead, Config.sameBank, Config.columnDelays, Config.prechargeDelays]
  refine ⟨hstate.trans (congrArg BankState.Face.state hface),
    hrow.trans (congrArg BankState.Face.openRow hface), le_antisymm ?_ ?_⟩
  · refine updateTimingAndStates_cmdTiming_le h (htiming.trans (Nat.le_add_right _ _)) fun u hu hi hty => ?_
    obtain ⟨i, ty, d⟩ := u
    obtain rfl : i = cmd.bankId := hi
    obtain rfl : ty = cmd.cmdType := hty
    obtain ⟨banks, delays, hdelays, hbank, hd⟩ : ∃ (banks : List BankId) (delays : List (CommandType × ℤ)),
        (delays = cfg.sameBank .activate ∨ cmd.bankId ∉ banks) ∧ cmd.bankId ∈ banks ∧
          (cmd.cmdType, d) ∈ delays := by
      have hmem : (cmd.bankId, cmd.cmdType, d) ∈
          updateSameBankTiming cmd.addr (cfg.sameBank .activate) ++
          updateOtherBanksSameBankgroupTiming cfg cmd.addr (cfg.otherBanksSameBankgroup .activate) ++
          updateOtherBankgroupsSameRankTiming cfg cmd.addr (cfg.otherBankgroupsSameRank .activate) ++
          updateOtherRanksTiming cfg cmd.addr (cfg.otherRanks .activate) := hu
      have hon {banks : List BankId} {delays : List (CommandType × ℤ)}
          (h : (cmd.bankId, cmd.cmdType, d) ∈ onBanks banks delays) :
          cmd.bankId ∈ banks ∧ (cmd.cmdType, d) ∈ delays := by
        simpa [onBanks] using h
      simp only [List.mem_append] at hmem
      obtain ((hmem | hmem) | hmem) | hmem := hmem
      · exact ⟨_, _, .inl rfl, hon hmem⟩
      · refine ⟨_, _, .inr fun hbank => ?_, hon hmem⟩
        simp [Command.bankId, Address.bankId] at hbank
      · refine ⟨_, _, .inr fun hbank => ?_, hon hmem⟩
        simp [Command.bankId, Address.bankId] at hbank
      · exact absurd (hon hmem).2 List.not_mem_nil
    obtain rfl | hout := hdelays
    · rw [hreadDelay hd, hdelay]
    · exact absurd hbank hout
  · rw [← hdelay]
    exact hissued.timing (cmd.bankId, cmd.cmdType, cfg.activateToRead)
      (mem_timingUpdates_sameBank (.inl rfl) hself)

end ChannelState

namespace CommandQueue
variable {cfg : Config} {cs cs' : ChannelState} {cmd r : Command} {clk : ℕ}

theorem getFirstReadyInQueue_none (hoff : ChannelState.HydraOff cs)
    (h : cs.getReadyCommand cfg cmd clk = .ok (none, cs)) :
    getFirstReadyInQueue cfg clk [] [cmd] cs = .ok (none, cs) := by
  unfold getFirstReadyInQueue
  rw [ChannelState.getReadyHydraCommand_off hoff.2.2 hoff.1 hoff.2.1]
  simp only [bind, Except.bind]
  rw [h]
  rfl

theorem getFirstReadyInQueue_some (hoff : ChannelState.HydraOff cs)
    (h : cs.getReadyCommand cfg cmd clk = .ok (some r, cs')) (hpre : r.cmdType ≠ .precharge)
    (hwrite : r.isWrite = false) :
    getFirstReadyInQueue cfg clk [] [cmd] cs = .ok (some ⟨r, .demand⟩, cs') := by
  unfold getFirstReadyInQueue
  rw [ChannelState.getReadyHydraCommand_off hoff.2.2 hoff.1 hoff.2.1]
  simp only [bind, Except.bind]
  rw [h]
  simp [hpre, hwrite]

end CommandQueue

/-- What the latency depends on: no trackers, RFMs, alerts or self-refresh, policies that are known, room
for one request in every queue, and a first refresh after the READ. -/
structure ReadSetting (cfg : Config) (a r : ℕ) : Prop where
  untracked : cfg.Untracked
  awake : cfg.enableSelfRefresh = false
  policies : ChannelState.KnownPolicies cfg
  transQueue : 0 < cfg.transQueueSize
  cmdQueue : 0 < cfg.cmdQueueSize
  activate : cfg.activateToRead = a
  activate_pos : 1 ≤ a
  read : cfg.readDelay = r
  read_pos : 1 ≤ r
  interval : a + 1 < Refresh.refreshInterval cfg
  interval_lt : Refresh.refreshInterval cfg < 2 ^ 64

theorem ReadSetting.hydraMode {cfg : Config} {a r : ℕ} (hs : ReadSetting cfg a r) : cfg.hydraMode ≠ 1 := by
  rw [hs.untracked.hydra]
  decide

namespace Controller
variable {cfg : Config} {c c' : Controller} {a r n : ℕ} {addr : HexAddr} {cmd : Command}

/-- No refresh has been asked for before cycle `n`. -/
structure Unrefreshed (c : Controller) (n : ℕ) : Prop where
  clk : c.clk = n
  timer : c.refresh.clk = n
  refreshQ : c.channelState.refreshQ = []

/-- The bank of an address has seen no command, and its rank no activation. -/
structure Fresh (cfg : Config) (addr : HexAddr) (c : Controller) : Prop where
  closed : (c.channelState.bankStates (cfg.addressMapping addr).bankId).state = .closed
  free : (c.channelState.bankStates (cfg.addressMapping addr).bankId).drfmIssued = false
  timing : ∀ ty, (c.channelState.bankStates (cfg.addressMapping addr).bankId).cmdTiming ty = 0
  window : ∀ clk, c.channelState.activationWindowOk cfg (cfg.addressMapping addr).rank clk

/-- The READ of an address waits in its command queue, and nothing else waits anywhere. -/
structure Loaded (cfg : Config) (addr : HexAddr) (cmd : Command) (c : Controller) : Prop where
  isRead : cmd.isRead
  hexAddr : cmd.hexAddr = addr
  mapped : cmd.addr = cfg.addressMapping addr
  lanes : ∀ l, c.laneQueue l = []
  queues : c.cmdQueue.queues = Function.update (fun _ => []) (cfg.queueOf addr) [cmd]
  inTurn : c.cmdQueue.InTurn cfg
  pending : ∃ t, c.pendingRdQ = [t] ∧ t.callback = ⟨addr, false⟩
  returning : c.returnQueue = []

/-- How far a read has come at the start of cycle `n`. -/
inductive Phase (cfg : Config) (a r : ℕ) (addr : HexAddr) (c : Controller) : ℕ → Prop
  | arrived {t : Transaction} (h : c.Unrefreshed 0) (hfresh : c.Fresh cfg addr)
      (ht : t.callback = ⟨addr, false⟩)
      (hlanes : c.laneQueue = Function.update (fun _ => []) (cfg.laneOf t) [t])
      (hqueues : ∀ idx, c.cmdQueue.queues idx = []) (hturn : c.cmdQueue.InTurn cfg)
      (hpending : c.pendingRdQ = [t]) (hreturn : c.returnQueue = []) (hdraining : c.writeDraining = 0) :
      Phase cfg a r addr c 0
  | queued {cmd : Command} (h : c.Unrefreshed 1) (hfresh : c.Fresh cfg addr)
      (hload : c.Loaded cfg addr cmd) : Phase cfg a r addr c 1
  | opened {cmd : Command} {n : ℕ} (h : c.Unrefreshed n) (hn : 2 ≤ n ∧ n ≤ a + 1)
      (hload : c.Loaded cfg addr cmd)
      (hopen : (c.channelState.bankStates cmd.bankId).state = .open)
      (hrow : (c.channelState.bankStates cmd.bankId).openRow = cmd.row)
      (htiming : (c.channelState.bankStates cmd.bankId).cmdTiming cmd.cmdType = a + 1) :
      Phase cfg a r addr c n
  | served {t : Transaction} {n : ℕ} (hn : a + 2 ≤ n ∧ n ≤ a + 1 + r) (hidle : c.Idle)
      (hreturn : c.returnQueue = [t]) (ht : t.callback = ⟨addr, false⟩)
      (hcomplete : t.completeCycle = a + 1 + r) : Phase cfg a r addr c n
  | answered {n : ℕ} (hn : a + 1 + r < n) (hidle : c.Idle) (hreturn : c.returnQueue = []) :
      Phase cfg a r addr c n

/-- Up to the READ the refresh timer asks for nothing. -/
theorem Unrefreshed.ticked (hs : ReadSetting cfg a r) (h : c.Unrefreshed n) (hn : n ≤ a + 1)
    (hu : c.channelState.Undemanding) : Micro.ticked cfg c =
      { c with refresh := { c.refresh with clk := c.refresh.clk + 1 } } := by
  have hinterval : u64 (Refresh.refreshInterval cfg) = (Refresh.refreshInterval cfg).toNat := by
    have hpos := hs.interval
    rw [u64, Int.emod_eq_of_lt (by omega) hs.interval_lt]
  have hnot : ¬ (c.refresh.clk % u64 (Refresh.refreshInterval cfg) = 0 ∧ 0 < c.refresh.clk) := by
    rintro ⟨hmod, hpos⟩
    have hlt : c.refresh.clk < u64 (Refresh.refreshInterval cfg) := by
      have hlarge := hs.interval
      rw [hinterval, h.timer]
      omega
    rw [Nat.mod_eq_of_lt hlt] at hmod
    omega
  have hrefresh : c.refreshTick cfg = { c with refresh := { c.refresh with clk := c.refresh.clk + 1 } } := by
    unfold refreshTick Refresh.clockTick
    rw [if_neg hnot]
  unfold Micro.ticked channelTick
  rw [hrefresh]
  dsimp only
  rw [ChannelState.clockTick_undemanding hs.untracked.cactus hu]

theorem Unrefreshed.flags (hs : ReadSetting cfg a r) (hreached : Micro.Reached cfg .free (Micro.rest c))
    (h : c.Unrefreshed n) : c.cmdQueue.isInRef = false ∧ c.cmdQueue.isInRfm = false := by
  have hserving := hreached.serving hs.awake hs.hydraMode
  constructor
  · cases hin : c.cmdQueue.isInRef with
    | false => rfl
    | true => exact absurd h.refreshQ (hserving.ref hin)
  · cases hin : c.cmdQueue.isInRfm with
    | false => rfl
    | true => exact absurd (hreached.undemanding hs.untracked).1 (hserving.rfm hin)

/-- Without a refresh a tick chooses among the queued requests, issues and schedules. -/
theorem Unrefreshed.clockTick (hs : ReadSetting cfg a r) (hreached : Micro.Reached cfg .free (Micro.rest c))
    (h : c.Unrefreshed n) (hn : n ≤ a + 1) (htick : c.clockTick cfg = .ok c') :
    ∃ pick c₁ c₂, demand cfg { c with refresh := { c.refresh with clk := c.refresh.clk + 1 } } =
      .ok (pick, c₁) ∧ c₁.issueSelected cfg pick = .ok c₂ ∧
      c' = ((c₂.powerUpdate cfg).scheduleTransaction cfg).endTick := by
  have hu := hreached.undemanding hs.untracked
  have hticked := h.ticked hs hn hu
  obtain ⟨href, hrfm⟩ := h.flags hs hreached
  obtain ⟨⟨pick, c₁⟩, hselect, htick⟩ := bind_ok_iff.mp htick
  obtain ⟨c₂, hissue, htick⟩ := bind_ok_iff.mp htick
  obtain ⟨c₃, hidle, htick⟩ := bind_ok_iff.mp htick
  cases htick
  have hmaintenance : (Micro.ticked cfg c).maintenance cfg = .ok (none, Micro.ticked cfg c) := by
    rw [hticked]
    unfold maintenance
    have hrfmQ : c.channelState.rfmQ = [] := hu.1
    dsimp only
    rw [hrfm, href, h.refreshQ, hrfmQ]
    rfl
  unfold selectCommand at hselect
  change ((Micro.ticked cfg c).maintenance cfg >>= _) = _ at hselect
  rw [hmaintenance, hticked] at hselect
  refine ⟨pick, c₁, c₂, hselect, hissue, ?_⟩
  unfold idleTick at hidle
  rw [hs.awake] at hidle
  cases hidle
  rfl

theorem Unrefreshed.next (hs : ReadSetting cfg a r) (h : c.Unrefreshed n) (hn : n ≤ a + 1)
    (hu : c.channelState.Undemanding) (htick : c.clockTick cfg = .ok c')
    (hq : c'.channelState.refreshQ = []) : c'.Unrefreshed (n + 1) := by
  obtain ⟨hclk, hrefresh⟩ := Prod.mk.inj (clockTick_timers htick)
  have hticked : (c.refreshTick cfg).refresh = { c.refresh with clk := c.refresh.clk + 1 } :=
    congrArg Controller.refresh (h.ticked hs hn hu)
  refine ⟨by rw [hclk, h.clk], ?_, hq⟩
  rw [hrefresh, hticked, h.timer]

/-- The end of a tick with nothing to schedule only counts idle cycles. -/
theorem endOfTick (cfg : Config) (hlanes : ∀ l, c.laneQueue l = []) :
    (((c.powerUpdate cfg).scheduleTransaction cfg).endTick).traffic = c.traffic ∧
      (((c.powerUpdate cfg).scheduleTransaction cfg).endTick).cmdQueue.queueIdx = c.cmdQueue.queueIdx ∧
      ∃ f, (((c.powerUpdate cfg).scheduleTransaction cfg).endTick).channelState =
        { c.channelState with rankIdleCycles := f } := by
  obtain ⟨f, hpower⟩ := c.powerUpdate_eq cfg
  obtain ⟨_, _, _, _, _, _, hsched⟩ := (c.powerUpdate cfg).scheduleTransaction_frame cfg
  have htraffic : ((c.powerUpdate cfg).scheduleTransaction cfg).traffic = (c.powerUpdate cfg).traffic := by
    refine scheduleTransaction_traffic fun l => ?_
    rw [hpower]
    exact hlanes l
  refine ⟨htraffic.trans (powerUpdate_traffic cfg c), ?_, f, ?_⟩
  · rw [hsched, hpower]
    rfl
  · rw [hsched, hpower]
    rfl

theorem Fresh.of_bankStates (h : c.Fresh cfg addr)
    (hbanks : c'.channelState.bankStates = c.channelState.bankStates)
    (hfour : c'.channelState.fourAw = c.channelState.fourAw)
    (hthirtyTwo : c'.channelState.thirtyTwoAw = c.channelState.thirtyTwoAw) : c'.Fresh cfg addr := by
  refine ⟨by rw [hbanks]; exact h.closed, by rw [hbanks]; exact h.free, by rw [hbanks]; exact h.timing,
    fun clk => ?_⟩
  have hwindow := h.window clk
  unfold ChannelState.activationWindowOk ChannelState.isFAWReady ChannelState.is32AWReady at hwindow ⊢
  rw [hfour, hthirtyTwo]
  exact hwindow

/-- A read that waits alone is scheduled at once. -/
theorem scheduleTransaction_read {t : Transaction} (hread : t.isWrite = false)
    (hlanes : c.laneQueue = Function.update (fun _ => []) (cfg.laneOf t) [t])
    (hqueues : ∀ idx, c.cmdQueue.queues idx = []) (hdraining : c.writeDraining = 0)
    (hroom : 0 < cfg.cmdQueueSize) : (∀ l, (c.scheduleTransaction cfg).laneQueue l = []) ∧
      (c.scheduleTransaction cfg).cmdQueue.queues =
        Function.update (fun _ => []) (cfg.queueOf t.addr) [transToCommand cfg t []] := by
  obtain ⟨s, heq, hsched⟩ := c.scheduleTransaction_eq cfg
  have hbuffer : c.writeBuffer = [] := by
    have hwrite := congrFun hlanes .write
    have hne : Lane.write ≠ cfg.laneOf t := by
      unfold Config.laneOf
      rw [hread]
      split_ifs <;> simp_all
    rwa [Function.update_of_ne hne] at hwrite
  have hstart : c.startDraining cfg = 0 := by
    unfold startDraining
    rw [hdraining, hbuffer]
    split_ifs <;> rfl
  have hlane : c.lane cfg = cfg.laneOf t := by
    unfold lane Config.laneOf
    rw [hstart, hread]
    rfl
  have hself : c.laneQueue (c.lane cfg) = [t] := by
    rw [hlane, hlanes, Function.update_self]
  rw [hself] at hsched
  have haccepts : c.cmdQueue.willAcceptCommand cfg (transToCommand cfg t []).bankId = true := by
    unfold CommandQueue.willAcceptCommand CommandQueue.getQueue
    rw [hqueues]
    exact decide_eq_true hroom
  have hmoved : s.queue = [] ∧ s.cmdQueue = c.cmdQueue.addCommand cfg (transToCommand cfg t []) := by
    cases hsched with
    | nothing h => exact absurd haccepts (by rw [h [] t [] rfl]; exact Bool.false_ne_true)
    | @conflict pre t' post hq _ hw =>
      obtain ⟨rfl, rfl, rfl⟩ : pre = [] ∧ t' = t ∧ post = [] := by
        cases pre with
        | nil => simpa [eq_comm] using hq
        | cons => simp at hq
      rw [hread] at hw
      cases hw
    | @moved pre t' post hq =>
      obtain ⟨rfl, rfl, rfl⟩ : pre = [] ∧ t' = t ∧ post = [] := by
        cases pre with
        | nil => simpa [eq_comm] using hq
        | cons => simp at hq
      exact ⟨rfl, rfl⟩
  constructor
  · intro l
    rw [heq, Micro.laneQueue_setLane, hmoved.1, hlane, hlanes, Function.update_idem]
    by_cases hl : l = cfg.laneOf t
    · rw [hl, Function.update_self]
    · rw [Function.update_of_ne hl]
  · have hcmdQueue : (c.scheduleTransaction cfg).cmdQueue = s.cmdQueue := by
      rw [heq]
      cases c.lane cfg <;> rfl
    have hempty : c.cmdQueue.queues = fun _ => [] := funext hqueues
    rw [hcmdQueue, hmoved.2, CommandQueue.addCommand]
    unfold CommandQueue.getQueue
    have hlength : ([] : List Command).length < cfg.cmdQueueSize := hroom
    rw [hqueues, if_pos hlength]
    dsimp only [CommandQueue.setQueue]
    rw [hempty]
    rfl

/-- The first tick moves the read into its command queue. -/
theorem arrived_tick (hs : ReadSetting cfg a r) (hreached : Micro.Reached cfg .free (Micro.rest c))
    {t : Transaction} (h : c.Unrefreshed 0) (hfresh : c.Fresh cfg addr) (ht : t.callback = ⟨addr, false⟩)
    (hlanes : c.laneQueue = Function.update (fun _ => []) (cfg.laneOf t) [t])
    (hqueues : ∀ idx, c.cmdQueue.queues idx = []) (hturn : c.cmdQueue.InTurn cfg)
    (hpending : c.pendingRdQ = [t]) (hreturn : c.returnQueue = []) (hdraining : c.writeDraining = 0)
    (htick : c.clockTick cfg = .ok c') : Phase cfg a r addr c' 1 := by
  obtain ⟨pick, c₁, c₂, hdemand, hissue, hc'⟩ := h.clockTick hs hreached (Nat.zero_le _) htick
  obtain ⟨haddr, hread⟩ : t.addr = addr ∧ t.isWrite = false := by
    simpa [Transaction.callback] using ht
  obtain ⟨idx, hnone, hturn'⟩ := demand_none cfg
    (c := { c with refresh := { c.refresh with clk := c.refresh.clk + 1 } }) fun idx => by
      dsimp only
      rw [hqueues idx]
      rfl
  rw [hnone] at hdemand
  cases hdemand
  cases hissue
  obtain ⟨f, hpower⟩ := powerUpdate_eq cfg { c with
    refresh := { c.refresh with clk := c.refresh.clk + 1 }
    cmdQueue := { c.cmdQueue with queueIdx := idx } }
  rw [hpower] at hc'
  obtain ⟨hlanes', hqueues'⟩ := scheduleTransaction_read (c := { c with
    refresh := { c.refresh with clk := c.refresh.clk + 1 }
    cmdQueue := { c.cmdQueue with queueIdx := idx }
    channelState := { c.channelState with rankIdleCycles := f } }) hread hlanes hqueues hdraining hs.cmdQueue
  obtain ⟨_, _, _, _, _, _, hframe⟩ := scheduleTransaction_frame cfg { c with
    refresh := { c.refresh with clk := c.refresh.clk + 1 }
    cmdQueue := { c.cmdQueue with queueIdx := idx }
    channelState := { c.channelState with rankIdleCycles := f } }
  have hchannel : c'.channelState = { c.channelState with rankIdleCycles := f } := by
    rw [hc', hframe]
    rfl
  refine @Phase.queued cfg a r addr c' (transToCommand cfg t []) ?_ ?_ ?_
  · refine h.next hs (Nat.zero_le _) (hreached.undemanding hs.untracked) htick ?_
    rw [hchannel]
    exact h.refreshQ
  · refine hfresh.of_bankStates ?_ ?_ ?_ <;> rw [hchannel]
  · constructor
    · rw [transToCommand_isRead, hread]
      rfl
    · exact haddr
    · rw [transToCommand_addr, haddr]
    · intro l
      rw [hc']
      exact hlanes' l
    · rw [hc', ← haddr]
      exact hqueues'
    · have hidx : c'.cmdQueue.queueIdx = idx := by
        rw [hc', hframe]
        rfl
      obtain ⟨j, hj, hjdx⟩ := hturn' hturn
      exact ⟨j, hj, hidx.trans hjdx⟩
    · refine ⟨t, ?_, ht⟩
      rw [hc', hframe]
      exact hpending
    · rw [hc', hframe]
      exact hreturn

/-- A demand finds the only request that waits, in its queue. -/
theorem demand_single {p : Pick} {cs' : ChannelState} (hload : c.Loaded cfg addr cmd)
    (hflags : c.cmdQueue.isInRef = false ∧ c.cmdQueue.isInRfm = false)
    (hfirst : CommandQueue.getFirstReadyInQueue cfg c.cmdQueue.clk [] [cmd] c.channelState =
      .ok (some p, cs')) :
    c.demand cfg = if p.cmd.isReadWrite then do
        let q ← CommandQueue.eraseRWCommand cfg { c.cmdQueue with queueIdx := cfg.queueOf addr } p.cmd
        .ok (some p, { c with cmdQueue := q, channelState := cs' })
      else .ok (some p, { c with
        cmdQueue := { c.cmdQueue with queueIdx := cfg.queueOf addr }
        channelState := cs' }) := by
  obtain ⟨k, hk, hqueue⟩ := CommandQueue.getQueueIndex_lt cfg addr
  obtain ⟨j, hj, hidx⟩ := hload.inTurn
  have hvisit : ∃ m < CommandQueue.numQueues cfg,
      (CommandQueue.nextIdx cfg)^[m + 1] c.cmdQueue.queueIdx = cfg.queueOf addr := by
    rw [hidx, Config.queueOf, hqueue]
    exact CommandQueue.exists_iterate_nextIdx hj hk
  have hself : c.cmdQueue.queues (cfg.queueOf addr) = [cmd] := by
    rw [hload.queues, Function.update_self]
  have hloop := CommandQueue.getCommandLoop_some cfg (n := CommandQueue.numQueues cfg) hflags
    (by rw [hself]; exact hfirst) (fun idx hne => by
      rw [hload.queues, Function.update_of_ne hne]
      rfl) hvisit
  unfold demand CommandQueue.getCommandToIssue
  rw [hloop]
  split_ifs
  · cases CommandQueue.eraseRWCommand cfg { c.cmdQueue with queueIdx := cfg.queueOf addr } p.cmd <;> rfl
  · rfl

/-- A demand that finds the only request not ready. -/
theorem demand_waiting (hload : c.Loaded cfg addr cmd)
    (hfirst : CommandQueue.getFirstReadyInQueue cfg c.cmdQueue.clk [] [cmd] c.channelState =
      .ok (none, c.channelState)) : ∃ idx, c.demand cfg =
      .ok (none, { c with cmdQueue := { c.cmdQueue with queueIdx := idx } }) ∧
      ({ c.cmdQueue with queueIdx := idx } : CommandQueue).InTurn cfg := by
  obtain ⟨idx, hdemand, hturn⟩ := demand_none cfg (c := c) fun idx => by
    rw [hload.queues]
    by_cases hidx : idx = cfg.queueOf addr
    · rw [hidx, Function.update_self]
      exact hfirst
    · rw [Function.update_of_ne hidx]
      rfl
  exact ⟨idx, hdemand, hturn hload.inTurn⟩

/-- What of a loaded controller a tick that serves nothing leaves alone. -/
theorem Loaded.of_traffic (h : c.Loaded cfg addr cmd) (heq : c'.traffic = c.traffic)
    (hturn : c'.cmdQueue.InTurn cfg) : c'.Loaded cfg addr cmd := by
  obtain ⟨hlanes, hqueues, hpending, hreturning⟩ : c'.laneQueue = c.laneQueue ∧
      c'.cmdQueue.queues = c.cmdQueue.queues ∧ c'.pendingRdQ = c.pendingRdQ ∧
      c'.returnQueue = c.returnQueue := by
    simpa only [traffic, Prod.mk.injEq] using heq
  refine ⟨h.isRead, h.hexAddr, h.mapped, fun l => ?_, hqueues.trans h.queues, hturn, ?_, ?_⟩
  · rw [hlanes]
    exact h.lanes l
  · rw [hpending]
    exact h.pending
  · rw [hreturning]
    exact h.returning

/-- While the READ is not ready, a second command is not found either. -/
theorem secondCommand_waiting (hload : c.Loaded cfg addr cmd) {first : Command}
    (hfirst : CommandQueue.getFirstReadyInQueue cfg c.cmdQueue.clk [] [cmd] c.channelState =
      .ok (none, c.channelState)) (h : c.secondCommand cfg first = .ok c') :
    c'.Loaded cfg addr cmd ∧ c'.channelState = c.channelState := by
  obtain ⟨idx, hdemand, hturn⟩ := demand_waiting hload hfirst
  unfold secondCommand at h
  rw [hdemand] at h
  cases h
  exact ⟨hload.of_traffic rfl hturn, rfl⟩

theorem Loaded.bankId (h : c.Loaded cfg addr cmd) : cmd.bankId = (cfg.addressMapping addr).bankId := by
  rw [Command.bankId, h.mapped]

theorem Loaded.inTurn_queueOf (cfg : Config) (addr : HexAddr) (q : CommandQueue) :
    ({ q with queueIdx := cfg.queueOf addr } : CommandQueue).InTurn cfg :=
  CommandQueue.getQueueIndex_lt cfg addr

/-- The second tick activates the row. -/
theorem queued_tick (hs : ReadSetting cfg a r) (hreached : Micro.Reached cfg .free (Micro.rest c))
    (h : c.Unrefreshed 1) (hfresh : c.Fresh cfg addr) (hload : c.Loaded cfg addr cmd)
    (htick : c.clockTick cfg = .ok c') : Phase cfg a r addr c' 2 := by
  have hpos := hs.activate_pos
  obtain ⟨pick, c₁, c₂, hdemand, hissue, hc'⟩ := h.clockTick hs hreached (by omega) htick
  have hoff : ChannelState.HydraOff c.channelState := hreached.ready.regular.hydraOff hs.hydraMode
  have hsynced : c.cmdQueue.clk = c.clk := hreached.synced
  have hbank := hload.bankId
  obtain ⟨cs₁, hready⟩ : ∃ cs₁, c.channelState.getReadyCommand cfg cmd c.cmdQueue.clk =
      .ok (some (ChannelState.activation cmd), cs₁) := by
    apply ChannelState.getReadyCommand_closed hs.untracked hs.policies hoff hload.isRead
    · exact hbank ▸ hfresh.closed
    · exact hbank ▸ hfresh.free
    · rw [hbank, hfresh.timing]
      exact Nat.zero_le _
    · rw [Command.rank, hload.mapped]
      exact hfresh.window _
  have hfirst := CommandQueue.getFirstReadyInQueue_some hoff hready (by simp [ChannelState.activation]) rfl
  have hload₀ : Loaded cfg addr cmd { c with refresh := { c.refresh with clk := c.refresh.clk + 1 } } :=
    hload.of_traffic rfl hload.inTurn
  have hflags := h.flags hs hreached
  have hact : (ChannelState.activation cmd).isReadWrite = false := rfl
  rw [demand_single hload₀ hflags hfirst] at hdemand
  simp only [hact, Bool.false_eq_true, if_false] at hdemand
  cases hdemand
  obtain ⟨c₂', hissued, hsecond⟩ := bind_ok_iff.mp hissue
  have htraffic := issueCommand_traffic rfl hissued
  obtain ⟨_, _, _, cs₂, hupdate, hc₂'⟩ := issueCommand_frame hissued
  have hqueried := (ChannelState.getReadyCommand_answer hready).queried
  have hclosed : (cs₁.bankStates cmd.bankId).state = .closed := by
    have hcore := congrArg BankCore.state (hqueried.cores cmd.bankId)
    exact hcore.trans (hbank ▸ hfresh.closed)
  have htiming : (cs₁.bankStates cmd.bankId).cmdTiming cmd.cmdType ≤ c.clk := by
    have hcore := congrFun (congrArg BankCore.cmdTiming (hqueried.cores cmd.bankId)) cmd.cmdType
    refine le_trans (le_of_eq (hcore.trans ?_)) (Nat.zero_le _)
    exact hbank ▸ hfresh.timing _
  obtain ⟨hopen, hrow, hdelay⟩ :=
    ChannelState.activation_opens hload.isRead hs.activate hclosed htiming hupdate
  have hissuedAs := ChannelState.updateTimingAndStates_issued hupdate
  have hoff₂ : ChannelState.HydraOff cs₂ := by
    obtain ⟨hrd, hwb, hdraining⟩ := hqueried.hydraOff hs.hydraMode hoff
    exact ⟨hissuedAs.hydraRdQ.trans hrd, hissuedAs.hydraWbQ.trans hwb,
      hissuedAs.hydraWbDraining.trans hdraining⟩
  have hrefreshQ : cs₂.refreshQ = [] :=
    (hissuedAs.refreshQ_eq rfl).trans (hqueried.refreshQ.trans h.refreshQ)
  have hload₂' : c₂'.Loaded cfg addr cmd := by
    refine hload.of_traffic htraffic ?_
    rw [hc₂']
    exact Loaded.inTurn_queueOf cfg addr _
  have hchannel₂' : c₂'.channelState = cs₂ := by rw [hc₂']
  have hclk₂' : c₂'.cmdQueue.clk = c.clk := by
    rw [hc₂']
    exact hsynced
  have hwait : CommandQueue.getFirstReadyInQueue cfg c₂'.cmdQueue.clk [] [cmd] c₂'.channelState =
      .ok (none, c₂'.channelState) := by
    rw [hchannel₂', hclk₂']
    refine CommandQueue.getFirstReadyInQueue_none hoff₂ ?_
    rw [ChannelState.getReadyCommand_open hoff₂ hload.isRead hopen hrow, if_neg]
    rw [hdelay]
    omega
  obtain ⟨hload₂, hchannel⟩ : c₂.Loaded cfg addr cmd ∧ c₂.channelState = cs₂ := by
    split_ifs at hsecond
    · obtain ⟨hload₂, hchannel⟩ := secondCommand_waiting hload₂' hwait hsecond
      exact ⟨hload₂, hchannel.trans hchannel₂'⟩
    · cases hsecond
      exact ⟨hload₂', hchannel₂'⟩
  obtain ⟨htraffic', hidx, f, hchannel'⟩ := endOfTick cfg hload₂.lanes
  rw [← hc'] at htraffic' hidx hchannel'
  have hload' : c'.Loaded cfg addr cmd := by
    refine hload₂.of_traffic htraffic' ?_
    obtain ⟨j, hj, hjdx⟩ := hload₂.inTurn
    exact ⟨j, hj, hidx.trans hjdx⟩
  have hbanks : c'.channelState.bankStates = cs₂.bankStates := by rw [hchannel', hchannel]
  refine .opened (h.next hs (by omega) (hreached.undemanding hs.untracked) htick ?_) ⟨le_rfl, by omega⟩ hload'
    ?_ ?_ ?_
  · rw [hchannel', hchannel]
    exact hrefreshQ
  · rw [hbanks]
    exact hopen
  · rw [hbanks]
    exact hrow
  · rw [hbanks, hdelay]
    have hclk := h.clk
    change c.clk + a = a + 1
    omega

/-- The ticks in between find the READ not ready. -/
theorem opened_wait (hs : ReadSetting cfg a r) (hreached : Micro.Reached cfg .free (Micro.rest c))
    (h : c.Unrefreshed n) (hn : 2 ≤ n ∧ n ≤ a) (hload : c.Loaded cfg addr cmd)
    (hopen : (c.channelState.bankStates cmd.bankId).state = .open)
    (hrow : (c.channelState.bankStates cmd.bankId).openRow = cmd.row)
    (htiming : (c.channelState.bankStates cmd.bankId).cmdTiming cmd.cmdType = a + 1)
    (htick : c.clockTick cfg = .ok c') : Phase cfg a r addr c' (n + 1) := by
  obtain ⟨pick, c₁, c₂, hdemand, hissue, hc'⟩ := h.clockTick hs hreached (by omega) htick
  have hoff : ChannelState.HydraOff c.channelState := hreached.ready.regular.hydraOff hs.hydraMode
  have hsynced : c.cmdQueue.clk = c.clk := hreached.synced
  have hwait : CommandQueue.getFirstReadyInQueue cfg c.cmdQueue.clk [] [cmd] c.channelState =
      .ok (none, c.channelState) := by
    refine CommandQueue.getFirstReadyInQueue_none hoff ?_
    rw [ChannelState.getReadyCommand_open hoff hload.isRead hopen hrow, if_neg]
    rw [htiming, hsynced, h.clk]
    omega
  have hload₀ : Loaded cfg addr cmd { c with refresh := { c.refresh with clk := c.refresh.clk + 1 } } :=
    hload.of_traffic rfl hload.inTurn
  obtain ⟨idx, hnone, hturn⟩ := demand_waiting hload₀ hwait
  rw [hnone] at hdemand
  cases hdemand
  cases hissue
  have hload₁ : Loaded cfg addr cmd { c with
      refresh := { c.refresh with clk := c.refresh.clk + 1 }
      cmdQueue := { c.cmdQueue with queueIdx := idx } } := hload₀.of_traffic rfl hturn
  obtain ⟨htraffic', hidx, f, hchannel'⟩ := endOfTick cfg hload₁.lanes
  rw [← hc'] at htraffic' hidx hchannel'
  refine .opened (h.next hs (by omega) (hreached.undemanding hs.untracked) htick ?_) ⟨by omega, by omega⟩
    (hload₁.of_traffic htraffic' ?_) ?_ ?_ ?_
  · rw [hchannel']
    exact h.refreshQ
  · obtain ⟨j, hj, hjdx⟩ := hturn
    exact ⟨j, hj, hidx.trans hjdx⟩
  · rw [hchannel']
    exact hopen
  · rw [hchannel']
    exact hrow
  · rw [hchannel']
    exact htiming

/-- The READ is issued as soon as it is ready. -/
theorem opened_read (hs : ReadSetting cfg a r) (haddr : addr ≠ noAddr)
    (hreached : Micro.Reached cfg .free (Micro.rest c)) (h : c.Unrefreshed (a + 1))
    (hload : c.Loaded cfg addr cmd) (hopen : (c.channelState.bankStates cmd.bankId).state = .open)
    (hrow : (c.channelState.bankStates cmd.bankId).openRow = cmd.row)
    (htiming : (c.channelState.bankStates cmd.bankId).cmdTiming cmd.cmdType = a + 1)
    (htick : c.clockTick cfg = .ok c') : Phase cfg a r addr c' (a + 2) := by
  obtain ⟨pick, c₁, c₂, hdemand, hissue, hc'⟩ := h.clockTick hs hreached le_rfl htick
  have hoff : ChannelState.HydraOff c.channelState := hreached.ready.regular.hydraOff hs.hydraMode
  have hsynced : c.cmdQueue.clk = c.clk := hreached.synced
  have hflags := h.flags hs hreached
  have hrw : cmd.isReadWrite = true := by simp [Command.isReadWrite, hload.isRead]
  have hready : c.channelState.getReadyCommand cfg cmd c.cmdQueue.clk = .ok (some cmd, c.channelState) := by
    rw [ChannelState.getReadyCommand_open hoff hload.isRead hopen hrow, if_pos]
    rw [htiming, hsynced, h.clk]
  have hpre : cmd.cmdType ≠ .precharge := by
    intro hty
    have hread := hload.isRead
    simp [Command.isRead, hty] at hread
  have hfirst := CommandQueue.getFirstReadyInQueue_some hoff hready hpre (isWrite_of_isRead hload.isRead)
  have hload₀ : Loaded cfg addr cmd { c with refresh := { c.refresh with clk := c.refresh.clk + 1 } } :=
    hload.of_traffic rfl hload.inTurn
  have herase : CommandQueue.eraseRWCommand cfg { c.cmdQueue with queueIdx := cfg.queueOf addr } cmd =
      .ok { c.cmdQueue with queueIdx := cfg.queueOf addr, queues := fun _ => [] } := by
    have hindex : CommandQueue.getQueueIndex cfg cmd.bankId = cfg.queueOf addr := by
      rw [hload.bankId, Config.queueOf]
    unfold CommandQueue.eraseRWCommand CommandQueue.getQueue CommandQueue.setQueue
    simp only [hindex, hload.queues, Function.update_self, Function.update_idem]
    simp
  rw [demand_single hload₀ hflags hfirst] at hdemand
  simp only [hrw, if_true] at hdemand
  rw [herase] at hdemand
  cases hdemand
  obtain ⟨c₂', hissued, hsecond⟩ := bind_ok_iff.mp hissue
  obtain ⟨c₃, cs₂, hserved, _, hc₂'⟩ := issueCommand_ok hissued
  obtain ⟨t, hpending, ht⟩ := hload.pending
  have htaddr : t.addr = addr := congrArg Callback.addr ht
  have hidle : c₂'.Idle ∧ c₂'.returnQueue = [{ t with completeCycle := a + 1 + r }] := by
    have hcomplete : addDelay c.clk cfg.readDelay = a + 1 + r := by
      rw [h.clk, hs.read, Chan.addDelay_nonneg _ (Int.natCast_nonneg r), Int.toNat_natCast]
    cases hserved with
    | write hcmd => exact absurd hcmd (by simp [isWrite_of_isRead hload.isRead])
    | other hother =>
      obtain hnone | hnone := hother
      · rw [hrw] at hnone
        cases hnone
      · exact absurd (hload.hexAddr.symm.trans hnone) haddr
    | read =>
      rw [hc₂']
      refine ⟨⟨hload.lanes, fun _ => rfl⟩, ?_⟩
      change c.returnQueue ++ (c.pendingRdQ.filter fun t => t.addr = cmd.hexAddr).map
        (fun t => { t with completeCycle := addDelay c.clk cfg.readDelay }) = _
      rw [hload.returning, hpending, hcomplete, hload.hexAddr]
      simp [htaddr]
  obtain ⟨hidle₂, hreturn₂⟩ : c₂.Idle ∧ c₂.returnQueue = [{ t with completeCycle := a + 1 + r }] := by
    split_ifs at hsecond
    · obtain ⟨idx, hdemand⟩ := hidle.1.demand cfg
      unfold secondCommand at hsecond
      rw [hdemand] at hsecond
      cases hsecond
      exact ⟨⟨hidle.1.lanes, hidle.1.queues⟩, hidle.2⟩
    · cases hsecond
      exact hidle
  obtain ⟨htraffic', _⟩ := endOfTick cfg hidle₂.lanes
  rw [← hc'] at htraffic'
  have hreturn' : c'.returnQueue = c₂.returnQueue := by
    have hparts := htraffic'
    simp only [traffic, Prod.mk.injEq] at hparts
    exact hparts.2.2.2
  have hpos := hs.read_pos
  exact .served ⟨le_rfl, by omega⟩ (hidle₂.of_traffic htraffic') (hreturn'.trans hreturn₂) ht rfl

/-- What is left of a read at the start of cycle `n`, once the due transactions are handed back. -/
def Answered (cfg : Config) (a r : ℕ) (addr : HexAddr) (n : ℕ) (c : Controller) : Prop :=
  (n ≠ a + 1 + r ∧ Phase cfg a r addr c n) ∨ (n = a + 1 + r ∧ c.Idle ∧ c.returnQueue = [])

/-- The transaction is handed back in cycle `a + 1 + r`, and only then. -/
theorem Phase.returned (hs : ReadSetting cfg a r) (h : Phase cfg a r addr c n) :
    (JedecDRAMSystem.returnLoop n c.returnQueue.length c).1 =
      (if n = a + 1 + r then [⟨addr, false⟩] else []) ∧
      Answered cfg a r addr n (JedecDRAMSystem.returnLoop n c.returnQueue.length c).2 := by
  have hpos := hs.read_pos
  have hactivate := hs.activate_pos
  have hnothing (hreturn : c.returnQueue = []) (hn : n ≠ a + 1 + r) :
      (JedecDRAMSystem.returnLoop n c.returnQueue.length c).1 =
        (if n = a + 1 + r then [⟨addr, false⟩] else []) ∧
        Answered cfg a r addr n (JedecDRAMSystem.returnLoop n c.returnQueue.length c).2 := by
    rw [hreturn, if_neg hn]
    exact ⟨rfl, .inl ⟨hn, h⟩⟩
  cases h with
  | arrived _ _ _ _ _ _ _ hreturn => exact hnothing hreturn (by omega)
  | queued _ _ hload => exact hnothing hload.returning (by omega)
  | opened _ hn hload => exact hnothing hload.returning (by omega)
  | answered hn _ hreturn => exact hnothing hreturn (by omega)
  | @served t _ hn hidle hreturn ht hcomplete =>
    rw [hreturn]
    unfold List.length JedecDRAMSystem.returnLoop
    by_cases hdue : n = a + 1 + r
    · have hfind : c.returnQueue.find? (fun t => t.completeCycle ≤ n) = some t := by
        rw [hreturn]
        simp [hcomplete, hdue]
      have hqueue : (c.returnDoneTrans n).returnQueue = [] := by
        unfold returnDoneTrans
        rw [hfind, hreturn]
        simp [record, hcomplete, hdue]
      rw [hfind, if_pos hdue]
      refine ⟨?_, .inr ⟨hdue, ?_, hqueue⟩⟩
      · exact congrArg (fun x : Callback => [x]) ht
      · unfold returnDoneTrans
        rw [hfind]
        exact ⟨hidle.lanes, hidle.queues⟩
    · have hfind : c.returnQueue.find? (fun t => t.completeCycle ≤ n) = none := by
        rw [hreturn]
        simp only [List.find?_cons, hcomplete]
        have hlt : ¬ a + 1 + r ≤ n := by omega
        simp [hlt]
      rw [hfind, if_neg hdue]
      exact ⟨rfl, .inl ⟨hdue, .served hn hidle hreturn ht hcomplete⟩⟩

/-- A tick takes a read one phase further. -/
theorem Answered.tick (hs : ReadSetting cfg a r) (haddr : addr ≠ noAddr)
    (hreached : Micro.Reached cfg .free (Micro.rest c)) (h : Answered cfg a r addr n c)
    (htick : c.clockTick cfg = .ok c') : Phase cfg a r addr c' (n + 1) := by
  have hidle (hidle : c.Idle) : c'.Idle ∧ c'.returnQueue = c.returnQueue := by
    have htraffic := hidle.clockTick hs.untracked hs.awake hreached htick
    refine ⟨hidle.of_traffic htraffic, ?_⟩
    simp only [traffic, Prod.mk.injEq] at htraffic
    exact htraffic.2.2.2
  obtain ⟨hn, h⟩ | ⟨hn, hidled, hreturn⟩ := h
  · cases h with
    | arrived h hfresh ht hlanes hqueues hturn hpending hreturn hdraining =>
      exact arrived_tick hs hreached h hfresh ht hlanes hqueues hturn hpending hreturn hdraining htick
    | queued h hfresh hload => exact queued_tick hs hreached h hfresh hload htick
    | opened h hle hload hopen hrow htiming =>
      by_cases hlast : n = a + 1
      · subst hlast
        exact opened_read hs haddr hreached h hload hopen hrow htiming htick
      · exact opened_wait hs hreached h ⟨hle.1, by omega⟩ hload hopen hrow htiming htick
    | served hle hidled hreturn ht hcomplete =>
      obtain ⟨hidle', hreturn'⟩ := hidle hidled
      exact .served ⟨by omega, by omega⟩ hidle' (hreturn'.trans hreturn) ht hcomplete
    | answered hle hidled hreturn =>
      obtain ⟨hidle', hreturn'⟩ := hidle hidled
      exact .answered (by omega) hidle' (hreturn'.trans hreturn)
  · obtain ⟨hidle', hreturn'⟩ := hidle hidled
    exact .answered (by omega) hidle' (hreturn'.trans hreturn)

end Controller

namespace Controller
variable {cfg : Config} {c : Controller} {a r n : ℕ} {addr : HexAddr}

theorem Phase.share (cs : ChannelState) (h : Phase cfg a r addr c n) : Phase cfg a r addr (c.share cs) n := by
  cases h with
  | arrived h hfresh ht hlanes hqueues hturn hpending hreturn hdraining =>
    exact .arrived ⟨h.clk, h.timer, h.refreshQ⟩ (hfresh.of_bankStates rfl rfl rfl) ht hlanes hqueues hturn
      hpending hreturn hdraining
  | queued h hfresh hload =>
    exact .queued ⟨h.clk, h.timer, h.refreshQ⟩ (hfresh.of_bankStates rfl rfl rfl)
      (hload.of_traffic rfl hload.inTurn)
  | opened h hn hload hopen hrow htiming =>
    exact .opened ⟨h.clk, h.timer, h.refreshQ⟩ hn (hload.of_traffic rfl hload.inTurn) hopen hrow htiming
  | served hn hidle hreturn ht hcomplete =>
    exact .served hn ⟨hidle.lanes, hidle.queues⟩ hreturn ht hcomplete
  | answered hn hidle hreturn => exact .answered hn ⟨hidle.lanes, hidle.queues⟩ hreturn

/-- The controllers of a system that serves one read: that of its channel, and those that idle. -/
def Serves (cfg : Config) (addr : HexAddr) (P : Controller → Prop) (i : ℕ) (c : Controller) : Prop :=
  Micro.Reached cfg .free (Micro.rest c) ∧
    if i = cfg.getChannel addr then P c else c.Idle ∧ c.returnQueue = []

theorem Serves.steady {P : Controller → Prop} (hP : ∀ c cs, P c → P (c.share cs)) :
    JedecDRAMSystem.Steady (Serves cfg addr P) := by
  rintro i c cs ⟨hreached, h⟩
  refine ⟨hreached.step (.single (.others c _ trivial)), ?_⟩
  split_ifs at h ⊢
  · exact hP c cs h
  · exact ⟨⟨h.1.lanes, h.1.queues⟩, h.2⟩

theorem Answered.share (cs : ChannelState) (h : Answered cfg a r addr n c) :
    Answered cfg a r addr n (c.share cs) := by
  obtain ⟨hn, h⟩ | ⟨hn, hidle, hreturn⟩ := h
  · exact .inl ⟨hn, h.share cs⟩
  · exact .inr ⟨hn, ⟨hidle.lanes, hidle.queues⟩, hreturn⟩

/-- A read that the system has just accepted. -/
theorem arrived_boot (boot : Boot cfg) (addr : HexAddr) :
    Phase cfg a r addr (boot.controller.addTransaction cfg addr false) 0 := by
  have haccepted : Accepted cfg boot.controller ⟨addr, boot.controller.clk, 0, false⟩
      (boot.controller.addTransaction cfg addr false) := addTransaction_accepted addr false
  generalize htrans : ({ addr := addr, addedCycle := boot.controller.clk, isWrite := false } : Transaction) = t
    at haccepted
  have ht : t.callback = ⟨addr, false⟩ := by
    rw [← htrans]
    rfl
  generalize boot.controller.addTransaction cfg addr false = c at haccepted
  cases haccepted with
  | mergeWrite hw => simp [← htrans] at hw
  | newWrite hw => simp [← htrans] at hw
  | forward _ hp => cases hp
  | mergeRead _ _ hr => cases hr
  | newRead =>
    have hlane := Micro.laneQueue_enqueue cfg { boot.controller with
      pendingRdQ := boot.controller.pendingRdQ ++ [t]
      log := .accepted t false :: boot.controller.log } t
    obtain ⟨_, _, _, heq⟩ := enqueue_eq cfg { boot.controller with
      pendingRdQ := boot.controller.pendingRdQ ++ [t]
      log := .accepted t false :: boot.controller.log } t
    have hnone : laneQueue { boot.controller with
        pendingRdQ := boot.controller.pendingRdQ ++ [t]
        log := .accepted t false :: boot.controller.log } = fun _ => [] := by
      funext l
      cases l <;> rfl
    rw [hnone] at hlane
    refine .arrived ?_ ?_ ht hlane ?_ ⟨0, CommandQueue.numQueues_pos cfg, ?_⟩ ?_ ?_ ?_
    · rw [heq]
      exact ⟨rfl, rfl, rfl⟩
    · rw [heq]
      refine ⟨rfl, rfl, fun _ => rfl, fun clk => ?_⟩
      simp [ChannelState.activationWindowOk, ChannelState.isFAWReady, ChannelState.is32AWReady,
        Boot.controller, Boot.channelState]
    · rw [heq]
      exact fun _ => rfl
    · rw [heq]
      rfl
    · rw [heq]
      rfl
    · rw [heq]
      rfl
    · rw [heq]
      rfl

end Controller

namespace JedecDRAMSystem
variable {cfg : Config} {s s' : JedecDRAMSystem} {a r m : ℕ} {addr : HexAddr}
open Controller

/-- The read is called back in the tick at `a + 1 + r`. -/
theorem serves_tick (hs : ReadSetting cfg a r) (hfits : cfg.RefreshFits) (haddr : addr ≠ noAddr)
    (hchannels : 0 < cfg.channels) (hclk : s.clk = m)
    (h : ∀ i < cfg.channels, Serves cfg addr (fun c => Phase cfg a r addr c m) i (s.ctrls i)) :
    ∃ s', s.clockTick cfg = .ok s' ∧ s'.clk = m + 1 ∧
      (∀ i < cfg.channels, Serves cfg addr (fun c => Phase cfg a r addr c (m + 1)) i (s'.ctrls i)) ∧
      s'.callbacks = s.callbacks ++ if m = a + 1 + r then [⟨addr, false⟩] else [] := by
  let done (i : ℕ) : List Callback :=
    if i = cfg.getChannel addr then if m = a + 1 + r then [⟨addr, false⟩] else [] else []
  have hP : Steady (Serves cfg addr fun c => Phase cfg a r addr c m) := Serves.steady fun _ cs h => h.share cs
  have hQ : Steady (Serves cfg addr fun c => Answered cfg a r addr m c) :=
    Serves.steady fun _ cs h => h.share cs
  have hR : Steady (Serves cfg addr fun c => Phase cfg a r addr c (m + 1)) :=
    Serves.steady fun _ cs h => h.share cs
  have hreturn : ∀ i < cfg.channels, ∀ c, Serves cfg addr (fun c => Phase cfg a r addr c m) i c →
      (returnLoop s.clk c.returnQueue.length c).1 = done i ∧
        Serves cfg addr (fun c => Answered cfg a r addr m c) i
          (returnLoop s.clk c.returnQueue.length c).2 := by
    rintro i _ c ⟨hreached, hc⟩
    have hreached' := hreached.step (Channels.returnLoop_steps s.clk c.returnQueue.length c)
    unfold Serves
    dsimp only [done]
    split_ifs at hc ⊢ with hi hm
    · have hreturned := hc.returned hs
      rw [if_pos hm] at hreturned
      rw [hclk] at hreached' ⊢
      exact ⟨hreturned.1, hreached', hreturned.2⟩
    · have hreturned := hc.returned hs
      rw [if_neg hm] at hreturned
      rw [hclk] at hreached' ⊢
      exact ⟨hreturned.1, hreached', hreturned.2⟩
    · rw [hc.2] at hreached' ⊢
      exact ⟨rfl, hreached', hc⟩
  have htick : ∀ i < cfg.channels, ∀ c c', Serves cfg addr (fun c => Answered cfg a r addr m c) i c →
      c.clockTick cfg = .ok c' → Serves cfg addr (fun c => Phase cfg a r addr c (m + 1)) i c' := by
    rintro i _ c c' ⟨hreached, hc⟩ htick
    refine ⟨hreached.clockTick htick, ?_⟩
    split_ifs at hc ⊢
    · exact hc.tick hs haddr hreached htick
    · have htraffic := hc.1.clockTick hs.untracked hs.awake hreached htick
      refine ⟨hc.1.of_traffic htraffic, ?_⟩
      simp only [traffic, Prod.mk.injEq] at htraffic
      exact htraffic.2.2.2.trans hc.2
  have hok : ∀ i < cfg.channels, ∀ c, Serves cfg addr (fun c => Answered cfg a r addr m c) i c →
      ∃ c', c.clockTick cfg = .ok c' :=
    fun _ _ _ hc => hc.1.clockTick_ok hs.untracked hs.awake hs.policies hfits
  obtain ⟨s', hs'⟩ := clockTick_total hP hQ hreturn hok h
  obtain ⟨hafter, hcallbacks, hclk'⟩ := clockTick_rule hP hQ hreturn hR htick h hs'
  refine ⟨s', hs', by rw [hclk', hclk], hafter, ?_⟩
  have hchannel : cfg.getChannel addr < cfg.channels := Config.field_lt hchannels _ _
  have hflat : (List.range cfg.channels).flatMap done = if m = a + 1 + r then [⟨addr, false⟩] else [] :=
    by
    rw [flatMap_of_single List.nodup_range (List.mem_range.mpr hchannel) fun i hi => if_neg hi]
    exact if_pos rfl
  rw [hcallbacks, hflat]

/-- Any number of ticks on a system that serves one read. -/
theorem serves_run (hs : ReadSetting cfg a r) (hfits : cfg.RefreshFits) (haddr : addr ≠ noAddr)
    (hchannels : 0 < cfg.channels) (n : ℕ) (hclk : s.clk = m)
    (h : ∀ i < cfg.channels, Serves cfg addr (fun c => Phase cfg a r addr c m) i (s.ctrls i)) :
    ∃ s', s.run cfg (List.replicate n .clockTick) = .ok s' ∧
      s'.callbacks = s.callbacks ++ if m ≤ a + 1 + r ∧ a + 1 + r < m + n then [⟨addr, false⟩] else [] := by
  induction n generalizing s m with
  | zero =>
    refine ⟨s, rfl, ?_⟩
    rw [if_neg (by omega), List.append_nil]
  | succ n ih =>
    obtain ⟨s₁, htick, hclk₁, hserves, hcallbacks₁⟩ := serves_tick hs hfits haddr hchannels hclk h
    obtain ⟨s', hrun, hcallbacks⟩ := ih hclk₁ hserves
    refine ⟨s', ?_, ?_⟩
    · rw [List.replicate_succ, run, List.foldlM_cons, bind_ok_iff]
      exact ⟨s₁, htick, hrun⟩
    · rw [hcallbacks, hcallbacks₁, List.append_assoc]
      congr 1
      split_ifs <;> first | rfl | omega

/-- A system that has accepted its first read serves it. -/
theorem serves_boot (hs : ReadSetting cfg a r) (boot : SystemBoot cfg) (addr : HexAddr) (i : ℕ) :
    Serves cfg addr (fun c => Phase cfg a r addr c 0) i
      ((boot.system.addTransaction cfg addr false).ctrls i) := by
  have hwill : boot.system.willAcceptTransaction cfg addr false := by
    have hroom := hs.transQueue
    have hsome : (boot.controller (cfg.getChannel addr)).willAcceptTransaction cfg false := by
      unfold Controller.willAcceptTransaction
      split_ifs <;> exact decide_eq_true hroom
    exact hsome
  have hreached (i : ℕ) : Micro.Reached cfg .free (Micro.rest (boot.controller i)) := ⟨_, .refl⟩
  unfold addTransaction
  rw [if_pos hwill]
  unfold store
  dsimp only
  split_ifs with hi
  · refine ⟨(hreached _).step (.single (.accept trivial hwill)), ?_⟩
    rw [if_pos hi]
    exact arrived_boot _ addr
  · refine ⟨(hreached i).step (.single (.others _ _ trivial)), ?_⟩
    rw [if_neg hi]
    exact ⟨⟨fun l => by cases l <;> rfl, fun _ => rfl⟩, rfl⟩

theorem readSetting_small : ReadSetting smallConfig 1 2 where
  untracked := by constructor <;> rfl
  awake := rfl
  policies := ⟨.inl rfl, .inl rfl, .inl rfl⟩
  transQueue := by decide
  cmdQueue := by decide
  activate := by decide
  activate_pos := by decide
  read := by decide
  read_pos := by decide
  interval := by decide
  interval_lt := by decide

/-- The callbacks of a new system that receives one read, unless it ends the process. -/
def afterRead (cfg : Config) (boot : SystemBoot cfg) (addr : HexAddr) (n : ℕ) : Option (List Callback) :=
  (boot.system.run cfg (.addTransaction addr false :: List.replicate n .clockTick)).toOption.map callbacks

/-- A refresh of single banks comes before the read is done, with one command queue for the rank. -/
def bankRefreshes : Config :=
  { smallConfig with queueStructure := .perRank, refreshPolicy := .bankLevelStaggered, tREFIb := 4, CL := 9 }

end JedecDRAMSystem
end CactusDram
