import CactusDram.Accounting
import CactusDram.MultiPrecharge

/-! Refresh and RFM requests are worked off one at a time: a request that has been picked stays at
the front of its queue, its banks are left alone, and it is the only one its command removes. -/
namespace CactusDram
open Foundations Relation

/-- The two kinds of maintenance. -/
inductive Duty
  | refresh
  | rfm
  deriving DecidableEq

namespace Duty

def queue (cs : ChannelState) : Duty → List Command
  | .refresh => cs.refreshQ
  | .rfm => cs.rfmQ

/-- `is_in_ref_` or `is_in_rfm_`. -/
def active (q : CommandQueue) : Duty → Bool
  | .refresh => q.isInRef
  | .rfm => q.isInRfm

def indices (q : CommandQueue) : Duty → List ℤ
  | .refresh => q.refQIndices
  | .rfm => q.rfmQIndices

def origin (req : Command) : Duty → Origin
  | .refresh => .refresh req
  | .rfm => .rfm req

def other : Duty → Duty
  | .refresh => .rfm
  | .rfm => .refresh

end Duty

/-- The request that `FinishRefresh` or `FinishRFM` works on in a tick. -/
def Controller.picked (c : Controller) : Option (Duty × Command) :=
  if c.cmdQueue.isInRfm then c.channelState.rfmQ.head?.map (.rfm, ·)
  else if c.cmdQueue.isInRef || !c.channelState.refreshQ.isEmpty then
    c.channelState.refreshQ.head?.map (.refresh, ·)
  else c.channelState.rfmQ.head?.map (.rfm, ·)

/-- An event that is neither the issue of the request nor an ACT, READ or WRITE to one of its
banks. -/
def Event.Spares (cfg : Config) (req : Command) : Event → Prop
  | .issue cmd _ _ _ => cmd ≠ req ∧
      (cmd.cmdType = .activate ∨ cmd.isReadWrite → cmd.bankId ∉ ChannelState.covered cfg req)
  | _ => True

namespace CommandQueue
variable {cfg : Config} {cmd : Command} {idx : List ℤ}

/-- With one queue per bank, a request blocks the queue of every bank it covers. -/
theorem getQueueIndex_mem (hqs : cfg.queueStructure = .perBank)
    (h : maintenanceQIndices cfg cmd = .ok idx) {i : BankId}
    (hi : i ∈ ChannelState.covered cfg cmd) (hbank : i ∈ cfg.allBanks) :
    getQueueIndex cfg i ∈ idx := by
  unfold maintenanceQIndices at h
  unfold ChannelState.covered at hi
  split_ifs at h hi with hrank hsb
  · cases h
    obtain ⟨⟨r, hr, hr'⟩, ⟨g, hg, hg'⟩, k, hk, hk'⟩ := cfg.mem_allBanks.mp hbank
    have hir : i.rank = cmd.rank := ((cfg.mem_rankBanks).mp hi).1
    have hpos : g * cfg.banksPerGroup + k < cfg.banks := by
      have := Nat.mul_le_mul_right cfg.banksPerGroup (Nat.succ_le_of_lt hg)
      rw [Nat.succ_mul] at this
      unfold Config.banks
      omega
    simp only [rankQIndices, getQueueIndex, numQueues, hqs, List.mem_map, List.mem_filter,
      List.mem_range, decide_eq_true_eq]
    refine ⟨r * cfg.banks + g * cfg.banksPerGroup + k, ⟨?_, ?_⟩, ?_⟩
    · have := Nat.mul_le_mul_left cfg.banks (Nat.succ_le_of_lt hr)
      rw [Nat.mul_succ, Nat.mul_comm cfg.banks r] at this
      omega
    · rw [← hir, hr', Nat.add_assoc, Nat.mul_comm, Nat.mul_add_div (by omega),
        Nat.div_eq_of_lt hpos, Nat.add_zero]
    · rw [hr', hg', hk']
      push_cast
      rfl
  · rw [hqs] at h
    cases h
    exact List.mem_map.mpr ⟨i, hi, rfl⟩
  · rw [hqs] at h
    cases h
    rw [List.mem_singleton.mp hi]
    exact List.mem_singleton.mpr rfl

/-- The queue of every bank that a request covers is blocked. -/
def Blocks (cfg : Config) (q : CommandQueue) (d : Duty) (req : Command) : Prop :=
  ∀ i ∈ ChannelState.covered cfg req, i ∈ cfg.allBanks → getQueueIndex cfg i ∈ d.indices q

/-- A queue in turn that is not blocked holds no bank of the request. -/
theorem Blocks.not_covered {q : CommandQueue} {d : Duty} {req : Command} (h : q.Blocks cfg d req)
    (hactive : d.active q) (hb : q.blocked = false) {i : BankId} (hbank : i ∈ cfg.allBanks)
    (hidx : q.queueIdx = getQueueIndex cfg i) : i ∉ ChannelState.covered cfg req := by
  intro hi
  have hmem := h i hi hbank
  unfold blocked at hb
  rw [Bool.or_eq_false_iff] at hb
  cases d with
  | refresh =>
    have hb := hb.1
    simp only [Duty.active, Duty.indices] at hactive hmem
    simp [hactive, hidx, hmem] at hb
  | rfm =>
    have hb := hb.2
    simp only [Duty.active, Duty.indices] at hactive hmem
    simp [hactive, hidx, hmem] at hb

end CommandQueue

theorem Config.InRange.mem_allBanks {cfg : Config} {a : Address} (h : cfg.InRange a) :
    a.bankId ∈ cfg.allBanks :=
  cfg.mem_allBanks.mpr ⟨h.rank, h.bankgroup, h.bank⟩

namespace ChannelState
variable {cfg : Config} {cs cs' : ChannelState} {cmd r : Command} {clk : ℕ}

/-- A maintenance request is answered by itself or by the precharge that prepares it. -/
theorem Answer.of_maintenance (hcmd : cmd.isRefresh ∨ cmd.isRFM ∨ cmd.isDRFM)
    (h : Answer cfg cs cmd clk (some r) cs') :
    r = cmd ∨ r.cmdType = .preAb ∨ r.cmdType = .preSb ∨ r.cmdType = .precharge := by
  have hcmd' : cmd.isRefresh ∨ cmd.isRFM ∨ cmd.isDRFM ∨ cmd.cmdType = .srefEnter :=
    hcmd.imp_right (Or.imp_right .inl)
  have hpre := BankState.prechargeFor_cases cmd
  have hbank {i : BankId} {r : Command}
      (hi : (cs.bankStates i).getReadyCommand cfg cmd clk = .ok (some r)) :
      r.cmdType = cmd.cmdType ∨ r.cmdType = BankState.prechargeFor cmd := by
    obtain ⟨ty, hty, _, rfl⟩ := BankState.getReadyCommand_some_iff.mp hi
    exact (BankState.requiredType_of_maintenance hcmd' hty).imp (·.2) (·.2)
  cases h with
  | divert _ hd =>
    obtain ⟨_, i, _, ty, _, _, hi, hne, rfl⟩ := hd
    obtain rfl : ty = BankState.prechargeFor cmd := (hbank hi).resolve_left hne
    exact .inr hpre
  | allReady => exact .inl rfl
  | single _ hb =>
    rcases hbank hb with hty | hty
    · obtain ⟨ty, _, _, rfl⟩ := BankState.getReadyCommand_some_iff.mp hb
      obtain rfl : ty = cmd.cmdType := hty
      exact .inl rfl
    · exact .inr (by simpa [hty] using hpre)
  | activate _ _ _ hb =>
    rcases hbank hb with hty | hty
    · simp only [activation] at hty
      simp [Command.isRefresh, Command.isRFM, Command.isDRFM, ← hty] at hcmd
    · simp only [activation] at hty
      simp [← hty] at hpre

/-- The command chosen for a queued request acts on the bank of the request. -/
theorem Answer.bankId_of_readWrite (hcmd : cmd.isReadWrite)
    (h : Answer cfg cs cmd clk (some r) cs') : r.bankId = cmd.bankId := by
  obtain ⟨hrank, hsb⟩ := Chan.not_multi_of_isReadWrite hcmd
  cases h with
  | divert hm | allReady hm => simp [hrank, hsb] at hm
  | single _ hb =>
    obtain ⟨ty, _, _, rfl⟩ := BankState.getReadyCommand_some_iff.mp hb
    rfl
  | activate => rfl

/-- The request at the front of the queue is the one its own command removes. -/
theorem dropRefresh_head {rest : List Command} (hcmd : cmd.isRefresh)
    (hq : cs.refreshQ = cmd :: rest) : (dropRefresh cs cmd).refreshQ = rest := by
  unfold dropRefresh rankNeedRefresh banksetNeedRefresh bankNeedRefresh
  simp only [hcmd, if_true, Bool.false_eq_true, if_false]
  split_ifs <;> simp [hq]

theorem eraseP_rfmTarget (cmd : Command) (rest : List Command) :
    (cmd :: rest).eraseP (rfmTarget cmd) = rest := by
  rw [List.eraseP_cons_of_pos]
  unfold rfmTarget
  split_ifs <;> simp

end ChannelState

namespace Micro
open Controller
variable {cfg : Config} {π : Policy} {m m' : Micro}

/-- A command that is no maintenance. -/
def Demand (cmd : Command) : Prop :=
  cmd.isRefresh = false ∧ cmd.isRFM = false ∧ cmd.isDRFM = false

/-- A step that works on no request: flags and blocked queues stay, requests are only added. -/
structure Quiet (m m' : Micro) : Prop where
  flags : ∀ d : Duty, d.active m'.ctl.cmdQueue = d.active m.ctl.cmdQueue ∧
    d.indices m'.ctl.cmdQueue = d.indices m.ctl.cmdQueue
  queue : ∀ d : Duty, ∃ more, d.queue m'.ctl.channelState = d.queue m.ctl.channelState ++ more
  log : ∃ extra, m'.ctl.channelState.log = extra ++ m.ctl.channelState.log ∧
    ∀ e ∈ extra, e.isIssue = false
  clk : m'.ctl.clk = m.ctl.clk ∧ (m.issued ≠ [] → m'.issued ≠ []) ∨ m'.ctl.clk = m.ctl.clk + 1

/-- The steps as far as maintenance is concerned. -/
inductive Effect (cfg : Config) (m : Micro) : Micro → Prop
  | quiet {m' : Micro} (hm : m.ticket = none ∨ m.issued ≠ []) (h : Quiet m m')
      (ht : m'.ticket = none) : Effect cfg m m'
  | start {m' : Micro} (d : Duty) {req rest idx} (hm : m.ticket = none) (hissued : m.issued = [])
      (hq : d.queue m.ctl.channelState = req :: rest)
      (hin : d.active m.ctl.cmdQueue = false) (hother : d.other.active m.ctl.cmdQueue = false)
      (hidx : CommandQueue.maintenanceQIndices cfg req = .ok idx)
      (hd : d.active m'.ctl.cmdQueue = true ∧ ∀ x ∈ idx, x ∈ d.indices m'.ctl.cmdQueue)
      (hd' : d.other.active m'.ctl.cmdQueue = false)
      (hcs : m'.ctl.channelState = m.ctl.channelState) (hclk : m'.ctl.clk = m.ctl.clk)
      (ht : m'.ticket = none) : Effect cfg m m'
  | prepare {m' : Micro} (d : Duty) {req rest r} (hm : m.ticket = none) (h : Quiet m m')
      (hq : d.queue m.ctl.channelState = req :: rest) (hin : d.active m.ctl.cmdQueue)
      (hr : r.cmdType = .preAb ∨ r.cmdType = .preSb ∨ r.cmdType = .precharge)
      (ht : m'.ticket = some ⟨r, d.origin req⟩) : Effect cfg m m'
  | choose {m' : Micro} (d : Duty) {req rest} (hm : m.ticket = none) (hissued : m'.issued = [])
      (hq : d.queue m.ctl.channelState = req :: rest)
      (hq' : ∃ more, d.queue m'.ctl.channelState = req :: (rest ++ more))
      (hin : d.active m.ctl.cmdQueue) (hd : d.active m'.ctl.cmdQueue = false)
      (hother : d.other.active m'.ctl.cmdQueue = d.other.active m.ctl.cmdQueue)
      (hlog : ∃ extra, m'.ctl.channelState.log = extra ++ m.ctl.channelState.log ∧
        ∀ e ∈ extra, e.isIssue = false)
      (hclk : m'.ctl.clk = m.ctl.clk)
      (ht : m'.ticket = some ⟨req, d.origin req⟩) : Effect cfg m m'
  | take {m' : Micro} {p : Pick} (hm : m.ticket = none) (h : Quiet m m') (ht : m'.ticket = some p)
      (hp : Demand p.cmd) (hbank : p.cmd.bankId ∈ cfg.allBanks)
      (hb : m.ctl.cmdQueue.blocked = false)
      (hidx : m.ctl.cmdQueue.queueIdx = CommandQueue.getQueueIndex cfg p.cmd.bankId) :
      Effect cfg m m'
  | issue {m' : Micro} {p : Pick} (hm : m.ticket = some p)
      (h : ChannelState.Issued cfg m.ctl.channelState p.cmd m.ctl.clk p.origin m'.ctl.channelState)
      (hflags : m'.ctl.cmdQueue = m.ctl.cmdQueue) (hclk : m'.ctl.clk = m.ctl.clk)
      (hissued : m'.issued ≠ []) (ht : m'.ticket = none) : Effect cfg m m'

/-- A query adds requests and events that are no issue. -/
theorem Quiet.of_queried {c : Controller} {cs' : ChannelState} {q' : CommandQueue}
    {ticket ticket' : Option Pick} {issued : List Command}
    (h : ChannelState.Queried cfg c.channelState cs')
    (hq : ∀ d : Duty, d.active q' = d.active c.cmdQueue ∧ d.indices q' = d.indices c.cmdQueue) :
    Quiet ⟨c, ticket, issued⟩ ⟨(c.withChannel cs').withCmdQueue q', ticket', issued⟩ := by
  refine ⟨hq, fun d => ?_, h.log, .inl ⟨rfl, id⟩⟩
  obtain ⟨extra, hextra, _⟩ := h.rfmQ
  cases d with
  | refresh => exact ⟨[], by simpa [Duty.queue, withChannel, withCmdQueue] using h.refreshQ⟩
  | rfm => exact ⟨extra, hextra⟩

/-- Steps that leave the channel alone. -/
theorem Quiet.of_channel {c c' : Controller} {ticket ticket' : Option Pick}
    {issued issued' : List Command} (hcs : c'.channelState.log = c.channelState.log)
    (hq : ∀ d : Duty, d.queue c'.channelState = d.queue c.channelState)
    (hflags : ∀ d : Duty, d.active c'.cmdQueue = d.active c.cmdQueue ∧
      d.indices c'.cmdQueue = d.indices c.cmdQueue)
    (hclk : c'.clk = c.clk ∧ (issued ≠ [] → issued' ≠ []) ∨ c'.clk = c.clk + 1) :
    Quiet ⟨c, ticket, issued⟩ ⟨c', ticket', issued'⟩ :=
  ⟨hflags, fun d => ⟨[], by simpa using hq d⟩, ⟨[], by simpa using hcs, by simp⟩, hclk⟩

theorem demand_of_precharge {r : Command}
    (h : r.cmdType = .preAb ∨ r.cmdType = .preSb ∨ r.cmdType = .precharge) : Demand r := by
  rcases h with h | h | h <;>
    simp [Demand, Command.isRefresh, Command.isRFM, Command.isDRFM, h]

/-- The answer to a request is the request itself: it leaves service. -/
theorem Effect.choose_of_queried (d : Duty) {c : Controller} {cs' : ChannelState} {req : Command}
    {rest : List Command} (h : ChannelState.Queried cfg c.channelState cs')
    (hq : d.queue c.channelState = req :: rest) (hin : d.active c.cmdQueue)
    (hset : d.active (settled c.cmdQueue ⟨req, d.origin req⟩) = false ∧
      d.other.active (settled c.cmdQueue ⟨req, d.origin req⟩) = d.other.active c.cmdQueue) :
    Effect cfg ⟨c, none, []⟩ ⟨(c.withChannel cs').withCmdQueue
      (settled c.cmdQueue ⟨req, d.origin req⟩), some ⟨req, d.origin req⟩, []⟩ := by
  refine .choose d rfl rfl hq ?_ hin hset.1 hset.2 h.log rfl rfl
  obtain ⟨extra, hextra, _⟩ := h.rfmQ
  cases d with
  | refresh =>
    have hq' : cs'.refreshQ = req :: rest := h.refreshQ.trans hq
    exact ⟨[], by simpa [Duty.queue, withChannel, withCmdQueue] using hq'⟩
  | rfm =>
    have hq' : c.channelState.rfmQ = req :: rest := hq
    rw [hq'] at hextra
    exact ⟨extra, hextra⟩

theorem Step.effect (hen : cfg.enableSelfRefresh = false) (hmode : cfg.hydraMode ≠ 1)
    (hr : Chan.Ready cfg m.chan) (hr' : Chan.Ready cfg m'.chan) (hw : m.ctl.cmdQueue.WellQueued cfg)
    (h : Step cfg π m m') : Effect cfg m m' := by
  cases h with
  | others | rotate =>
    exact .quiet (.inl rfl) (.of_channel rfl (fun _ => rfl)
      (fun d => by cases d <;> exact ⟨rfl, rfl⟩) (.inl ⟨rfl, id⟩)) rfl
  | endTick =>
    exact .quiet (.inl rfl) (.of_channel rfl (fun _ => rfl)
      (fun d => by cases d <;> exact ⟨rfl, rfl⟩) (.inr rfl)) rfl
  | drop =>
    exact .quiet (.inr (by simp)) (.of_channel rfl (fun _ => rfl) (fun d => ⟨rfl, rfl⟩)
      (.inl ⟨rfl, by simp⟩)) rfl
  | @accept c addr isWrite =>
    obtain ⟨_, _, _, _, _, _, _, heq⟩ := c.addTransaction_eq cfg addr isWrite
    rw [heq]
    exact .quiet (.inl rfl) (.of_channel rfl (fun _ => rfl) (fun d => ⟨rfl, rfl⟩) (.inl ⟨rfl, id⟩)) rfl
  | returnDone c clk =>
    obtain ⟨_, _, heq⟩ := c.returnDoneTrans_eq clk
    rw [heq]
    exact .quiet (.inl rfl) (.of_channel rfl (fun _ => rfl) (fun d => ⟨rfl, rfl⟩) (.inl ⟨rfl, id⟩)) rfl
  | refreshTick c =>
    refine .quiet (.inl rfl) ⟨fun _ => ⟨rfl, rfl⟩, fun d => ?_, ?_, .inl ⟨rfl, id⟩⟩ rfl
    all_goals
      rcases c.refresh.clockTick_eq cfg c.channelState with h | ⟨req, _, h⟩ <;>
        simp only [Controller.refreshTick, h]
    · exact ⟨[], by simp⟩
    · cases d with
      | refresh => exact ⟨[req], rfl⟩
      | rfm => exact ⟨[], by simp [Duty.queue, ChannelState.addRefresh]⟩
    · exact ⟨[], rfl, by simp⟩
    · exact ⟨[_], rfl, by simp [Event.isIssue]⟩
  | channelTick c =>
    exact .quiet (.inl rfl) (Quiet.of_queried ChannelState.queried_clockTick fun d => ⟨rfl, rfl⟩) rfl
  | startRefresh hq hrfm hin h =>
    refine .start .refresh rfl rfl hq hin hrfm h ⟨rfl, fun x hx => ?_⟩ hrfm rfl rfl rfl
    exact List.mem_append_right _ hx
  | startRFM hq hin href h =>
    refine .start .rfm rfl rfl hq hin href h ⟨rfl, fun x hx => ?_⟩ href rfl rfl rfl
    exact List.mem_append_right _ hx
  | query _ h =>
    exact .quiet (.inl rfl) (Quiet.of_queried (ChannelState.getReadyCommand_answer h).queried
      fun d => ⟨rfl, rfl⟩) rfl
  | hydraQuery h =>
    exact .quiet (.inl rfl) (Quiet.of_queried (ChannelState.queried_getReadyHydraCommand h)
      fun d => ⟨rfl, rfl⟩) rfl
  | @pickMaintenance c cmd origin r cs' hs ho _ h =>
    have ha := ChannelState.getReadyCommand_answer h
    have hreg : ChannelState.Regular cfg c.channelState := hr.regular
    cases hs with
    | @refresh _ rest hq hin hrfm =>
      have hreq : cmd.isRefresh := hreg.refreshQ cmd (by simp [hq])
      rcases ha.of_maintenance (.inl hreq) with rfl | hpre
      · exact .choose_of_queried .refresh ha.queried hq hin ⟨by simp [settled, hreq, Duty.active, Duty.origin],
          by simp [settled, hreq, Duty.active, Duty.origin, Duty.other]⟩
      · refine .prepare .refresh rfl (Quiet.of_queried ha.queried fun d => ?_) hq hin hpre rfl
        have hno : r.isRefresh = false := (demand_of_precharge hpre).1
        simp [settled, hno]
    | @rfm _ rest hq hin =>
      have hreq : cmd.isRFM ∨ cmd.isDRFM := hreg.rfmQ cmd (by simp [hq])
      have hreq' : (cmd.isRFM || cmd.isDRFM) = true := by simpa using hreq
      rcases ha.of_maintenance (.inr hreq) with rfl | hpre
      · exact .choose_of_queried .rfm ha.queried hq hin ⟨by simp [settled, hreq', Duty.active, Duty.origin],
          by simp [settled, hreq', Duty.active, Duty.origin, Duty.other]⟩
      · refine .prepare .rfm rfl (Quiet.of_queried ha.queried fun d => ?_) hq hin hpre rfl
        obtain ⟨_, hno, hno'⟩ := demand_of_precharge hpre
        simp [settled, hno, hno']
    | demand => exact absurd rfl ho
    | sref _ hsref => simp [hen] at hsref
  | @pickQueued c issued p cs' q' _ hc hq =>
    have hg := hr'.ticket p rfl
    cases hc with
    | hydra h =>
      obtain ⟨h₁, h₂, h₃⟩ := hr.regular.hydraOff hmode
      have hoff : c.channelState.getReadyHydraCommand cfg c.clk = .ok (none, c.channelState) :=
        ChannelState.getReadyHydraCommand_off h₃ h₁ h₂
      rw [hoff] at h
      cases h
    | @demand before cmd after r _ hqueue hb h =>
      have ha := ChannelState.getReadyCommand_answer h
      have hmem : cmd ∈ c.cmdQueue.queues c.cmdQueue.queueIdx := by simp [hqueue]
      obtain ⟨hidx, hrw, haddr⟩ := hw _ cmd hmem
      have hbank : r.bankId = cmd.bankId := ha.bankId_of_readWrite hrw
      have hin : cmd.bankId ∈ cfg.allBanks := by
        rw [Command.bankId, haddr]
        exact (cfg.addressMapping_inRange _).mem_allBanks
      refine .take rfl (Quiet.of_queried ha.queried fun d => ?_) rfl ?_ (hbank ▸ hin) hb
        (hbank ▸ hidx)
      · unfold Taken at hq
        split_ifs at hq
        · obtain ⟨qs, rfl⟩ := CommandQueue.eraseRWCommand_eq hq
          cases d <;> exact ⟨rfl, rfl⟩
        · subst hq
          exact ⟨rfl, rfl⟩
      · have hno (hp : r.isRefresh ∨ r.isRFM ∨ r.isDRFM) : False := by
          rcases hg.origin_of_maintenance hen hmode hp with h | h <;> cases h
        simp only [not_or, Bool.not_eq_true, imp_false] at hno
        exact hno
  | @issue c p issued c' h =>
    obtain ⟨_, _, _, cs', hcs, rfl⟩ := issueCommand_frame h
    exact .issue rfl (ChannelState.updateTimingAndStates_issued hcs) rfl rfl (by simp) rfl
  | powerUpdate c =>
    obtain ⟨f, heq⟩ := c.powerUpdate_eq cfg
    rw [heq]
    exact .quiet (.inl rfl) (.of_channel rfl (fun d => by cases d <;> rfl) (fun d => ⟨rfl, rfl⟩)
      (.inl ⟨rfl, id⟩)) rfl
  | schedule c =>
    obtain ⟨_, _, _, _, _, _, heq⟩ := c.scheduleTransaction_frame cfg
    rw [heq]
    exact .quiet (.inl rfl) (.of_channel rfl (fun _ => rfl)
      (fun d => by cases d <;> exact ⟨rfl, rfl⟩) (.inl ⟨rfl, id⟩)) rfl

/-- The requests of the queue of a duty. -/
def Owns (d : Duty) (req : Command) : Prop :=
  match d with
  | .refresh => req.isRefresh
  | .rfm => req.isRFM ∨ req.isDRFM

theorem Owns.ne_demand {d : Duty} {req cmd : Command} (h : Owns d req) (hcmd : Demand cmd) :
    cmd ≠ req := by
  rintro rfl
  obtain ⟨h₁, h₂, h₃⟩ := hcmd
  cases d <;> simp [Owns, h₁, h₂, h₃] at h

/-- A picked request waits at the front of its queue and its banks are blocked. -/
structure Waiting (cfg : Config) (d : Duty) (req : Command) (rest : List Command) (m : Micro) :
    Prop where
  active : d.active m.ctl.cmdQueue = true
  other : d.other.active m.ctl.cmdQueue = false
  queue : ∃ more, d.queue m.ctl.channelState = req :: (rest ++ more)
  blocks : m.ctl.cmdQueue.Blocks cfg d req
  ticket : ∀ p, m.ticket = some p → Demand p.cmd ∧
    (p.cmd.cmdType = .activate ∨ p.cmd.isReadWrite → p.cmd.bankId ∉ ChannelState.covered cfg req)

/-- The request itself has been chosen and is issued next. -/
structure Chosen (d : Duty) (req : Command) (rest : List Command) (m : Micro) : Prop where
  inactive : d.active m.ctl.cmdQueue = false
  other : d.other.active m.ctl.cmdQueue = false
  queue : ∃ more, d.queue m.ctl.channelState = req :: (rest ++ more)
  ticket : m.ticket = some ⟨req, d.origin req⟩
  issued : m.issued = []

/-- The history has grown by events that spare the request. -/
def Spared (cfg : Config) (req : Command) (m m' : Micro) : Prop :=
  ∃ extra, m'.ctl.channelState.log = extra ++ m.ctl.channelState.log ∧
    ∀ e ∈ extra, e.Spares cfg req

theorem spares_of_not_issue {req : Command} {e : Event} (h : e.isIssue = false) :
    e.Spares cfg req := by
  cases e <;> simp_all [Event.isIssue, Event.Spares]

theorem Quiet.spared {req : Command} (h : Quiet m m') : Spared cfg req m m' := by
  obtain ⟨extra, hlog, hextra⟩ := h.log
  exact ⟨extra, hlog, fun e he => spares_of_not_issue (hextra e he)⟩

theorem Waiting.quiet {d : Duty} {req : Command} {rest : List Command}
    (hw : Waiting cfg d req rest m) (h : Quiet m m')
    (ht : ∀ p, m'.ticket = some p → Demand p.cmd ∧
      (p.cmd.cmdType = .activate ∨ p.cmd.isReadWrite →
        p.cmd.bankId ∉ ChannelState.covered cfg req)) : Waiting cfg d req rest m' := by
  refine ⟨(h.flags d).1.trans hw.active, (h.flags _).1.trans hw.other, ?_, fun i hi hbank => ?_, ht⟩
  · obtain ⟨more, hq⟩ := hw.queue
    obtain ⟨more', hq'⟩ := h.queue d
    exact ⟨more ++ more', by rw [hq', hq]; simp⟩
  · rw [(h.flags d).2]
    exact hw.blocks i hi hbank

/-- A duty that is being served is the only one. -/
theorem Waiting.duty_eq {d d' : Duty} {req : Command} {rest : List Command}
    (hw : Waiting cfg d req rest m) (h : d'.active m.ctl.cmdQueue = true) : d' = d := by
  have := hw.other
  cases d <;> cases d' <;> simp_all [Duty.other]

/-- One step of the service: the request goes on waiting, or it is chosen. -/
theorem Waiting.step {d : Duty} {req : Command} {rest : List Command} (howns : Owns d req)
    (hw : Waiting cfg d req rest m) (h : Effect cfg m m') :
    Spared cfg req m m' ∧ (Waiting cfg d req rest m' ∨ Chosen d req rest m') := by
  cases h with
  | quiet _ h ht => exact ⟨h.spared, .inl (hw.quiet h (by simp [ht]))⟩
  | start d' _ _ _ hin hother =>
    have hactive := hw.active
    cases d <;> cases d' <;> simp_all [Duty.other]
  | prepare d' hm h hq hin hr ht =>
    refine ⟨h.spared, .inl (hw.quiet h fun p hp => ?_)⟩
    rw [ht] at hp
    cases hp
    refine ⟨demand_of_precharge hr, fun hacc => ?_⟩
    rcases hr with hr | hr | hr <;>
      simp [hr, Command.isReadWrite, Command.isRead, Command.isWrite] at hacc
  | choose d' hm hissued hq hq' hin hd hother hlog hclk ht =>
    obtain rfl := hw.duty_eq hin
    obtain ⟨more, hqueue⟩ := hw.queue
    obtain ⟨rfl, rfl⟩ : _ = req ∧ _ = rest ++ more := by simpa using hq.symm.trans hqueue
    obtain ⟨more', hq'⟩ := hq'
    obtain ⟨extra, hlog, hextra⟩ := hlog
    exact ⟨⟨extra, hlog, fun e he => spares_of_not_issue (hextra e he)⟩,
      .inr ⟨hd, hother.trans hw.other, ⟨more ++ more', by rw [hq']; simp⟩, ht, hissued⟩⟩
  | take hm h ht hp hbank hb hidx =>
    refine ⟨h.spared, .inl (hw.quiet h fun p' hp' => ?_)⟩
    rw [ht] at hp'
    cases hp'
    exact ⟨hp, fun _ => hw.blocks.not_covered hw.active hb hbank hidx⟩
  | issue hm h hflags hclk hissued ht =>
    obtain ⟨hdem, hbank⟩ := hw.ticket _ hm
    refine ⟨?_, .inl ⟨hflags ▸ hw.active, hflags ▸ hw.other, ?_, hflags ▸ hw.blocks, by simp [ht]⟩⟩
    · obtain ⟨extra, hlog, hextra⟩ := h.log
      refine ⟨extra ++ [_], by rw [hlog, List.append_assoc]; rfl, fun e he => ?_⟩
      rcases List.mem_append.mp he with he | he
      · exact spares_of_not_issue (Event.isIssue_of_internal (hextra e he))
      · rw [List.mem_singleton.mp he]
        exact ⟨howns.ne_demand hdem, hbank⟩
    · obtain ⟨more, hq⟩ := hw.queue
      refine ⟨more, ?_⟩
      cases d with
      | refresh => exact (h.refreshQ_eq hdem.1).trans hq
      | rfm => exact (h.rfmQ_eq hdem).trans hq

/-- The command of the request removes the request and nothing else. -/
theorem Chosen.step {d : Duty} {req : Command} {rest : List Command} (howns : Owns d req)
    (hc : Chosen d req rest m) (h : Effect cfg m m') :
    m'.ticket = none ∧ m'.issued ≠ [] ∧ m'.ctl.clk = m.ctl.clk ∧
      d.active m'.ctl.cmdQueue = false ∧ d.other.active m'.ctl.cmdQueue = false ∧
      (∃ more, d.queue m'.ctl.channelState = rest ++ more) ∧
      ∃ post found, m'.ctl.channelState.log =
        post ++ .issue req m.ctl.clk (d.origin req) found :: m.ctl.channelState.log := by
  have hticket := hc.ticket
  cases h with
  | quiet hm => simp [hticket, hc.issued] at hm
  | start _ hm | prepare _ hm | choose _ hm | take hm => simp [hticket] at hm
  | issue hm h hflags hclk hissued ht =>
    obtain rfl := Option.some.inj (hm.symm.trans hticket)
    refine ⟨ht, hissued, hclk, hflags ▸ hc.inactive, hflags ▸ hc.other, ?_, ?_⟩
    · obtain ⟨more, hq⟩ := hc.queue
      refine ⟨more, ?_⟩
      cases d with
      | refresh => exact h.refreshQ_drop.trans (ChannelState.dropRefresh_head howns hq)
      | rfm =>
        refine (h.rfmQ_drop howns).trans ?_
        rw [show m.ctl.channelState.rfmQ = _ from hq]
        exact ChannelState.eraseP_rfmTarget req _
    · obtain ⟨extra, hlog, _⟩ := h.log
      exact ⟨extra, _, hlog⟩

/-- The rest of the tick in which a request was issued: nothing is in service. -/
structure After (d : Duty) (rest : List Command) (m : Micro) : Prop where
  issued : m.issued ≠ []
  inactive : d.active m.ctl.cmdQueue = false
  other : d.other.active m.ctl.cmdQueue = false
  queue : ∃ more, d.queue m.ctl.channelState = rest ++ more
  ticket : ∀ p, m.ticket = some p → Demand p.cmd

theorem After.not_active {d d' : Duty} {rest : List Command} (h : After d rest m) :
    d'.active m.ctl.cmdQueue = false := by
  have h₁ := h.inactive
  have h₂ := h.other
  cases d <;> cases d' <;> simp_all [Duty.other]

theorem After.quiet {d : Duty} {rest : List Command} (ha : After d rest m) (h : Quiet m m')
    (hclk : m'.ctl.clk = m.ctl.clk) (ht : ∀ p, m'.ticket = some p → Demand p.cmd) :
    After d rest m' := by
  refine ⟨?_, (h.flags d).1.trans ha.inactive, (h.flags _).1.trans ha.other, ?_, ht⟩
  · rcases h.clk with ⟨_, himp⟩ | hclk'
    · exact himp ha.issued
    · omega
  · obtain ⟨more, hq⟩ := ha.queue
    obtain ⟨more', hq'⟩ := h.queue d
    exact ⟨more ++ more', by rw [hq', hq]; simp⟩

theorem After.step {d : Duty} {rest : List Command} (ha : After d rest m) (h : Effect cfg m m')
    (hclk : m'.ctl.clk = m.ctl.clk) : After d rest m' := by
  cases h with
  | quiet _ h ht => exact ha.quiet h hclk (by simp [ht])
  | start _ _ hissued => exact absurd hissued ha.issued
  | prepare d' _ _ _ hin => simp [ha.not_active] at hin
  | choose d' _ _ _ _ hin => simp [ha.not_active] at hin
  | take _ h ht hp =>
    refine ha.quiet h hclk fun p' hp' => ?_
    rw [ht] at hp'
    cases hp'
    exact hp
  | issue hm h hflags _ hissued ht =>
    have hdem := ha.ticket _ hm
    refine ⟨hissued, hflags ▸ ha.inactive, hflags ▸ ha.other, ?_, by simp [ht]⟩
    obtain ⟨more, hq⟩ := ha.queue
    refine ⟨more, ?_⟩
    cases d with
    | refresh => exact (h.refreshQ_eq hdem.1).trans hq
    | rfm => exact (h.rfmQ_eq hdem).trans hq

theorem Effect.clk_le (h : Effect cfg m m') : m.ctl.clk ≤ m'.ctl.clk := by
  have hquiet (h : Quiet m m') : m.ctl.clk ≤ m'.ctl.clk := by
    rcases h.clk with ⟨h, _⟩ | h <;> omega
  cases h with
  | quiet _ h | prepare _ _ h | take _ h => exact hquiet h
  | start | choose | issue => omega

theorem Effect.log (h : Effect cfg m m') :
    ∃ extra, m'.ctl.channelState.log = extra ++ m.ctl.channelState.log := by
  cases h with
  | quiet _ h | prepare _ _ h | take _ h => exact h.log.imp fun _ h => h.1
  | start _ _ _ _ _ _ _ _ _ hcs => exact ⟨[], by rw [hcs]; rfl⟩
  | choose _ _ _ _ _ _ _ _ hlog => exact hlog.imp fun _ h => h.1
  | issue _ h =>
    obtain ⟨extra, hlog, _⟩ := h.log
    exact ⟨extra ++ [_], by rw [hlog, List.append_assoc]; rfl⟩

/-- The service of a request, from a state with the history `past` on: it waits, it has been
chosen, or it has been issued, and until then its banks were spared. -/
inductive Phase (cfg : Config) (d : Duty) (req : Command) (rest : List Command) (start : ℕ)
    (past : List Event) (m : Micro) : Prop
  | waiting {new} (hw : Waiting cfg d req rest m) (hlog : m.ctl.channelState.log = new ++ past)
      (hnew : ∀ e ∈ new, e.Spares cfg req) (hclk : start ≤ m.ctl.clk)
  | chosen {new} (hc : Chosen d req rest m) (hlog : m.ctl.channelState.log = new ++ past)
      (hnew : ∀ e ∈ new, e.Spares cfg req) (hclk : start ≤ m.ctl.clk)
  | done {post t found pre} (hlog : m.ctl.channelState.log =
        post ++ .issue req t (d.origin req) found :: (pre ++ past))
      (hpre : ∀ e ∈ pre, e.Spares cfg req) (hclk : start ≤ t ∧ t ≤ m.ctl.clk)
      (hafter : m.ctl.clk = t → After d rest m)

theorem Phase.step {d : Duty} {req : Command} {rest : List Command} {start : ℕ} {past : List Event}
    (howns : Owns d req) (hm : Phase cfg d req rest start past m) (h : Effect cfg m m') :
    Phase cfg d req rest start past m' := by
  have hle := h.clk_le
  cases hm with
  | waiting hw hlog hnew hclk =>
    obtain ⟨⟨extra, hlog', hextra⟩, hnext⟩ := hw.step howns h
    rw [hlog, ← List.append_assoc] at hlog'
    have hall : ∀ e ∈ extra ++ _, e.Spares cfg req := fun e he =>
      (List.mem_append.mp he).elim (hextra e) (hnew e)
    rcases hnext with hw' | hc'
    · exact .waiting hw' hlog' hall (hclk.trans hle)
    · exact .chosen hc' hlog' hall (hclk.trans hle)
  | chosen hc hlog hnew hclk =>
    obtain ⟨ht, hissued, hclk', hin, hother, hq, post, found, hlog'⟩ := hc.step howns h
    rw [hlog] at hlog'
    exact .done hlog' hnew ⟨hclk, hle⟩ fun _ => ⟨hissued, hin, hother, hq, by simp [ht]⟩
  | @done post t found pre hlog hpre hclk hafter =>
    obtain ⟨extra, hlog'⟩ := h.log
    rw [hlog, ← List.append_assoc] at hlog'
    refine .done hlog' hpre ⟨hclk.1, hclk.2.trans hle⟩ fun heq => ?_
    have hsame : m.ctl.clk = t := by omega
    exact (hafter hsame).step h (by omega)

/-- Every request in service waits at the front of its queue, with its banks blocked. -/
def Held (cfg : Config) (m : Micro) : Prop :=
  ∀ d : Duty, d.active m.ctl.cmdQueue → ∃ req rest, Owns d req ∧ Waiting cfg d req rest m

theorem owns_of_queue {cs : ChannelState} {d : Duty} {req : Command} {rest : List Command}
    (hreg : ChannelState.Regular cfg cs) (hq : d.queue cs = req :: rest) : Owns d req := by
  have hmem : req ∈ d.queue cs := hq ▸ List.mem_cons_self
  cases d with
  | refresh => exact hreg.refreshQ req hmem
  | rfm => exact hreg.rfmQ req hmem

theorem Held.step (hqs : cfg.queueStructure = .perBank) (hr : Chan.Ready cfg m.chan)
    (hm : Held cfg m) (h : Effect cfg m m') : Held cfg m' := by
  intro d hd
  by_cases hold : d.active m.ctl.cmdQueue
  · obtain ⟨req, rest, howns, hw⟩ := hm d hold
    rcases (hw.step howns h).2 with hw' | hc'
    · exact ⟨req, rest, howns, hw'⟩
    · simp [hc'.inactive] at hd
  · -- only the start of its service turns a duty on
    have hquiet (h : Quiet m m') : False := hold ((h.flags d).1 ▸ hd)
    cases h with
    | quiet _ h | prepare _ _ h | take _ h => exact (hquiet h).elim
    | @start d' req rest idx hticket hissued hq hin hother hidx hd' hother' hcs hclk ht =>
      have hdd : d = d' := by
        have hno := hother'
        cases d <;> cases d' <;> simp_all [Duty.other]
      subst hdd
      refine ⟨req, rest, ?_, hd'.1, hother', ⟨[], by rw [hcs, hq]; simp⟩, fun i hi hbank => ?_,
        by simp [ht]⟩
      · exact owns_of_queue hr.regular hq
      · exact hd'.2 _ (CommandQueue.getQueueIndex_mem hqs hidx hi hbank)
    | choose d' _ _ _ _ hin hd' hother =>
      exfalso
      cases d <;> cases d' <;> simp_all [Duty.other]
    | issue _ _ hflags => exact (hold (hflags ▸ hd)).elim

theorem Reached.step {m m' : Micro} (hm : Reached cfg π m) (h : ReflTransGen (Step cfg π) m m') :
    Reached cfg π m' := by
  obtain ⟨boot, hb⟩ := hm
  exact ⟨boot, hb.trans h⟩

section Runs
variable (hen : cfg.enableSelfRefresh = false) (hmode : cfg.hydraMode ≠ 1)
include hen hmode

theorem Reached.effect (hm : Reached cfg π m) (h : Step cfg π m m') : Effect cfg m m' :=
  h.effect hen hmode hm.ready (hm.step (.single h)).ready hm.wellQueued

theorem Reached.held (hqs : cfg.queueStructure = .perBank) (hm : Reached cfg π m) : Held cfg m := by
  have : Reached cfg π m ∧ Held cfg m := by
    refine hm.induct (P := fun m => Reached cfg π m ∧ Held cfg m)
      (fun boot => ⟨⟨boot, .refl⟩, fun d hd => ?_⟩) fun m m' hm h => ?_
    · cases d <;> cases hd
    · exact ⟨hm.1.step (.single h), hm.2.step hqs hm.1.ready (hm.1.effect hen hmode h)⟩
  exact this.2

theorem Phase.steps {d : Duty} {req : Command} {rest : List Command} {start : ℕ}
    {past : List Event} (howns : Owns d req) (hm : Reached cfg π m)
    (hp : Phase cfg d req rest start past m) (h : ReflTransGen (Step cfg π) m m') :
    Phase cfg d req rest start past m' := by
  induction h with
  | refl => exact hp
  | tail hsteps hstep ih => exact ih.step howns ((hm.step hsteps).effect hen hmode hstep)

end Runs

/-- A request that waits is described by the queue it is in front of. -/
theorem Waiting.exact {d : Duty} {req req' : Command} {rest rest' : List Command}
    (hw : Waiting cfg d req rest m) (hq : d.queue m.ctl.channelState = req' :: rest') :
    req' = req ∧ Waiting cfg d req' rest' m := by
  obtain ⟨more, hq'⟩ := hw.queue
  obtain ⟨rfl, rfl⟩ : req' = req ∧ rest' = rest ++ more := by simpa using hq.symm.trans hq'
  exact ⟨rfl, hw.active, hw.other, ⟨[], by simpa using hq⟩, hw.blocks, hw.ticket⟩

end Micro

namespace Controller
open Micro
variable {cfg : Config} {c c' : Controller}

/-- The call a tick makes for its picked request. -/
def finish (cfg : Config) (c : Controller) : Duty → Except Exit (Option Pick × Controller)
  | .refresh => c.withQueue <$> c.cmdQueue.finishRefresh cfg c.channelState
  | .rfm => c.withQueue <$> c.cmdQueue.finishRFM cfg c.channelState

/-- A tick picks the request at the front of a queue, unless the other queue is being served. -/
theorem picked_eq (cfg : Config) {d : Duty} {req : Command} (h : c.picked = some (d, req)) :
    c.maintenance cfg = c.finish cfg d ∧ (∃ rest, d.queue c.channelState = req :: rest) ∧
      (d.active c.cmdQueue = true ∨ d.other.active c.cmdQueue = false) := by
  have hhead {q : List Command} {d' : Duty} (h : q.head?.map (d', ·) = some (d, req)) :
      d' = d ∧ ∃ rest, q = req :: rest := by
    cases q with
    | nil => cases h
    | cons x rest => cases h; exact ⟨rfl, rest, rfl⟩
  unfold picked at h
  unfold maintenance
  split_ifs at h with hrfm href
  · obtain ⟨rfl, hq⟩ := hhead h
    exact ⟨by rw [if_pos hrfm]; rfl, hq, .inl hrfm⟩
  · obtain ⟨rfl, hq⟩ := hhead h
    exact ⟨by rw [if_neg hrfm, if_pos href]; rfl, hq, .inr (by simpa [Duty.active, Duty.other] using hrfm)⟩
  · obtain ⟨rfl, rest, hq⟩ := hhead h
    rw [Bool.or_eq_true, not_or, Bool.not_eq_true] at href
    refine ⟨?_, ⟨rest, hq⟩, .inr href.1⟩
    rw [if_neg hrfm, if_neg (by simpa [Bool.or_eq_true, href.1] using href.2), if_pos (by simp [hq])]
    rfl

theorem maintenance_steps {pick : Option Pick} (hclk : c.cmdQueue.clk = c.clk)
    (h : c.maintenance cfg = .ok (pick, c')) :
    ReflTransGen (Step cfg .free) (rest c) ⟨c', pick, []⟩ :=
  (maintenance_realizes (c := c) (π := .free) hclk fun _ _ => trivial).1 _ h

/-- The search for a queued command as steps. -/
theorem demand_steps {pick : Option Pick} {issued : List Command} (hmay : MayPick cfg issued)
    (hclk : c.cmdQueue.clk = c.clk) (h : c.demand cfg = .ok (pick, c')) :
    ReflTransGen (Step cfg .free) ⟨c, none, issued⟩ ⟨c', pick, issued⟩ ∧ c'.clk = c.clk :=
  ⟨(demand_realizes (c := c) hmay hclk).1 _ h, congrArg Prod.fst ((timers_issueInvariant cfg).demand h)⟩

theorem issue_steps {p : Pick} {issued : List Command} (h : c.issueCommand cfg p = .ok c') :
    ReflTransGen (Step cfg .free) ⟨c, some p, issued⟩ ⟨c', none, p.cmd :: issued⟩ ∧
      c'.clk = c.clk :=
  ⟨.single (.issue h), congrArg Prod.fst ((timers_issueInvariant cfg).issue _ _ _ h)⟩

theorem secondCommand_steps {first : Command} (hdual : cfg.enableHbmDualCmd)
    (hclk : c.cmdQueue.clk = c.clk) (h : c.secondCommand cfg first = .ok c') : ∃ issued,
      ReflTransGen (Step cfg .free) ⟨c, none, [first]⟩ ⟨c', none, issued⟩ ∧ c'.clk = c.clk := by
  obtain ⟨⟨pick, c₁⟩, hdemand, h⟩ := bind_ok_iff.mp h
  have hmay : MayPick cfg [first] := .inr ⟨hdual, rfl⟩
  obtain ⟨hsteps, hclk₁⟩ := demand_steps hmay hclk hdemand
  cases pick with
  | none => cases h; exact ⟨_, hsteps, hclk₁⟩
  | some p =>
    dsimp only at h
    split_ifs at h with hne
    · obtain ⟨hissue, hclk₂⟩ := issue_steps h
      exact ⟨_, hsteps.trans hissue, hclk₂.trans hclk₁⟩
    · cases h
      exact ⟨_, hsteps.tail (.drop hdual (by simpa using hne)), hclk₁⟩

theorem issueSelected_steps {pick : Option Pick} (hclk : c.cmdQueue.clk = c.clk)
    (h : c.issueSelected cfg pick = .ok c') : ∃ issued,
      ReflTransGen (Step cfg .free) ⟨c, pick, []⟩ ⟨c', none, issued⟩ ∧ c'.clk = c.clk := by
  cases pick with
  | none => cases h; exact ⟨[], .refl, rfl⟩
  | some p =>
    obtain ⟨c₁, hissue, h⟩ := bind_ok_iff.mp h
    obtain ⟨hsteps, hclk₁⟩ := issue_steps hissue
    split_ifs at h with hdual
    · have hsync : c₁.cmdQueue.clk = c₁.clk := synced_of_steps hsteps hclk
      obtain ⟨issued, hsecond, hclk₂⟩ := secondCommand_steps hdual hsync h
      exact ⟨issued, hsteps.trans hsecond, hclk₂.trans hclk₁⟩
    · cases h
      exact ⟨_, hsteps, hclk₁⟩

/-- Without self-refresh a tick is its maintenance, followed by steps at the same time. -/
theorem clockTick_steps (hen : cfg.enableSelfRefresh = false) (hclk : c.cmdQueue.clk = c.clk)
    (h : c.clockTick cfg = .ok c') : ∃ pick c₁ c₂ issued,
      (ticked cfg c).maintenance cfg = .ok (pick, c₁) ∧ c₂.clk = c.clk ∧ c' = c₂.endTick ∧
        ReflTransGen (Step cfg .free) ⟨c₁, pick, []⟩ ⟨c₂, none, issued⟩ := by
  obtain ⟨⟨pick, c₁⟩, hsel, h⟩ := bind_ok_iff.mp h
  obtain ⟨c₂, hissue, h⟩ := bind_ok_iff.mp h
  obtain ⟨c₃, hidle, h⟩ := bind_ok_iff.mp h
  cases h
  simp only [idleTick, hen, Bool.false_and, Bool.false_eq_true, if_false] at hidle
  cases hidle
  obtain ⟨⟨pick₀, c₀⟩, hmaint, hsel⟩ := bind_ok_iff.mp hsel
  have hclk₀ : c₀.clk = (ticked cfg c).clk :=
    congrArg Prod.fst ((timers_issueInvariant cfg).maintenance hmaint)
  have hsync₀ : c₀.cmdQueue.clk = c₀.clk :=
    synced_of_steps (maintenance_steps (c := ticked cfg c) hclk hmaint) hclk
  -- the demand search runs when maintenance has chosen nothing
  have hselect : ReflTransGen (Step cfg .free) ⟨c₀, pick₀, []⟩ ⟨c₁, pick, []⟩ ∧ c₁.clk = c₀.clk := by
    cases pick₀ with
    | some p => cases hsel; exact ⟨.refl, rfl⟩
    | none => exact demand_steps (.inl rfl) hsync₀ hsel
  obtain ⟨issued, hsteps, hclk₂⟩ := issueSelected_steps (synced_of_steps hselect.1 hsync₀) hissue
  have hpower : (c₂.powerUpdate cfg).clk = c₂.clk := by
    obtain ⟨f, heq⟩ := c₂.powerUpdate_eq cfg
    rw [heq]
  have hsched : ((c₂.powerUpdate cfg).scheduleTransaction cfg).clk = c₂.clk := by
    obtain ⟨_, _, _, _, _, _, heq⟩ := (c₂.powerUpdate cfg).scheduleTransaction_frame cfg
    rw [heq]
    exact hpower
  refine ⟨pick₀, c₀, (c₂.powerUpdate cfg).scheduleTransaction cfg, issued, hmaint,
    hsched.trans (hclk₂.trans (hselect.2.trans hclk₀)), rfl, ?_⟩
  exact ((hselect.1.trans hsteps).tail (.powerUpdate c₂ issued)).tail (.schedule _ issued)

theorem finishRefresh_started {q : CommandQueue} {cs : ChannelState} {req : Command}
    {rest : List Command} {r : Option Pick × CommandQueue × ChannelState}
    (hq : cs.refreshQ = req :: rest) (hin : q.isInRef = false)
    (h : q.finishRefresh cfg cs = .ok r) : ∃ idx, CommandQueue.maintenanceQIndices cfg req = .ok idx ∧
      { q with refQIndices := q.refQIndices ++ idx, isInRef := true }.finishRefresh cfg cs = .ok r := by
  unfold CommandQueue.finishRefresh at h ⊢
  rw [hq] at h ⊢
  simp only [hin, Bool.false_eq_true, if_false] at h
  obtain ⟨q', hstart, h⟩ := bind_ok_iff.mp h
  obtain ⟨idx, hidx, hq'⟩ := bind_ok_iff.mp hstart
  cases hq'
  exact ⟨idx, hidx, h⟩

theorem finishRFM_started {q : CommandQueue} {cs : ChannelState} {req : Command}
    {rest : List Command} {r : Option Pick × CommandQueue × ChannelState}
    (hq : cs.rfmQ = req :: rest) (hin : q.isInRfm = false)
    (h : q.finishRFM cfg cs = .ok r) : ∃ idx, CommandQueue.maintenanceQIndices cfg req = .ok idx ∧
      { q with rfmQIndices := q.rfmQIndices ++ idx, isInRfm := true }.finishRFM cfg cs = .ok r := by
  unfold CommandQueue.finishRFM at h ⊢
  rw [hq] at h ⊢
  simp only [hin, Bool.false_eq_true, if_false] at h
  obtain ⟨q', hstart, h⟩ := bind_ok_iff.mp h
  obtain ⟨idx, hidx, hq'⟩ := bind_ok_iff.mp hstart
  cases hq'
  exact ⟨idx, hidx, h⟩

/-- The maintenance of a tick passes through a state in which its request is in service. -/
theorem maintenance_serves {d : Duty} {req : Command} {queue : List Command} {pick : Option Pick}
    (hclk : c.cmdQueue.clk = c.clk) (hp : c.picked = some (d, req))
    (hq : d.queue c.channelState = req :: queue) (h : c.maintenance cfg = .ok (pick, c')) :
    ∃ q, d.active q = true ∧ ReflTransGen (Step cfg .free) (rest c) (rest (c.withCmdQueue q)) ∧
      ReflTransGen (Step cfg .free) (rest (c.withCmdQueue q)) ⟨c', pick, []⟩ := by
  have hfinish : c.maintenance cfg = c.finish cfg d := (picked_eq cfg hp).1
  by_cases hactive : d.active c.cmdQueue = true
  · exact ⟨c.cmdQueue, hactive, .refl, maintenance_steps hclk h⟩
  · rw [Bool.not_eq_true] at hactive
    have hother : d.other.active c.cmdQueue = false :=
      (picked_eq cfg hp).2.2.resolve_left (by simp [hactive])
    rw [hfinish] at h
    -- the request is started here and asked for in the same call
    cases d with
    | refresh =>
      obtain ⟨r, hr, hres⟩ := map_ok_iff.mp h
      obtain ⟨idx, hidx, hr⟩ := finishRefresh_started hq hactive hr
      let q : CommandQueue :=
        { c.cmdQueue with refQIndices := c.cmdQueue.refQIndices ++ idx, isInRef := true }
      have hsteps : ReflTransGen (Step cfg .free) (rest (c.withCmdQueue q))
          (chosen [] (c.withQueue r)) :=
        (finishRefresh_realizes (c := c.withCmdQueue q) hclk hother (fun _ _ => trivial)
          (.inl rfl)).1 r hr
      rw [hres] at hsteps
      exact ⟨q, rfl, .single (.startRefresh hq hother hactive hidx), hsteps⟩
    | rfm =>
      obtain ⟨r, hr, hres⟩ := map_ok_iff.mp h
      obtain ⟨idx, hidx, hr⟩ := finishRFM_started hq hactive hr
      let q : CommandQueue :=
        { c.cmdQueue with rfmQIndices := c.cmdQueue.rfmQIndices ++ idx, isInRfm := true }
      have hsteps : ReflTransGen (Step cfg .free) (rest (c.withCmdQueue q))
          (chosen [] (c.withQueue r)) :=
        (finishRFM_realizes (c := c.withCmdQueue q) hclk (fun _ _ => trivial) (.inl rfl)).1 r hr
      rw [hres] at hsteps
      exact ⟨q, rfl, .single (.startRFM hq hactive hother hidx), hsteps⟩

end Controller

def Event.refreshRequest : Event → Option Command
  | .requested req => some req
  | _ => none

def Event.refreshIssue : Event → Option Command
  | .issue cmd _ _ _ => if cmd.isRefresh then some cmd else none
  | _ => none

namespace ChannelState

/-- The refresh requests that were queued, the oldest first. -/
def refreshRequests (cs : ChannelState) : List Command := cs.log.reverse.filterMap Event.refreshRequest

/-- The refreshes that were issued, the oldest first. -/
def refreshesIssued (cs : ChannelState) : List Command := cs.log.reverse.filterMap Event.refreshIssue

end ChannelState

namespace Chan
open ChannelState
variable {cfg : Config} {π : Micro.Policy} {v v' : Chan}

/-- The issued refreshes and the waiting ones are the requests, in their order. -/
structure Ordered (v : Chan) : Prop where
  requests : v.cs.refreshRequests = v.cs.refreshesIssued ++ v.cs.refreshQ
  ticket : ∀ p, v.ticket = some p → p.cmd.isRefresh → v.cs.refreshQ.head? = some p.cmd

/-- Events of queries and of bookkeeping are neither requests nor refreshes. -/
def Unrelated (e : Event) : Prop := e.refreshRequest = none ∧ e.refreshIssue = none

theorem unrelated_of_crossing {e : Event} (h : e.crossing) : Unrelated e := by
  cases e <;> simp_all [Event.crossing, Unrelated, Event.refreshRequest, Event.refreshIssue]

theorem unrelated_of_internal {e : Event} (h : e.internal) : Unrelated e := by
  cases e <;> simp_all [Event.internal, Unrelated, Event.refreshRequest, Event.refreshIssue]

theorem filterMap_append_unrelated {extra log : List Event} {f : Event → Option Command}
    (h : ∀ e ∈ extra, f e = none) :
    (extra ++ log).reverse.filterMap f = log.reverse.filterMap f := by
  rw [List.reverse_append, List.filterMap_append,
    List.filterMap_eq_nil_iff.mpr fun e he => h e (List.mem_reverse.mp he), List.append_nil]

theorem Ordered.unrelated {cs : ChannelState} {clk : ℕ} {ticket : Option Pick}
    {issued : List Command} (extra : List Event) (hv : Ordered v)
    (hq : cs.refreshQ = v.cs.refreshQ) (hlog : cs.log = extra ++ v.cs.log)
    (hextra : ∀ e ∈ extra, Unrelated e)
    (ht : ∀ p, ticket = some p → p.cmd.isRefresh → cs.refreshQ.head? = some p.cmd) :
    Ordered ⟨cs, clk, ticket, issued⟩ := by
  refine ⟨?_, ht⟩
  simp only [refreshRequests, refreshesIssued, hlog, hq,
    filterMap_append_unrelated fun e he => (hextra e he).1,
    filterMap_append_unrelated fun e he => (hextra e he).2]
  exact hv.requests

theorem HookAdded.unrelated {cs cs' : ChannelState} {cmd : Command} {clk : ℕ} {full : Bool}
    (h : HookAdded cs cs' cmd clk full) :
    ∃ extra, cs'.log = extra ++ cs.log ∧ ∀ e ∈ extra, Unrelated e := by
  obtain ⟨alert, inflight, crossings, hlog, hcross⟩ := h
  refine ⟨_ :: crossings, hlog, fun e he => ?_⟩
  rcases List.mem_cons.mp he with rfl | he
  · exact ⟨rfl, rfl⟩
  · exact unrelated_of_crossing (hcross e he)

theorem Answer.unrelated {cs cs' : ChannelState} {cmd : Command} {clk : ℕ} {r? : Option Command}
    (h : Answer cfg cs cmd clk r? cs') :
    ∃ extra, cs'.log = extra ++ cs.log ∧ ∀ e ∈ extra, Unrelated e := by
  cases r? with
  | none =>
    rcases h.log_none with hlog | ⟨_, hhook⟩
    · exact ⟨[], hlog, by simp⟩
    · exact HookAdded.unrelated hhook
  | some r =>
    rcases h.log_some with ⟨_, hlog⟩ | ⟨_, _, _, _, hhook⟩
    · exact ⟨[], hlog, by simp⟩
    · exact HookAdded.unrelated hhook

/-- A bank that asks for a refresh was asked for it. -/
theorem cmdType_of_isRefresh {b : BankState} {cmd r : Command} {clk : ℕ}
    (h : b.getReadyCommand cfg cmd clk = .ok (some r)) (hr : r.isRefresh) : r = cmd := by
  obtain ⟨ty, hreq, _, rfl⟩ := BankState.getReadyCommand_some_iff.mp h
  rcases BankState.requiredType_cases hreq with
    rfl | (rfl | rfl | rfl) | ⟨_, rfl | ⟨_, rfl | rfl⟩ | rfl⟩
  · rfl
  all_goals cases hr

/-- A refresh in answer to a query is the request itself. -/
theorem answer_eq_of_isRefresh {cs cs' : ChannelState} {cmd r : Command} {clk : ℕ}
    (h : Answer cfg cs cmd clk (some r) cs') (hr : r.isRefresh) : r = cmd := by
  cases h with
  | divert hm hd =>
    obtain ⟨_, i, _, ty, _, _, hi, hne, rfl⟩ := hd
    exact absurd (congrArg Command.cmdType (cmdType_of_isRefresh hi hr)) hne
  | allReady => rfl
  | single _ hb => exact cmdType_of_isRefresh hb hr
  | activate => simp [activation, Command.isRefresh] at hr

/-- A refresh that is chosen is the first of its queue. -/
theorem Asks.head_of_isRefresh {cs cs' : ChannelState} {cmd r : Command} {origin : Origin} {clk : ℕ}
    (hreg : Regular cfg cs) (ha : Asks cfg cs cmd origin) (h : Answer cfg cs cmd clk (some r) cs')
    (hr : r.isRefresh) : cs.refreshQ.head? = some r := by
  obtain rfl := answer_eq_of_isRefresh h hr
  cases ha with
  | refresh hq =>
    rw [hq]
    rfl
  | rfm hq =>
    rcases hreg.rfmQ r (by simp [hq]) with hbad | hbad
    · simp [not_isRefresh_of_isRFM hbad] at hr
    · simp [not_isRefresh_of_isDRFM hbad] at hr
  | demand hrw => simp [not_isRefresh_of_isReadWrite hrw] at hr
  | sref _ _ hty => rcases hty with rfl | rfl <;> simp [Command.isRefresh] at hr

theorem Ordered.step (hready : Ready cfg v) (hv : Ordered v) (h : Step cfg π v v') :
    Ordered v' := by
  have hnone (q : List Command) (p : Pick) (hp : none = some p) (_ : p.cmd.isRefresh) :
      q.head? = some p.cmd := nomatch hp
  cases h with
  | environment | tock | drop =>
    exact hv.unrelated [] rfl rfl (by simp) (hnone _)
  | @requestRefresh cs clk issued req _ =>
    refine ⟨?_, hnone _⟩
    have hreq := hv.requests
    simp only [refreshRequests, refreshesIssued] at hreq
    simp [refreshRequests, refreshesIssued, addRefresh, List.filterMap_append, Event.refreshRequest,
      Event.refreshIssue, hreq]
  | tick =>
    exact hv.unrelated [] queried_clockTick.refreshQ clockTick_log (by simp) (hnone _)
  | query _ h =>
    obtain ⟨extra, hlog, hextra⟩ := Answer.unrelated h
    exact hv.unrelated extra h.queried.refreshQ hlog hextra (hnone _)
  | hydraQuery h =>
    exact hv.unrelated [] (queried_getReadyHydraCommand h).refreshQ
      (getReadyHydraCommand_log h) (by simp) (hnone _)
  | pick _ ha _ h =>
    obtain ⟨extra, hlog, hextra⟩ := Answer.unrelated h
    refine hv.unrelated extra h.queried.refreshQ hlog hextra fun p hp hr => ?_
    cases hp
    rw [h.queried.refreshQ]
    exact ha.head_of_isRefresh hready.regular h hr
  | pickHydra _ h =>
    refine hv.unrelated [] (queried_getReadyHydraCommand h).refreshQ (getReadyHydraCommand_log h)
      (by simp) fun p hp hr => ?_
    cases hp
    obtain ⟨_, hanswer, _⟩ := getReadyHydraCommand_eq h
    obtain ⟨cmd, hmem, hb⟩ := hanswer _ rfl
    rw [cmdType_of_isRefresh hb hr,
      not_isRefresh_of_isReadWrite (hready.regular.hydraQ cmd hmem)] at hr
    cases hr
  | @issue cs clk p issued cs' h =>
    have hi := updateTimingAndStates_issued h
    obtain ⟨extra, hlog, hextra⟩ := hi.log
    have hun (e : Event) (he : e ∈ extra) : Unrelated e := unrelated_of_internal (hextra e he)
    by_cases hr : p.cmd.isRefresh
    · obtain ⟨rest, hq⟩ : ∃ rest, cs.refreshQ = p.cmd :: rest := by
        have hhead := hv.ticket p rfl hr
        cases hq : cs.refreshQ with
        | nil => simp [hq] at hhead
        | cons x rest =>
          obtain rfl : x = p.cmd := by simpa [hq] using hhead
          exact ⟨rest, rfl⟩
      refine ⟨?_, hnone _⟩
      have hreq := hv.requests
      simp only [refreshRequests, refreshesIssued, hq] at hreq
      simp only [refreshRequests, refreshesIssued, hlog, hi.refreshQ_drop, dropRefresh_head hr hq,
        filterMap_append_unrelated fun e he => (hun e he).1,
        filterMap_append_unrelated fun e he => (hun e he).2]
      simp [List.filterMap_append, Event.refreshRequest, Event.refreshIssue, hr, hreq]
    · refine hv.unrelated (extra ++ [.issue p.cmd clk p.origin cs.bankStates])
        (hi.refreshQ_eq (by simpa using hr)) (by rw [hlog, List.append_assoc]; rfl) ?_ (hnone _)
      intro e he
      rcases List.mem_append.mp he with he | he
      · exact hun e he
      · rw [List.mem_singleton.mp he]
        exact ⟨rfl, by simp [Event.refreshIssue, hr]⟩

end Chan

theorem Micro.Reached.ordered {cfg : Config} {π : Micro.Policy} {m : Micro}
    (h : Micro.Reached cfg π m) : Chan.Ordered m.chan := by
  have : Chan.Ready cfg m.chan ∧ Chan.Ordered m.chan := by
    refine h.chan_induct (P := fun v => Chan.Ready cfg v ∧ Chan.Ordered v)
      (fun boot => ⟨Chan.ready_boot boot, rfl, fun p hp => nomatch hp⟩) fun v v' hv hs => ?_
    exact ⟨hv.1.step hs, hv.2.step hv.1 hs⟩
  exact this.2

/-- Since the history `past` the request has waited at the front of its queue and its banks were
spared; or that was so until its command was issued. -/
def Controller.Carries (cfg : Config) (c : Controller) (d : Duty) (req : Command)
    (past : List Event) : Prop :=
  (d.active c.cmdQueue = true ∧ (d.queue c.channelState).head? = some req ∧
      ∃ new, c.channelState.log = new ++ past ∧ ∀ e ∈ new, e.Spares cfg req) ∨
    ∃ post t found pre, c.channelState.log =
      post ++ .issue req t (d.origin req) found :: (pre ++ past) ∧ ∀ e ∈ pre, e.Spares cfg req

/-- A tick leaves its request in front of the queue, or issues it and removes it alone. -/
def Controller.Removes (c : Controller) (d : Duty) (req : Command) (rest : List Command)
    (past : List Event) : Prop :=
  ∃ more, (d.active c.cmdQueue = true ∧ d.queue c.channelState = req :: (rest ++ more)) ∨
    (d.active c.cmdQueue = false ∧ d.queue c.channelState = rest ++ more ∧
      ∃ post t found pre, c.channelState.log =
        post ++ .issue req t (d.origin req) found :: (pre ++ past))

namespace Micro
open Controller
variable {cfg : Config} {d : Duty} {req : Command} {queue : List Command} {start : ℕ}
  {past : List Event} {c : Controller}

theorem Phase.carries (h : Phase cfg d req queue start past (rest c)) : c.Carries cfg d req past := by
  cases h with
  | waiting hw hlog hnew =>
    obtain ⟨more, hq⟩ := hw.queue
    exact .inl ⟨hw.active, by rw [show d.queue c.channelState = _ from hq]; rfl, _, hlog, hnew⟩
  | chosen hc => cases hc.ticket
  | done hlog hpre => exact .inr ⟨_, _, _, _, hlog, hpre⟩

theorem Phase.removes {issued : List Command}
    (h : Phase cfg d req queue c.clk past ⟨c, none, issued⟩) : c.Removes d req queue past := by
  cases h with
  | waiting hw =>
    obtain ⟨more, hq⟩ := hw.queue
    exact ⟨more, .inl ⟨hw.active, hq⟩⟩
  | chosen hc => cases hc.ticket
  | done hlog _ hclk hafter =>
    have ha := hafter (le_antisymm hclk.1 hclk.2)
    obtain ⟨more, hq⟩ := ha.queue
    exact ⟨more, .inr ⟨ha.inactive, hq, _, _, _, _, hlog⟩⟩

/-- The tick that picks a request begins, or goes on with, its service. -/
theorem Reached.phase (hen : cfg.enableSelfRefresh = false) (hmode : cfg.hydraMode ≠ 1)
    (hqs : cfg.queueStructure = .perBank) {pick : Option Pick} {c' : Controller}
    (hr : Reached cfg .free (rest c)) (hp : c.picked = some (d, req))
    (hq : d.queue c.channelState = req :: queue) (h : c.maintenance cfg = .ok (pick, c')) :
    Owns d req ∧ Reached cfg .free ⟨c', pick, []⟩ ∧
      Phase cfg d req queue c.clk c.channelState.log ⟨c', pick, []⟩ := by
  have hclk : c.cmdQueue.clk = c.clk := hr.synced
  obtain ⟨q, hactive, hstart, hask⟩ := maintenance_serves hclk hp hq h
  have howns : Owns d req := owns_of_queue hr.ready.regular hq
  have hserving : Reached cfg .free (rest (c.withCmdQueue q)) := hr.step hstart
  obtain ⟨req', rest', _, hw⟩ := hserving.held hen hmode hqs d hactive
  have hphase : Phase cfg d req queue c.clk c.channelState.log (rest (c.withCmdQueue q)) :=
    .waiting (hw.exact hq).2 (List.nil_append _).symm (by simp) le_rfl
  exact ⟨howns, hserving.step hask, hphase.steps hen hmode howns hserving hask⟩

end Micro

/-- Without Hydra and self-refresh, with one queue per bank: at most one kind of maintenance is in
service, and its queue is not empty; from the tick that picks a request until the request is
issued, it stays at the front of its queue and no ACT, READ or WRITE goes to its banks; its issue
removes it alone; and refreshes are issued in the order of their requests. -/
theorem maintenance_in_order {cfg : Config} (hmode : cfg.hydraMode = 0)
    (hen : cfg.enableSelfRefresh = false) (hqs : cfg.queueStructure = .perBank) (boot : Boot cfg)
    (inputs : List Input) (c : Controller)
    (hrun : Controller.run cfg boot.controller inputs = .ok c) :
    (c.cmdQueue.isInRef = false ∨ c.cmdQueue.isInRfm = false) ∧
    (∀ d : Duty, d.active c.cmdQueue → d.queue c.channelState ≠ []) ∧
    (∀ d req rest, (Micro.ticked cfg c).picked = some (d, req) →
      d.queue (Micro.ticked cfg c).channelState = req :: rest → ∀ c₁, c.clockTick cfg = .ok c₁ →
        c₁.Removes d req rest (Micro.ticked cfg c).channelState.log ∧
        ∀ more c', Controller.run cfg c₁ more = .ok c' →
          c'.Carries cfg d req (Micro.ticked cfg c).channelState.log) ∧
    c.channelState.refreshesIssued <+: c.channelState.refreshRequests := by
  have hne : cfg.hydraMode ≠ 1 := by omega
  have hr : Micro.Reached cfg .free (Micro.rest c) :=
    Micro.reached_of_run (Micro.meets_free _ _) hrun
  have hheld := hr.held hen hne hqs
  refine ⟨?_, fun d hd => ?_, fun d req queue hp hq c₁ htick => ?_, ?_⟩
  · by_cases href : c.cmdQueue.isInRef
    · obtain ⟨_, _, _, hw⟩ := hheld .refresh href
      exact .inr hw.other
    · exact .inl (by simpa using href)
  · obtain ⟨req, rest, _, hw⟩ := hheld d hd
    obtain ⟨more, hq⟩ := hw.queue
    exact fun hnil => by simp [show d.queue c.channelState = _ from hq] at hnil
  · have hclk : c.cmdQueue.clk = c.clk := hr.synced
    obtain ⟨pick, c₀, c₂, issued, hmaint, hclk₂, rfl, hsteps⟩ :=
      Controller.clockTick_steps hen hclk htick
    have hticked : Micro.Reached cfg .free (Micro.rest (Micro.ticked cfg c)) :=
      hr.step (.tail (.single (.refreshTick c)) (.channelTick _))
    obtain ⟨howns, hr₀, hphase₀⟩ := hticked.phase hen hne hqs hp hq hmaint
    have hphase := hphase₀.steps hen hne howns hr₀ hsteps
    have hr₂ := hr₀.step hsteps
    refine ⟨?_, fun more c' hmore => ?_⟩
    · have hstart : (Micro.ticked cfg c).clk = c₂.clk := hclk₂.symm
      rw [hstart] at hphase
      exact hphase.removes
    · have hend : Micro.Reached cfg .free (Micro.rest c₂.endTick) :=
        hr₂.step (.single (.endTick c₂ issued))
      have hlater := (Micro.run_realizes hend.synced (Micro.meets_free _ more)).1 c' hmore
      exact ((hphase.steps hen hne howns hr₂ (.single (.endTick c₂ issued))).steps hen hne howns
        hend hlater).carries
  · exact ⟨_, hr.ordered.requests.symm⟩

/-- One refresh has been issued, and the next tick picks the second. -/
theorem maintenance_in_order_small : ∃ c d req,
    Controller.run refreshConfig ({} : Boot refreshConfig).controller (Input.request 0 false 16) =
      .ok c ∧
    (Micro.ticked refreshConfig c).picked = some (d, req) ∧
    c.channelState.refreshesIssued ≠ [] ∧
    (c.cmdQueue.isInRef = false ∨ c.cmdQueue.isInRfm = false) ∧
    c.channelState.refreshesIssued <+: c.channelState.refreshRequests := by
  obtain ⟨c, hrun, hc⟩ := exists_ok_of_any
    (p := fun c => (Micro.ticked refreshConfig c).picked.isSome &&
      !c.channelState.refreshesIssued.isEmpty)
    (x := Controller.run refreshConfig ({} : Boot refreshConfig).controller
      (Input.request 0 false 16)) (by decide +kernel)
  rw [Bool.and_eq_true, Option.isSome_iff_exists] at hc
  obtain ⟨⟨⟨d, req⟩, hpick⟩, hissued⟩ := hc
  obtain ⟨hflags, _, _, horder⟩ := maintenance_in_order rfl rfl rfl _ _ c hrun
  exact ⟨c, d, req, hrun, hpick, by simpa using hissued, hflags, horder⟩

end CactusDram
