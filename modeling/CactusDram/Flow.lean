import CactusDram.Invariants

/-! The way of a transaction through the controller: it waits in a transaction queue, moves into a
command queue, is taken from there as a READ or WRITE and is served when that is issued. -/
namespace CactusDram
open Foundations Controller

/-- What of a controller concerns its transactions. `ticket` is a READ or WRITE that has been taken
from its queue and not yet issued. -/
structure Flow where
  waiting : Lane → List Transaction
  queues : ℤ → List Command
  pendingRd : List Transaction
  pendingWr : List Transaction
  returning : List Transaction
  ticket : Option Command
  issued : List Command
  log : List TransEvent

def Micro.flow (m : Micro) : Flow where
  waiting := m.ctl.laneQueue
  queues := m.ctl.cmdQueue.queues
  pendingRd := m.ctl.pendingRdQ
  pendingWr := m.ctl.pendingWrQ
  returning := m.ctl.returnQueue
  ticket := (m.ticket.map Pick.cmd).filter Command.isReadWrite
  issued := m.issued
  log := m.ctl.log

/-- The command queue of an address. -/
def Config.queueOf (cfg : Config) (addr : HexAddr) : ℤ :=
  CommandQueue.getQueueIndex cfg (cfg.addressMapping addr).bankId

def Config.laneOf (cfg : Config) (t : Transaction) : Lane :=
  if cfg.unifiedQueue then .unified else if t.isWrite then .write else .read

namespace Flow

def enqueue (cfg : Config) (f : Flow) (t : Transaction) : Flow :=
  { f with waiting := Function.update f.waiting (cfg.laneOf t) (f.waiting (cfg.laneOf t) ++ [t]) }

/-- A request and the command made from it. -/
def Carries (cfg : Config) (t : Transaction) (cmd : Command) : Prop :=
  cmd.hexAddr = t.addr ∧ cmd.addr = cfg.addressMapping t.addr ∧ cmd.isWrite = t.isWrite ∧
    cmd.isRead = !t.isWrite

inductive Step (cfg : Config) (π : Micro.Policy) : Flow → Flow → Prop
  | mergeWrite {f t done} (ht : f.ticket = none) (ha : π.allowed t.addr) (hw : t.isWrite)
      (hp : hasAddr f.pendingWr t.addr) (hd : done.addr = t.addr ∧ done.isWrite = t.isWrite) :
      Step cfg π f { f with
        returning := f.returning ++ [done]
        log := .accepted t false :: f.log }
  | newWrite {f t done} (ht : f.ticket = none) (ha : π.allowed t.addr) (hw : t.isWrite)
      (hp : hasAddr f.pendingWr t.addr = false)
      (hd : done.addr = t.addr ∧ done.isWrite = t.isWrite) :
      Step cfg π f ({ f with
        pendingWr := f.pendingWr ++ [t]
        returning := f.returning ++ [done]
        log := .accepted t false :: f.log }.enqueue cfg t)
  | forward {f t done} (ht : f.ticket = none) (ha : π.allowed t.addr) (hw : t.isWrite = false)
      (hp : hasAddr f.pendingWr t.addr) (hd : done.addr = t.addr ∧ done.isWrite = t.isWrite) :
      Step cfg π f { f with
        returning := f.returning ++ [done]
        log := .accepted t true :: f.log }
  | mergeRead {f t} (ht : f.ticket = none) (ha : π.allowed t.addr) (hw : t.isWrite = false)
      (hp : hasAddr f.pendingWr t.addr = false) (hr : hasAddr f.pendingRd t.addr) :
      Step cfg π f { f with
        pendingRd := f.pendingRd ++ [t]
        log := .accepted t false :: f.log }
  | newRead {f t} (ht : f.ticket = none) (ha : π.allowed t.addr) (hw : t.isWrite = false)
      (hp : hasAddr f.pendingWr t.addr = false) (hr : hasAddr f.pendingRd t.addr = false) :
      Step cfg π f ({ f with
        pendingRd := f.pendingRd ++ [t]
        log := .accepted t false :: f.log }.enqueue cfg t)
  | handBack {f t pre post} (ht : f.ticket = none) (hq : f.returning = pre ++ t :: post) :
      Step cfg π f { f with
        returning := pre ++ post
        log := .returned t.addr t.isWrite :: f.log }
  | schedule {f lane pre t post cmd} (ht : f.ticket = none) (hlane : lane = .unified ↔ cfg.unifiedQueue)
      (hq : f.waiting lane = pre ++ t :: post) (hcmd : Carries cfg t cmd)
      (hfirst : ∀ t' ∈ pre, t'.addr ≠ t.addr)
      (hdep : cfg.unifiedQueue = false → t.isWrite → hasAddr f.pendingRd t.addr = false) :
      Step cfg π f { f with
        waiting := Function.update f.waiting lane (pre ++ post)
        queues := Function.update f.queues (cfg.queueOf t.addr) (f.queues (cfg.queueOf t.addr) ++ [cmd]) }
  | take {f before cmd after} (ht : f.ticket = none) (hrw : cmd.isReadWrite)
      (haddr : cmd.addr = cfg.addressMapping cmd.hexAddr)
      (hq : f.queues (cfg.queueOf cmd.hexAddr) = before ++ cmd :: after)
      (hdep : cmd.isWrite → CommandQueue.hasRWDependency before cmd = false) :
      Step cfg π f { f with
        queues := Function.update f.queues (cfg.queueOf cmd.hexAddr)
          ((f.queues (cfg.queueOf cmd.hexAddr)).eraseP fun c =>
            cmd.hexAddr = c.hexAddr && cmd.cmdType = c.cmdType)
        ticket := some cmd }
  | serveRead {f cmd n} (ht : f.ticket = some cmd) (hr : cmd.isRead) (hne : cmd.hexAddr ≠ noAddr)
      (hp : hasAddr f.pendingRd cmd.hexAddr) :
      Step cfg π f { f with
        returning := f.returning ++
          (f.pendingRd.filter fun t => t.addr = cmd.hexAddr).map fun t => { t with completeCycle := n }
        pendingRd := f.pendingRd.filter fun t => t.addr ≠ cmd.hexAddr
        ticket := none
        issued := cmd :: f.issued
        log := .issued cmd :: f.log }
  | serveWrite {f cmd} (ht : f.ticket = some cmd) (hw : cmd.isWrite) (hne : cmd.hexAddr ≠ noAddr)
      (hp : hasAddr f.pendingWr cmd.hexAddr) :
      Step cfg π f { f with
        pendingWr := f.pendingWr.eraseP fun t => t.addr = cmd.hexAddr
        ticket := none
        issued := cmd :: f.issued
        log := .issued cmd :: f.log }
  | serveNone {f cmd} (ht : f.ticket = some cmd) (hne : cmd.hexAddr = noAddr) :
      Step cfg π f { f with ticket := none, issued := cmd :: f.issued, log := .issued cmd :: f.log }
  | issueOther {f cmd} (ht : f.ticket = none) (hrw : cmd.isReadWrite = false) :
      Step cfg π f { f with ticket := none, issued := cmd :: f.issued, log := .issued cmd :: f.log }
  | lose {f p first} (ht : f.ticket = some p.cmd) (hissued : f.issued = [first])
      (hfirst : first.isReadWrite) :
      Step cfg π f { f with ticket := none, issued := [p.cmd, first], log := .dropped p :: f.log }
  | dropOther {f p issued} (ht : f.ticket = none) (hrw : p.cmd.isReadWrite = false) :
      Step cfg π f { f with ticket := none, issued := issued, log := .dropped p :: f.log }
  | endTick {f} (ht : f.ticket = none) : Step cfg π f { f with issued := [] }

end Flow

namespace BankState
variable {cfg : Config} {b : BankState} {cmd r : Command} {clk : ℕ}

/-- A bank that answers with a READ or WRITE answers with the request itself. -/
theorem eq_of_isReadWrite (h : b.getReadyCommand cfg cmd clk = .ok (some r))
    (hr : r.isReadWrite) : r = cmd := by
  obtain ⟨ty, hty, _, rfl⟩ := getReadyCommand_some_iff.mp h
  rcases requiredType_cases hty with rfl | (rfl | rfl | rfl) | ⟨_, rfl | ⟨_, rfl | rfl⟩ | rfl⟩
  · rfl
  all_goals cases hr

end BankState

namespace ChannelState
variable {cfg : Config} {cs cs' : ChannelState} {cmd r : Command} {clk : ℕ}

theorem Answer.eq_of_isReadWrite (h : Answer cfg cs cmd clk (some r) cs') (hr : r.isReadWrite) :
    r = cmd := by
  cases h with
  | divert _ hd =>
    obtain ⟨_, i, _, ty, _, _, hi, hne, rfl⟩ := hd
    have := BankState.eq_of_isReadWrite hi hr
    exact absurd (congrArg Command.cmdType this) hne
  | allReady => rfl
  | single _ h => exact BankState.eq_of_isReadWrite h hr
  | activate => cases hr

end ChannelState

namespace Chan

/-- Only queued requests are answered with a READ or WRITE. -/
theorem Asks.not_readWrite {cfg : Config} {cs cs' : ChannelState} {cmd r : Command} {clk : ℕ}
    {origin : Origin} (hreg : ChannelState.Regular cfg cs) (hs : Asks cfg cs cmd origin)
    (ho : origin ≠ .demand) (h : ChannelState.Answer cfg cs cmd clk (some r) cs') :
    r.isReadWrite = false := by
  by_contra hr
  rw [Bool.not_eq_false] at hr
  obtain rfl := h.eq_of_isReadWrite hr
  exact ho (hs.origin_of_isReadWrite hreg hr)

end Chan

namespace Micro
variable {cfg : Config} {π : Policy} {m m' : Micro} {c : Controller} {issued : List Command}

theorem laneQueue_setLane (l : Lane) (s : Schedule) :
    (c.setLane l s).laneQueue = Function.update c.laneQueue l s.queue := by
  funext l'
  cases l <;> cases l' <;> rfl

theorem laneQueue_enqueue (cfg : Config) (c : Controller) (t : Transaction) :
    (c.enqueue cfg t).laneQueue =
    Function.update c.laneQueue (cfg.laneOf t) (c.laneQueue (cfg.laneOf t) ++ [t]) := by
  unfold Controller.enqueue Config.laneOf
  funext l
  split_ifs <;> cases l <;> rfl

theorem flow_enqueue (t : Transaction) : (⟨c.enqueue cfg t, none, issued⟩ : Micro).flow =
    (⟨c, none, issued⟩ : Micro).flow.enqueue cfg t := by
  have hlane := laneQueue_enqueue cfg c t
  obtain ⟨u, r, w, heq⟩ := c.enqueue_eq cfg t
  unfold Micro.flow Flow.enqueue
  simp only [hlane]
  rw [heq]

theorem flow_accept {t : Transaction} {c' : Controller} (ha : π.allowed t.addr)
    (h : Accepted cfg c t c') :
    Flow.Step cfg π (⟨c, none, []⟩ : Micro).flow (⟨c', none, []⟩ : Micro).flow := by
  cases h with
  | mergeWrite hw hp => exact .mergeWrite rfl ha hw hp ⟨rfl, rfl⟩
  | newWrite hw hp =>
    rw [flow_enqueue]
    exact .newWrite rfl ha hw hp ⟨rfl, rfl⟩
  | forward hw hp => exact .forward rfl ha hw hp ⟨rfl, rfl⟩
  | mergeRead hw hp hr => exact .mergeRead rfl ha hw hp hr
  | newRead hw hp hr =>
    rw [flow_enqueue]
    exact .newRead rfl ha hw hp hr

theorem flow_returnDone (clk : ℕ) :
    Flow.Step cfg π (⟨c, none, []⟩ : Micro).flow (⟨c.returnDoneTrans clk, none, []⟩ : Micro).flow ∨
      (⟨c.returnDoneTrans clk, none, []⟩ : Micro).flow = (⟨c, none, []⟩ : Micro).flow := by
  unfold returnDoneTrans
  split
  · rename_i t hfind
    obtain ⟨ht, pre, post, hq, hpre⟩ := List.find?_eq_some_iff_append.mp hfind
    have herase : c.returnQueue.eraseP (fun t => t.completeCycle ≤ clk) = pre ++ post := by
      rw [hq, List.eraseP_append_right _ fun t' ht' => by simpa using hpre t' ht',
        List.eraseP_cons_of_pos (p := fun t : Transaction => t.completeCycle ≤ clk) ht]
    refine .inl ?_
    rw [herase]
    exact .handBack rfl hq
  · exact .inr rfl

theorem flow_schedule : Flow.Step cfg π (⟨c, none, issued⟩ : Micro).flow
      (⟨c.scheduleTransaction cfg, none, issued⟩ : Micro).flow ∨
    (⟨c.scheduleTransaction cfg, none, issued⟩ : Micro).flow = (⟨c, none, issued⟩ : Micro).flow := by
  obtain ⟨s, heq, hs⟩ := c.scheduleTransaction_eq cfg
  have hflow : (⟨c.scheduleTransaction cfg, none, issued⟩ : Micro).flow =
      { (⟨c, none, issued⟩ : Micro).flow with
        waiting := Function.update c.laneQueue (c.lane cfg) s.queue
        queues := s.cmdQueue.queues } := by
    rw [heq]
    unfold Micro.flow
    simp only [laneQueue_setLane]
    cases c.lane cfg <;> rfl
  rw [hflow]
  have hlane : c.lane cfg = .unified ↔ cfg.unifiedQueue := by
    unfold lane
    split_ifs <;> simp_all
  cases hs with
  | nothing | conflict =>
    refine .inr ?_
    simp only [Function.update_eq_self]
    rfl
  | @moved pre t post hq hacc hpre hdep =>
    refine .inl ?_
    have hlt : (c.cmdQueue.getQueue cfg (transToCommand cfg t post).bankId).length <
        cfg.cmdQueueSize := by simpa [CommandQueue.willAcceptCommand] using hacc
    rw [CommandQueue.addCommand, if_pos hlt]
    refine .schedule rfl hlane hq ⟨rfl, rfl, transToCommand_isWrite t post, transToCommand_isRead t post⟩
      (fun t' ht' haddr => ?_) hdep
    obtain ⟨a, b, rfl⟩ := List.append_of_mem ht'
    have hfull := hpre a t' (b ++ t :: post) (by simp [hq]) (by simp)
    have hsame : (transToCommand cfg t' (b ++ t :: post)).bankId = (transToCommand cfg t post).bankId := by
      simp only [Command.bankId, transToCommand_addr, haddr]
    rw [hsame, hacc] at hfull
    cases hfull

theorem flow_issue {p : Pick} {c' : Controller} (h : c.issueCommand cfg p = .ok c') :
    Flow.Step cfg π (⟨c, some p, issued⟩ : Micro).flow (⟨c', none, p.cmd :: issued⟩ : Micro).flow := by
  obtain ⟨c₁, cs', hserved, _, rfl⟩ := issueCommand_ok h
  by_cases hrw : p.cmd.isReadWrite
  · have hticket : (⟨c, some p, issued⟩ : Micro).flow.ticket = some p.cmd := by
      simp [Micro.flow, Option.filter, hrw]
    cases hserved with
    | read hr hne hp => exact .serveRead hticket hr hne hp
    | write hw hne hp => exact .serveWrite hticket hw hne hp
    | other hcmd => exact .serveNone hticket (hcmd.resolve_left (by simp [hrw]))
  · rw [Bool.not_eq_true] at hrw
    have hticket : (⟨c, some p, issued⟩ : Micro).flow.ticket = none := by
      simp [Micro.flow, Option.filter, hrw]
    cases hserved with
    | read hr => simp [Command.isReadWrite, hr] at hrw
    | write hw => simp [Command.isReadWrite, hw] at hrw
    | other => exact .issueOther hticket hrw

theorem flow_drop {p : Pick} {first : Command} (hsame : p.cmd.isReadWrite = first.isReadWrite) :
    Flow.Step cfg π (⟨c, some p, [first]⟩ : Micro).flow
      (⟨c.record (.dropped p), none, [p.cmd, first]⟩ : Micro).flow := by
  by_cases hrw : p.cmd.isReadWrite
  · refine .lose ?_ rfl (hsame ▸ hrw)
    simp [Micro.flow, Option.filter, hrw]
  · rw [Bool.not_eq_true] at hrw
    refine .dropOther ?_ hrw
    simp [Micro.flow, Option.filter, hrw]

theorem flow_pick {p : Pick} {cs' : ChannelState} {q' : CommandQueue}
    (hrw : p.cmd.isReadWrite = false) (hq : q'.queues = c.cmdQueue.queues) :
    (⟨(c.withChannel cs').withCmdQueue q', some p, issued⟩ : Micro).flow =
      (⟨c, none, issued⟩ : Micro).flow := by
  simp only [Micro.flow, withCmdQueue, hq, Option.map_some, Option.filter, hrw]
  rfl

theorem flow_take {cmd : Command} {o : Origin} {before after : List Command} {cs' : ChannelState}
    {q' : CommandQueue} (hwell : c.cmdQueue.WellQueued cfg) (hrw : cmd.isReadWrite)
    (hqueue : c.cmdQueue.queues c.cmdQueue.queueIdx = before ++ cmd :: after)
    (hdep : cmd.isWrite → CommandQueue.hasRWDependency before cmd = false)
    (htaken : Taken cfg c.cmdQueue cmd q') : Flow.Step cfg π (⟨c, none, issued⟩ : Micro).flow
      (⟨(c.withChannel cs').withCmdQueue q', some ⟨cmd, o⟩, issued⟩ : Micro).flow := by
  have hmem : cmd ∈ c.cmdQueue.queues c.cmdQueue.queueIdx := by simp [hqueue]
  obtain ⟨hidx, _, haddr⟩ := hwell _ cmd hmem
  have hof : cfg.queueOf cmd.hexAddr = CommandQueue.getQueueIndex cfg cmd.bankId := by
    rw [Config.queueOf, ← haddr]
    rfl
  rw [Taken, if_pos hrw, CommandQueue.eraseRWCommand] at htaken
  rw [if_pos (hwell.any_same hqueue)] at htaken
  cases htaken
  have hstep : Flow.Step cfg π (⟨c, none, issued⟩ : Micro).flow _ :=
    .take rfl hrw haddr (by rw [hof, ← hidx]; exact hqueue) hdep
  rw [hof] at hstep
  have hticket : Option.filter Command.isReadWrite (some cmd) = some cmd := by
    simp [Option.filter, hrw]
  simp only [Micro.flow, Option.map_some, hticket] at hstep ⊢
  exact hstep

/-- A step of the controller is a step of its transactions, or does not concern them. -/
theorem Step.flow (hmode : cfg.hydraMode ≠ 1) (hready : Chan.Ready cfg m.chan)
    (hwell : m.ctl.cmdQueue.WellQueued cfg) (h : Step cfg π m m') :
    Flow.Step cfg π m.flow m'.flow ∨ m'.flow = m.flow := by
  cases h with
  | others | refreshTick | channelTick | startRefresh | startRFM | rotate | query | hydraQuery =>
    exact .inr rfl
  | @accept c addr isWrite ha => exact .inl (flow_accept ha (addTransaction_accepted addr isWrite))
  | returnDone c clk => exact flow_returnDone clk
  | pickMaintenance hs ho _ h =>
    have hr := (hs.asks hwell).not_readWrite hready.regular ho (ChannelState.getReadyCommand_answer h)
    exact .inr (flow_pick hr (settled_frame _ _).1)
  | @pickQueued c issued p cs' q' _ hc htaken =>
    cases hc with
    | hydra h =>
      obtain ⟨h₁, h₂, h₃⟩ := hready.regular.hydraOff hmode
      have hoff : c.channelState.getReadyHydraCommand cfg c.clk = .ok (none, c.channelState) :=
        ChannelState.getReadyHydraCommand_off h₃ h₁ h₂
      rw [hoff] at h
      cases h
    | @demand before cmd after r _ hqueue _ h _ hdep =>
      by_cases hrw : r.isReadWrite
      · obtain rfl := (ChannelState.getReadyCommand_answer h).eq_of_isReadWrite hrw
        exact .inl (flow_take hwell hrw hqueue hdep htaken)
      · rw [Taken, if_neg hrw] at htaken
        exact .inr (flow_pick (by simpa using hrw) (by rw [htaken]))
  | issue h => exact .inl (flow_issue h)
  | drop _ hsame => exact .inl (flow_drop hsame)
  | powerUpdate c =>
    obtain ⟨f, heq⟩ := c.powerUpdate_eq cfg
    rw [heq]
    exact .inr rfl
  | schedule => exact flow_schedule
  | endTick => exact .inl (.endTick rfl)

/-- An invariant of the transactions holds of them in every reached state. -/
theorem Reached.flow_induct {P : Flow → Prop} (hmode : cfg.hydraMode ≠ 1)
    (hboot : P ⟨fun _ => [], fun _ => [], [], [], [], none, [], []⟩)
    (hstep : ∀ m f', Reached cfg π m → P m.flow → Flow.Step cfg π m.flow f' → P f')
    (h : Reached cfg π m) : P m.flow := by
  obtain ⟨boot, h⟩ := h
  induction h with
  | refl =>
    convert hboot using 1
    have hlane : boot.controller.laneQueue = fun _ => [] := by
      funext l
      cases l <;> rfl
    simp only [Micro.flow, rest, hlane]
    rfl
  | tail hm hs ih =>
    have hr : Reached cfg π _ := ⟨boot, hm⟩
    rcases hs.flow hmode hr.ready hr.wellQueued with hf | hf
    · exact hstep _ _ hr ih hf
    · rw [hf]
      exact ih

end Micro
end CactusDram
