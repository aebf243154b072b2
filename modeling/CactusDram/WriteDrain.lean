import CactusDram.ChannelSteps

/-! The choice between reads and writes. The drain mode is left at a write that conflicts with a
pending read, and entered again by the same occupancy tests. -/
namespace CactusDram
open Foundations

namespace CommandQueue
variable {cfg : Config} {q : CommandQueue}

theorem getQueue_of_queueEmpty (h : q.queueEmpty cfg) (addr : HexAddr) :
    q.getQueue cfg (cfg.addressMapping addr).bankId = [] := by
  obtain ⟨n, hn, hidx⟩ := getQueueIndex_lt cfg addr
  unfold queueEmpty at h
  rw [List.all_eq_true] at h
  have := h n (List.mem_range.mpr hn)
  rw [getQueue, hidx]
  simpa using this

theorem willAccept_of_queueEmpty (h : q.queueEmpty cfg) (hsize : 1 ≤ cfg.cmdQueueSize)
    (addr : HexAddr) : q.willAcceptCommand cfg (cfg.addressMapping addr).bankId := by
  rw [willAcceptCommand, getQueue_of_queueEmpty h]
  simpa using Nat.pos_of_ne_zero (by omega)

/-- An accepted command leaves its queue nonempty. -/
theorem not_queueEmpty_addCommand {cmd : Command} {addr : HexAddr}
    (haddr : cmd.addr = cfg.addressMapping addr) (h : q.willAcceptCommand cfg cmd.bankId) :
    (q.addCommand cfg cmd).queueEmpty cfg = false := by
  obtain ⟨n, hn, hidx⟩ := getQueueIndex_lt cfg addr
  rw [← haddr] at hidx
  unfold willAcceptCommand at h
  unfold queueEmpty addCommand
  rw [if_pos (by simpa using h)]
  rw [List.all_eq_false]
  refine ⟨n, List.mem_range.mpr hn, ?_⟩
  simp [setQueue, Command.bankId, ← hidx]

end CommandQueue

namespace Controller
variable {cfg : Config} {c c' : Controller}

/-- With split queues, reads and writes wait apart, and no more writes are left to drain than
are buffered. -/
structure Buffered (c : Controller) : Prop where
  reads : ∀ t ∈ c.readQueue, t.isWrite = false
  writes : ∀ t ∈ c.writeBuffer, t.isWrite
  draining : 0 ≤ c.writeDraining ∧ c.writeDraining ≤ c.writeBuffer.length

theorem Buffered.congr (hc : Buffered c) (hr : c'.readQueue = c.readQueue)
    (hw : c'.writeBuffer = c.writeBuffer) (hd : c'.writeDraining = c.writeDraining) : Buffered c' :=
  ⟨hr ▸ hc.reads, hw ▸ hc.writes, by rw [hd, hw]; exact hc.draining⟩

theorem Buffered.startDraining (cfg : Config) (hc : Buffered c) :
    0 ≤ c.startDraining cfg ∧ c.startDraining cfg ≤ c.writeBuffer.length := by
  unfold Controller.startDraining
  split_ifs
  · omega
  · exact hc.draining

theorem Buffered.enqueue (huni : cfg.unifiedQueue = false) (hc : Buffered c) (t : Transaction) :
    Buffered (c.enqueue cfg t) := by
  unfold Controller.enqueue
  rw [huni, if_neg Bool.false_ne_true]
  split_ifs with hw
  · refine ⟨hc.reads, fun t' ht' => ?_, ?_⟩
    · rcases List.mem_append.mp ht' with h | h
      · exact hc.writes t' h
      · rw [List.mem_singleton.mp h]
        exact hw
    · have := hc.draining
      simp only [List.length_append, List.length_singleton]
      omega
  · refine ⟨fun t' ht' => ?_, hc.writes, hc.draining⟩
    rcases List.mem_append.mp ht' with h | h
    · exact hc.reads t' h
    · rw [List.mem_singleton.mp h]
      simpa using hw

theorem Buffered.accepted (huni : cfg.unifiedQueue = false) (hc : Buffered c) {t : Transaction}
    (h : Accepted cfg c t c') : Buffered c' := by
  cases h with
  | mergeWrite | forward | mergeRead => exact hc.congr rfl rfl rfl
  | newWrite | newRead =>
    refine Buffered.enqueue huni ?_ t
    exact hc.congr rfl rfl rfl

/-- Scheduling in the lane of the writes. -/
theorem Buffered.scheduled (huni : cfg.unifiedQueue = false) (hc : Buffered c) :
    Buffered (c.scheduleTransaction cfg) := by
  obtain ⟨s, heq, hs⟩ := c.scheduleTransaction_eq cfg
  have hd := hc.startDraining cfg
  rw [heq]
  unfold lane at hs ⊢
  rw [huni, if_neg Bool.false_ne_true] at hs ⊢
  split_ifs at hs ⊢ with hdrain
  · cases hs with
    | nothing => exact ⟨hc.reads, hc.writes, hd⟩
    | conflict => exact ⟨hc.reads, hc.writes, le_rfl, Int.natCast_nonneg _⟩
    | @moved pre t post hq =>
      have hq : c.writeBuffer = pre ++ t :: post := hq
      have hw : t.isWrite := hc.writes t (hq ▸ by simp)
      have hlen : c.writeBuffer.length = pre.length + post.length + 1 := by
        rw [hq, List.length_append, List.length_cons]
        omega
      refine ⟨hc.reads, fun t' ht' => hc.writes t' ?_, ?_⟩
      · rw [hq]
        simp only [setLane, List.mem_append, List.mem_cons] at ht' ⊢
        tauto
      · simp only [setLane, huni, hw, Bool.not_false, Bool.and_true, if_true, List.length_append]
        omega
  · have hzero : c.startDraining cfg = 0 := by omega
    cases hs with
    | nothing => exact ⟨hc.reads, hc.writes, hd⟩
    | @conflict pre t post hq _ hw =>
      have hq : c.readQueue = pre ++ t :: post := hq
      have := hc.reads t (hq ▸ by simp)
      simp [this] at hw
    | @moved pre t post hq =>
      have hq : c.readQueue = pre ++ t :: post := hq
      have hr : t.isWrite = false := hc.reads t (hq ▸ by simp)
      refine ⟨fun t' ht' => hc.reads t' ?_, hc.writes, ?_⟩
      · rw [hq]
        simp only [setLane, List.mem_append, List.mem_cons] at ht' ⊢
        tauto
      · simpa [setLane, hr] using hd

end Controller

namespace Micro
open Controller
variable {cfg : Config} {π : Policy} {m m' : Micro}

theorem Step.buffered (huni : cfg.unifiedQueue = false) (hm : Buffered m.ctl)
    (h : Step cfg π m m') : Buffered m'.ctl := by
  cases h with
  | others | refreshTick | channelTick | startRefresh | startRFM | rotate | query | hydraQuery
  | pickMaintenance | pickQueued | drop | endTick => exact hm.congr rfl rfl rfl
  | @accept c addr isWrite => exact hm.accepted huni (addTransaction_accepted addr isWrite)
  | returnDone c clk =>
    obtain ⟨_, _, heq⟩ := c.returnDoneTrans_eq clk
    rw [heq]
    exact hm.congr rfl rfl rfl
  | issue h =>
    obtain ⟨_, _, _, _, _, rfl⟩ := issueCommand_frame h
    exact hm.congr rfl rfl rfl
  | powerUpdate c =>
    obtain ⟨f, heq⟩ := c.powerUpdate_eq cfg
    rw [heq]
    exact hm.congr rfl rfl rfl
  | schedule c => exact hm.scheduled huni

theorem Reached.buffered (huni : cfg.unifiedQueue = false) (h : Reached cfg π m) :
    Buffered m.ctl :=
  h.induct (P := fun m => Buffered m.ctl)
    (fun _ => ⟨fun _ h => (nomatch h), fun _ h => (nomatch h), le_rfl, le_rfl⟩)
    fun _ _ hm hs => hs.buffered huni hm

end Micro

namespace Controller
variable {cfg : Config} {c : Controller}

/-- Fewer transactions wait than before, and the command queues hold a command. -/
def Progress (cfg : Config) (c c' : Controller) : Prop :=
  c'.readQueue.length + c'.writeBuffer.length < c.readQueue.length + c.writeBuffer.length ∧
    c'.cmdQueue.queueEmpty cfg = false

instance (cfg : Config) (c c' : Controller) : Decidable (Progress cfg c c') := by
  unfold Progress
  infer_instance

/-- The oldest buffered write waits for a pending read of its address, and the buffer is filled
beyond one of the two thresholds that start a drain. -/
def Wedged (cfg : Config) (c : Controller) : Prop :=
  (∃ t, c.writeBuffer.head? = some t ∧ hasAddr c.pendingRdQ t.addr) ∧
    (cfg.transQueueSize ≤ c.writeBuffer.length ∨ 8 < c.writeBuffer.length)

/-- With all queues empty, the loop decides on the first transaction of its lane. -/
theorem Scheduled.head {d : ℤ} {t : Transaction} {rest : List Transaction} {s : Schedule}
    (h : Scheduled cfg c c.cmdQueue d (t :: rest) s) (hempty : c.cmdQueue.queueEmpty cfg)
    (hsize : 1 ≤ cfg.cmdQueueSize) :
    (cfg.unifiedQueue = false ∧ t.isWrite ∧ hasAddr c.pendingRdQ t.addr ∧
        s = ⟨t :: rest, c.cmdQueue, 0⟩) ∨
      ((cfg.unifiedQueue = false → t.isWrite → hasAddr c.pendingRdQ t.addr = false) ∧
        s.queue = rest ∧ s.cmdQueue.queueEmpty cfg = false) := by
  have hacc (t : Transaction) (later : List Transaction) :
      c.cmdQueue.willAcceptCommand cfg (transToCommand cfg t later).bankId :=
    CommandQueue.willAccept_of_queueEmpty hempty hsize t.addr
  have hnil {pre : List Transaction} (hpre : ∀ pre' t' post', t :: rest = pre' ++ t' :: post' →
      pre'.length < pre.length →
        c.cmdQueue.willAcceptCommand cfg (transToCommand cfg t' post').bankId = false) : pre = [] := by
    by_contra hne
    have := hpre [] t rest rfl (List.length_pos_of_ne_nil hne)
    rw [hacc] at this
    cases this
  cases h with
  | nothing hno =>
    have := hno [] t rest rfl
    rw [hacc] at this
    cases this
  | conflict hq huni hw _ hpre hdep =>
    obtain rfl := hnil hpre
    cases hq
    exact .inl ⟨huni, hw, hdep, rfl⟩
  | moved hq h hpre hdep =>
    obtain rfl := hnil hpre
    cases hq
    exact .inr ⟨hdep, rfl, CommandQueue.not_queueEmpty_addCommand rfl h⟩

section TwoCalls
variable (huni : cfg.unifiedQueue = false) (hsize : 1 ≤ cfg.cmdQueueSize)
include huni hsize

/-- One call while draining. -/
theorem schedule_draining (hc : Buffered c) (hempty : c.cmdQueue.queueEmpty cfg)
    (hd : 0 < c.startDraining cfg) :
    ((∃ t, c.writeBuffer.head? = some t ∧ hasAddr c.pendingRdQ t.addr) ∧
        c.scheduleTransaction cfg = { c with writeDraining := 0 }) ∨
      ((¬∃ t, c.writeBuffer.head? = some t ∧ hasAddr c.pendingRdQ t.addr) ∧
        Progress cfg c (c.scheduleTransaction cfg)) := by
  obtain ⟨s, heq, hs⟩ := c.scheduleTransaction_eq cfg
  have hlane : c.lane cfg = .write := by simp [lane, huni, hd]
  rw [hlane] at heq hs
  obtain ⟨t, rest, hw⟩ : ∃ t rest, c.writeBuffer = t :: rest := by
    refine List.exists_cons_of_ne_nil fun hnil => ?_
    have := hc.startDraining cfg
    rw [hnil, List.length_nil] at this
    omega
  have hwrite : t.isWrite := hc.writes t (hw ▸ List.mem_cons_self)
  rw [laneQueue, hw] at hs
  rcases hs.head hempty hsize with ⟨_, _, hdep, rfl⟩ | ⟨hdep, hqueue, hne⟩
  · refine .inl ⟨⟨t, by rw [hw]; rfl, hdep⟩, ?_⟩
    rw [heq, setLane, ← hw]
  · refine .inr ⟨?_, ?_, ?_⟩
    · rintro ⟨t', ht', hdep'⟩
      rw [hw] at ht'
      cases ht'
      rw [hdep huni hwrite] at hdep'
      cases hdep'
    · rw [heq, setLane]
      simp only [hqueue, hw, List.length_cons]
      omega
    · rw [heq]
      exact hne

/-- One call while reading. -/
theorem schedule_reading (hc : Buffered c) (hempty : c.cmdQueue.queueEmpty cfg)
    (hread : c.readQueue ≠ []) (hd : c.startDraining cfg = 0) :
    Progress cfg c (c.scheduleTransaction cfg) := by
  obtain ⟨s, heq, hs⟩ := c.scheduleTransaction_eq cfg
  have hlane : c.lane cfg = .read := by simp [lane, huni, hd]
  rw [hlane] at heq hs
  obtain ⟨t, rest, hr⟩ := List.exists_cons_of_ne_nil hread
  have hnot : t.isWrite = false := hc.reads t (hr ▸ List.mem_cons_self)
  rw [laneQueue, hr] at hs
  rcases hs.head hempty hsize with ⟨_, hw, _⟩ | ⟨_, hqueue, hne⟩
  · simp [hnot] at hw
  · refine ⟨?_, ?_⟩
    · rw [heq, setLane]
      simp only [hqueue, hr, List.length_cons]
      omega
    · rw [heq]
      exact hne

end TwoCalls

theorem Scheduled.length_le {q : CommandQueue} {d : ℤ} {queue : List Transaction} {s : Schedule}
    (h : Scheduled cfg c q d queue s) : s.queue.length ≤ queue.length := by
  cases h with
  | nothing | conflict => exact le_rfl
  | moved hq =>
    rw [hq]
    simp

theorem Scheduled.not_queueEmpty {q : CommandQueue} {d : ℤ} {queue : List Transaction}
    {s : Schedule} (h : Scheduled cfg c q d queue s) (hq : q.queueEmpty cfg = false) :
    s.cmdQueue.queueEmpty cfg = false := by
  cases h with
  | nothing | conflict => exact hq
  | moved _ hacc => exact CommandQueue.not_queueEmpty_addCommand rfl hacc

/-- Progress is not undone by another call. -/
theorem Progress.schedule {c' : Controller} (h : Progress cfg c c') :
    Progress cfg c (c'.scheduleTransaction cfg) := by
  obtain ⟨s, heq, hs⟩ := c'.scheduleTransaction_eq cfg
  obtain ⟨hlt, hne⟩ := h
  have hle := hs.length_le
  have hne' := hs.not_queueEmpty hne
  rw [heq]
  cases hl : c'.lane cfg <;> rw [hl] at hle <;> simp only [laneQueue] at hle <;>
    exact ⟨by simp only [setLane]; omega, hne'⟩

theorem startDraining_of_thresholds (huni : cfg.unifiedQueue = false)
    (hempty : c.cmdQueue.queueEmpty cfg) (hzero : c.writeDraining = 0) :
    c.startDraining cfg =
      if cfg.transQueueSize ≤ c.writeBuffer.length ∨ 8 < c.writeBuffer.length then
        (c.writeBuffer.length : ℤ) else 0 := by
  simp [startDraining, hzero, huni, hempty]

end Controller

open Controller

/-- With split queues, empty command queues and a waiting read, two calls of `ScheduleTransaction`
move a transaction unless the controller is wedged: the drain stops at the conflicting write and
is started again by the same buffer. -/
theorem schedule_twice_progress_iff {cfg : Config} (huni : cfg.unifiedQueue = false)
    (hsize : 1 ≤ cfg.cmdQueueSize) {c : Controller} (h : Reachable cfg c)
    (hempty : c.cmdQueue.queueEmpty cfg) (hread : c.readQueue ≠ []) :
    Progress cfg c ((c.scheduleTransaction cfg).scheduleTransaction cfg) ↔ ¬Wedged cfg c := by
  have hc : Buffered c := (Micro.reached_of_reachable h).buffered huni
  have hsd := hc.startDraining cfg
  have hc₀ : Buffered { c with writeDraining := 0 } :=
    ⟨hc.reads, hc.writes, le_rfl, Int.natCast_nonneg _⟩
  have hsd₀ := startDraining_of_thresholds (c := { c with writeDraining := 0 }) huni hempty rfl
  -- a call that does not drain moves a read
  have hreading (h₀ : ¬0 < c.startDraining cfg) :
      Progress cfg c ((c.scheduleTransaction cfg).scheduleTransaction cfg) :=
    (schedule_reading huni hsize hc hempty hread (by omega)).schedule
  by_cases hconf : ∃ t, c.writeBuffer.head? = some t ∧ hasAddr c.pendingRdQ t.addr
  · have hfirst (hd : 0 < c.startDraining cfg) :
        c.scheduleTransaction cfg = { c with writeDraining := 0 } := by
      rcases schedule_draining huni hsize hc hempty hd with ⟨_, h⟩ | ⟨h, _⟩
      · exact h
      · exact absurd hconf h
    by_cases hth : cfg.transQueueSize ≤ c.writeBuffer.length ∨ 8 < c.writeBuffer.length
    · refine iff_of_false ?_ (not_not_intro ⟨hconf, hth⟩)
      have hpos : 0 < c.writeBuffer.length := by
        obtain ⟨t, ht, _⟩ := hconf
        exact List.length_pos_of_mem (List.mem_of_head? ht)
      have hd : 0 < c.startDraining cfg := by
        have := hc.draining
        by_cases hzero : c.writeDraining = 0
        · rw [startDraining_of_thresholds huni hempty hzero, if_pos hth]
          omega
        · unfold Controller.startDraining
          rw [if_neg fun h => hzero h.1]
          omega
      rw [if_pos hth] at hsd₀
      have hsecond := schedule_draining huni hsize hc₀ hempty (by rw [hsd₀]; exact_mod_cast hpos)
      rw [hfirst hd]
      rcases hsecond with ⟨_, h⟩ | ⟨h, _⟩
      · rw [h]
        exact fun hp => lt_irrefl _ hp.1
      · exact absurd hconf h
    · refine iff_of_true ?_ fun h => hth h.2
      by_cases hd : 0 < c.startDraining cfg
      · rw [if_neg hth] at hsd₀
        rw [hfirst hd]
        exact schedule_reading huni hsize hc₀ hempty hread hsd₀
      · exact hreading hd
  · refine iff_of_true ?_ fun h => hconf h.1
    by_cases hd : 0 < c.startDraining cfg
    · rcases schedule_draining huni hsize hc hempty hd with ⟨h, _⟩ | ⟨_, h⟩
      · exact absurd h hconf
      · exact h.schedule
    · exact hreading hd

/-- A waiting read alone is moved. -/
theorem schedule_twice_progress_iff_small : ∃ c, Reachable smallConfig c ∧
    c.cmdQueue.queueEmpty smallConfig ∧ c.readQueue ≠ [] ∧
    (Progress smallConfig c
      ((c.scheduleTransaction smallConfig).scheduleTransaction smallConfig) ↔
        ¬Wedged smallConfig c) := by
  obtain ⟨c, hrun, hc⟩ := exists_ok_of_any
    (x := Controller.run smallConfig ({} : Boot smallConfig).controller [.addTransaction 0 false])
    (p := fun c => c.cmdQueue.queueEmpty smallConfig && !c.readQueue.isEmpty) (by decide +kernel)
  simp only [Bool.and_eq_true, Bool.not_eq_true', List.isEmpty_eq_false_iff] at hc
  have hr : Reachable smallConfig c := ⟨{}, _, hrun⟩
  exact ⟨c, hr, hc.1, hc.2, schedule_twice_progress_iff rfl (by decide) hr hc.1 hc.2⟩

/-- A read, a write of the same address and eight more writes, all before the next tick. -/
def wedgeInputs : List Input :=
  .addTransaction 0 false :: (List.range 9).map fun n => .addTransaction (BitVec.ofNat 64 n) true

/-- Two calls then move nothing, though a read waits and every command queue is empty. -/
theorem schedule_twice_stuck : ∃ c, Reachable smallConfig c ∧ c.cmdQueue.queueEmpty smallConfig ∧
    c.readQueue ≠ [] ∧ ¬Progress smallConfig c
      ((c.scheduleTransaction smallConfig).scheduleTransaction smallConfig) := by
  obtain ⟨c, hrun, hc⟩ := exists_ok_of_any
    (x := Controller.run smallConfig ({} : Boot smallConfig).controller wedgeInputs)
    (p := fun c => c.cmdQueue.queueEmpty smallConfig && !c.readQueue.isEmpty &&
      !decide (Progress smallConfig c
        ((c.scheduleTransaction smallConfig).scheduleTransaction smallConfig))) (by decide +kernel)
  simp only [Bool.and_eq_true, Bool.not_eq_true', List.isEmpty_eq_false_iff,
    decide_eq_false_iff_not] at hc
  exact ⟨c, ⟨{}, _, hrun⟩, hc.1.1, hc.1.2, hc.2⟩

end CactusDram
