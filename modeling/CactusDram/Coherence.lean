import CactusDram.Foundations.Cells
import CactusDram.Transactions

/-! Every read gets the last write accepted before it, whether it is answered from the buffer of writes
or by a READ that the memory serves out of order. -/
namespace CactusDram
open Foundations Controller

/-- What an event of the controller is to an address. -/
def TransEvent.onCell (addr : HexAddr) : TransEvent → Option Cell.Event
  | .accepted t forwarded =>
    if t.addr = addr then some (if t.isWrite then .write else if forwarded then .forward else .read) else none
  | .issued cmd =>
    if cmd.hexAddr = addr then if cmd.isRead then some .load else if cmd.isWrite then some .store else none
    else none
  | .returned .. | .dropped _ => none

def cellHistory (addr : HexAddr) (log : List TransEvent) : List Cell.Event :=
  log.filterMap (TransEvent.onCell addr)

namespace Flow
variable {cfg : Config} {π : Micro.Policy} {f f' : Flow} {addr : HexAddr}

/-- The address as its history shows it. -/
def cell (addr : HexAddr) (f : Flow) : Cell := .after (cellHistory addr f.log)

/-- The pending transactions of an address in view of its history. -/
structure Told (addr : HexAddr) (f : Flow) : Prop where
  guarded : AtEvery (fun older e => (Cell.after older).Guarded e) (cellHistory addr f.log)
  buffered : hasAddr f.pendingWr addr ↔ (f.cell addr).held < (f.cell addr).given
  promised : (f.cell addr).promised.length = f.pendingRd.countP fun t => t.addr = addr

/-- A promised read is pending. -/
theorem Told.pending (hf : Told addr f) (hsome : (f.cell addr).promised ≠ []) :
    hasAddr f.pendingRd addr := by
  have hpos := List.length_pos_of_ne_nil hsome
  rw [hf.promised, List.countP_pos_iff] at hpos
  obtain ⟨t, ht, haddr⟩ := hpos
  exact hasAddr_iff.mpr ⟨t, ht, by simpa using haddr⟩

theorem Told.congr (hf : Told addr f) (hsame : cellHistory addr f'.log = cellHistory addr f.log)
    (hwr : hasAddr f'.pendingWr addr = hasAddr f.pendingWr addr)
    (hrd : (f'.pendingRd.countP fun t => t.addr = addr) = f.pendingRd.countP fun t => t.addr = addr) :
    Told addr f' := by
  obtain ⟨hguarded, hbuffered, hpromised⟩ := hf
  unfold cell at hbuffered hpromised
  constructor <;> simp only [cell, hsame, hwr, hrd]
  · exact hguarded
  · exact hbuffered
  · exact hpromised

/-- An event that is none of the address. -/
theorem Told.skip (hf : Told addr f) {e : TransEvent} (hlog : f'.log = e :: f.log)
    (hnone : e.onCell addr = none) (hwr : hasAddr f'.pendingWr addr = hasAddr f.pendingWr addr)
    (hrd : (f'.pendingRd.countP fun t => t.addr = addr) = f.pendingRd.countP fun t => t.addr = addr) :
    Told addr f' := by
  refine hf.congr ?_ hwr hrd
  rw [hlog, cellHistory, List.filterMap_cons_none hnone]
  rfl

theorem Told.event (hf : Told addr f) {e : TransEvent} {x : Cell.Event} (hlog : f'.log = e :: f.log)
    (hx : e.onCell addr = some x) (hguard : (f.cell addr).Guarded x)
    (hbuffered : hasAddr f'.pendingWr addr ↔ ((f.cell addr).step x).held < ((f.cell addr).step x).given)
    (hpromised : ((f.cell addr).step x).promised.length = f'.pendingRd.countP fun t => t.addr = addr) :
    Told addr f' := by
  have hnew : cellHistory addr f'.log = x :: cellHistory addr f.log := by
    rw [hlog, cellHistory, List.filterMap_cons_some hx]
    rfl
  constructor <;> simp only [cell, hnew, Cell.after_cons]
  · exact hf.guarded.cons hguard
  · exact hbuffered
  · exact hpromised

theorem Told.step (hf : Told addr f) (hsingle : f.pendingWr.countP (fun t => t.addr = addr) ≤ 1)
    (hne : addr ≠ noAddr)
    (hfree : ∀ cmd, f.ticket = some cmd → cmd.isWrite → cmd.hexAddr = addr →
      hasAddr f.pendingRd addr = false) (h : Step cfg π f f') : Told addr f' := by
  have hle : (f.cell addr).held ≤ (f.cell addr).given := Cell.held_le_given _
  cases h with
  | @mergeWrite t _ _ _ hw hp =>
    by_cases ht : t.addr = addr
    · subst ht
      refine hf.event rfl (x := .write) (by simp [TransEvent.onCell, hw]) trivial ?_ hf.promised
      exact ⟨fun _ => Nat.lt_succ_of_le hle, fun _ => hp⟩
    · exact hf.skip rfl (by simp [TransEvent.onCell, ht]) rfl rfl
  | @newWrite t _ _ _ hw hp =>
    by_cases ht : t.addr = addr
    · subst ht
      refine hf.event rfl (x := .write) (by simp [TransEvent.onCell, hw]) trivial ?_ hf.promised
      refine ⟨fun _ => Nat.lt_succ_of_le hle, fun _ => ?_⟩
      rw [show (Flow.enqueue cfg _ t).pendingWr = f.pendingWr ++ [t] from rfl, hasAddr_append]
      simp
    · refine hf.skip rfl (by simp [TransEvent.onCell, ht]) ?_ rfl
      rw [show (Flow.enqueue cfg _ t).pendingWr = f.pendingWr ++ [t] from rfl, hasAddr_append]
      simp [ht]
  | @forward t _ _ _ hw hp =>
    by_cases ht : t.addr = addr
    · subst ht
      exact hf.event rfl (x := .forward) (by simp [TransEvent.onCell, hw]) (hf.buffered.mp hp)
        hf.buffered hf.promised
    · exact hf.skip rfl (by simp [TransEvent.onCell, ht]) rfl rfl
  | @mergeRead t _ _ hw hp | @newRead t _ _ hw hp =>
    by_cases ht : t.addr = addr
    · subst ht
      have hsame : (f.cell t.addr).held = (f.cell t.addr).given := by
        have hnot := mt hf.buffered.mpr (by simp [hp])
        omega
      refine hf.event rfl (x := .read) (by simp [TransEvent.onCell, hw]) hsame hf.buffered ?_
      change ((f.cell t.addr).given :: (f.cell t.addr).promised).length =
        (f.pendingRd ++ [t]).countP fun t' => t'.addr = t.addr
      rw [List.length_cons, hf.promised, List.countP_append]
      simp
    · refine hf.skip rfl (by simp [TransEvent.onCell, ht]) rfl ?_
      change ((f.pendingRd ++ [t]).countP fun t' => t'.addr = addr) = _
      rw [List.countP_append]
      simp [ht]
  | handBack => exact hf.skip rfl rfl rfl rfl
  | @serveRead cmd _ hticket hr =>
    by_cases ha : cmd.hexAddr = addr
    · refine hf.event rfl (x := .load) (by simp [TransEvent.onCell, ha, hr]) trivial hf.buffered ?_
      subst ha
      refine (List.countP_eq_zero.mpr fun t ht => ?_).symm
      simpa using (List.mem_filter.mp ht).2
    · refine hf.skip rfl (by simp [TransEvent.onCell, ha]) rfl ?_
      refine List.countP_filter.trans (List.countP_congr fun t _ => ?_)
      simp only [Bool.and_eq_true, decide_eq_true_eq, and_iff_left_iff_imp]
      rintro rfl
      exact Ne.symm ha
  | @serveWrite cmd hticket hw =>
    have hr : cmd.isRead = false := by
      by_contra hr
      simp [isWrite_of_isRead (by simpa using hr)] at hw
    by_cases ha : cmd.hexAddr = addr
    · have hnone : (f.cell addr).promised = [] := by
        by_contra hsome
        have hpending := hf.pending hsome
        rw [hfree cmd hticket hw ha] at hpending
        cases hpending
      refine hf.event rfl (x := .store) (by simp [TransEvent.onCell, ha, hr, hw]) hnone ?_ ?_
      · subst ha
        rw [hasAddr_eraseP_self hsingle]
        exact ⟨fun h => absurd h Bool.false_ne_true, fun h => absurd h (lt_irrefl _)⟩
      · exact hf.promised
    · exact hf.skip rfl (by simp [TransEvent.onCell, ha]) (hasAddr_eraseP_ne (Ne.symm ha)) rfl
  | @serveNone cmd hticket hno =>
    exact hf.skip rfl (by simp [TransEvent.onCell, hno, Ne.symm hne]) rfl rfl
  | @issueOther cmd _ hrw =>
    have hnot : cmd.isRead = false ∧ cmd.isWrite = false := by simpa [Command.isReadWrite] using hrw
    exact hf.skip rfl (by simp [TransEvent.onCell, hnot]) rfl rfl
  | lose | dropOther => exact hf.skip rfl rfl rfl rfl
  | schedule | take | endTick => exact hf.congr rfl rfl rfl

/-- What is on its way to an address under a unified queue, in order: is it a write? -/
def line (cfg : Config) (addr : HexAddr) (f : Flow) : List Bool :=
  (f.ticket.toList.filter fun cmd => cmd.hexAddr = addr).map Command.isWrite ++
    ((f.queues (cfg.queueOf addr)).filter fun cmd => cmd.hexAddr = addr).map Command.isWrite ++
    ((f.waiting .unified).filter fun t => t.addr = addr).map Transaction.isWrite

/-- A WRITE is in the command queue only when no read of its address waits; under a unified queue the
read is before it. -/
structure Ordered (cfg : Config) (addr : HexAddr) (f : Flow) : Prop where
  split : cfg.unifiedQueue = false → 1 ≤ f.queueCount cfg true addr + f.ticketCount true addr →
    hasAddr f.pendingRd addr = false
  lined : cfg.unifiedQueue → (f.line cfg addr).Pairwise (· < ·)
  lanes : cfg.unifiedQueue → f.waiting .write = [] ∧ f.waiting .read = []

theorem count_line (k : Bool) : (f.line cfg addr).count k =
    f.ticketCount k addr + f.queueCount cfg k addr + (f.waiting .unified).countP (matchesTrans k addr) := by
  have hcmd (q : List Command) : ((q.filter fun cmd => cmd.hexAddr = addr).map Command.isWrite).count k =
      q.countP (matchesCmd k addr) := by
    rw [List.count, List.countP_map, List.countP_filter]
    apply List.countP_congr
    intro cmd _
    simp [matchesCmd, and_comm]
  have htrans (q : List Transaction) : ((q.filter fun t => t.addr = addr).map Transaction.isWrite).count k =
      q.countP (matchesTrans k addr) := by
    rw [List.count, List.countP_map, List.countP_filter]
    apply List.countP_congr
    intro t _
    simp [matchesTrans, and_comm]
  rw [line, List.count_append, List.count_append, hcmd, hcmd, htrans]
  rfl

/-- Under a unified queue all that is on its way is in line. -/
theorem Ordered.count_line_eq (hf : Ordered cfg addr f) (hu : cfg.unifiedQueue) (k : Bool) :
    (f.line cfg addr).count k = f.inFlight cfg k addr := by
  obtain ⟨hwrite, hread⟩ := hf.lanes hu
  rw [count_line, inFlight, waitCount, hwrite, hread]
  simp only [List.countP_nil]
  omega

/-- When a WRITE is about to be issued no read of its address waits. -/
theorem Ordered.free (hf : Ordered cfg addr f) (ht : Tracked cfg f) (hne : addr ≠ noAddr)
    (hkept : cfg.unifiedQueue → f.lost false addr = false) {cmd : Command} (hticket : f.ticket = some cmd)
    (hw : cmd.isWrite) (ha : cmd.hexAddr = addr) : hasAddr f.pendingRd addr = false := by
  by_cases hu : cfg.unifiedQueue
  · by_contra hpending
    have hread := ht.lower false addr hne (hkept hu) (by simpa [pending_false] using hpending)
    rw [← hf.count_line_eq hu] at hread
    have hlined := hf.lined hu
    rw [line, hticket] at hread hlined
    simp only [Option.toList_some, ha, decide_true, List.filter_cons_of_pos, List.filter_nil, List.map_cons,
      List.map_nil, List.cons_append, List.nil_append, hw] at hread hlined
    have hmem := List.count_pos_iff.mp hread
    rcases List.mem_cons.mp hmem with hmem | hmem
    · cases hmem
    · exact absurd ((List.pairwise_cons.mp hlined).1 _ hmem) (by decide)
  · refine hf.split (by simpa using hu) ?_
    rw [ticketCount, hticket]
    simp [matchesCmd, ha, hw]

theorem line_enqueue (hu : cfg.unifiedQueue) (t : Transaction) :
    (f.enqueue cfg t).line cfg addr = f.line cfg addr ++ if t.addr = addr then [t.isWrite] else [] := by
  simp only [line, enqueue, Config.laneOf, hu, if_true, Function.update_self, List.filter_append,
    List.map_append, List.append_assoc]
  by_cases ha : t.addr = addr <;> simp [ha]

theorem lanes_of_enqueue (hu : cfg.unifiedQueue) (t : Transaction)
    (h : f.waiting .write = [] ∧ f.waiting .read = []) :
    (f.enqueue cfg t).waiting .write = [] ∧ (f.enqueue cfg t).waiting .read = [] := by
  simpa [enqueue, Config.laneOf, hu] using h

/-- Nothing of the kind is in line when none is pending. -/
theorem Ordered.not_mem_line (hf : Ordered cfg addr f) (ht : Tracked cfg f) (hu : cfg.unifiedQueue)
    {k : Bool} (hnone : hasAddr (f.pending k) addr = false) : k ∉ f.line cfg addr := by
  have hup := ht.upper k addr
  rw [if_neg (by simp [hnone]), ← hf.count_line_eq hu] at hup
  exact List.count_eq_zero.mp (Nat.le_zero.mp hup)

theorem Tracked.not_queued (ht : Tracked cfg f) (hnone : hasAddr f.pendingWr addr = false) :
    f.queueCount cfg true addr + f.ticketCount true addr = 0 := by
  have hup := ht.upper true addr
  rw [if_neg (by simp [pending_true, hnone]), inFlight] at hup
  omega

/-- A request that comes last. -/
theorem Ordered.enter {t : Transaction} (hf : Ordered cfg addr f) (ht : Tracked cfg f)
    (hwr : hasAddr f.pendingWr t.addr = false)
    (hrd : t.isWrite = false → hasAddr f.pendingRd t.addr = false)
    (hwaiting : f'.waiting = (f.enqueue cfg t).waiting) (hqueues : f'.queues = f.queues)
    (hticket : f'.ticket = f.ticket)
    (hpending : t.addr ≠ addr ∨ t.isWrite → hasAddr f'.pendingRd addr = hasAddr f.pendingRd addr) :
    Ordered cfg addr f' := by
  refine ⟨fun hu hone => ?_, fun hu => ?_, fun hu => ?_⟩
  · simp only [queueCount, ticketCount, hqueues, hticket] at hone
    by_cases ha : t.addr = addr
    · have hzero := ht.not_queued (ha ▸ hwr)
      simp only [queueCount, ticketCount] at hzero
      omega
    · rw [hpending (.inl ha)]
      exact hf.split hu hone
  · have hline : f'.line cfg addr = (f.enqueue cfg t).line cfg addr := by
      simp only [line, hwaiting, hqueues, hticket]
      rfl
    rw [hline, line_enqueue hu]
    by_cases ha : t.addr = addr
    · subst ha
      have hnowrite := hf.not_mem_line ht hu (k := true) hwr
      rw [if_pos rfl]
      refine List.pairwise_append.mpr ⟨hf.lined hu, List.pairwise_singleton _ _, fun k hk k' hk' => ?_⟩
      rw [List.mem_singleton] at hk'
      subst hk'
      cases k with
      | true => exact absurd hk hnowrite
      | false =>
        cases hw : t.isWrite with
        | true => decide
        | false => exact absurd hk (hf.not_mem_line ht hu (k := false) (hrd hw))
    · rw [if_neg ha, List.append_nil]
      exact hf.lined hu
  · rw [hwaiting]
    exact lanes_of_enqueue hu t (hf.lanes hu)

/-- A ticket that is issued or left out. -/
theorem Ordered.leave (hf : Ordered cfg addr f) (hwaiting : f'.waiting = f.waiting)
    (hqueues : f'.queues = f.queues) (hticket : f'.ticket = none)
    (hpending : hasAddr f'.pendingRd addr → hasAddr f.pendingRd addr) : Ordered cfg addr f' := by
  refine ⟨fun hu hone => ?_, fun hu => ?_, fun hu => hwaiting ▸ hf.lanes hu⟩
  · simp only [queueCount, ticketCount, hqueues, hticket, Option.toList_none, List.countP_nil] at hone
    have hnot := hf.split hu (by unfold queueCount; omega)
    by_contra hpend
    rw [hpending (by simpa using hpend)] at hnot
    cases hnot
  · refine (hf.lined hu).sublist ?_
    simp only [line, hwaiting, hqueues, hticket, Option.toList_none, List.filter_nil, List.map_nil,
      List.nil_append]
    rw [List.append_assoc]
    exact List.sublist_append_right _ _

/-- Scheduling moves the first request of an address behind those in its command queue. -/
theorem line_schedule {pre post : List Transaction} {t : Transaction} {cmd : Command}
    (hq : f.waiting .unified = pre ++ t :: post) (hcmd : Carries cfg t cmd)
    (hfirst : ∀ t' ∈ pre, t'.addr ≠ t.addr) :
    { f with
      waiting := Function.update f.waiting .unified (pre ++ post)
      queues := Function.update f.queues (cfg.queueOf t.addr)
        (f.queues (cfg.queueOf t.addr) ++ [cmd]) }.line cfg addr = f.line cfg addr := by
  simp only [line, hq, Function.update_self]
  by_cases ha : t.addr = addr
  · subst ha
    have hpre : pre.filter (fun t' => decide (t'.addr = t.addr)) = [] := by
      rw [List.filter_eq_nil_iff]
      simpa using hfirst
    rw [Function.update_self, List.filter_append, List.filter_append, List.filter_append, hpre,
      List.filter_cons_of_pos (by simp [hcmd.1]), List.filter_cons_of_pos (by simp)]
    simp [hcmd.2.2.1]
  · have hnot : cmd.hexAddr ≠ addr := fun h => ha (hcmd.1.symm.trans h)
    have hqueue : (Function.update f.queues (cfg.queueOf t.addr) (f.queues (cfg.queueOf t.addr) ++ [cmd])
        (cfg.queueOf addr)).filter (fun cmd => cmd.hexAddr = addr) =
          (f.queues (cfg.queueOf addr)).filter fun cmd => cmd.hexAddr = addr := by
      by_cases hidx : cfg.queueOf addr = cfg.queueOf t.addr
      · rw [hidx, Function.update_self, List.filter_append, List.filter_cons_of_neg (by simpa using hnot)]
        simp
      · rw [Function.update_of_ne hidx]
    rw [hqueue, List.filter_append, List.filter_append, List.filter_cons_of_neg (by simpa using ha)]

theorem filter_eraseP_of_disjoint {α : Type} {p q : α → Bool} (h : ∀ x, p x → q x = false)
    (l : List α) : (l.eraseP p).filter q = l.filter q := by
  induction l with
  | nil => rfl
  | cons x l ih =>
    by_cases hx : p x
    · rw [List.eraseP_cons_of_pos hx, List.filter_cons_of_neg (by simp [h x hx])]
    · rw [List.eraseP_cons_of_neg hx, List.filter_cons, List.filter_cons, ih]

/-- No request of its address is before one that is taken: a read would be the older part of a
dependency. -/
theorem Ordered.taken_first (hf : Ordered cfg addr f) (hu : cfg.unifiedQueue)
    (hwell : ∀ idx, ∀ c ∈ f.queues idx, c.isReadWrite ∧ c.addr = cfg.addressMapping c.hexAddr)
    {before after : List Command} {cmd : Command} (ht : f.ticket = none) (ha : cmd.hexAddr = addr)
    (hq : f.queues (cfg.queueOf cmd.hexAddr) = before ++ cmd :: after)
    (hdep : cmd.isWrite → CommandQueue.hasRWDependency before cmd = false) :
    before.filter (fun c => c.hexAddr = addr) = [] := by
  subst ha
  rw [List.filter_eq_nil_iff]
  intro c hc hsame
  have hlined := hf.lined hu
  rw [line, ht, hq, List.filter_append, List.filter_cons_of_pos (by simp)] at hlined
  simp only [Option.toList_none, List.filter_nil, List.map_nil, List.nil_append, List.map_append,
    List.map_cons, List.append_assoc] at hlined
  have hless : c.isWrite < cmd.isWrite := by
    refine (List.pairwise_append.mp hlined).2.2 _ ?_ _ List.mem_cons_self
    exact List.mem_map_of_mem (List.mem_filter.mpr ⟨hc, hsame⟩)
  obtain ⟨hcread, hwrite⟩ : c.isWrite = false ∧ cmd.isWrite = true := by
    revert hless
    cases c.isWrite <;> cases cmd.isWrite <;> decide
  obtain ⟨hcrw, hcaddr⟩ := hwell (cfg.queueOf cmd.hexAddr) c (hq ▸ List.mem_append_left _ hc)
  have hmem : cmd ∈ f.queues (cfg.queueOf cmd.hexAddr) := hq ▸ List.mem_append_right _ List.mem_cons_self
  obtain ⟨_, haddr⟩ := hwell _ cmd hmem
  have hread : c.isRead = true := by simpa [Command.isReadWrite, hcread] using hcrw
  have hsameAddr : c.addr = cmd.addr := by rw [hcaddr, haddr, of_decide_eq_true hsame]
  have hfree := hdep hwrite
  rw [CommandQueue.hasRWDependency, List.any_eq_false] at hfree
  apply hfree c hc
  simp [hread, Command.row, Command.column, Command.bank, Command.bankgroup, hsameAddr]

theorem Ordered.line_take (hf : Ordered cfg addr f) (hu : cfg.unifiedQueue)
    (hwell : ∀ idx, ∀ c ∈ f.queues idx, c.isReadWrite ∧ c.addr = cfg.addressMapping c.hexAddr)
    {before after : List Command} {cmd : Command} (ht : f.ticket = none)
    (hq : f.queues (cfg.queueOf cmd.hexAddr) = before ++ cmd :: after)
    (hdep : cmd.isWrite → CommandQueue.hasRWDependency before cmd = false) :
    { f with
      queues := Function.update f.queues (cfg.queueOf cmd.hexAddr)
        ((f.queues (cfg.queueOf cmd.hexAddr)).eraseP fun c =>
          cmd.hexAddr = c.hexAddr && cmd.cmdType = c.cmdType)
      ticket := some cmd }.line cfg addr = f.line cfg addr := by
  simp only [line, ht, Option.toList_some, Option.toList_none]
  by_cases ha : cmd.hexAddr = addr
  · have hbefore := hf.taken_first hu hwell ht ha hq hdep
    subst ha
    have herase : (before ++ cmd :: after).eraseP (fun c =>
        cmd.hexAddr = c.hexAddr && cmd.cmdType = c.cmdType) = before ++ after := by
      rw [List.eraseP_append_right, List.eraseP_cons_of_pos (by simp)]
      intro c hc hsame
      rw [List.filter_eq_nil_iff] at hbefore
      simp only [Bool.and_eq_true, decide_eq_true_eq] at hsame
      exact hbefore c hc (by simpa using hsame.1.symm)
    rw [Function.update_self, hq, herase, List.filter_append, List.filter_append, hbefore]
    simp
  · have hqueue : (Function.update f.queues (cfg.queueOf cmd.hexAddr)
        ((f.queues (cfg.queueOf cmd.hexAddr)).eraseP fun c =>
          cmd.hexAddr = c.hexAddr && cmd.cmdType = c.cmdType) (cfg.queueOf addr)).filter
          (fun c => c.hexAddr = addr) =
        (f.queues (cfg.queueOf addr)).filter fun c => c.hexAddr = addr := by
      by_cases hidx : cfg.queueOf addr = cfg.queueOf cmd.hexAddr
      · rw [hidx, Function.update_self, filter_eraseP_of_disjoint fun c hc => ?_]
        simp only [Bool.and_eq_true, decide_eq_true_eq] at hc
        simpa [← hc.1] using ha
      · rw [Function.update_of_ne hidx]
    rw [hqueue]
    simp [ha]

theorem Ordered.step (hf : Ordered cfg addr f) (ht : Tracked cfg f)
    (hwell : ∀ idx, ∀ c ∈ f.queues idx, c.isReadWrite ∧ c.addr = cfg.addressMapping c.hexAddr)
    (h : Step cfg π f f') : Ordered cfg addr f' := by
  cases h with
  | mergeWrite | forward | handBack | endTick => exact ⟨hf.split, hf.lined, hf.lanes⟩
  | @newWrite t _ _ _ hw hp =>
    exact hf.enter ht (t := t) hp (fun hr => absurd hw (by simp [hr])) rfl rfl rfl fun _ => rfl
  | @newRead t _ _ hw hp hr =>
    refine hf.enter ht (t := t) hp (fun _ => hr) rfl rfl rfl fun hor => ?_
    have ha : t.addr ≠ addr := hor.resolve_right (by simp [hw])
    exact (hasAddr_append f.pendingRd t addr).trans (by simp [ha])
  | @mergeRead t _ _ _ hp _ =>
    refine ⟨fun hu hone => ?_, hf.lined, hf.lanes⟩
    by_cases ha : t.addr = addr
    · have hzero := ht.not_queued (ha ▸ hp)
      simp only [queueCount, ticketCount] at hone hzero
      omega
    · rw [hasAddr_append, hf.split hu hone]
      simpa using ha
  | @schedule lane pre t post cmd hticket hlane hq hcmd hfirst hdep =>
    refine ⟨fun hu hone => ?_, fun hu => ?_, fun hu => ?_⟩
    · by_cases hm : matchesCmd true addr cmd
      · obtain ⟨ha, hw⟩ := matchesCmd_iff.mp hm
        rw [← ha, hcmd.1]
        exact hdep hu (hcmd.2.2.1.symm.trans hw)
      · refine hf.split hu ?_
        have hadd : (f.queues (cfg.queueOf t.addr) ++ [cmd]).countP (matchesCmd true addr) + 0 =
            (f.queues (cfg.queueOf t.addr)).countP (matchesCmd true addr) + 0 := by
          rw [List.countP_append, List.countP_singleton, if_neg hm]
        have hsame := queueCount_update t.addr true addr hadd fun _ => rfl
        simp only [queueCount, ticketCount] at hone hsame ⊢
        omega
    · obtain rfl := hlane.mpr hu
      rw [line_schedule hq hcmd hfirst]
      exact hf.lined hu
    · obtain rfl := hlane.mpr hu
      simpa using hf.lanes hu
  | @take before cmd after hticket _ _ hq hdep =>
    refine ⟨fun hu hone => ?_, fun hu => ?_, hf.lanes⟩
    · refine hf.split hu ?_
      have hin : _ = f.inFlight cfg true addr := inFlight_take hticket hq true addr
      simp only [inFlight, queueCount, ticketCount, waitCount] at hone hin ⊢
      omega
    · rw [hf.line_take hu hwell hticket hq hdep]
      exact hf.lined hu
  | serveRead =>
    refine hf.leave rfl rfl rfl fun hpend => ?_
    obtain ⟨t, hmem, ha⟩ := hasAddr_iff.mp hpend
    exact hasAddr_iff.mpr ⟨t, List.mem_of_mem_filter hmem, ha⟩
  | serveWrite | serveNone | lose => exact hf.leave rfl rfl rfl id
  | issueOther hticket | dropOther hticket =>
    refine ⟨fun hu hone => hf.split hu ?_, fun hu => ?_, hf.lanes⟩
    · simpa [queueCount, ticketCount, hticket] using hone
    · simpa [line, hticket] using hf.lined hu

end Flow

/-- In every run a read gets what the last write before it has written. A read is forwarded when the
buffer of writes is ahead of the memory, and only then; every other read is pending until its READ finds in
the memory the last write that was accepted before the read, whatever has been merged and reordered. -/
theorem reads_coherent {cfg : Config} (hmode : cfg.hydraMode = 0)
    (hcfg : cfg.unifiedQueue → cfg.ColumnSpaced) {c : Controller} (h : Reachable cfg c) {addr : HexAddr}
    (hne : addr ≠ noAddr) :
    AtEvery (fun older e => (Cell.after older).Guarded e ∧ (Cell.after older).Kept)
        (cellHistory addr c.log) ∧
      (Cell.after (cellHistory addr c.log)).Kept ∧
      (Cell.after (cellHistory addr c.log)).promised.length =
        c.pendingRdQ.countP fun t => t.addr = addr := by
  have hoff : cfg.hydraMode ≠ 1 := by omega
  have hinv : (Micro.rest c).flow.Told addr ∧ (Micro.rest c).flow.Ordered cfg addr := by
    refine (Micro.reached_of_reachable h).flow_induct
      (P := fun f => f.Told addr ∧ f.Ordered cfg addr) hoff ⟨?_, ?_⟩ fun m f' hr hf hs => ?_
    · exact ⟨atEvery_nil _, by simp [Flow.cell, cellHistory, hasAddr], rfl⟩
    · refine ⟨fun _ _ => rfl, fun _ => ?_, fun _ => ⟨rfl, rfl⟩⟩
      simp [Flow.line]
    · have ht := hr.tracked hoff
      refine ⟨hf.1.step (ht.single addr) hne (fun cmd hcmd hw ha => ?_) hs,
        hf.2.step ht (fun idx cmd hcmd => ?_) hs⟩
      · exact hf.2.free ht hne (fun hu => hr.not_lost (hcfg hu) hoff false addr) hcmd hw ha
      · exact (hr.wellQueued idx cmd hcmd).2
  have hguarded := hinv.1.guarded
  exact ⟨Cell.kept_at_every hguarded, Cell.kept_of_guarded hguarded, hinv.1.promised⟩

def unifiedPairs : Config := { hbmConfig with unifiedQueue := true }

/-- A read, a write and a read of one address at once, and another read when the write is done. -/
def overtaking : List Input :=
  [.addTransaction 0 false, .addTransaction 0 true] ++ Input.request 0 false 12 ++ Input.request 0 false 8

theorem reads_coherent_small : ∃ c, Reachable unifiedPairs c ∧
    cellHistory 0 c.log = [.load, .read, .store, .load, .forward, .write, .read] ∧
    AtEvery (fun older e => (Cell.after older).Guarded e ∧ (Cell.after older).Kept)
      (cellHistory 0 c.log) ∧ c.pendingRdQ = [] := by
  obtain ⟨c, hrun, hc⟩ := exists_ok_of_any
    (x := Controller.run unifiedPairs ({} : Boot unifiedPairs).controller overtaking)
    (p := fun c => cellHistory 0 c.log = [.load, .read, .store, .load, .forward, .write, .read] ∧
      c.pendingRdQ = []) (by decide +kernel)
  have hr : Reachable unifiedPairs c := ⟨{}, _, hrun⟩
  have hspaced : unifiedPairs.ColumnSpaced := columnSpaced_hbmConfig
  obtain ⟨hhistory, hpending⟩ := of_decide_eq_true hc
  exact ⟨c, hr, hhistory, (reads_coherent rfl (fun _ => hspaced) hr (by decide)).1, hpending⟩

end CactusDram
