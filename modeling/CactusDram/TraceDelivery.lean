import CactusDram.CPU
import Mathlib.Data.List.Forall2

/-! What a trace-driven CPU makes of its file, and what the memory system makes of that. -/
namespace CactusDram
open Foundations

/-- The record was added as it stands, and not before its cycle. -/
def Delivers (h : Handover) (t : Transaction) : Prop := h.request = t.callback ∧ t.addedCycle ≤ h.clk

namespace TraceBasedCPU
variable {M : Type} {mem : MemorySystem M} {c c' : TraceBasedCPU M} {all sent : List Transaction}
  {trailing : Bool}

/-- The record that was read and not added yet. -/
def waiting (c : TraceBasedCPU M) : List Transaction := if c.getNext then [] else [c.trans]

/-- The records so far, the one that waits and those in the file are all there are. -/
structure Reading (all : List Transaction) (trailing : Bool) (c : TraceBasedCPU M)
    (sent : List Transaction) : Prop where
  split : all = sent ++ (c.waiting ++ c.traceFile.records)
  mark : c.traceFile.trailing = trailing
  eof : c.traceFile.eof = (c.traceFile.records.isEmpty && !trailing)
  last : c.getNext → sent = [] ∨ sent.getLast? = some c.trans

/-- The file is read to its end and one read has failed. Once more, as a read, the address of the last
record is added, unless the memory refuses. -/
structure Over (all : List Transaction) (trailing : Bool) (c : TraceBasedCPU M)
    (sent : List Transaction) : Prop where
  eof : c.traceFile.eof = true
  mark : trailing = true
  sent : sent = all ∨ ∃ last, all.getLast? = some last ∧ sent = all ++ [{ last with isWrite := false }]

/-- What was added are the records in their order, at increasing cycles. -/
structure Added (c : TraceBasedCPU M) (sent : List Transaction) : Prop where
  records : List.Forall₂ Delivers c.handed sent
  ordered : c.handed.Pairwise fun a b => a.clk < b.clk
  past : ∀ h ∈ c.handed, h.clk < c.clk

theorem Added.offered (h : Added c sent) {handed : List Handover} (hhanded : handed = c.handed ++
    [⟨c.clk, c.trans.callback⟩]) (hdue : c.trans.addedCycle ≤ c.clk) :
    List.Forall₂ Delivers handed (sent ++ [c.trans]) ∧
      handed.Pairwise (fun a b => a.clk < b.clk) ∧ ∀ h ∈ handed, h.clk < c.clk + 1 := by
  subst hhanded
  refine ⟨List.rel_append h.records (.cons ⟨rfl, hdue⟩ .nil), ?_, fun x hx => ?_⟩
  · rw [List.pairwise_append]
    refine ⟨h.ordered, List.pairwise_singleton _ _, fun a ha b hb => ?_⟩
    obtain rfl := List.mem_singleton.mp hb
    exact h.past a ha
  · rcases List.mem_append.mp hx with hx | hx
    · have := h.past x hx
      omega
    · obtain rfl := List.mem_singleton.mp hx
      exact Nat.lt_succ_self _

/-- Reading takes the next record out of the file, or fails at the end of it. -/
theorem Reading.readNext (h : Reading all trailing c sent) (hall : all ≠ [])
    (heof : c.traceFile.eof = false) :
    (c.readNext.getNext = false ∧ Reading all trailing c.readNext sent) ∨
      c.readNext.traceFile.eof = true ∧ trailing = true ∧ sent = all ∧
        ∃ last, all.getLast? = some last ∧ c.readNext.trans = { last with isWrite := false } := by
  cases hnext : c.getNext with
  | false =>
    have hkeep : c.readNext = c := by simp [TraceBasedCPU.readNext, hnext]
    rw [hkeep]
    exact .inl ⟨hnext, h⟩
  | true =>
    have hsplit := h.split
    have hmark := h.mark
    have hend := h.eof
    rw [heof] at hend
    simp only [waiting, hnext, if_true, List.nil_append] at hsplit
    simp only [TraceBasedCPU.readNext, hnext, if_true, TraceFile.read]
    cases hrecords : c.traceFile.records with
    | nil =>
      -- the stream looks for a record behind the last one
      rw [hrecords, List.append_nil] at hsplit
      rw [hrecords] at hend
      subst hsplit
      refine .inr ⟨rfl, by simpa using hend, rfl, c.trans, ?_, rfl⟩
      exact (h.last hnext).resolve_left hall
    | cons t rest =>
      rw [hrecords] at hsplit
      refine .inl ⟨trivial, ?_, hmark, ?_, fun h => absurd h Bool.false_ne_true⟩
      · simpa [waiting] using hsplit
      · simp [hmark]

/-- Where a CPU is in its file. -/
def Position (all : List Transaction) (trailing : Bool) (c : TraceBasedCPU M)
    (sent : List Transaction) : Prop :=
  Reading all trailing c sent ∨ Over all trailing c sent

/-- Adding what was read. -/
theorem addDue_cases (mem : MemorySystem M) (c : TraceBasedCPU M) : c.addDue mem = c ∨
    c.addDue mem = { c with getNext := false } ∨
    c.trans.addedCycle ≤ c.clk ∧ ∃ m, c.addDue mem = { c with
      memorySystem := m
      handed := c.handed ++ [⟨c.clk, c.trans.callback⟩]
      getNext := true } := by
  unfold addDue
  split_ifs with hdue
  · rcases c.toCPU.offer_cases mem c.trans.addr c.trans.isWrite with heq | ⟨_, heq⟩
    · rw [heq]
      exact .inr (.inl rfl)
    · rw [heq]
      exact .inr (.inr ⟨hdue, _, rfl⟩)
  · exact .inl rfl

/-- One tick of a CPU that has not met the end of its file. -/
theorem step_of_not_eof (mem : MemorySystem M) (hall : all ≠ []) (hadded : Added c sent) (hpos : Reading all trailing c sent)
    (heof : c.traceFile.eof = false) (hc' : c' = c.readNext.addDue mem) : ∃ sent',
      Position all trailing c' sent' ∧ List.Forall₂ Delivers c'.handed sent' ∧
      c'.handed.Pairwise (fun a b => a.clk < b.clk) ∧ (∀ h ∈ c'.handed, h.clk < c.clk + 1) ∧
      c'.clk = c.clk := by
  subst hc'
  have hhanded : c.readNext.handed = c.handed ∧ c.readNext.clk = c.clk := by
    unfold readNext
    split_ifs <;> exact ⟨rfl, rfl⟩
  have hold : ∀ h ∈ c.handed, h.clk < c.clk + 1 := fun x hx => Nat.lt_succ_of_lt (hadded.past x hx)
  have hread := hpos.readNext hall heof
  generalize c.readNext = r at hhanded hread
  obtain ⟨hhanded, hclk⟩ := hhanded
  have hadded' : Added r sent := ⟨hhanded ▸ hadded.records, hhanded ▸ hadded.ordered,
    fun x hx => by rw [hclk]; exact hadded.past x (hhanded ▸ hx)⟩
  rcases hread with ⟨hwait, hreading⟩ | ⟨hend, htrailing, rfl, last, hlast, htrans⟩
  · have hsplit := hreading.split
    simp only [waiting, hwait, Bool.false_eq_true, if_false] at hsplit
    rcases r.addDue_cases mem with heq | heq | ⟨hdue, m, heq⟩ <;> rw [heq]
    · exact ⟨sent, .inl hreading, hadded'.records, hadded'.ordered, hhanded ▸ hold, hclk⟩
    · refine ⟨sent, .inl ⟨?_, hreading.mark, hreading.eof, fun h => absurd h Bool.false_ne_true⟩,
        hadded'.records, hadded'.ordered, hhanded ▸ hold, hclk⟩
      simpa [waiting] using hsplit
    · obtain ⟨hrecords, hordered, hpast⟩ := hadded'.offered rfl hdue
      refine ⟨sent ++ [r.trans], .inl ⟨?_, hreading.mark, hreading.eof, fun _ => .inr (by simp)⟩, hrecords,
        hordered, hclk ▸ hpast, hclk⟩
      simpa [waiting] using hsplit
  · rcases r.addDue_cases mem with heq | heq | ⟨hdue, m, heq⟩ <;> rw [heq]
    · exact ⟨sent, .inr ⟨hend, htrailing, .inl rfl⟩, hadded'.records, hadded'.ordered, hhanded ▸ hold, hclk⟩
    · exact ⟨sent, .inr ⟨hend, htrailing, .inl rfl⟩, hadded'.records, hadded'.ordered, hhanded ▸ hold, hclk⟩
    · obtain ⟨hrecords, hordered, hpast⟩ := hadded'.offered rfl hdue
      exact ⟨_, .inr ⟨hend, htrailing, .inr ⟨last, hlast, by rw [htrans]⟩⟩, hrecords, hordered,
        hclk ▸ hpast, hclk⟩

/-- What holds between two ticks. -/
def Kept (all : List Transaction) (trailing : Bool) (c : TraceBasedCPU M) : Prop :=
  ∃ sent, Added c sent ∧ Position all trailing c sent

theorem Kept.clockTick (hall : all ≠ []) (h : Kept all trailing c) (hc : c.clockTick mem = .ok c') :
    Kept all trailing c' := by
  obtain ⟨sent, hadded, hpos⟩ := h
  obtain ⟨m, _, hc⟩ := bind_ok_iff.mp hc
  cases hc
  cases heof : c.traceFile.eof with
  | true =>
    refine ⟨sent, ⟨?_, ?_, ?_⟩, ?_⟩ <;> simp only [if_true]
    · exact hadded.records
    · exact hadded.ordered
    · exact fun x hx => Nat.lt_succ_of_lt (hadded.past x hx)
    · rcases hpos with hpos | hpos
      · exact .inl ⟨hpos.split, hpos.mark, hpos.eof, hpos.last⟩
      · exact .inr ⟨hpos.eof, hpos.mark, hpos.sent⟩
  | false =>
    have hreading : Reading all trailing { c with memorySystem := m } sent := by
      rcases hpos with hpos | hpos
      · exact ⟨hpos.split, hpos.mark, hpos.eof, hpos.last⟩
      · exact absurd (heof.symm.trans hpos.eof) Bool.false_ne_true
    have hadded' : Added { c with memorySystem := m } sent :=
      ⟨hadded.records, hadded.ordered, hadded.past⟩
    obtain ⟨sent', hpos', hrecords, hordered, hpast, hclk⟩ :=
      step_of_not_eof mem hall hadded' hreading heof rfl
    simp only [Bool.false_eq_true, if_false]
    refine ⟨sent', ⟨hrecords, hordered, fun x hx => ?_⟩, ?_⟩
    · change x.clk < _ + 1
      rw [hclk]
      exact hpast x hx
    · rcases hpos' with hpos' | hpos'
      · exact .inl ⟨hpos'.split, hpos'.mark, hpos'.eof, hpos'.last⟩
      · exact .inr ⟨hpos'.eof, hpos'.mark, hpos'.sent⟩

/-- The constructor opens the file. The first transaction is not set. -/
def start (m : M) (records : List Transaction) (trailing : Bool) (trans : Transaction) :
    TraceBasedCPU M :=
  { memorySystem := m, traceFile := { records, trailing }, trans }

theorem kept_start (m : M) (hall : all ≠ []) (trans : Transaction) :
    Kept all trailing (start m all trailing trans) := by
  refine ⟨[], ⟨.nil, .nil, ?_⟩, .inl ⟨?_, rfl, ?_, ?_⟩⟩
  · exact fun x hx => absurd hx List.not_mem_nil
  · rfl
  · cases all with
    | nil => exact absurd rfl hall
    | cons t rest => rfl
  · exact fun _ => .inl rfl

/-- The reads and writes of a CPU keep the account of its memory. -/
theorem accounts_clockTick {P : M → List Callback → Prop} (hP : mem.Accounts P)
    (h : P c.memorySystem c.requests) (hc : c.clockTick mem = .ok c') :
    P c'.memorySystem c'.requests := by
  obtain ⟨m, hm, hc⟩ := bind_ok_iff.mp hc
  cases hc
  have hticked : P m c.requests := hP.clockTick h hm
  dsimp only
  split_ifs
  · exact hticked
  · have hread (c : TraceBasedCPU M) : c.readNext.toCPU = c.toCPU := by
      unfold readNext
      split_ifs <;> rfl
    have hread := hread { c with memorySystem := m }
    generalize ({ c with memorySystem := m } : TraceBasedCPU M).readNext = r at hread
    have hr : P r.memorySystem r.requests := by
      rw [hread]
      exact hticked
    unfold addDue
    split_ifs
    · exact CPU.offer_accounts hP hr r.trans.addr r.trans.isWrite
    · exact hr

/-- Whatever the memory, the records of a trace are added in their order, each once and as it stands, at
increasing cycles and not before its own. With white space behind the last record none is lost, but the
last address may be read once more; without it, the last record may be lost. -/
theorem records_delivered (hall : all ≠ []) {m : M} {trans : Transaction} {n : ℕ}
    (hrun : CPU.cycles (clockTick mem) n (start m all trailing trans) = .ok c) :
    ∃ sent, List.Forall₂ Delivers c.handed sent ∧ c.handed.Pairwise (fun a b => a.clk < b.clk) ∧
      (sent <+: all ∨ trailing ∧ ∃ last, all.getLast? = some last ∧
        sent = all ++ [{ last with isWrite := false }]) ∧
      (c.traceFile.eof → all.length ≤ sent.length + if trailing then 0 else 1) := by
  obtain ⟨sent, hadded, hpos⟩ := CPU.cycles_induct (P := Kept all trailing)
    (fun _ _ h hc => h.clockTick hall hc) hrun (kept_start m hall trans)
  refine ⟨sent, hadded.records, hadded.ordered, ?_, fun heof => ?_⟩
  · rcases hpos with hpos | hpos
    · exact .inl ⟨_, hpos.split.symm⟩
    · rcases hpos.sent with rfl | hsent
      · exact .inl (List.prefix_refl _)
      · exact .inr ⟨hpos.mark, hsent⟩
  · rcases hpos with hpos | hpos
    · have hend := hpos.eof
      rw [heof] at hend
      simp only [Bool.true_eq, Bool.and_eq_true, List.isEmpty_iff, Bool.not_eq_true'] at hend
      have hlength := congrArg List.length hpos.split
      have hwaiting : c.waiting.length ≤ 1 := by
        unfold waiting
        split_ifs <;> simp
      simp only [hend.1, hend.2, List.append_nil, List.length_append, Bool.false_eq_true, if_false]
        at hlength ⊢
      omega
    · rw [hpos.mark, if_pos rfl]
      rcases hpos.sent with rfl | ⟨_, _, rfl⟩
      · simp
      · simp

end TraceBasedCPU

/-- A trace through the simulator: its records reach the memory in order, and every transaction of the
memory is called back once or still held by the channel of its address. -/
theorem trace_answered {cfg : Config} (boot : SystemBoot cfg) {all : List Transaction} (hall : all ≠ [])
    {trailing : Bool} {trans : Transaction} {n : ℕ} {c : TraceBasedCPU JedecDRAMSystem}
    (hrun : CPU.cycles (TraceBasedCPU.clockTick (JedecDRAMSystem.memorySystem cfg)) n
      (.start boot.system all trailing trans) = .ok c) :
    (∃ sent, List.Forall₂ Delivers c.handed sent ∧ c.handed.Pairwise (fun a b => a.clk < b.clk) ∧
      (sent <+: all ∨ trailing ∧ ∃ last, all.getLast? = some last ∧
        sent = all ++ [{ last with isWrite := false }]) ∧
      (c.traceFile.eof → all.length ≤ sent.length + if trailing then 0 else 1)) ∧
    ∀ x : Callback, (c.handed.map (·.request)).count x = c.memorySystem.callbacks.count x +
      (c.memorySystem.ctrls (cfg.getChannel x.addr)).held x := by
  refine ⟨TraceBasedCPU.records_delivered hall hrun, fun x => ?_⟩
  have howes : c.memorySystem.Owes cfg c.requests :=
    CPU.cycles_induct (P := fun c : TraceBasedCPU _ => c.memorySystem.Owes cfg c.requests)
      (fun _ _ h hc => TraceBasedCPU.accounts_clockTick (JedecDRAMSystem.accounts_owes cfg) h hc) hrun
      (JedecDRAMSystem.owes_boot boot)
  exact (howes x).1

def smallTrace : List Transaction :=
  [⟨0, 0, 0, false⟩, ⟨2, 3, 0, true⟩, ⟨4, 3, 0, true⟩]

/-- A line end behind the last record costs a read of the address that was just written. -/
theorem trace_answered_small : ∃ c : TraceBasedCPU JedecDRAMSystem,
    CPU.cycles (TraceBasedCPU.clockTick (JedecDRAMSystem.memorySystem smallConfig)) 12
      (.start ({} : SystemBoot smallConfig).system smallTrace true ⟨0, 0, 0, false⟩) = .ok c ∧
    (∃ sent, List.Forall₂ Delivers c.handed sent ∧ smallTrace.length ≤ sent.length) ∧
    (c.handed.map (·.request)).count ⟨4, false⟩ = 1 := by
  obtain ⟨c, hrun, hc⟩ := exists_ok_of_any
    (x := CPU.cycles (TraceBasedCPU.clockTick (JedecDRAMSystem.memorySystem smallConfig)) 12
      (.start ({} : SystemBoot smallConfig).system smallTrace true ⟨0, 0, 0, false⟩))
    (p := fun c : TraceBasedCPU JedecDRAMSystem => c.traceFile.eof &&
      c.memorySystem.callbacks.count ⟨4, false⟩ = 1 &&
      (c.memorySystem.ctrls 0).held ⟨4, false⟩ = 0) (by decide +kernel)
  simp only [Bool.and_eq_true, decide_eq_true_eq] at hc
  obtain ⟨⟨heof, hdone⟩, hheld⟩ := hc
  obtain ⟨⟨sent, hsent, _, _, hall⟩, hcount⟩ := trace_answered {} (by decide) hrun
  have hlast := hcount ⟨4, false⟩
  have hchannel : smallConfig.getChannel 4 = 0 := by decide +kernel
  rw [hchannel, hdone, hheld] at hlast
  exact ⟨c, hrun, ⟨sent, hsent, hall heof⟩, hlast⟩

end CactusDram
