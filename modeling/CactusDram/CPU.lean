import CactusDram.Answers

/-! The request generators that drive a memory system: random addresses, the stream-add kernel, a trace
file, and the covert channel over refresh management. Each asks the memory before it adds. -/
namespace CactusDram
open Foundations

/-- A transaction that a CPU has added, and its cycle. -/
structure Handover where
  clk : ℕ
  request : Callback
  deriving DecidableEq, Repr

/-- A CPU with its memory. What it has added is only written. -/
structure CPU (M : Type) where
  memorySystem : M
  clk : ℕ := 0
  handed : List Handover := []

namespace CPU
variable {M : Type} (mem : MemorySystem M)

/-- Add a transaction if the memory takes it. -/
def offer (c : CPU M) (addr : HexAddr) (isWrite : Bool) : Bool × CPU M :=
  if mem.willAcceptTransaction c.memorySystem addr isWrite then
    (true, { c with
      memorySystem := mem.addTransaction c.memorySystem addr isWrite
      handed := c.handed ++ [⟨c.clk, addr, isWrite⟩] })
  else (false, c)

/-- What was added, without the cycles. -/
def requests (c : CPU M) : List Callback := c.handed.map (·.request)

/-- The loop of the main program. -/
def cycles {C : Type} (clockTick : C → Except Exit C) : ℕ → C → Except Exit C
  | 0, c => .ok c
  | n + 1, c => do
    let c ← clockTick c
    cycles clockTick n c

theorem cycles_add {C : Type} {clockTick : C → Except Exit C} {m : ℕ} {c c' : C}
    (h : cycles clockTick m c = .ok c') (n : ℕ) : cycles clockTick (m + n) c = cycles clockTick n c' := by
  induction m generalizing c with
  | zero =>
    cases h
    rw [Nat.zero_add]
  | succ m ih =>
    obtain ⟨c₁, htick, hrest⟩ := bind_ok_iff.mp h
    rw [Nat.succ_add, cycles, htick]
    exact ih hrest

theorem cycles_induct {C : Type} {clockTick : C → Except Exit C} {P : C → Prop}
    (hstep : ∀ c c', P c → clockTick c = .ok c' → P c') {n : ℕ} {c c' : C}
    (h : cycles clockTick n c = .ok c') (hc : P c) : P c' := by
  induction n generalizing c with
  | zero =>
    cases h
    exact hc
  | succ n ih =>
    obtain ⟨c₁, htick, hrest⟩ := bind_ok_iff.mp h
    exact ih hrest (hstep c c₁ hc htick)

variable {mem} {c : CPU M} {P : M → List Callback → Prop}

/-- The memory takes an offered transaction, or nothing changes. -/
theorem offer_cases (mem : MemorySystem M) (c : CPU M) (addr : HexAddr) (isWrite : Bool) :
    c.offer mem addr isWrite = (false, c) ∨
      mem.willAcceptTransaction c.memorySystem addr isWrite ∧ c.offer mem addr isWrite = (true, { c with
        memorySystem := mem.addTransaction c.memorySystem addr isWrite
        handed := c.handed ++ [⟨c.clk, addr, isWrite⟩] }) := by
  unfold offer
  split_ifs with hacc
  · exact .inr ⟨hacc, rfl⟩
  · exact .inl rfl

theorem offer_accounts (hP : mem.Accounts P) (h : P c.memorySystem c.requests) (addr : HexAddr)
    (isWrite : Bool) : P (c.offer mem addr isWrite).2.memorySystem (c.offer mem addr isWrite).2.requests := by
  rcases c.offer_cases mem addr isWrite with heq | ⟨hacc, heq⟩
  · rw [heq]
    exact h
  · rw [heq]
    have hadded := hP.addTransaction h hacc
    simpa only [requests, List.map_append, List.map_cons, List.map_nil] using hadded

end CPU

structure RandomCPU (M : Type) extends CPU M where
  lastAddr : HexAddr
  lastWrite : Bool := false
  drawn : ℕ := 0
  getNext : Bool := true

namespace RandomCPU
variable {M : Type} (mem : MemorySystem M) (gen : ℕ → HexAddr)

/-- The next address and, in one of three cases, a write. -/
def draw (c : RandomCPU M) : RandomCPU M :=
  if c.getNext then
    { c with
      lastAddr := gen c.drawn
      lastWrite := (gen (c.drawn + 1)).toNat % 3 = 0
      drawn := c.drawn + 2 }
  else c

def clockTick (c : RandomCPU M) : Except Exit (RandomCPU M) := do
  let m ← mem.clockTick c.memorySystem
  let c := { c with memorySystem := m }.draw gen
  let (taken, cpu) := c.offer mem c.lastAddr c.lastWrite
  .ok { c with toCPU := { cpu with clk := cpu.clk + 1 }, getNext := taken }

end RandomCPU

structure StreamCPU (M : Type) extends CPU M where
  addrA : HexAddr
  addrB : HexAddr
  addrC : HexAddr
  offset : ℕ := 0
  drawn : ℕ := 0
  insertedA : Bool := false
  insertedB : Bool := false
  insertedC : Bool := false

namespace StreamCPU
variable {M : Type} (mem : MemorySystem M) (gen : ℕ → HexAddr)

def arraySize : ℕ := 2 <<< 20

def stride : ℕ := 64

/-- Move on to the next set of arrays. -/
def nextArrays (c : StreamCPU M) : StreamCPU M :=
  if arraySize ≤ c.offset ∨ c.clk = 0 then
    { c with
      addrA := gen c.drawn
      addrB := gen (c.drawn + 1)
      addrC := gen (c.drawn + 2)
      drawn := c.drawn + 3
      offset := 0 }
  else c

/-- Offer a transaction of the element unless it is inserted already. -/
def insert (c : CPU M) (inserted : Bool) (addr : HexAddr) (isWrite : Bool) : Bool × CPU M :=
  if inserted then (true, c) else c.offer mem addr isWrite

def insertA (c : StreamCPU M) : StreamCPU M :=
  let (inserted, cpu) := insert mem c.toCPU c.insertedA (c.addrA + BitVec.ofNat 64 c.offset) false
  { c with toCPU := cpu, insertedA := inserted }

def insertB (c : StreamCPU M) : StreamCPU M :=
  let (inserted, cpu) := insert mem c.toCPU c.insertedB (c.addrB + BitVec.ofNat 64 c.offset) false
  { c with toCPU := cpu, insertedB := inserted }

def insertC (c : StreamCPU M) : StreamCPU M :=
  let (inserted, cpu) := insert mem c.toCPU c.insertedC (c.addrC + BitVec.ofNat 64 c.offset) true
  { c with toCPU := cpu, insertedC := inserted }

/-- Move on to the next element. -/
def nextElement (c : StreamCPU M) : StreamCPU M :=
  if c.insertedA ∧ c.insertedB ∧ c.insertedC then
    { c with
      offset := c.offset + stride
      insertedA := false
      insertedB := false
      insertedC := false }
  else c

def clockTick (c : StreamCPU M) : Except Exit (StreamCPU M) := do
  let m ← mem.clockTick c.memorySystem
  let c := { c with memorySystem := m }.nextArrays gen
  let c := (((c.insertA mem).insertB mem).insertC mem).nextElement
  .ok { c with clk := c.clk + 1 }

end StreamCPU

/-- A trace file: the records that are left, whether white space follows the last one, and the flag
of the stream. -/
structure TraceFile where
  records : List Transaction
  trailing : Bool
  eof : Bool := false

namespace TraceFile

/-- Read a record. The stream notices its end when it looks for more digits behind the last number. A
read at the end fails: it leaves address and cycle as they were, and `mem_op` stays empty. -/
def read (f : TraceFile) (trans : Transaction) : Transaction × TraceFile :=
  match f.records with
  | [] => ({ trans with isWrite := false }, { f with eof := true })
  | t :: rest => (t, { f with records := rest, eof := rest.isEmpty && !f.trailing })

end TraceFile

structure TraceBasedCPU (M : Type) extends CPU M where
  traceFile : TraceFile
  trans : Transaction
  getNext : Bool := true

namespace TraceBasedCPU
variable {M : Type} (mem : MemorySystem M)

def readNext (c : TraceBasedCPU M) : TraceBasedCPU M :=
  if c.getNext then
    { c with
      trans := (c.traceFile.read c.trans).1
      traceFile := (c.traceFile.read c.trans).2
      getNext := false }
  else c

/-- Add the transaction that was read, once its cycle has come. -/
def addDue (c : TraceBasedCPU M) : TraceBasedCPU M :=
  if c.trans.addedCycle ≤ c.clk then
    let (taken, cpu) := c.offer mem c.trans.addr c.trans.isWrite
    { c with toCPU := cpu, getNext := taken }
  else c

def clockTick (c : TraceBasedCPU M) : Except Exit (TraceBasedCPU M) := do
  let m ← mem.clockTick c.memorySystem
  let c := { c with memorySystem := m }
  let c := if c.traceFile.eof then c else c.readNext.addDue mem
  .ok { c with clk := c.clk + 1 }

end TraceBasedCPU

/-- A sender and a receiver that share a channel. Their cycles, the newest first, are only written. -/
structure CovChCPU (M : Type) extends CPU M where
  drawn : ℕ := 0
  refWindow : ℕ := 0
  refWindowIdx : ℕ := 0
  prevWindowIdx : ℕ := u64 (-1)
  sendInit : Bool := false
  sendAddr : HexAddr
  sendRowIdx : ℕ := 0
  sendWindowReqs : ℕ := 0
  lastSendReqClk : ℕ := 0
  sendLimit : ℕ := 0
  sendReqDist : ℕ := 0
  send0Limit : ℕ := 0
  send0ReqDist : ℕ := 0
  send1Limit : ℕ := 0
  send1ReqDist : ℕ := 0
  recvAddr : HexAddr
  recvRowIdx : ℕ := 0
  recvWindowReqs : ℕ := 0
  lastRecvReqClk : ℕ := 0
  recvLimit : ℕ := 0
  recvReqDist : ℕ := 0
  sends : List ℕ := []
  recvs : List ℕ := []

namespace CovChCPU
variable {M : Type} (mem : MemorySystem M) (cfg : Config) (gen : ℕ → HexAddr)

def warmupIdx : ℕ := 2

/-- The requests of the sender in the windows before it modulates. -/
def sendInitReqs : List ℕ := [70, 42, 48, 16, 16]

/-- Cycles reserved for what spills over from the previous window. -/
def spillBuffer : ℕ := 300

/-- Cycles at the end of a window in which the receiver sends nothing. -/
def recvFooter : ℕ := 150

/-- The stride between rows. -/
def rowOffset : ℕ := 512 * 1024

def maxRows : ℕ := 100

def init (c : CovChCPU M) : CovChCPU M :=
  let chMask : HexAddr := (0x1 <<< 13) ^^^ 0xFFFFFFFFFFFFFFFF
  let sizeMask : HexAddr := (1 <<< 35) - 1
  let baseAddr := gen c.drawn &&& chMask &&& sizeMask
  let bank0Mask : HexAddr := (0x1F <<< 14) ^^^ 0xFFFFFFFFFFFFFFFF
  let bank2Mask : HexAddr := (0x0F <<< 14) ^^^ 0xFFFFFFFFFFFFFFFF
  let recvLimit := u64 cfg.refRaaDecrement
  let recvReqDist := u64 (cfg.tREFI - cfg.tRFC - spillBuffer - recvFooter) / recvLimit
  let send0Limit := u64 cfg.refRaaDecrement
  let send1Limit := u64 (cfg.rfmRaaDecrement + cfg.refRaaDecrement)
  { c with
    drawn := c.drawn + 1
    recvAddr := baseAddr &&& bank0Mask
    recvLimit := recvLimit
    recvReqDist := recvReqDist
    sendInit := false
    sendAddr := baseAddr &&& bank2Mask
    send0Limit := send0Limit
    send0ReqDist := u64 (cfg.tREFI - cfg.tRFC - spillBuffer) / send0Limit
    send1Limit := send1Limit
    send1ReqDist :=
      u64 (cfg.tREFI - cfg.tRFC - spillBuffer - recvFooter - recvReqDist * 2) / send1Limit }

def send (c : CovChCPU M) : CovChCPU M :=
  let (taken, cpu) := c.offer mem (c.sendAddr + BitVec.ofNat 64 (c.sendRowIdx * rowOffset)) false
  if taken then
    { c with
      toCPU := cpu
      sendRowIdx := (c.sendRowIdx + 1) % maxRows
      sendWindowReqs := c.sendWindowReqs + 1
      lastSendReqClk := c.clk
      sends := c.clk :: c.sends }
  else c

/-- The sender modulates once the windows of its table have passed. -/
def checkInit (c : CovChCPU M) : CovChCPU M :=
  if !c.sendInit ∧ sendInitReqs.length ≤ c.refWindowIdx - warmupIdx then
    { c with sendInit := true }
  else c

/-- At the beginning of a window a random bit decides how much is sent in it. -/
def chooseBit (c : CovChCPU M) : CovChCPU M :=
  if c.prevWindowIdx ≠ c.refWindowIdx then
    if (gen c.drawn).toNat % 2 = 0 then
      { c with drawn := c.drawn + 1, sendLimit := c.send0Limit, sendReqDist := c.send0ReqDist }
    else { c with drawn := c.drawn + 1, sendLimit := c.send1Limit, sendReqDist := c.send1ReqDist }
  else c

/-- The cycles at the beginning of a window that are left to what spills over. -/
def spilled : ℕ := u64 (spillBuffer + cfg.tRFC)

def tickSend (c : CovChCPU M) : CovChCPU M :=
  let c := if c.prevWindowIdx ≠ c.refWindowIdx then { c with sendWindowReqs := 0 } else c
  let c := c.checkInit
  if !c.sendInit then
    if sendInitReqs.getD (c.refWindowIdx - warmupIdx) 0 ≤ c.sendWindowReqs then c
    else c.send mem
  else
    let c := c.chooseBit gen
    if c.sendLimit ≤ c.sendWindowReqs then c
    else if c.refWindow < spilled cfg then c
    else if c.clk - c.lastSendReqClk < c.sendReqDist then c
    else c.send mem

def recv (c : CovChCPU M) : CovChCPU M :=
  let (taken, cpu) := c.offer mem (c.recvAddr + BitVec.ofNat 64 (c.recvRowIdx * rowOffset)) false
  if taken then
    { c with
      toCPU := cpu
      recvRowIdx := (c.recvRowIdx + 1) % maxRows
      recvWindowReqs := c.recvWindowReqs + 1
      lastRecvReqClk := c.clk
      recvs := c.clk :: c.recvs }
  else c

def tickRecv (c : CovChCPU M) : CovChCPU M :=
  let c := if c.prevWindowIdx ≠ c.refWindowIdx then { c with recvWindowReqs := 0 } else c
  if !c.sendInit then c
  else if c.refWindow < spilled cfg then c
  else if c.clk - c.lastRecvReqClk < c.recvReqDist then c
  else if u64 cfg.refRaaDecrement ≤ c.recvWindowReqs then c
  else c.recv mem

def clockTick (c : CovChCPU M) : Except Exit (CovChCPU M) := do
  let m ← mem.clockTick c.memorySystem
  let c := { c with
    memorySystem := m
    refWindow := c.clk % u64 cfg.tREFI
    refWindowIdx := c.clk / u64 cfg.tREFI }
  let c := if c.clk < u64 (cfg.tREFI * warmupIdx) then c else (c.tickSend mem cfg gen).tickRecv mem cfg
  .ok { c with prevWindowIdx := c.refWindowIdx, clk := c.clk + 1 }

end CovChCPU
end CactusDram
