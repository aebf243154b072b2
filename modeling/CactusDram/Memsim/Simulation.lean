import CactusDram.Memsim.MCore

/-! The cores, their shared cache and the main memory, and the turns they take. -/
namespace CactusDram.Memsim

/-- The interface of the main memory. `ClockTick` first hands back completed transactions, of
which the reads are listed, and then lets the controllers tick. -/
structure MainMemory where
  State : Type
  willAcceptTransaction : State → HexAddr → Bool → Bool
  addTransaction : State → HexAddr → Bool → State
  returnDoneTrans : State → List HexAddr × State
  clockTick : State → Except Exit State

/-- A read in flight. `since` is history of the model: the cycle of its core in which memory took it. -/
structure MSHREntry where
  lineaddr : ℕ
  coreid : ℕ
  robid : ℕ
  instNum : ℕ
  since : ℕ
  deriving DecidableEq, Repr

/-- The state of the simulator. The dirty lines reported by the cache and the writes taken by the
memory are history of the model. -/
structure Sys (gz : Zlib) (mem : MainMemory) where
  mainmem : mem.State
  mshr : List MSHREntry := []
  os : OS
  llc : MCache
  mcore : ℕ → MCore gz
  rand : Stream' ℕ
  evicted : List ℕ := []
  written : List HexAddr := []

/-- What a simulation starts from: the size of the memory, the geometry of the cache, the name of the
trace of each core, the state of the main memory and the results of `rand()`. -/
structure Setup (gz : Zlib) (mem : MainMemory) where
  params : Params := {}
  numPages : ℕ
  sets : ℕ
  assocs : ℕ
  replPolicy : ReplPolicy := .lru
  traces : ℕ → String
  mainmem : mem.State
  rand : Stream' ℕ

def Setup.sys {gz : Zlib} {mem : MainMemory} (b : Setup gz mem) : Sys gz mem where
  mainmem := b.mainmem
  os := .new b.params b.numPages
  llc := { sets := b.sets, assocs := b.assocs, replPolicy := b.replPolicy }
  mcore i := .new b.params (b.traces i)
  rand := b.rand

namespace Sys
variable {gz : Zlib} {mem : MainMemory} (p : Params) (s : Sys gz mem)

def setCore (i : ℕ) (c : MCore gz) : Sys gz mem := { s with mcore := Function.update s.mcore i c }

def byteaddress (lineaddr : ℕ) : HexAddr := BitVec.ofNat 64 (lineaddr * lineSize)

def mshrInsert (lineaddr coreid robid instNum : ℕ) : Except Abort (Sys gz mem) :=
  if s.mshr.any fun e => e.lineaddr = lineaddr then .error .mshrPresent
  else .ok { s with mshr := ⟨lineaddr, coreid, robid, instNum, (s.mcore coreid).cycle⟩ :: s.mshr }

def acceptsRead (lineaddr : ℕ) : Bool :=
  mem.willAcceptTransaction s.mainmem (byteaddress lineaddr) false

def acceptsWrite (lineaddr : ℕ) : Bool :=
  mem.willAcceptTransaction s.mainmem (byteaddress lineaddr) true

/-- The demand read, which the memory may refuse. -/
def sendRead (lineaddr coreid robid instNum : ℕ) : Except Abort (Bool × Sys gz mem) :=
  if s.acceptsRead lineaddr then do
    let s ← { s with
      mainmem := mem.addTransaction s.mainmem (byteaddress lineaddr) false }.mshrInsert
        lineaddr coreid robid instNum
    .ok (true, s)
  else .ok (false, s)

/-- The writeback that rides on it, if there is one. -/
def sendWrite (wbLineaddr : ℕ) : Sys gz mem :=
  if wbLineaddr ≠ 0 ∧ s.acceptsWrite wbLineaddr then
    { s with
      mainmem := mem.addTransaction s.mainmem (byteaddress wbLineaddr) true
      written := s.written ++ [byteaddress wbLineaddr] }
  else s

def memsysAccess (lineaddr coreid robid instNum wbLineaddr : ℕ) : Except Abort (Bool × Sys gz mem) := do
  let (accepted, s) ← s.sendRead lineaddr coreid robid instNum
  .ok (accepted, s.sendWrite wbLineaddr)

def memsysCallback (addr : HexAddr) : Except Abort (Sys gz mem) :=
  match s.mshr.find? fun e => e.lineaddr = addr.toNat / lineSize with
  | some e => do
    let c ← (s.mcore e.coreid).robWakeup e.robid e.instNum
    .ok { s.setCore e.coreid c with
      mshr := s.mshr.filter fun e => e.lineaddr ≠ addr.toNat / lineSize }
  | none => .error .mshrMissing

def tickMemory : Except Abort (Sys gz mem) :=
  match mem.clockTick s.mainmem with
  | .ok m => .ok { s with mainmem := m }
  | .error e => .error (.mainmem e)

def returned : List HexAddr × Sys gz mem :=
  ((mem.returnDoneTrans s.mainmem).1, { s with mainmem := (mem.returnDoneTrans s.mainmem).2 })

def memsysCycle : Except Abort (Sys gz mem) := do
  let s ← s.returned.1.foldlM memsysCallback s.returned.2
  s.tickMemory

def startCycle (i : ℕ) : Sys gz mem := s.setCore i { s.mcore i with cycle := (s.mcore i).cycle + 1 }

/-- The request that was refused is sent again, without the writeback. -/
def retrySleepingRequest (i : ℕ) : Except Abort (Bool × Sys gz mem) := do
  let c := s.mcore i
  let (accepted, s) ← s.memsysAccess c.sleepLineaddr i c.sleepRobid c.sleepInstNum 0
  if accepted then
    let e := (s.mcore i).rob.entries c.sleepRobid
    .ok (true, s.setCore i { (s.mcore i).setEntry c.sleepRobid
      { e with
        birthTime := c.cycle, readyTime := c.cycle + defaultMemDelay, instNum := c.sleepInstNum } with
      sleep := false })
  else .ok (false, s)

/-- Count the next instruction and translate the address that the trace is at. -/
def nextInst (i : ℕ) : Except Abort (ℕ × Sys gz mem) := do
  let c := { s.mcore i with instNum := (s.mcore i).instNum + 1 }
  let c := if !c.done && p.instLimit < c.instNum then c.readTrace p else c
  let (lineaddr, os, rand) ← s.os.v2pLineaddr s.rand c.traceVa i
  .ok (lineaddr, { s.setCore i c with os := os, rand := rand })

/-- What an instruction does in the cache: its delay, whether it goes to memory, and the line to write
back, 0 for none. -/
structure Access where
  delay : ℕ := 0
  memAccess : Bool := false
  wbLineaddr : ℕ := 0
  deriving DecidableEq, Repr

/-- A miss installs the line at once. -/
def missL3 (lineaddr : ℕ) : Except Abort (Access × Sys gz mem) := do
  let (llc, rand) ← s.llc.install s.rand lineaddr
  .ok ({ delay := u32 (u32 p.l3Latency + defaultMemDelay), memAccess := true
         wbLineaddr := if llc.evictedDirtyLine then llc.evictedLineAddr else 0 },
    { s with
      llc := llc
      rand := rand
      evicted := if llc.evictedDirtyLine then s.evicted ++ [llc.evictedLineAddr] else s.evicted })

def readL3 (lineaddr : ℕ) : Except Abort (Access × Sys gz mem) :=
  let (hit, llc) := s.llc.access lineaddr
  if !p.l3Perfect && !hit then { s with llc := llc }.missL3 p lineaddr
  else .ok ({ delay := u32 p.l3Latency }, { s with llc := llc })

/-- Whether the instruction is the one that the trace is at. -/
def atTrace (i : ℕ) : Bool := (s.mcore i).traceInstNum ≤ (s.mcore i).instNum

def access (i lineaddr : ℕ) : Except Abort (Access × Sys gz mem) :=
  if s.atTrace i then do
    let (a, s) ← if (s.mcore i).traceWb ≠ 0 then .ok ({}, { s with llc := s.llc.markDirty lineaddr })
      else s.readL3 p lineaddr
    .ok (a, s.setCore i ((s.mcore i).readTrace p))
  else .ok ({}, s)

/-- Fall asleep over a request that the memory refused. -/
def fallAsleep (i lineaddr robid : ℕ) : Sys gz mem :=
  let c := s.mcore i
  s.setCore i { c with
    sleep := true, sleepLineaddr := lineaddr, sleepRobid := robid, sleepInstNum := c.instNum
    sleepSince := c.cycle }

/-- Put the instruction into the reorder buffer and send its request. -/
def dispatch (i lineaddr : ℕ) (a : Access) : Except Abort (Bool × Sys gz mem) := do
  let c := s.mcore i
  let (robid, c) ← c.robInsert p c.instNum c.cycle (c.cycle + a.delay) lineaddr
  let s := s.setCore i c
  if a.memAccess then
    let (accepted, s) ← s.memsysAccess lineaddr i robid c.instNum a.wbLineaddr
    if accepted then .ok (true, s) else .ok (false, s.fallAsleep i lineaddr robid)
  else .ok (true, s)

/-- One turn of the loop of `mcore_cycle`. The answer is whether the loop goes on. -/
def issue (i : ℕ) : Except Abort (Bool × Sys gz mem) := do
  let (lineaddr, s) ← s.nextInst p i
  let (a, s) ← s.access p i lineaddr
  s.dispatch p i lineaddr a

def issueLoop (i : ℕ) : ℕ → Sys gz mem → Except Abort (Sys gz mem)
  | 0, s => .ok s
  | n + 1, s =>
    if (s.mcore i).rob.size = p.robSize then .ok s
    else do
      let (goesOn, s) ← s.issue p i
      if goesOn then issueLoop i n s else .ok s

def mcoreCycle (i : ℕ) : Except Abort (Sys gz mem) := do
  let s := s.startCycle i
  let c ← (s.mcore i).robRetire p
  let s := s.setCore i c
  if c.sleep then
    let (accepted, s) ← s.retrySleepingRequest i
    if accepted then s.issueLoop p i p.coreWidth else .ok s
  else s.issueLoop p i p.coreWidth

end Sys

/-- The cores and the memory take turns. -/
inductive Turn
  | core (i : ℕ)
  | memory
  deriving DecidableEq, Repr

namespace Sys
variable {gz : Zlib} {mem : MainMemory} (p : Params)

def turn (s : Sys gz mem) : Turn → Except Abort (Sys gz mem)
  | .core i => s.mcoreCycle p i
  | .memory => s.memsysCycle

def run (s : Sys gz mem) (turns : List Turn) : Except Abort (Sys gz mem) := turns.foldlM (turn p) s

end Sys
end CactusDram.Memsim
