import CactusDram.Run
import CactusDram.Memsim.Simulation

/-! The DRAM system of one channel as the main memory of the simulator. -/
namespace CactusDram.Memsim

structure JedecDRAMSystem where
  ctrl : Controller
  clk : ℕ := 0

namespace JedecDRAMSystem
variable (cfg : Config)

/-- Hand back completed transactions until none is left. Only the reads call back. -/
def returnLoop (clk : ℕ) : ℕ → Controller → List HexAddr × Controller
  | 0, c => ([], c)
  | n + 1, c =>
    match c.returnQueue.find? fun t => t.completeCycle ≤ clk with
    | some t =>
      let (addrs, c) := returnLoop clk n (c.returnDoneTrans clk)
      (if t.isWrite then addrs else t.addr :: addrs, c)
    | none => ([], c)

def returnAll (s : JedecDRAMSystem) : List HexAddr × JedecDRAMSystem :=
  let (addrs, c) := returnLoop s.clk s.ctrl.returnQueue.length s.ctrl
  (addrs, { s with ctrl := c })

def clockTick (s : JedecDRAMSystem) : Except Exit JedecDRAMSystem := do
  let c ← s.ctrl.clockTick cfg
  .ok ⟨c, s.clk + 1⟩

def mainMemory : MainMemory where
  State := JedecDRAMSystem
  willAcceptTransaction s _ isWrite := s.ctrl.willAcceptTransaction cfg isWrite
  addTransaction s addr isWrite := { s with ctrl := s.ctrl.addTransaction cfg addr isWrite }
  returnDoneTrans := returnAll
  clockTick := clockTick cfg

end JedecDRAMSystem

/-- One record of a trace, for small numbers. -/
def record (instNum wb va : UInt8) : List UInt8 := [instNum, 0, 0, 0, 0, wb, va, 0, 0, 0]

def read (instNum va : UInt8) : List UInt8 := record instNum 0 va

def write (instNum va : UInt8) : List UInt8 := record instNum 1 va

/-- A cache of sixteen sets with one way each over one channel of memory, and one trace. -/
def directMapped (cfg : Config) (trace : List UInt8) :
    Setup (plainFiles fun _ => trace) (JedecDRAMSystem.mainMemory cfg) where
  params :=
    { coreWidth_pos := Nat.succ_pos (nat_lit 3), lineSize_le := Nat.le_add_right lineSize (nat_lit 4032) }
  numPages := 4
  sets := 16
  assocs := 1
  traces _ := "trace"
  mainmem := { ctrl := ({} : Boot cfg).controller }
  rand _ := 1

end CactusDram.Memsim
