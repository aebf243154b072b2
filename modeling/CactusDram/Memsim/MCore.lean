import CactusDram.Memsim.MCache

/-! The core that replays a trace: its reader, and its reorder buffer of instructions in flight. -/
namespace CactusDram.Memsim

/-- The functions of zlib that the cores call. -/
structure Zlib where
  File : Type
  gzopen : String → File
  gzread : File → ℕ → List UInt8 × File
  gzeof : File → Bool

/-- The manual of zlib on files that open and are read without errors: `gzread` hands out their
uncompressed bytes one after the other, and `gzeof` tells whether a read has asked for more than there
were left. -/
structure Zlib.Documented (gz : Zlib) (contents : String → List UInt8) (rest : gz.File → List UInt8) :
    Prop where
  gzopen_rest : ∀ name, rest (gz.gzopen name) = contents name
  gzopen_eof : ∀ name, gz.gzeof (gz.gzopen name) = false
  gzread_bytes : ∀ f n, (gz.gzread f n).1 = (rest f).take n
  gzread_rest : ∀ f n, rest (gz.gzread f n).2 = (rest f).drop n
  gzread_eof : ∀ f n, gz.gzeof (gz.gzread f n).2 = (gz.gzeof f || decide ((rest f).length < n))

/-- A file that is not compressed, which `gzread` copies: the bytes not yet read, and whether a read went
past the end. -/
structure PlainFile where
  rest : List UInt8
  past : Bool := false

def plainFiles (contents : String → List UInt8) : Zlib where
  File := PlainFile
  gzopen name := { rest := contents name }
  gzread f n := (f.rest.take n, { rest := f.rest.drop n, past := f.past || f.rest.length < n })
  gzeof f := f.past

theorem plainFiles_documented (contents : String → List UInt8) :
    (plainFiles contents).Documented contents PlainFile.rest where
  gzopen_rest _ := rfl
  gzopen_eof _ := rfl
  gzread_bytes _ _ := rfl
  gzread_rest _ _ := rfl
  gzread_eof _ _ := rfl

/-- The value of a zeroed integer after its low bytes were read. -/
def littleEndian (bytes : List UInt8) : ℕ := bytes.foldr (fun b n => b.toNat + 256 * n) 0

structure ROBEntry where
  birthTime : ℕ := 0
  readyTime : ℕ := 0
  instNum : ℕ := 0
  lineaddr : ℕ := 0
  deriving DecidableEq, Repr

/-- The instructions in flight, `size` of them from `ptr` on. The slots and instruction numbers that
were inserted and retired are history of the model only. -/
structure ROB where
  entries : ℕ → ROBEntry := fun _ => {}
  ptr : ℕ := 0
  size : ℕ := 0
  inserted : List (ℕ × ℕ) := []
  retired : List (ℕ × ℕ) := []

/-- `sleepSince` is history of the model: the cycle in which the sleeping request was refused first. -/
structure MCore (gz : Zlib) where
  addrTraceFname : String
  addrTrace : gz.File
  done : Bool := false
  sleep : Bool := false
  sleepLineaddr : ℕ := 0
  sleepRobid : ℕ := 0
  sleepInstNum : ℕ := 0
  sleepSince : ℕ := 0
  rob : ROB := {}
  traceInstNum : ℕ := 0
  traceVa : ℕ := 0
  traceWb : ℕ := 0
  cycle : ℕ := 0
  instNum : ℕ := 0

namespace MCore
variable {gz : Zlib} (p : Params) (c : MCore gz)

/-- Five bytes of instruction number, one of kind and four of address. -/
def freadTrace : MCore gz :=
  let (instNum, f) := gz.gzread c.addrTrace 5
  let (wb, f) := gz.gzread f 1
  let (va, f) := gz.gzread f 4
  { c with
    addrTrace := f
    traceInstNum := littleEndian instNum
    traceWb := littleEndian wb
    traceVa := littleEndian va }

def initTrace : MCore gz := { c with addrTrace := gz.gzopen c.addrTraceFname }

/-- At the end of the file, or of the instructions to run, the trace starts over. -/
def readTrace : MCore gz :=
  let c := c.freadTrace
  if gz.gzeof c.addrTrace || (!c.done && p.instLimit ≤ c.instNum) then
    { ({ c with done := true } : MCore gz).initTrace.freadTrace with instNum := 0 }
  else c

def new (addrTraceFname : String) : MCore gz :=
  readTrace p { addrTraceFname, addrTrace := gz.gzopen addrTraceFname }

def robInsert (instNum cycle readyTime lineaddr : ℕ) : Except Abort (ℕ × MCore gz) :=
  if c.rob.size < p.robSize then
    let index := u32 (c.rob.ptr + c.rob.size) % p.robSize
    .ok (index, { c with rob := { c.rob with
      entries := Function.update c.rob.entries index ⟨cycle, readyTime, instNum, lineaddr⟩
      size := u32 (c.rob.size + 1)
      inserted := c.rob.inserted ++ [(index, instNum)] } })
  else .error .robFull

def head : ROBEntry := c.rob.entries c.rob.ptr

/-- The head leaves, whether or not the buffer holds anything. -/
def popHead : MCore gz :=
  { c with rob := { c.rob with
    ptr := u32 (c.rob.ptr + 1) % p.robSize
    size := u32 (c.rob.size - 1)
    retired := c.rob.retired ++ [(c.rob.ptr, c.head.instNum)] } }

/-- The head retires when it is ready. One that was not answered in time is a lost packet, unless
it is the one that still sleeps. -/
def retireHead : Except Abort (Option (MCore gz)) :=
  if c.head.readyTime ≤ c.cycle then
    if defaultMemDelay ≤ u64 (c.head.readyTime - c.head.birthTime) ∧
        ¬(c.sleep ∧ c.head.instNum = c.sleepInstNum) then .error .lostPacket
    else .ok (some (c.popHead p))
  else .ok none

def retireLoop : ℕ → MCore gz → Except Abort (MCore gz)
  | 0, c => .ok c
  | n + 1, c => do
    match ← c.retireHead p with
    | some c => retireLoop n c
    | none => .ok c

/-- How many turns the loop of `mcore_rob_retire` may take. Emptiness is tested once, before it. -/
def retireTurns : ℕ := if c.rob.size = 0 then 0 else p.coreWidth

def robRetire : Except Abort (MCore gz) := c.retireLoop p (c.retireTurns p)

def setEntry (robid : ℕ) (e : ROBEntry) : MCore gz :=
  { c with rob := { c.rob with entries := Function.update c.rob.entries robid e } }

def robWakeup (robid instNum : ℕ) : Except Abort (MCore gz) :=
  if (c.rob.entries robid).instNum = instNum then
    .ok (c.setEntry robid { c.rob.entries robid with readyTime := c.cycle })
  else .error .zombieWakeup

end MCore
end CactusDram.Memsim
