import CactusDram.Common
import Mathlib.Data.Stream.Init

/-! The parameters of the trace simulator, the ways it ends, and the page table that gives virtual
pages randomly chosen frames. -/
namespace CactusDram.Memsim

/-- Bytes of a cache line. -/
def lineSize : ℕ := 64

/-- The simulation parameters that the cores and the shared cache read. A page is at least a line:
addresses are divided by the lines of a page. -/
structure Params where
  coreWidth : ℕ := 4
  robSize : ℕ := 256
  instLimit : ℕ := 1000000000
  osPagesize : ℕ := 4096
  l3Latency : ℕ := 24
  l3Perfect : Bool := false
  coreWidth_pos : 0 < coreWidth := by decide
  lineSize_le : lineSize ≤ osPagesize := by decide

/-- The delay that a miss is given until memory answers it. -/
def defaultMemDelay : ℕ := 5000000

def maxRobEntries : ℕ := 1024

/-- The asserts and `exit` calls of the trace simulator, and an exit of the main memory. -/
inductive Abort
  | lostPacket
  | zombieWakeup
  | robFull
  | mshrPresent
  | mshrMissing
  | alreadyInstalled
  | outOfPages
  | noInvalidPage
  | wideVpn
  | mainmem (e : Exit)
  deriving DecidableEq, Repr

/-- Page tables of all threads in one map, keyed by thread and virtual page, and the frames in
use. Frame 0 is given to nobody. -/
structure OS where
  pt : ℕ → Option ℕ := fun _ => none
  ipt : ℕ → Bool := fun pfn => pfn = 0
  linesInPage : ℕ
  numPages : ℕ
  sMissCount : ℕ := 0

namespace OS
variable (os : OS)

def new (p : Params) (numPages : ℕ) : OS := { linesInPage := p.osPagesize / lineSize, numPages }

/-- Draw frames until one is free. -/
def tryVictims : ℕ → Stream' ℕ → Except Abort (ℕ × Stream' ℕ)
  | 0, _ => .error .noInvalidPage
  | tries + 1, rand =>
    let victim := rand.head % os.numPages
    if os.ipt victim = false then .ok (victim, rand.tail) else tryVictims tries rand.tail

/-- At most 95 percent of the frames are ever given out. -/
def getVictimFromIpt (rand : Stream' ℕ) : Except Abort (ℕ × OS × Stream' ℕ) :=
  if 20 * os.sMissCount < 19 * os.numPages then do
    let (victim, rand) ← os.tryVictims 1000 rand
    .ok (victim, { os with ipt := Function.update os.ipt victim true }, rand)
  else .error .outOfPages

def vpnToPfn (rand : Stream' ℕ) (vpn tid : ℕ) : Except Abort (ℕ × OS × Stream' ℕ) :=
  if vpn / 2 ^ 36 = 0 then
    let tidVpn := tid * 2 ^ 36 + vpn
    match os.pt tidVpn with
    | some pfn => .ok (pfn, os, rand)
    | none => do
      let (pfn, os, rand) ← os.getVictimFromIpt rand
      .ok (pfn,
        { os with pt := Function.update os.pt tidVpn (some pfn), sMissCount := os.sMissCount + 1 }, rand)
  else .error .wideVpn

def v2pLineaddr (rand : Stream' ℕ) (lineaddr tid : ℕ) : Except Abort (ℕ × OS × Stream' ℕ) := do
  let (pfn, os', rand) ← os.vpnToPfn rand (lineaddr / os.linesInPage) tid
  .ok (pfn * os.linesInPage + lineaddr % os.linesInPage, os', rand)

end OS
end CactusDram.Memsim
