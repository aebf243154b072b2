import CactusDram.HMC.AgeQueue
import CactusDram.System

/-! The HMC memory system. Requests go over a link and a quad to the controller of their vault, and
responses go the other way; a crossbar on the logic clock moves both. -/
namespace CactusDram.HMC
open Foundations

/-- The types of requests that `AddTransaction` makes. -/
inductive HMCReqType
  | rd0
  | rd32
  | rd64
  | rd128
  | rd256
  | wr0
  | wr32
  | wr64
  | wr128
  | wr256
  deriving DecidableEq, Repr

inductive HMCRespType
  | rdRs
  | wrRs
  deriving DecidableEq, Repr

namespace HMCReqType

def isWrite : HMCReqType → Bool
  | wr0 | wr32 | wr64 | wr128 | wr256 => true
  | _ => false

/-- The flits of a request. -/
def flits : HMCReqType → ℕ
  | rd0 | wr0 => 0
  | rd32 | rd64 | rd128 | rd256 => 1
  | wr32 => 3
  | wr64 => 5
  | wr128 => 9
  | wr256 => 17

/-- The flits of the response to a request. -/
def respFlits : HMCReqType → ℕ
  | rd0 | wr0 => 0
  | rd32 => 3
  | rd64 => 5
  | rd128 => 9
  | rd256 => 17
  | _ => 1

def respType (t : HMCReqType) : HMCRespType := if t.isWrite then .wrRs else .rdRs

/-- All transactions are of the block size. -/
def ofBlockSize (isWrite : Bool) : ℕ → Option HMCReqType
  | 0 => some (if isWrite then wr0 else rd0)
  | 32 => some (if isWrite then wr32 else rd32)
  | 64 => some (if isWrite then wr64 else rd64)
  | 128 => some (if isWrite then wr128 else rd128)
  | 256 => some (if isWrite then wr256 else rd256)
  | _ => none

end HMCReqType

structure HMCRequest where
  type : HMCReqType
  memOperand : HexAddr
  link : ℕ := 0
  quad : ℕ
  vault : ℕ
  exitTime : ℕ := 0
  deriving DecidableEq, Repr

def HMCRequest.new (type : HMCReqType) (hexAddr : HexAddr) (vault : ℕ) : HMCRequest :=
  { type, memOperand := hexAddr, vault, quad := vault % 4 }

structure HMCResponse where
  respId : HexAddr
  type : HMCRespType
  link : ℕ
  quad : ℕ
  flits : ℕ
  exitTime : ℕ := 0
  deriving DecidableEq, Repr

/-- The response that is created with a request. -/
def HMCRequest.response (req : HMCRequest) (link : ℕ) : HMCResponse :=
  { respId := req.memOperand, type := req.type.respType, link, quad := req.quad
    flits := req.type.respFlits }

/-- How a call can fail: an exit of a vault, a block size without request type, a completed
transaction whose response is not in the lookup table, the front of an empty queue, and a logic clock
that does not move. -/
inductive Fail
  | vault (e : Exit)
  | blockSize
  | unknownResponse
  | emptyFront
  | endless
  deriving DecidableEq, Repr

/-- The constructor of the system takes no configuration of another protocol. -/
structure HMCConfig extends Config where
  numLinks : ℕ := 4
  linkWidth : ℕ := 16
  linkSpeed : ℕ := 15000
  blockSize : ℕ := 64
  xbarQueueDepth : ℕ := 16
  numLinks_pos : 0 < numLinks := by decide
  isHMC : protocol = .hmc

/-- The DRAM clock, in picoseconds. -/
def psPerDram : ℕ := 800

/-- A logic cycle takes as long as a flit on a link, and at most a DRAM cycle. -/
def HMCConfig.psPerLogic (cfg : HMCConfig) : ℕ :=
  min (1000000 / (cfg.linkSpeed / (128 / cfg.linkWidth))) psPerDram

/-- `base` holds the DRAM clock and the controllers, which are the vaults, and the callbacks made. The
lookup table keeps the order of insertion. -/
structure HMCMemorySystem where
  base : JedecDRAMSystem
  logicClk : ℕ := 0
  logicPs : ℕ := 0
  dramPs : ℕ := 0
  nextLink : ℕ := 0
  respLookupTable : List HMCResponse := []
  linkReqQueues : ℕ → List HMCRequest := fun _ => []
  linkRespQueues : ℕ → List HMCResponse := fun _ => []
  quadReqQueues : ℕ → List HMCRequest := fun _ => []
  quadRespQueues : ℕ → List HMCResponse := fun _ => []
  linkBusy : ℕ → ℤ := fun _ => 0
  quadBusy : ℕ → ℤ := fun _ => 0
  linkAgeCounter : ℕ → ℤ := fun _ => 0
  quadAgeCounter : ℕ → ℤ := fun _ => 0

namespace HMCMemorySystem
variable (cfg : HMCConfig) (s : HMCMemorySystem)

def iterateNextLink : HMCMemorySystem := { s with nextLink := (s.nextLink + 1) % cfg.numLinks }

def insertReqToLink (req : HMCRequest) (link : ℕ) : Bool × HMCMemorySystem :=
  if (s.linkReqQueues link).length < cfg.xbarQueueDepth then
    (true, { s with
      linkReqQueues := Function.update s.linkReqQueues link (s.linkReqQueues link ++ [{ req with link }])
      respLookupTable := s.respLookupTable ++ [req.response link]
      linkAgeCounter := Function.update s.linkAgeCounter link 1 })
  else (false, s)

/-- Try the links after the first one, until it is met again. -/
def insertLoop (req : HMCRequest) (startLink : ℕ) : ℕ → HMCMemorySystem → Bool × HMCMemorySystem
  | 0, s => (false, s)
  | n + 1, s =>
    if s.nextLink = startLink then (false, s)
    else
      let (inserted, s) := s.insertReqToLink cfg req s.nextLink
      let s := s.iterateNextLink cfg
      if inserted then (true, s) else insertLoop req startLink n s

def insertHMCReq (req : HMCRequest) : Bool × HMCMemorySystem :=
  let (inserted, s') := s.insertReqToLink cfg req s.nextLink
  if inserted then (true, s'.iterateNextLink cfg)
  else insertLoop cfg req s.nextLink cfg.numLinks (s'.iterateNextLink cfg)

def addTransaction (hexAddr : HexAddr) (isWrite : Bool) : Except Fail (Bool × HMCMemorySystem) :=
  match HMCReqType.ofBlockSize isWrite cfg.blockSize with
  | none => .error .blockSize
  | some type => .ok (s.insertHMCReq cfg (.new type hexAddr (cfg.getChannel hexAddr)))

/-- The front of a quad goes to its vault, unless the responses of the quad have piled up. -/
def drainQuad (i : ℕ) : HMCMemorySystem :=
  match s.quadReqQueues i with
  | [] => s
  | req :: rest =>
    if (s.quadRespQueues i).length < cfg.xbarQueueDepth ∧ req.exitTime ≤ s.logicClk ∧
        (s.base.ctrls req.vault).willAcceptTransaction cfg.toConfig req.type.isWrite then
      { s with
        base := s.base.store req.vault ((s.base.ctrls req.vault).addTransaction cfg.toConfig
          req.memOperand req.type.isWrite)
        quadReqQueues := Function.update s.quadReqQueues i rest }
    else s

def drainBusy (busy : ℕ → ℤ) (i : ℕ) : ℤ := if 0 < busy i then busy i - 2 else busy i

/-- One turn of the loop over the age queue of the links. -/
def routeRequest (srcLink : ℕ) : Except Fail HMCMemorySystem :=
  match s.linkReqQueues srcLink with
  | [] => .error .emptyFront
  | req :: rest =>
    if (s.quadReqQueues req.quad).length < cfg.xbarQueueDepth ∧ s.quadBusy req.quad ≤ 0 then
      .ok { s with
        linkReqQueues := Function.update s.linkReqQueues srcLink rest
        quadReqQueues := Function.update s.quadReqQueues req.quad
          (s.quadReqQueues req.quad ++ [{ req with exitTime := s.logicClk + req.type.flits }])
        quadBusy := Function.update s.quadBusy req.quad req.type.flits
        linkAgeCounter := Function.update s.linkAgeCounter srcLink (if rest = [] then 0 else 1) }
    else
      .ok { s with
        linkAgeCounter := Function.update s.linkAgeCounter srcLink (s.linkAgeCounter srcLink + 1) }

def drainRequests : Except Fail HMCMemorySystem :=
  let s := (List.range 4).foldl (drainQuad cfg) s
  let s := { s with quadBusy := drainBusy s.quadBusy }
  (buildAgeQueue ((List.range cfg.numLinks).map s.linkAgeCounter) s.logicClk).foldlM
    (routeRequest cfg) s

/-- The front of a link goes to the CPU. -/
def deliver (i : ℕ) : HMCMemorySystem :=
  match s.linkRespQueues i with
  | [] => s
  | resp :: rest =>
    if resp.exitTime ≤ s.logicClk then
      { s with
        base := { s.base with
          callbacks := s.base.callbacks ++ [⟨resp.respId, decide (resp.type ≠ .rdRs)⟩] }
        linkRespQueues := Function.update s.linkRespQueues i rest }
    else s

/-- One turn of the loop over the age queue of the quads. -/
def routeResponse (srcQuad : ℕ) : Except Fail HMCMemorySystem :=
  match s.quadRespQueues srcQuad with
  | [] => .error .emptyFront
  | resp :: rest =>
    if (s.linkRespQueues resp.link).length < cfg.xbarQueueDepth ∧ s.linkBusy resp.link ≤ 0 then
      .ok { s with
        quadRespQueues := Function.update s.quadRespQueues srcQuad rest
        linkRespQueues := Function.update s.linkRespQueues resp.link
          (s.linkRespQueues resp.link ++ [{ resp with exitTime := s.logicClk + resp.flits }])
        linkBusy := Function.update s.linkBusy resp.link resp.flits
        quadAgeCounter := Function.update s.quadAgeCounter srcQuad (if rest = [] then 0 else 1) }
    else
      .ok { s with
        quadAgeCounter := Function.update s.quadAgeCounter srcQuad (s.quadAgeCounter srcQuad + 1) }

def drainResponses : Except Fail HMCMemorySystem :=
  let s := (List.range cfg.numLinks).foldl deliver s
  let s := { s with linkBusy := drainBusy s.linkBusy }
  (buildAgeQueue ((List.range 4).map s.quadAgeCounter) s.logicClk).foldlM (routeResponse cfg) s

/-- The first response with the address of a completed transaction goes to its quad. -/
def vaultCallback (reqId : HexAddr) : Except Fail HMCMemorySystem :=
  match s.respLookupTable.find? fun resp => resp.respId = reqId with
  | none => .error .unknownResponse
  | some resp =>
    .ok { s with
      respLookupTable := s.respLookupTable.eraseP fun resp => resp.respId = reqId
      quadRespQueues := Function.update s.quadRespQueues resp.quad (s.quadRespQueues resp.quad ++ [resp])
      quadAgeCounter := Function.update s.quadAgeCounter resp.quad 1 }

/-- A vault hands back what is done; the callbacks of its transactions touch no controller. -/
def returnVault (i : ℕ) : Except Fail HMCMemorySystem :=
  let (done, c) := JedecDRAMSystem.returnLoop s.base.clk (s.base.ctrls i).returnQueue.length (s.base.ctrls i)
  done.foldlM (fun s t => s.vaultCallback t.addr) { s with base := s.base.store i c }

def tickVault (i : ℕ) : Except Fail HMCMemorySystem :=
  ((s.base.tickChannel cfg.toConfig i).map fun base => { s with base }).mapError .vault

def dramClockTick : Except Fail HMCMemorySystem := do
  let s ← (List.range cfg.channels).foldlM returnVault s
  let s ← (List.range cfg.channels).foldlM (tickVault cfg) s
  .ok { s with base := { s.base with clk := s.base.clk + 1 } }

def logicTick : HMCMemorySystem :=
  { s with logicPs := s.logicPs + cfg.psPerLogic, logicClk := s.logicClk + 1 }

/-- The logic cycles that start before the end of the DRAM cycle. -/
def logicLoop : ℕ → HMCMemorySystem → Except Fail HMCMemorySystem
  | 0, s => if s.logicPs < s.dramPs + psPerDram then .error .endless else .ok s
  | n + 1, s =>
    if s.logicPs < s.dramPs + psPerDram then do
      let s ← s.drainResponses cfg
      let s ← s.drainRequests cfg
      logicLoop n (s.logicTick cfg)
    else .ok s

/-- The DRAM cycle, with a logic cycle around it when both clocks are due. -/
def dramCycle : Except Fail HMCMemorySystem :=
  if s.dramPs = s.logicPs then do
    let s ← s.drainResponses cfg
    let s ← s.dramClockTick cfg
    let s ← s.drainRequests cfg
    .ok (s.logicTick cfg)
  else s.dramClockTick cfg

def clockTick : Except Fail HMCMemorySystem := do
  let s ← s.dramCycle cfg
  let s ← logicLoop cfg (s.dramPs + psPerDram - s.logicPs) s
  .ok { s with dramPs := s.dramPs + psPerDram }

/-- A refused transaction is dropped. -/
def step (s : HMCMemorySystem) : JedecDRAMSystem.Call → Except Fail HMCMemorySystem
  | .addTransaction hexAddr isWrite => (s.addTransaction cfg hexAddr isWrite).map Prod.snd
  | .clockTick => s.clockTick cfg

def run (s : HMCMemorySystem) (calls : List JedecDRAMSystem.Call) : Except Fail HMCMemorySystem :=
  calls.foldlM (step cfg) s

end HMCMemorySystem

/-- A freshly constructed system. -/
def system {cfg : HMCConfig} (boot : SystemBoot cfg.toConfig) : HMCMemorySystem where
  base := boot.system

end CactusDram.HMC
