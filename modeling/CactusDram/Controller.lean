import CactusDram.CommandQueue
import CactusDram.Refresh

/-! The controller of one channel: it accepts transactions, moves them into the command queues
and issues at most one command per tick, or two under HBM dual issue. -/
namespace CactusDram

/-- The transaction history of a controller, written by the model and read by no function of it.
A forwarded read is answered from a pending write. `dropped` is a second HBM command that was
chosen and then not issued. -/
inductive TransEvent
  | accepted (t : Transaction) (forwarded : Bool)
  | issued (cmd : Command)
  | returned (addr : HexAddr) (isWrite : Bool)
  | dropped (pick : Pick)
  deriving DecidableEq

structure Controller where
  clk : ℕ := 0
  channelState : ChannelState
  cmdQueue : CommandQueue := {}
  refresh : Refresh := {}
  unifiedQueue : List Transaction := []
  readQueue : List Transaction := []
  writeBuffer : List Transaction := []
  -- the multimaps, in insertion order
  pendingRdQ : List Transaction := []
  pendingWrQ : List Transaction := []
  returnQueue : List Transaction := []
  writeDraining : ℤ := 0
  log : List TransEvent := []

namespace Controller
variable (cfg : Config) (c : Controller)

def record (e : TransEvent) : Controller := { c with log := e :: c.log }

/-- All three vectors are reserved for `trans_queue_size` entries. -/
def willAcceptTransaction (isWrite : Bool) : Bool :=
  if cfg.unifiedQueue then c.unifiedQueue.length < cfg.transQueueSize
  else if !isWrite then c.readQueue.length < cfg.transQueueSize
  else c.writeBuffer.length < cfg.transQueueSize

def hasAddr (q : List Transaction) (addr : HexAddr) : Bool := q.any fun t => t.addr = addr

/-- Append to the queue a transaction waits in. -/
def enqueue (t : Transaction) : Controller :=
  if cfg.unifiedQueue then { c with unifiedQueue := c.unifiedQueue ++ [t] }
  else if t.isWrite then { c with writeBuffer := c.writeBuffer ++ [t] }
  else { c with readQueue := c.readQueue ++ [t] }

def complete (t : Transaction) : Controller :=
  { c with returnQueue := c.returnQueue ++ [{ t with completeCycle := c.clk + 1 }] }

/-- Writes are merged into a pending one and complete at once; reads are forwarded from a
pending write or merged into a pending read. -/
def addTransaction (addr : HexAddr) (isWrite : Bool) : Controller :=
  let t : Transaction := { addr := addr, addedCycle := c.clk, isWrite := isWrite }
  let forwarded := !isWrite && hasAddr c.pendingWrQ addr
  let c := c.record (.accepted t forwarded)
  if isWrite then
    let c := if hasAddr c.pendingWrQ addr then c
      else { c with pendingWrQ := c.pendingWrQ ++ [t] }.enqueue cfg t
    c.complete t
  else if forwarded then c.complete t
  else
    let merged := hasAddr c.pendingRdQ addr
    let c := { c with pendingRdQ := c.pendingRdQ ++ [t] }
    if merged then c else c.enqueue cfg t

/-- Hand back the first completed transaction. -/
def returnDoneTrans (clk : ℕ) : Controller :=
  match c.returnQueue.find? fun t => t.completeCycle ≤ clk with
  | some t =>
    { c with returnQueue := c.returnQueue.eraseP fun t => t.completeCycle ≤ clk }.record
      (.returned t.addr t.isWrite)
  | none => c

/-- The soft close-page policy keeps the row open for a later request to the same row. -/
def keepOpen (t : Transaction) (later : List Transaction) : Bool :=
  match cfg.rowBufPolicy with
  | .openPage => true
  | .closePage => false
  | .softClosePage => later.any fun t' =>
    (cfg.addressMapping t'.addr).row = (cfg.addressMapping t.addr).row &&
      (cfg.addressMapping t'.addr).bankId = (cfg.addressMapping t.addr).bankId

def transToCommand (t : Transaction) (later : List Transaction) : Command :=
  ⟨if keepOpen cfg t later then if t.isWrite then .write else .read
    else if t.isWrite then .writePrecharge else .readPrecharge, cfg.addressMapping t.addr, t.addr⟩

/-- What the scheduling loop changes: the queue it walks over, the command queues and the
number of writes left to drain. -/
structure Schedule where
  queue : List Transaction
  cmdQueue : CommandQueue
  writeDraining : ℤ

def scheduleLoop (q : CommandQueue) (draining : ℤ) :
    List Transaction → List Transaction → Schedule
  | before, [] => ⟨before, q, draining⟩
  | before, t :: later =>
    let cmd := transToCommand cfg t later
    if q.willAcceptCommand cfg cmd.bankId then
      if !cfg.unifiedQueue && cmd.isWrite then
        if hasAddr c.pendingRdQ t.addr then ⟨before ++ t :: later, q, 0⟩
        else ⟨before ++ later, q.addCommand cfg cmd, draining - 1⟩
      else ⟨before ++ later, q.addCommand cfg cmd, draining⟩
    else scheduleLoop q draining (before ++ [t]) later

/-- Start draining when the write buffer is full, or holds more than eight writes while
nothing else is queued. -/
def startDraining : ℤ :=
  if c.writeDraining = 0 ∧ !cfg.unifiedQueue ∧
      (cfg.transQueueSize ≤ c.writeBuffer.length ∨
        (8 < c.writeBuffer.length ∧ c.cmdQueue.queueEmpty cfg)) then c.writeBuffer.length
  else c.writeDraining

def scheduleTransaction : Controller :=
  let draining := c.startDraining cfg
  if cfg.unifiedQueue then
    let s := c.scheduleLoop cfg c.cmdQueue draining [] c.unifiedQueue
    { c with unifiedQueue := s.queue, cmdQueue := s.cmdQueue, writeDraining := s.writeDraining }
  else if 0 < draining then
    let s := c.scheduleLoop cfg c.cmdQueue draining [] c.writeBuffer
    { c with writeBuffer := s.queue, cmdQueue := s.cmdQueue, writeDraining := s.writeDraining }
  else
    let s := c.scheduleLoop cfg c.cmdQueue draining [] c.readQueue
    { c with readQueue := s.queue, cmdQueue := s.cmdQueue, writeDraining := s.writeDraining }

/-- A READ completes every pending read of its address. -/
def serveRead (addr : HexAddr) : Except Exit Controller :=
  if hasAddr c.pendingRdQ addr then
    let served := c.pendingRdQ.filter fun t => t.addr = addr
    .ok { c with
      returnQueue := c.returnQueue ++
        served.map fun t => { t with completeCycle := addDelay c.clk cfg.readDelay }
      pendingRdQ := c.pendingRdQ.filter fun t => t.addr ≠ addr }
  else .error .notInReadQueue

def serveWrite (addr : HexAddr) : Except Exit Controller :=
  if hasAddr c.pendingWrQ addr then
    .ok { c with pendingWrQ := c.pendingWrQ.eraseP fun t => t.addr = addr }
  else .error .notInWriteQueue

/-- The statistics themselves are left out; an unknown command type ends the process. -/
def updateCommandStats (cmd : Command) : Except Exit Unit :=
  if cmd.cmdType = .size then .error (.abruptExit .updateCommandStats) else .ok ()

/-- Commands without an address, such as Hydra metadata accesses, serve no transaction. -/
def serve (cmd : Command) : Except Exit Controller :=
  if cmd.isRead ∧ cmd.hexAddr ≠ noAddr then c.serveRead cfg cmd.hexAddr
  else if cmd.isWrite ∧ cmd.hexAddr ≠ noAddr then c.serveWrite cmd.hexAddr
  else .ok c

def issueCommand (pick : Pick) : Except Exit Controller := do
  let c ← (c.record (.issued pick.cmd)).serve cfg pick.cmd
  updateCommandStats pick.cmd
  let cs ← c.channelState.updateTimingAndStates cfg pick.cmd c.clk pick.origin
  .ok { c with channelState := cs }

def refreshTick : Controller :=
  let (r, cs) := c.refresh.clockTick cfg c.channelState
  { c with refresh := r, channelState := cs }

def channelTick : Controller := { c with channelState := c.channelState.clockTick cfg c.clk }

def withQueue (r : Option Pick × CommandQueue × ChannelState) : Option Pick × Controller :=
  (r.1, { c with cmdQueue := r.2.1, channelState := r.2.2 })

/-- A started RFM or refresh goes on first, then a waiting refresh, then a waiting RFM. -/
def maintenance : Except Exit (Option Pick × Controller) :=
  if c.cmdQueue.isInRfm then c.withQueue <$> c.cmdQueue.finishRFM cfg c.channelState
  else if c.cmdQueue.isInRef || !c.channelState.refreshQ.isEmpty then
    c.withQueue <$> c.cmdQueue.finishRefresh cfg c.channelState
  else if !c.channelState.rfmQ.isEmpty then
    c.withQueue <$> c.cmdQueue.finishRFM cfg c.channelState
  else .ok (none, c)

def demand : Except Exit (Option Pick × Controller) :=
  c.withQueue <$> c.cmdQueue.getCommandToIssue cfg c.channelState

def selectCommand : Except Exit (Option Pick × Controller) := do
  match ← c.maintenance cfg with
  | (some p, c) => .ok (some p, c)
  | (none, c) => c.demand cfg

/-- A second command is issued beside the first if exactly one of the two is a READ or WRITE.
It has left its queue by then. -/
def secondCommand (first : Command) : Except Exit Controller := do
  match ← c.demand cfg with
  | (some p, c) =>
    if p.cmd.isReadWrite ≠ first.isReadWrite then c.issueCommand cfg p
    else .ok (c.record (.dropped p))
  | (none, c) => .ok c

def issueSelected : Option Pick → Except Exit Controller
  | none => .ok c
  | some p => do
    let c ← c.issueCommand cfg p
    if cfg.enableHbmDualCmd then c.secondCommand cfg p.cmd else .ok c

/-- Count the idle cycles of the ranks that are not in self-refresh. -/
def countIdle (c : Controller) (rank : ℕ) : Controller :=
  let cs := c.channelState
  if cs.rankIsSref rank then c
  else
    { c with channelState := { cs with
      rankIdleCycles := Function.update cs.rankIdleCycles rank
        (if cs.isAllBankIdleInRank cfg rank then cs.rankIdleCycles rank + 1 else 0) } }

def powerUpdate : Controller := (List.range cfg.ranks).foldl (countIdle cfg) c

/-- The self-refresh request a rank makes when no command was issued. -/
def srefRequest (rank : ℕ) : Option CommandType :=
  if c.channelState.rankIsSref rank then
    if !c.cmdQueue.rankQEmpty rank then some .srefExit else none
  else if c.cmdQueue.rankQEmpty rank ∧ cfg.srefThreshold ≤ c.channelState.rankIdleCycles rank then
    some .srefEnter
  else none

/-- Move the first rank that is ready into or out of self-refresh. -/
def selfRefresh : List ℕ → Controller → Except Exit Controller
  | [], c => .ok c
  | rank :: rest, c =>
    match c.srefRequest cfg rank with
    | none => selfRefresh rest c
    | some ty => do
      let req : Command := ⟨ty, { rank := rank }, noAddr⟩
      let (ready, cs) ← c.channelState.getReadyCommand cfg req c.clk
      let c := { c with channelState := cs }
      match ready with
      | some r => c.issueCommand cfg ⟨r, .sref req⟩
      | none => selfRefresh rest c

/-- Self-refresh is considered when no command was chosen. -/
def idleTick (pick : Option Pick) : Except Exit Controller :=
  if cfg.enableSelfRefresh && pick.isNone then selfRefresh cfg (List.range cfg.ranks) c else .ok c

def endTick : Controller :=
  { c with clk := c.clk + 1, cmdQueue := { c.cmdQueue with clk := c.cmdQueue.clk + 1 } }

def clockTick : Except Exit Controller := do
  let c := (c.refreshTick cfg).channelTick cfg
  let (pick, c) ← c.selectCommand cfg
  let c ← c.issueSelected cfg pick
  let c ← (c.powerUpdate cfg).idleTick cfg pick
  .ok (c.scheduleTransaction cfg).endTick

end Controller
end CactusDram
