import CactusDram.Channel.Update

/-! The command queues and the choice of the next command. -/
namespace CactusDram

structure CommandQueue where
  rankQEmpty : ℤ → Bool := fun _ => true
  queues : ℤ → List Command := fun _ => []
  refQIndices : List ℤ := []
  isInRef : Bool := false
  rfmQIndices : List ℤ := []
  isInRfm : Bool := false
  queueIdx : ℤ := 0
  clk : ℕ := 0

/-- A command chosen for issue, with its origin. -/
structure Pick where
  cmd : Command
  origin : Origin
  deriving DecidableEq

namespace CommandQueue
variable (cfg : Config) (q : CommandQueue)

def numQueues : ℕ :=
  match cfg.queueStructure with
  | .perBank => cfg.banks * cfg.ranks
  | .perRank => cfg.ranks

def getQueueIndex (i : BankId) : ℤ :=
  match cfg.queueStructure with
  | .perRank => i.rank
  | .perBank => i.rank * cfg.banks + i.bankgroup * cfg.banksPerGroup + i.bank

def getQueue (i : BankId) : List Command := q.queues (getQueueIndex cfg i)

def setQueue (i : BankId) (queue : List Command) : CommandQueue :=
  { q with queues := Function.update q.queues (getQueueIndex cfg i) queue }

def willAcceptCommand (i : BankId) : Bool := (q.getQueue cfg i).length < cfg.cmdQueueSize

def queueEmpty : Bool := (List.range (numQueues cfg)).all fun n => (q.queues (n : ℤ)).isEmpty

def addCommand (cmd : Command) : CommandQueue :=
  if (q.getQueue cfg cmd.bankId).length < cfg.cmdQueueSize then
    { q.setQueue cfg cmd.bankId (q.getQueue cfg cmd.bankId ++ [cmd]) with
      rankQEmpty := Function.update q.rankQEmpty cmd.rank false }
  else q

/-- Remove the queued request a READ or WRITE serves. -/
def eraseRWCommand (cmd : Command) : Except Exit CommandQueue :=
  let same := fun c : Command => cmd.hexAddr = c.hexAddr && cmd.cmdType = c.cmdType
  let queue := q.getQueue cfg cmd.bankId
  if queue.any same then .ok (q.setQueue cfg cmd.bankId (queue.eraseP same))
  else if cmd.hexAddr = noAddr then .ok q
  else .error .cannotFindCmd

/-- The queues of all banks of a rank. -/
def rankQIndices (rank : ℤ) : List ℤ :=
  match cfg.queueStructure with
  | .perBank =>
    ((List.range (numQueues cfg)).filter fun n => ((n / cfg.banks : ℕ) : ℤ) = rank).map (↑)
  | .perRank => [rank]

/-- The queues a maintenance command blocks. Commands below rank level need one queue per bank. -/
def maintenanceQIndices (cmd : Command) : Except Exit (List ℤ) :=
  if cmd.isRankCMD then .ok (rankQIndices cfg cmd.rank)
  else
    match cfg.queueStructure with
    | .perRank => .error .runtimeError
    | .perBank =>
      if cmd.isSbCMD then .ok ((cfg.banksetBanks cmd.rank cmd.bank).map (getQueueIndex cfg))
      else .ok [getQueueIndex cfg cmd.bankId]

def getRefQIndices (ref : Command) : Except Exit CommandQueue := do
  let indices ← maintenanceQIndices cfg ref
  .ok { q with refQIndices := q.refQIndices ++ indices, isInRef := true }

def getRFMQIndices (rfm : Command) : Except Exit CommandQueue := do
  let indices ← maintenanceQIndices cfg rfm
  .ok { q with rfmQIndices := q.rfmQIndices ++ indices, isInRfm := true }

/-- Progress towards the oldest pending refresh: the refresh itself or a precharge. -/
def finishRefresh (cs : ChannelState) :
    Except Exit (Option Pick × CommandQueue × ChannelState) :=
  match cs.refreshQ with
  | [] => .error .emptyFront
  | ref :: _ => do
    let q ← if q.isInRef then .ok q else q.getRefQIndices cfg ref
    let (cmd, cs) ← cs.getReadyCommand cfg ref q.clk
    let q := if cmd.any Command.isRefresh then { q with refQIndices := [], isInRef := false } else q
    .ok (cmd.map (⟨·, .refresh ref⟩), q, cs)

def finishRFM (cs : ChannelState) :
    Except Exit (Option Pick × CommandQueue × ChannelState) :=
  match cs.rfmQ with
  | [] => .error .emptyFront
  | rfm :: _ => do
    let q ← if q.isInRfm then .ok q else q.getRFMQIndices cfg rfm
    let (cmd, cs) ← cs.getReadyCommand cfg rfm q.clk
    let q := if cmd.any fun c => c.isRFM || c.isDRFM then { q with rfmQIndices := [], isInRfm := false }
      else q
    .ok (cmd.map (⟨·, .rfm rfm⟩), q, cs)

/-- Whether a row may be closed for a queued request: no older request to the bank waits, and
no later one hits the open row, unless the row has been hit four times. -/
def arbitratePrecharge (cs : ChannelState) (before : List Command) (cmd : Command)
    (after : List Command) : Bool :=
  let b := cs.bankStates cmd.bankId
  !(before.any fun c => c.bankId = cmd.bankId) &&
    (!((cmd :: after).any fun c => c.row = b.openRow && c.bankId = cmd.bankId) ||
      4 ≤ b.rowHitCount)

/-- An older read of the same location waits in the queue. -/
def hasRWDependency (before : List Command) (cmd : Command) : Bool :=
  before.any fun c => c.isRead && c.row = cmd.row && c.column = cmd.column && c.bank = cmd.bank &&
    c.bankgroup = cmd.bankgroup

def getFirstReadyInQueue (clk : ℕ) :
    List Command → List Command → ChannelState → Except Exit (Option Pick × ChannelState)
  | _, [], cs => .ok (none, cs)
  | before, cmd :: after, cs => do
    let (hydraCmd, cs) ← cs.getReadyHydraCommand cfg clk
    match hydraCmd with
    | some h => .ok (some ⟨h, .hydra⟩, cs)
    | none =>
      let (ready, cs) ← cs.getReadyCommand cfg cmd clk
      match ready with
      | none => getFirstReadyInQueue clk (before ++ [cmd]) after cs
      | some r =>
        if r.cmdType = .precharge ∧ !arbitratePrecharge cs before cmd after then
          getFirstReadyInQueue clk (before ++ [cmd]) after cs
        else if r.isWrite ∧ hasRWDependency before cmd then
          getFirstReadyInQueue clk (before ++ [cmd]) after cs
        else .ok (some ⟨r, .demand⟩, cs)

def nextIdx (idx : ℤ) : ℤ := if idx + 1 = numQueues cfg then 0 else idx + 1

/-- The queue in turn waits for a refresh or RFM. -/
def blocked : Bool :=
  (q.isInRef && q.refQIndices.contains q.queueIdx) ||
    (q.isInRfm && q.rfmQIndices.contains q.queueIdx)

/-- Visit the queues round-robin, leaving out those that wait for a refresh or RFM. -/
def getCommandLoop :
    ℕ → CommandQueue → ChannelState → Except Exit (Option Pick × CommandQueue × ChannelState)
  | 0, q, cs => .ok (none, q, cs)
  | n + 1, q, cs =>
    let q := { q with queueIdx := nextIdx cfg q.queueIdx }
    if q.blocked then getCommandLoop n q cs
    else do
      let (pick, cs) ← getFirstReadyInQueue cfg q.clk [] (q.queues q.queueIdx) cs
      match pick with
      | none => getCommandLoop n q cs
      | some p =>
        if p.cmd.isReadWrite then do
          let q ← q.eraseRWCommand cfg p.cmd
          .ok (some p, q, cs)
        else .ok (some p, q, cs)

def getCommandToIssue (cs : ChannelState) :
    Except Exit (Option Pick × CommandQueue × ChannelState) :=
  getCommandLoop cfg (numQueues cfg) q cs

end CommandQueue
end CactusDram
