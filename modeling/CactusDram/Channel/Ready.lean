import CactusDram.Channel.Trackers

/-! Readiness queries. `GetReadyCommand` is declared `const` in the simulator and still runs the
trackers, queues RFM and DRFM requests and moves Hydra metadata; here it returns the new state. -/
namespace CactusDram
namespace ChannelState
variable (cfg : Config) (cs : ChannelState)

def sameRow (i : BankId) (row : ℤ) (c : Command) : Bool := c.bankId = i && c.row = row

/-- The access to the row that stores a Hydra count. -/
def metadata (ty : CommandType) (i : BankId) (row : ℤ) : Command :=
  ⟨ty, ⟨cs.channel, i.rank, i.bankgroup, i.bank, row, -1⟩, noAddr⟩

/-- Enqueue a metadata read unless the row waits in a Hydra queue. The result tells whether the
row can be forwarded from the writeback queue. -/
def hydraRead (i : BankId) (row : ℤ) : Bool × ChannelState :=
  if cs.hydraWbQ.any (sameRow i row) then (true, cs)
  else if cs.hydraRdQ.any (sameRow i row) then (false, cs)
  else (false, { cs with hydraRdQ := cs.hydraRdQ ++ [cs.metadata .read i row] })

def hydraWB (i : BankId) (row : ℤ) : ChannelState :=
  if cs.hydraWbQ.any (sameRow i row) then cs
  else { cs with hydraWbQ := cs.hydraWbQ ++ [cs.metadata .write i row] }

/-- Look the row count up before an activation; `false` postpones the activation. -/
def hydraCheck (cmd : Command) : Bool × ChannelState :=
  if cfg.hydraMode ≠ 1 then (true, cs)
  else
    let (rccState, rcc) := (cs.bankStates cmd.bankId).hydraCheckRcc cfg cmd cs.rcc
    let cs := { cs with rcc := rcc }
    if rccState = noAddr then cs.hydraRead cmd.bankId cmd.row
    else if rccState ≠ 0 then
      let victim := cfg.addressMapping rccState
      let (first, cs) := cs.hydraRead cmd.bankId cmd.row
      let (second, cs) := cs.hydraRead victim.bankId victim.row
      (first && second, cs.hydraWB victim.bankId victim.row)
    else (true, cs)

/-- The queue a Hydra command is taken from, after the draining flag has been settled. -/
def hydraDrain : ChannelState :=
  let draining :=
    if u64 cfg.hydraWbqSize ≤ cs.hydraWbQ.length && !cs.hydraWbDraining && cs.hydraRdQ.isEmpty then
      true
    else cs.hydraWbDraining
  { cs with hydraWbDraining := draining && !cs.hydraWbQ.isEmpty }

def hydraQueue : List Command := if cs.hydraWbDraining then cs.hydraWbQ else cs.hydraRdQ

def popHydra : ChannelState :=
  if cs.hydraWbDraining then { cs with hydraWbQ := cs.hydraWbQ.tail }
  else { cs with hydraRdQ := cs.hydraRdQ.tail }

def getReadyHydraCommand (clk : ℕ) : Except Exit (Option Command × ChannelState) :=
  let cs := cs.hydraDrain cfg
  match cs.hydraQueue with
  | [] => .ok (none, cs)
  | cmd :: _ => do
    match ← (cs.bankStates cmd.bankId).getReadyCommand cfg cmd clk with
    | none => .ok (none, cs)
    | some ready =>
      if ready.cmdType = .activate ∧ !cs.activationWindowOk cfg ready.rank clk then .ok (none, cs)
      else if ready.isReadWrite then .ok (some ready, cs.popHydra)
      else .ok (some ready, cs)

/-- Walk over the banks of a rank or bankset. The first bank that needs another command decides;
otherwise every bank has to be ready. -/
def scanReady (cmd : Command) (clk need : ℕ) :
    List BankId → ℕ → Option Command → Except Exit (Option Command)
  | [], numReady, last => .ok (if numReady = need then last else none)
  | i :: rest, numReady, _ => do
    match ← (cs.bankStates i).getReadyCommand cfg cmd clk with
    | none => scanReady cmd clk need rest numReady none
    | some ready =>
      if ready.cmdType ≠ cmd.cmdType then
        .ok (some { ready with addr := ⟨-1, i.rank, i.bankgroup, i.bank, -1, -1⟩ })
      else scanReady cmd clk need rest (numReady + 1) (some ready)

/-- Run every tracker for an activation. The result is that of `PreACT`. -/
def preactHooks (cmd : Command) (clk : ℕ) : Except Exit (Bool × ChannelState) := do
  let i := cmd.bankId
  let rowid := u32 cmd.row
  let (b, draws, rcc) := (cs.bankStates i).preACT cfg cmd cs.draws cs.rcc
  let second := b.isSamplerFull cfg
  let cs := { cs with
    bankStates := Function.update cs.bankStates i b, draws := draws, rcc := rcc }
  let cs ← cs.dreamPreact cfg i rowid
  let cs ← cs.cactusPreact cfg i rowid clk
  let cs := cs.abacusPreact cfg i rowid
  .ok (second, cs.record (.hook i cmd.row clk second (cs.cactusAlertPending i.rank)
    (cs.cactusRfmInflight i.rank)))

/-- A DRFM request for a bank, its bankset or its rank. -/
def drfmRequest (cfg : Config) (cmd : Command) : Command :=
  if cfg.drfmMode = 1 then request .drfmB cmd.rank cmd.bankgroup cmd.bank
  else if cfg.drfmMode = 2 then request .drfmSb cmd.rank (-1) cmd.bank
  else request .drfmAb cmd.rank (-1) (-1)

/-- Block the bank and request the DRFM that will free its sampler. -/
def launchDRFM (cmd : Command) : Except Exit ChannelState :=
  let cs := (cs.modifyBank cmd.bankId BankState.markDRFMIssued).recordRfm
    (.launch cmd.bankId (cs.rfmQ.filter (rfmTarget (drfmRequest cfg cmd))))
  if cfg.drfmMode = 1 then .ok (cs.bankNeedDRFM cmd.rank cmd.bankgroup cmd.bank true)
  else if cfg.drfmMode = 2 then .ok (cs.banksetNeedDRFM cmd.rank cmd.bank true)
  else if cfg.drfmMode = 3 then .ok (cs.rankNeedDRFM cmd.rank true)
  else .error (.abruptExit .channelGetReadyCommand)

/-- An activation is ready as far as its bank is concerned: check the activation window, run
the trackers, and hold it back when a DRFM has to go first. -/
def readyActivate (cmd ready : Command) (clk : ℕ) : Except Exit (Option Command × ChannelState) :=
  if !cs.activationWindowOk cfg ready.rank clk then .ok (none, cs)
  else
    let first := (cs.bankStates cmd.bankId).isSamplerFull cfg
    if cfg.drfmPolicy = 0 ∧ first then do
      let cs ← cs.launchDRFM cfg cmd
      .ok (none, cs)
    else
      let (inflight, cs) := cs.hydraCheck cfg cmd
      if !inflight then .ok (none, cs)
      else do
        let (second, cs) ← cs.preactHooks cfg cmd clk
        if cfg.drfmPolicy = 1 ∧ second then do
          let cs ← cs.launchDRFM cfg cmd
          .ok (none, cs)
        else .ok (some ready, cs)

def getReadyCommand (cmd : Command) (clk : ℕ) : Except Exit (Option Command × ChannelState) :=
  if cmd.isRankCMD then do
    let ready ← cs.scanReady cfg cmd clk cfg.banks (cfg.rankBanks cmd.rank) 0 none
    .ok (ready, cs)
  else if cmd.isSbCMD then do
    let ready ← cs.scanReady cfg cmd clk cfg.bankgroups (cfg.banksetBanks cmd.rank cmd.bank) 0 none
    .ok (ready, cs)
  else if cs.hydraWbDraining || !cs.hydraRdQ.isEmpty then .ok (none, cs)
  else do
    match ← (cs.bankStates cmd.bankId).getReadyCommand cfg cmd clk with
    | none => .ok (none, cs)
    | some ready =>
      match ready.cmdType with
      | .rfmSb => .ok (none, cs.banksetNeedRFM ready.rank ready.bank true)
      | .rfmAb => .ok (none, cs.rankNeedRFM ready.rank true)
      | .activate => cs.readyActivate cfg cmd ready clk
      | _ => .ok (some ready, cs)

end ChannelState
end CactusDram
