import CactusDram.Channel.Ready
import CactusDram.Foundations.Outcome

/-! The effect of an issued command on the channel: bank states, maintenance queues, tracker
resets, alerts and the earliest issue times of later commands. -/
namespace CactusDram
namespace ChannelState
variable (cfg : Config) (cs : ChannelState)

/-- Apply a command to several banks in turn. -/
def updateBanks (cmd : Command) (banks : List BankId) : Except Exit ChannelState := do
  let states ← Foundations.updateEach (fun b => b.updateState cfg cmd) banks cs.bankStates
  .ok { cs with bankStates := states }

def updateREFCounter (cmd : Command) : Except Exit ChannelState :=
  if cmd.cmdType = .refSb then
    let fgr := (cs.fgrCounter + 1) % (2 * cfg.banksPerGroup)
    .ok { cs with
      fgrCounter := fgr
      refIdx := if fgr = 0 then (cs.refIdx + 1) % cfg.refchunks else cs.refIdx }
  else if cmd.cmdType = .refAb then
    let fgr := (cs.fgrCounter + 1) % 2
    .ok { cs with
      fgrCounter := fgr
      refIdx := if !cfg.fgr || fgr = 0 then (cs.refIdx + 1) % cfg.refchunks else cs.refIdx }
  else .error (.abruptExit .updateREFCounter)

/-- Whether a refresh resets a chunk of the channel-wide counters. -/
def shouldReset (cmd : Command) : Bool :=
  cmd.cmdType = .refAb ||
    (cmd.cmdType = .refSb && (cs.fgrCounter + 1) % (2 * cfg.banksPerGroup) = 7)

def refreshTrackers (cmd : Command) : ChannelState :=
  let reset := cs.shouldReset cfg cmd
  ((cs.dreamRefresh cfg reset).cactusRefresh cfg cmd.rank reset).abacusRefresh cfg reset

/-- What follows a rank command once its banks have seen it. The only refresh of a rank is REFab. -/
def rankServed (cmd : Command) : Except Exit ChannelState :=
  if cmd.isRFM then
    let cs := cs.rankNeedRFM cmd.rank false
    if cmd.cmdType = .rfmAb && cs.cactusRfmInflight cmd.rank then do
      let cs ← cs.cactusMitig cfg cmd.rank
      .ok (cs.clearInflight cmd.rank)
    else .ok cs
  else if cmd.isRefresh then do
    let cs := (cs.rankNeedRefresh cmd.rank false).refreshTrackers cfg cmd
    let cs ← cs.cactusTrefMitig cfg cmd.rank
    let cs ← cs.cactusTrefMaxMitig cfg cmd.rank
    cs.updateREFCounter cfg cmd
  else if cmd.isDRFM then
    .ok (((cs.rankNeedDRFM cmd.rank false).dreamMitig cfg).abacusMitig cfg)
  else if cmd.cmdType = .srefEnter then
    .ok { cs with rankIsSref := Function.update cs.rankIsSref cmd.rank true }
  else if cmd.cmdType = .srefExit then
    .ok { cs with rankIsSref := Function.update cs.rankIsSref cmd.rank false }
  else .ok cs

def banksetServed (cmd : Command) : Except Exit ChannelState :=
  if cmd.isRFM then .ok (cs.banksetNeedRFM cmd.rank cmd.bank false)
  else if cmd.isDRFM then .ok (cs.banksetNeedDRFM cmd.rank cmd.bank false)
  else if cmd.isRefresh then
    ((cs.banksetNeedRefresh cmd.rank cmd.bank false).refreshTrackers cfg cmd).updateREFCounter cfg cmd
  else .ok cs

def bankServed (cmd : Command) : ChannelState :=
  if cmd.isRefresh then cs.bankNeedRefresh cmd.rank cmd.bankgroup cmd.bank false
  else if cmd.isDRFM then cs.bankNeedDRFM cmd.rank cmd.bankgroup cmd.bank false
  else cs

def updateState (cmd : Command) : Except Exit ChannelState :=
  if cmd.isRankCMD then do
    let cs ← cs.updateBanks cfg cmd (cfg.rankBanks cmd.rank)
    cs.rankServed cfg cmd
  else if cmd.isSbCMD then do
    let cs ← cs.updateBanks cfg cmd (cfg.banksetBanks cmd.rank cmd.bank)
    cs.banksetServed cfg cmd
  else do
    let cs ← cs.updateBanks cfg cmd [cmd.bankId]
    .ok (cs.bankServed cmd)

/-- One call of `BankState::UpdateTiming`: a bank, a command type and the registered delay. -/
abbrev TimingUpdate := BankId × CommandType × ℤ

def onBanks (banks : List BankId) (delays : List (CommandType × ℤ)) : List TimingUpdate :=
  banks.flatMap fun i => delays.map fun d => (i, d.1, d.2)

def updateSameBankset (a : Address) (delays : List (CommandType × ℤ)) : List TimingUpdate :=
  onBanks (cfg.banksetBanks a.rank a.bank) delays

def updateOtherBanksets (a : Address) (delays : List (CommandType × ℤ)) : List TimingUpdate :=
  onBanks (cfg.allBanks.filter fun i => i.bank ≠ a.bank) delays

def updateSameBankTiming (a : Address) (delays : List (CommandType × ℤ)) : List TimingUpdate :=
  onBanks [a.bankId] delays

def updateOtherBanksSameBankgroupTiming (a : Address) (delays : List (CommandType × ℤ)) :
    List TimingUpdate :=
  onBanks ((cfg.rankBanks a.rank).filter fun i => i.bankgroup = a.bankgroup && i.bank ≠ a.bank) delays

def updateOtherBankgroupsSameRankTiming (a : Address) (delays : List (CommandType × ℤ)) :
    List TimingUpdate :=
  onBanks ((cfg.rankBanks a.rank).filter fun i => i.bankgroup ≠ a.bankgroup) delays

def updateOtherRanksTiming (a : Address) (delays : List (CommandType × ℤ)) : List TimingUpdate :=
  onBanks (cfg.allBanks.filter fun i => i.rank ≠ a.rank) delays

def updateSameRankTiming (a : Address) (delays : List (CommandType × ℤ)) : List TimingUpdate :=
  onBanks (cfg.rankBanks a.rank) delays

/-- The delays a command registers, in the order of the calls. -/
def timingUpdates (cmd : Command) : List TimingUpdate :=
  let t := cfg.timing
  let ty := cmd.cmdType
  match ty with
  | .activate | .readPrecharge | .writePrecharge | .precharge | .preAb | .preSb | .read | .write
  | .refreshBank | .drfmB =>
    updateSameBankTiming cmd.addr (t.sameBank ty) ++
      updateOtherBanksSameBankgroupTiming cfg cmd.addr (t.otherBanksSameBankgroup ty) ++
      updateOtherBankgroupsSameRankTiming cfg cmd.addr (t.otherBankgroupsSameRank ty) ++
      updateOtherRanksTiming cfg cmd.addr (t.otherRanks ty)
  | .rfmAb | .refAb | .drfmAb | .srefEnter | .srefExit =>
    updateSameRankTiming cfg cmd.addr (t.sameRank ty)
  | .refSb | .rfmSb | .drfmSb =>
    updateSameBankset cfg cmd.addr (t.sameBankset ty) ++
      updateOtherBanksets cfg cmd.addr (t.otherBanksets ty)
  | .size => []

def applyTiming (updates : List TimingUpdate) (clk : ℕ) : ChannelState :=
  updates.foldl (fun cs u => cs.modifyBank u.1 fun b => b.updateTiming u.2.1 (addDelay clk u.2.2)) cs

/-- The rank of the command is not stored with the alert. -/
def raiseAlert (rank : ℤ) (clk : ℕ) : ChannelState :=
  { cs with alertN := true, lastAlertClk := clk, log := .abo rank clk cs.alertRank :: cs.log }

/-- Raise the ABO alert when one of the banks asks for it. -/
def triggerAlert (rank : ℤ) (banks : List BankId) (clk : ℕ) : ChannelState :=
  if cs.alertN || cs.numActsAbo < cfg.aboDelayActs then cs
  else if cfg.alertMode = 1 ∧ banks.any fun i => (cs.bankStates i).checkAlert cfg then
    cs.raiseAlert rank clk
  else cs

def triggerSameBankAlert (cmd : Command) (clk : ℕ) : ChannelState :=
  cs.triggerAlert cfg cmd.rank [cmd.bankId] clk

def triggerSameRankAlert (cmd : Command) (clk : ℕ) : ChannelState :=
  cs.triggerAlert cfg cmd.rank (cfg.rankBanks cmd.rank) clk

def countActivation (rank : ℤ) : ChannelState :=
  { cs with
    numActsAbo := cs.numActsAbo + 1
    cactusActsSinceRfm :=
      if cfg.cactusMode ≠ 0 then
        Function.update cs.cactusActsSinceRfm rank (cs.cactusActsSinceRfm rank + 1)
      else cs.cactusActsSinceRfm }

/-- What `UpdateTiming` does before it registers delays; the cases fall through. -/
def countAndAlert (cmd : Command) (clk : ℕ) : Except Exit ChannelState :=
  match cmd.cmdType with
  | .activate =>
    .ok (((cs.countActivation cfg cmd.rank).updateActivationTimes cfg cmd.rank clk).triggerSameBankAlert
      cfg cmd clk)
  | .readPrecharge | .writePrecharge | .precharge | .preAb | .preSb =>
    .ok (cs.triggerSameBankAlert cfg cmd clk)
  | .read | .write | .refreshBank | .drfmB => .ok cs
  | .rfmAb => .ok ({ cs with numActsAbo := 0 }.triggerSameRankAlert cfg cmd clk)
  | .refAb => .ok (cs.triggerSameRankAlert cfg cmd clk)
  | .drfmAb | .srefEnter | .srefExit => .ok cs
  | .refSb | .rfmSb | .drfmSb => .ok (cs.triggerSameRankAlert cfg cmd clk)
  | .size => .error (.abruptExit .channelUpdateTiming)

def updateTiming (cmd : Command) (clk : ℕ) : Except Exit ChannelState := do
  let cs ← cs.countAndAlert cfg cmd clk
  .ok (cs.applyTiming (timingUpdates cfg cmd) clk)

def updateTimingAndStates (cmd : Command) (clk : ℕ) (origin : Origin) :
    Except Exit ChannelState := do
  let cs := cs.record (.issue cmd clk origin cs.bankStates)
  let cs ← cs.updateState cfg cmd
  cs.updateTiming cfg cmd clk

end ChannelState
end CactusDram
