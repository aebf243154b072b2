import CactusDram.BankState

/-! The state of one channel and its maintenance queues. -/
namespace CactusDram

structure AbacusEntry where
  rac : ℕ := 0
  sav : BitVec 64 := 0
  deriving DecidableEq, Repr

/-- Where an issued command came from: a queued transaction, the Hydra queues, or the
refresh, RFM or self-refresh request it serves. -/
inductive Origin
  | demand
  | hydra
  | refresh (served : Command)
  | rfm (served : Command)
  | sref (served : Command)
  deriving DecidableEq

/-- The history of a channel. It is written by the model and read by no function of it.

* `hook`: the trackers were run for an activation of `row`; `full` is the result of `PreACT`
  and `alert`, `inflight` are the CACTUS flags of the rank after `cactus_preact`.
* `issue`: a command was issued; `found` is the bank table as the command found it.
* `alert`: `cactus_preact` raised an alert for counter `idx`.
* `cactusReset`: a REF reset the CACTUS counters from `first` below `last`.
* `cactusMitig`: counter `idx` was mitigated.
* `pendingMitig`: the mitigated counter was the pending one of the rank.
* `actsCleared`: `cactus_acts_since_rfm_` of the rank was cleared.
* `requested`: a refresh request was queued.
* `abo`: a command on the rank raised the ABO alert; `alertRank` is the rank the channel holds.
* `dreamCross`, `abacusCross`: a DREAM counter or an ABACUS row reached its threshold.
* `dreamMitig`, `abacusMitig`: it was cleared by the mitigation that followed.
* `dreamReset`, `abacusReset`: a REF reset the DREAM counters or ABACUS rows from `first` below
  `last`. -/
inductive Event
  | hook (bank : BankId) (row : ℤ) (clk : ℕ) (full alert inflight : Bool)
  | issue (cmd : Command) (clk : ℕ) (origin : Origin) (found : BankId → BankState)
  | alert (rank : ℤ) (idx : ℕ)
  | cactusReset (first last : ℕ)
  | cactusMitig (idx : ℕ)
  | pendingMitig (rank : ℤ)
  | actsCleared (rank : ℤ)
  | requested (req : Command)
  | abo (rank : ℤ) (clk : ℕ) (alertRank : ℤ)
  | dreamCross (idx : ℕ)
  | dreamMitig (idx : ℕ)
  | abacusCross (row : ℕ)
  | abacusMitig (row : ℕ)
  | dreamReset (first last : ℕ)
  | abacusReset (first last : ℕ)

/-- Calls on the RFM queue, with the requests for the same target that they found. Like the history,
they are only written.

* `cactus`: a CACTUS alert of the rank asked for its RFMab.
* `launch`: a DRFM was asked for to free the sampler of the bank.
* `drop`: a request for the target of `req` was removed. -/
inductive RfmCall
  | cactus (rank : ℤ) (found : List Command)
  | launch (bank : BankId) (found : List Command)
  | drop (req : Command) (found : Option Command)

structure ChannelState where
  channel : ℤ := 0
  rankIdleCycles : ℤ → ℤ := fun _ => 0
  rankIsSref : ℤ → Bool := fun _ => false
  bankStates : BankId → BankState
  refreshQ : List Command := []
  rfmQ : List Command := []
  hydraRdQ : List Command := []
  hydraWbQ : List Command := []
  hydraWbDraining : Bool := false
  refIdx : ℕ := 0
  fgrCounter : ℕ := 0
  fourAw : ℤ → List ℕ := fun _ => []
  thirtyTwoAw : ℤ → List ℕ := fun _ => []
  -- DREAM
  tusc : ℕ → ℕ := fun _ => 0
  tuscPrev : ℕ → ℕ := fun _ => 0
  randomMasks : ℕ → ℕ
  tuscQ : List ℕ := []
  -- CACTUS
  cactus : ℕ → ℕ := fun _ => 0
  cactusPrev : ℕ → ℕ := fun _ => 0
  cactusRowPerms : ℕ → ℕ
  cactusInvRowPerms : ℕ → ℕ
  cactusPendingCounterIdx : ℤ → ℤ := fun _ => -1
  cactusAlertPending : ℤ → Bool := fun _ => false
  cactusLastAlertClk : ℤ → ℕ := fun _ => 0
  cactusRfmInflight : ℤ → Bool := fun _ => false
  cactusActsSinceRfm : ℤ → ℤ := fun _ => 0
  cactusTrefRefabCount : ℤ → ℤ := fun _ => 0
  cactusTrefMaxCounterIdx : ℤ → ℤ := fun _ => -1
  -- ABACUS
  abacusTable : ℕ → AbacusEntry := fun _ => {}
  abacusQ : List ℕ := []
  -- ABO
  alertN : Bool := false
  lastAlertClk : ℕ := 0
  alertRank : ℤ
  numActsAbo : ℤ := 0
  -- the row-count cache shared by the channels and the coming results of `rand()`
  rcc : LRUCache
  draws : List ℕ
  log : List Event := []
  rfmCalls : List RfmCall := []

namespace ChannelState
variable (cfg : Config) (cs : ChannelState)

def record (e : Event) : ChannelState := { cs with log := e :: cs.log }

def recordRfm (e : RfmCall) : ChannelState := { cs with rfmCalls := e :: cs.rfmCalls }

def modifyBank (i : BankId) (f : BankState → BankState) : ChannelState :=
  { cs with bankStates := Function.update cs.bankStates i (f (cs.bankStates i)) }

def isAllBankIdleInRank (rank : ℤ) : Bool :=
  (cfg.rankBanks rank).all fun i => (cs.bankStates i).state ≠ .open

/-- A request without a transaction. -/
def request (ty : CommandType) (rank bankgroup bank : ℤ) : Command :=
  ⟨ty, { rank := rank, bankgroup := bankgroup, bank := bank }, noAddr⟩

def addRefresh (req : Command) : ChannelState :=
  { cs with refreshQ := cs.refreshQ ++ [req], log := .requested req :: cs.log }

def bankNeedRefresh (rank bankgroup bank : ℤ) (need : Bool) : ChannelState :=
  if need then cs.addRefresh (request .refreshBank rank bankgroup bank)
  else { cs with
    refreshQ := cs.refreshQ.eraseP fun c =>
      c.rank = rank && c.bankgroup = bankgroup && c.bank = bank }

def banksetNeedRefresh (rank bank : ℤ) (need : Bool) : ChannelState :=
  if need then cs.addRefresh (request .refSb rank (-1) bank)
  else { cs with refreshQ := cs.refreshQ.eraseP fun c => c.rank = rank && c.bank = bank }

def rankNeedRefresh (rank : ℤ) (need : Bool) : ChannelState :=
  if need then cs.addRefresh (request .refAb rank (-1) (-1))
  else { cs with refreshQ := cs.refreshQ.eraseP fun c => c.rank = rank }

/-- The requests with the target of an RFM or DRFM. -/
def rfmTarget (cmd c : Command) : Bool :=
  if cmd.isRankCMD then c.rank = cmd.rank
  else if cmd.isSbCMD then c.rank = cmd.rank && c.bank = cmd.bank
  else c.rank = cmd.rank && c.bankgroup = cmd.bankgroup && c.bank = cmd.bank

/-- Queue a request unless one for the same target waits, or drop the first one. -/
def needRFM (req : Command) (target : Command → Bool) (need : Bool) : ChannelState :=
  if need then
    if cs.rfmQ.any target then cs else { cs with rfmQ := cs.rfmQ ++ [req] }
  else { cs with
    rfmQ := cs.rfmQ.eraseP target
    rfmCalls := .drop req (cs.rfmQ.find? target) :: cs.rfmCalls }

def banksetNeedRFM (rank bank : ℤ) (need : Bool) : ChannelState :=
  cs.needRFM (request .rfmSb rank (-1) bank) (fun c => c.rank = rank && c.bank = bank) need

def rankNeedRFM (rank : ℤ) (need : Bool) : ChannelState :=
  cs.needRFM (request .rfmAb rank (-1) (-1)) (fun c => c.rank = rank) need

def bankNeedDRFM (rank bankgroup bank : ℤ) (need : Bool) : ChannelState :=
  cs.needRFM (request .drfmB rank bankgroup bank)
    (fun c => c.rank = rank && c.bankgroup = bankgroup && c.bank = bank) need

def banksetNeedDRFM (rank bank : ℤ) (need : Bool) : ChannelState :=
  cs.needRFM (request .drfmSb rank (-1) bank) (fun c => c.rank = rank && c.bank = bank) need

def rankNeedDRFM (rank : ℤ) (need : Bool) : ChannelState :=
  cs.needRFM (request .drfmAb rank (-1) (-1)) (fun c => c.rank = rank) need

def isFAWReady (rank : ℤ) (currTime : ℕ) : Bool :=
  match cs.fourAw rank with
  | [] => true
  | t :: ts => !(currTime < t && 4 ≤ (t :: ts).length)

def is32AWReady (rank : ℤ) (currTime : ℕ) : Bool :=
  match cs.thirtyTwoAw rank with
  | [] => true
  | t :: ts => !(currTime < t && 32 ≤ (t :: ts).length)

def activationWindowOk (rank : ℤ) (currTime : ℕ) : Bool :=
  if cfg.isGDDR then cs.isFAWReady rank currTime && cs.is32AWReady rank currTime
  else cs.isFAWReady rank currTime

/-- Slide a window: drop its oldest entry once that has expired. -/
def slide (window : List ℕ) (currTime expiry : ℕ) : List ℕ :=
  match window with
  | [] => [expiry]
  | t :: ts => if t ≤ currTime then ts ++ [expiry] else t :: ts ++ [expiry]

def updateActivationTimes (rank : ℤ) (currTime : ℕ) : ChannelState :=
  let cs := { cs with
    fourAw := Function.update cs.fourAw rank
      (slide (cs.fourAw rank) currTime (addDelay currTime cfg.tFAW)) }
  if cfg.isGDDR then
    { cs with
      thirtyTwoAw := Function.update cs.thirtyTwoAw rank
        (slide (cs.thirtyTwoAw rank) currTime (addDelay currTime cfg.t32AW)) }
  else cs

end ChannelState
end CactusDram
