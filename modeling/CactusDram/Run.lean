import CactusDram.Controller
import CactusDram.Foundations.Tables

/-! Construction of a channel and its runs: any interleaving of accepted transactions, clock
ticks, returns of completed transactions, and activity of the other channels. -/
namespace CactusDram

/-- What the constructors leave open: the outcome of the per-bank shuffle, the random DREAM masks,
members that a constructor does not set, what an access finds in the Hydra tables while they are empty,
and the future results of `rand()`. -/
structure Boot (cfg : Config) where
  channel : ℤ := 0
  shuffle : ℕ → List ℕ := fun _ => List.range cfg.rows
  randomMasks : ℕ → ℕ := fun _ => 0
  alertRank : ℤ := 0
  moatMaxPracIdx : BankId → ℤ := fun _ => 0
  grapheneSpillCounter : BankId → ℕ := fun _ => 0
  grapheneEntries : BankId → ℕ := fun _ => 0
  hydraGct : BankId → ℕ → ℕ := fun _ _ => 0
  hydraGctValid : BankId → ℕ → Bool := fun _ _ => true
  hydraCounts : BankId → ℕ → ℕ := fun _ _ => 0
  numRowsPerGct : BankId → ℕ := fun _ => 0
  draws : List ℕ := []
  shuffle_perm : ∀ b, (shuffle b).Perm (List.range cfg.rows) := by intro; rfl
  randomMasks_le : ∀ i, randomMasks i ≤ cfg.rows / cfg.dreamK - 1 := by
    intro; exact Nat.zero_le _

namespace Boot
variable {cfg : Config} (boot : Boot cfg)

/-- The tracker members are set by the first mode that is on, in the order of the tests. -/
def bank (i : BankId) : BankState :=
  let earlier := cfg.dreamMode = 1 ∨ cfg.mintMode = 1 ∨ cfg.paraMode = 1
  let hydra := ¬earlier ∧ cfg.grapheneMode ≠ 1 ∧ cfg.hydraMode = 1
  { moatMaxPracIdx :=
      if ¬earlier ∧ cfg.grapheneMode ≠ 1 ∧ cfg.hydraMode ≠ 1 ∧ cfg.moatMode = 1 then -1
      else boot.moatMaxPracIdx i
    grapheneSpillCounter :=
      if ¬earlier ∧ cfg.grapheneMode = 1 then 0 else boot.grapheneSpillCounter i
    grapheneEntries :=
      if ¬earlier ∧ cfg.grapheneMode = 1 then BankState.grapheneTableSize cfg
      else boot.grapheneEntries i
    hydraGct := if hydra then fun _ => 0 else boot.hydraGct i
    hydraGctValid := if hydra then fun _ => true else boot.hydraGctValid i
    hydraCounts := if hydra then fun _ => 0 else boot.hydraCounts i
    numRowsPerGct := if hydra then cfg.rows / cfg.hydraGctSize else boot.numRowsPerGct i }

/-- The row order of one bank: shuffled under the random policy only. -/
def rowPerm (bankIdx : ℕ) : List ℕ :=
  if cfg.cactusPolicy = 1 then boot.shuffle bankIdx else List.range cfg.rows

/-- One turn of the loop over the banks: the slice of the bank receives its row order, and every
position is written back through it into the same slice of the inverse. -/
def permuteBank (tables : (ℕ → ℕ) × (ℕ → ℕ)) (bankIdx : ℕ) : (ℕ → ℕ) × (ℕ → ℕ) :=
  let base := bankIdx * cfg.rows
  let perms n :=
    if base ≤ n ∧ n < base + cfg.rows then (boot.rowPerm bankIdx).getD (n - base) 0 else tables.1 n
  (perms, Foundations.writeAll (fun k => base + perms (base + k)) id (List.range cfg.rows) tables.2)

/-- The two flat tables of the constructor. -/
def cactusTables : (ℕ → ℕ) × (ℕ → ℕ) :=
  (List.range (ChannelState.totalBanks cfg)).foldl boot.permuteBank (fun _ => 0, fun _ => 0)

def cactusRowPerms : ℕ → ℕ := boot.cactusTables.1

def cactusInvRowPerms : ℕ → ℕ := boot.cactusTables.2

def channelState : ChannelState where
  channel := boot.channel
  bankStates := boot.bank
  randomMasks := boot.randomMasks
  cactusRowPerms := boot.cactusRowPerms
  cactusInvRowPerms := boot.cactusInvRowPerms
  alertRank := boot.alertRank
  rcc := LRUCache.updateSize cfg.hydraRccSets cfg.hydraRccWays
  draws := boot.draws

def controller : Controller where
  channelState := boot.channelState

end Boot

/-- The calls made on a controller. `others` stands for what happens between two of them: the
other channels use the shared row-count cache and `rand()`. -/
inductive Input
  | addTransaction (addr : HexAddr) (isWrite : Bool)
  | clockTick
  | returnDoneTrans (clk : ℕ)
  | others (rcc : LRUCache) (draws : List ℕ)

namespace Controller
variable (cfg : Config)

/-- A transaction that does not fit is refused and changes nothing. -/
def step (c : Controller) : Input → Except Exit Controller
  | .addTransaction addr isWrite =>
    .ok (if c.willAcceptTransaction cfg isWrite then c.addTransaction cfg addr isWrite else c)
  | .clockTick => c.clockTick cfg
  | .returnDoneTrans clk => .ok (c.returnDoneTrans clk)
  | .others rcc draws => .ok { c with channelState := { c.channelState with rcc := rcc, draws := draws } }

def run (c : Controller) (inputs : List Input) : Except Exit Controller :=
  inputs.foldlM (step cfg) c

end Controller

/-- A state reached by some run of a freshly constructed channel. -/
def Reachable (cfg : Config) (c : Controller) : Prop :=
  ∃ (boot : Boot cfg) (inputs : List Input), Controller.run cfg boot.controller inputs = .ok c

/-- One rank of two banks with four rows and one column each, almost all delays one cycle, no
refresh. The lowest bit of an address selects the bank, the next two the row. -/
def smallConfig : Config where
  ranks := 1
  bankgroups := 1
  banksPerGroup := 2
  rows := 4
  columns := 8
  shiftBits := 0
  baPos := 0
  roPos := 1
  burstCycle := 1
  CL := 1
  CWL := 1
  tCCD_L := 1
  tCCD_S := 1
  tRTRS := 1
  tRTP := 1
  tWTR_L := 1
  tWTR_S := 1
  tWR := 1
  tRP := 1
  tRRD_L := 1
  tRRD_S := 1
  tRAS := 1
  tRCD := 1
  tRFC := 1
  tRFCsb := 1
  tRFM := 1
  tRFMsb := 1
  tDRFMb := 1
  tDRFMsb := 1
  tDRFMab := 1
  tFAW := 1
  tPPD := 1
  tABOAct := 1
  refreshPolicy := .noRefresh
  refchunks := 4
  rows_pos := Nat.succ_pos 3

theorem twice_smallConfig_rows_lt :
    2 * smallConfig.bankgroups * smallConfig.banksPerGroup * smallConfig.rows < 2 ^ 31 := by
  decide

/-- A transaction, followed by some ticks. -/
def Input.request (addr : HexAddr) (isWrite : Bool) (ticks : ℕ) : List Input :=
  .addTransaction addr isWrite :: List.replicate ticks .clockTick

/-- Two reads of different rows of one bank. -/
def smallInputs : List Input := Input.request 0 false 3 ++ Input.request 2 false 9

end CactusDram
