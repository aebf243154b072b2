import Mathlib.Tactic

/-! Commands, addresses and transactions of the memory controller, together with the
fixed-width arithmetic and the process exits the simulator relies on. -/
namespace CactusDram

/-- The command alphabet. `size` is the sentinel that closes the enumeration; an invalid
`Command()` is an absent command here, so no command is ever built with it. -/
inductive CommandType
  | read
  | readPrecharge
  | write
  | writePrecharge
  | activate
  | precharge
  | refreshBank
  | refSb
  | refAb
  | srefEnter
  | srefExit
  | rfmSb
  | rfmAb
  | drfmB
  | drfmSb
  | drfmAb
  | preAb
  | preSb
  | size
  deriving DecidableEq, Repr

/-- A decoded location. A component that does not apply to a command holds `-1`. -/
structure Address where
  channel : ℤ := -1
  rank : ℤ := -1
  bankgroup : ℤ := -1
  bank : ℤ := -1
  row : ℤ := -1
  column : ℤ := -1
  deriving DecidableEq, Repr

/-- The index of one bank in the three-dimensional table of bank states. -/
structure BankId where
  rank : ℤ
  bankgroup : ℤ
  bank : ℤ
  deriving DecidableEq, Repr

def Address.bankId (a : Address) : BankId := ⟨a.rank, a.bankgroup, a.bank⟩

/-- Byte addresses are 64-bit words. -/
abbrev HexAddr := BitVec 64

/-- The address `-1` carried by every command that serves no transaction. -/
def noAddr : HexAddr := BitVec.allOnes 64

structure Command where
  cmdType : CommandType
  addr : Address
  hexAddr : HexAddr
  deriving DecidableEq, Repr

namespace Command

def isRefresh (c : Command) : Bool :=
  c.cmdType = .refAb || c.cmdType = .refSb || c.cmdType = .refreshBank

def isRFM (c : Command) : Bool := c.cmdType = .rfmAb || c.cmdType = .rfmSb

def isDRFM (c : Command) : Bool :=
  c.cmdType = .drfmAb || c.cmdType = .drfmSb || c.cmdType = .drfmB

def isRead (c : Command) : Bool := c.cmdType = .read || c.cmdType = .readPrecharge

def isWrite (c : Command) : Bool := c.cmdType = .write || c.cmdType = .writePrecharge

def isReadWrite (c : Command) : Bool := c.isRead || c.isWrite

def isSbCMD (c : Command) : Bool :=
  c.cmdType = .rfmSb || c.cmdType = .refSb || c.cmdType = .drfmSb || c.cmdType = .preSb

def isRankCMD (c : Command) : Bool :=
  c.cmdType = .refAb || c.cmdType = .srefEnter || c.cmdType = .srefExit ||
    c.cmdType = .rfmAb || c.cmdType = .drfmAb || c.cmdType = .preAb

def rank (c : Command) : ℤ := c.addr.rank
def bankgroup (c : Command) : ℤ := c.addr.bankgroup
def bank (c : Command) : ℤ := c.addr.bank
def row (c : Command) : ℤ := c.addr.row
def column (c : Command) : ℤ := c.addr.column
def bankId (c : Command) : BankId := c.addr.bankId

end Command

structure Transaction where
  addr : HexAddr
  addedCycle : ℕ := 0
  completeCycle : ℕ := 0
  isWrite : Bool
  deriving DecidableEq, Repr

/-- The functions whose `AbruptExit` branches are modelled. -/
inductive Site
  | bankGetReadyCommand
  | bankUpdateState
  | channelGetReadyCommand
  | channelUpdateTiming
  | updateREFCounter
  | updateCommandStats
  | getTuscIdx
  | getRowIdx
  | getCactusIdx
  | getCactusRowIdx
  deriving DecidableEq, Repr

/-- The ways the process ends: `AbruptExit`, the three `exit(1)` calls of the transaction
path, the exceptions thrown for an unsupported queue structure, and the read of the front
of an empty vector. -/
inductive Exit
  | abruptExit (site : Site)
  | notInReadQueue
  | notInWriteQueue
  | cannotFindCmd
  | runtimeError
  | emptyFront
  deriving DecidableEq, Repr

/-- Conversion of an integer to `uint16_t`. -/
def u16 (x : ℤ) : ℕ := (x % 2 ^ 16).toNat

/-- Conversion of an integer to `uint32_t`. -/
def u32 (x : ℤ) : ℕ := (x % 2 ^ 32).toNat

/-- Conversion of an integer to `uint64_t`. -/
def u64 (x : ℤ) : ℕ := (x % 2 ^ 64).toNat

/-- `clk + delay` for a 64-bit clock and a signed delay. A negative sum wraps to a time
close to `2^64`; the clock itself is taken never to reach `2^64`. -/
def addDelay (clk : ℕ) (delay : ℤ) : ℕ :=
  if 0 ≤ (clk : ℤ) + delay then ((clk : ℤ) + delay).toNat
  else ((clk : ℤ) + delay + 2 ^ 64).toNat

/-- The number of halvings that bring a number down to at most one. -/
def logBase2 (n : ℕ) : ℕ := n.log2

lemma logBase2_of_le_one {n : ℕ} (h : n ≤ 1) : logBase2 n = 0 := by
  interval_cases n <;> rfl

/-- The loop of `LogBase2`: one halving, one increment. -/
lemma logBase2_halve {n : ℕ} (h : 1 < n) : logBase2 n = logBase2 (n / 2) + 1 := by
  unfold logBase2
  rw [Nat.log2_def]
  simp [show 2 ≤ n from h]

lemma two_pow_logBase2_le {n : ℕ} (h : 0 < n) : 2 ^ logBase2 n ≤ n :=
  Nat.log2_self_le (Nat.pos_iff_ne_zero.mp h)

/-- The wrap only ever postpones. -/
lemma le_addDelay (clk : ℕ) (delay : ℤ) : (clk : ℤ) + delay ≤ addDelay clk delay := by
  unfold addDelay
  split <;> omega

end CactusDram
