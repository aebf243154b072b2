import CactusDram.LRUCache
import CactusDram.Timing

/-! One DRAM bank: its row buffer, its earliest issue times, its activation counters and the
per-bank trackers. -/
namespace CactusDram

structure DRFMQEntry where
  rowid : ℕ
  ctr : ℕ
  deriving DecidableEq, Repr

structure GrapheneQEntry where
  rowid : ℕ
  ctr : ℕ
  deriving DecidableEq, Repr

/-- The index of the first largest element. -/
def maxIdx : List ℕ → ℕ
  | [] => 0
  | x :: xs => if xs.all (· ≤ x) then 0 else maxIdx xs + 1

inductive BankState.State
  | open
  | closed
  | sref
  | pd
  | size
  deriving DecidableEq, Repr

/-- The part of a bank that only issued commands change: the row buffer, the earliest issue
times and the counters that follow the command stream. -/
structure BankCore where
  state : BankState.State := .closed
  cmdTiming : CommandType → ℕ := fun _ => 0
  openRow : ℤ := -1
  rowHitCount : ℕ := 0
  raaCtr : ℤ := 0
  lastCmd : Option Command := none
  refIdx : ℕ := 0
  fgrCounter : ℕ := 0
  prac : ℕ → ℕ := fun _ => 0
  moatMaxPracIdx : ℤ := -1

/-- A bank with its trackers, which readiness queries change too. -/
structure BankState extends BankCore where
  drfmQ : List DRFMQEntry := []
  drfmIssued : Bool := false
  mintRows : List ℕ := []
  grapheneQ : List GrapheneQEntry := []
  grapheneSpillCounter : ℕ := 0
  grapheneEntries : ℕ := 0
  hydraGct : ℕ → ℕ := fun _ => 0
  hydraGctValid : ℕ → Bool := fun _ => true
  hydraCounts : ℕ → ℕ := fun _ => 0
  numRowsPerGct : ℕ := 0

namespace BankState
variable (cfg : Config) (b : BankState)

/-- The size of the Graphene table, when the constructor reaches its branch. -/
def grapheneTableSize : ℕ :=
  let maxActs := u64 (((cfg.refchunks : ℤ) * cfg.tREFI).tdiv (cfg.tRAS + cfg.tRP))
  u32 (maxActs / u64 cfg.grapheneTh)

/-- The command a bank must see before, or as, the requested one. `none` means that the bank
has to wait for a DRFM. -/
def requiredType (cmd : Command) : Except Exit (Option CommandType) :=
  let rfmTh := if cfg.rfmPolicy ≠ 0 then cfg.raammt else cfg.raaimt
  match b.state with
  | .closed =>
    match cmd.cmdType with
    | .read | .readPrecharge | .write | .writePrecharge =>
      if cfg.rfmMode = 1 ∧ rfmTh ≤ b.raaCtr then .ok (some .rfmSb)
      else if cfg.rfmMode = 2 ∧ rfmTh ≤ b.raaCtr then .ok (some .rfmAb)
      else if b.drfmIssued then .ok none
      else .ok (some .activate)
    | .refreshBank | .refSb | .refAb | .srefEnter | .rfmSb | .rfmAb | .drfmB | .drfmSb | .drfmAb =>
      .ok (some cmd.cmdType)
    | _ => .error (.abruptExit .bankGetReadyCommand)
  | .open =>
    match cmd.cmdType with
    | .read | .readPrecharge | .write | .writePrecharge =>
      if cmd.row = b.openRow then .ok (some cmd.cmdType) else .ok (some .precharge)
    | .refreshBank | .drfmB => .ok (some .precharge)
    | .refAb | .rfmAb | .drfmAb | .srefEnter => .ok (some .preAb)
    | .rfmSb | .refSb | .drfmSb => .ok (some .preSb)
    | _ => .error (.abruptExit .bankGetReadyCommand)
  | .sref =>
    match cmd.cmdType with
    | .read | .readPrecharge | .write | .writePrecharge => .ok (some .srefExit)
    | _ => .error (.abruptExit .bankGetReadyCommand)
  | .pd | .size => .error (.abruptExit .bankGetReadyCommand)

def getReadyCommand (cmd : Command) (clk : ℕ) : Except Exit (Option Command) := do
  match ← b.requiredType cfg cmd with
  | some ty => if b.cmdTiming ty ≤ clk then .ok (some { cmd with cmdType := ty }) else .ok none
  | none => .ok none

def updateTiming (ty : CommandType) (time : ℕ) : BankState :=
  { b with cmdTiming := Function.update b.cmdTiming ty (max (b.cmdTiming ty) time) }

def isSamplerFull : Bool :=
  if cfg.drfmMode = 0 then false
  else if u32 cfg.drfmQsize ≤ b.drfmQ.length then true
  else b.drfmQ.any fun e => cfg.drfmQth ≤ e.ctr

def markDRFMIssued : BankState := { b with drfmIssued := true }

/-- Count an activation of a sampled row. Only the first entry of the row is counted. -/
def drfmPostAct (rowid : ℕ) : BankState :=
  match b.drfmQ.findIdx? (·.rowid = rowid) with
  | some i => { b with drfmQ := b.drfmQ.modify i fun e => { e with ctr := u16 (e.ctr + 1) } }
  | none => b

def insertDrfm (rowid : ℕ) : BankState :=
  if cfg.drfmMode = 0 then b else { b with drfmQ := b.drfmQ ++ [⟨rowid, 0⟩] }

/-- Take the hottest sampled row, the first one among equals. -/
def drfmMitig : Option ℕ × BankState :=
  let i := maxIdx (b.drfmQ.map (·.ctr))
  match b.drfmQ[i]? with
  | some e => (some e.rowid, { b with drfmQ := b.drfmQ.eraseIdx i })
  | none => (none, b)

def mintPreact (rowid : ℕ) (draws : List ℕ) : BankState × List ℕ :=
  if cfg.mintMode = 0 then (b, draws)
  else
    let rows := b.mintRows ++ [rowid]
    if u32 cfg.mintWindow ≤ rows.length then
      let idx := draws.headD 0 % rows.length
      ({ b with mintRows := [], drfmQ := b.drfmQ ++ [⟨rows.getD idx 0, 0⟩] }, draws.tail)
    else ({ b with mintRows := rows }, draws)

def paraPreact (rowid : ℕ) (draws : List ℕ) : BankState × List ℕ :=
  if cfg.paraMode = 0 then (b, draws)
  else if ((draws.headD 0 % 2 ^ 20 : ℕ) : ℚ) / 2 ^ 20 < cfg.paraProb then
    ({ b with drfmQ := b.drfmQ ++ [⟨rowid, 0⟩] }, draws.tail)
  else (b, draws.tail)

/-- The Misra-Gries update of the Graphene table. -/
def grapheneCount (rowid : ℕ) : BankState :=
  match b.grapheneQ.findIdx? (·.rowid = rowid) with
  | some i => { b with grapheneQ := b.grapheneQ.modify i fun e => { e with ctr := u16 (e.ctr + 1) } }
  | none =>
    if b.grapheneQ.length < b.grapheneEntries then
      { b with grapheneQ := b.grapheneQ ++ [⟨rowid, 1⟩] }
    else
      match b.grapheneQ.findIdx? (·.ctr = b.grapheneSpillCounter) with
      | some i =>
        { b with grapheneQ := b.grapheneQ.set i ⟨rowid, u16 (b.grapheneSpillCounter + 1)⟩ }
      | none => { b with grapheneSpillCounter := b.grapheneSpillCounter + 1 }

def graphenePreact (rowid : ℕ) : BankState :=
  if cfg.grapheneMode = 0 then b
  else
    let b := b.grapheneCount rowid
    match b.grapheneQ.find? fun e => cfg.grapheneTh ≤ e.ctr with
    | some e => { b with drfmQ := b.drfmQ ++ [⟨e.rowid, 0⟩] }
    | none => b

def hydraPreact (cmd : Command) (rcc : LRUCache) : BankState × LRUCache :=
  if cfg.hydraMode = 0 then (b, rcc)
  else
    let rowid := u32 cmd.row
    let g := rowid % cfg.hydraGctSize
    let (b, rcc) :=
      if b.hydraGctValid g then
        ({ b with hydraGct := Function.update b.hydraGct g (u32 (b.hydraGct g + 1)) }, rcc)
      else
        ({ b with hydraCounts := Function.update b.hydraCounts rowid (u32 (b.hydraCounts rowid + 1)) },
          (rcc.write (cfg.resetColBits cmd.hexAddr) (cfg.removeColBits cmd.hexAddr)).2)
    let b :=
      if u32 cfg.hydraGctTh ≤ b.hydraGct g ∧ b.hydraGctValid g then
        { b with
          hydraGctValid := Function.update b.hydraGctValid g false
          hydraCounts := (List.range b.numRowsPerGct).foldl
            (fun counts i => Function.update counts (i * cfg.hydraGctSize + g) (u32 cfg.hydraGctTh))
            b.hydraCounts }
      else b
    if b.hydraGctValid g then (b, rcc)
    else if u32 cfg.hydraTh ≤ b.hydraCounts rowid then
      ({ b with drfmQ := b.drfmQ ++ [⟨rowid, 0⟩] }, rcc)
    else (b, rcc)

/-- The row-count cache access made before a Hydra activation. -/
def hydraCheckRcc (cmd : Command) (rcc : LRUCache) : HexAddr × LRUCache :=
  if cfg.hydraMode = 0 then (0, rcc)
  else if b.hydraGctValid (u32 cmd.row % cfg.hydraGctSize) then (0, rcc)
  else rcc.read (cfg.resetColBits cmd.hexAddr) (cfg.removeColBits cmd.hexAddr)

/-- Feed an activation to the per-bank trackers. -/
def preACT (cmd : Command) (draws : List ℕ) (rcc : LRUCache) : BankState × List ℕ × LRUCache :=
  let rowid := u32 cmd.row
  let (b, draws) := b.mintPreact cfg rowid draws
  let (b, draws) := b.paraPreact cfg rowid draws
  let b := b.graphenePreact cfg rowid
  let (b, rcc) := b.hydraPreact cfg cmd rcc
  (b, draws, rcc)

def grapheneRefresh : BankState :=
  if cfg.grapheneMode = 0 then b
  else if b.refIdx % cfg.rows = 0 then { b with grapheneQ := [], grapheneSpillCounter := 0 }
  else b

def hydraRefresh : BankState :=
  if cfg.hydraMode = 0 then b
  else if b.refIdx % cfg.rows = 0 then
    { b with hydraGct := fun _ => 0, hydraGctValid := fun _ => true, hydraCounts := fun _ => 0 }
  else b

/-- The register is compared as a 32-bit word, so the cleared value `-1` is the largest one. -/
def moatRefresh : BankState :=
  if cfg.moatMode = 0 then b
  else if b.refIdx ≤ u32 b.moatMaxPracIdx ∧
      u32 b.moatMaxPracIdx < u32 (b.refIdx + cfg.rowsRefreshed) then
    { b with moatMaxPracIdx := -1 }
  else b

def pracRefresh : BankState :=
  { b with
    prac := (List.range cfg.rowsRefreshed).foldl
      (fun prac i => Function.update prac ((b.refIdx + i) % cfg.rows) 0) b.prac
    refIdx := (b.refIdx + cfg.rowsRefreshed) % cfg.rows }

def moatAct (rowid : ℕ) : BankState :=
  if cfg.moatMode = 0 then b
  else if b.moatMaxPracIdx = -1 then { b with moatMaxPracIdx := rowid }
  else if b.prac b.moatMaxPracIdx.toNat < b.prac rowid then { b with moatMaxPracIdx := rowid }
  else b

def bumpPrac (prac : ℕ → ℕ) (row : ℤ) : ℕ → ℕ :=
  Function.update prac row.toNat (u32 (prac row.toNat + 1))

/-- Mitigate the register row: its neighbours each receive one activation. -/
def moatMitig : BankState :=
  if cfg.moatMode = 0 then b
  else if b.moatMaxPracIdx = -1 then b
  else
    let m := b.moatMaxPracIdx
    let prac := Function.update b.prac m.toNat 0
    let prac := if 0 < m then bumpPrac prac (m - 1) else prac
    let prac := if 1 < m then bumpPrac prac (m - 2) else prac
    let prac := if m < cfg.rows - 1 then bumpPrac prac (m + 1) else prac
    let prac := if m < cfg.rows - 2 then bumpPrac prac (m + 2) else prac
    { b with prac := prac, moatMaxPracIdx := -1 }

/-- Serve one sampled row for a tracker that keeps no table. -/
def samplerMitig (mode : ℤ) : BankState := if mode = 0 then b else b.drfmMitig.2

def dreamMitig : BankState := b.samplerMitig cfg.dreamMode
def mintMitig : BankState := b.samplerMitig cfg.mintMode
def paraMitig : BankState := b.samplerMitig cfg.paraMode
def abacusMitig : BankState := b.samplerMitig cfg.abacusMode

def grapheneMitig : BankState :=
  if cfg.grapheneMode = 0 then b
  else
    let b := b.drfmMitig.2
    { b with grapheneQ := b.grapheneQ.eraseIdx (maxIdx (b.grapheneQ.map (·.ctr))) }

def hydraMitig : BankState :=
  if cfg.hydraMode = 0 then b
  else
    match b.drfmMitig with
    | (some rowid, b) => { b with hydraCounts := Function.update b.hydraCounts rowid 0 }
    | (none, b) => b

def refreshRow (rowid : ℕ) : BankState :=
  { b with prac := Function.update b.prac rowid 0, drfmQ := b.drfmQ.filter (·.rowid ≠ rowid) }

/-- Refresh the victims within distance two of an aggressor. -/
def cactusMitig (aggressor : ℕ) : BankState :=
  let b := if 1 < aggressor then b.refreshRow (aggressor - 2) else b
  let b := if 0 < aggressor then b.refreshRow (aggressor - 1) else b
  let b := if aggressor + 1 < cfg.rows then b.refreshRow (aggressor + 1) else b
  if aggressor + 2 < cfg.rows then b.refreshRow (aggressor + 2) else b

def checkAlert : Bool :=
  if cfg.moatMode = 1 then
    b.moatMaxPracIdx ≠ -1 && u32 cfg.moatth < b.prac b.moatMaxPracIdx.toNat
  else false

/-- A refresh of a closed bank. Under FGR only every second one refreshes rows. -/
def refreshed : BankState :=
  let b := { b with
    fgrCounter := (b.fgrCounter + 1) % 2
    raaCtr := b.raaCtr - min b.raaCtr cfg.refRaaDecrement }
  if (cfg.fgr ∧ b.fgrCounter = 0) ∨ ¬cfg.fgr then
    (((b.grapheneRefresh cfg).hydraRefresh cfg).moatRefresh cfg).pracRefresh cfg
  else b

def rfmSbServed : BankState :=
  { b with raaCtr := b.raaCtr - min b.raaCtr cfg.rfmRaaDecrement }

def rfmAbServed : BankState := (b.moatMitig cfg).rfmSbServed cfg

/-- A DRFM falls through to the effect of an RFM. -/
def drfmServed : BankState :=
  let b := b.dreamMitig cfg
  let b := b.mintMitig cfg
  let b := b.paraMitig cfg
  let b := b.grapheneMitig cfg
  let b := b.hydraMitig cfg
  let b := b.abacusMitig cfg
  { b with drfmIssued := false }.rfmAbServed cfg

def activated (cmd : Command) : BankState :=
  let row := cmd.row.toNat
  let b := { b with
    state := .open
    openRow := cmd.row
    raaCtr := b.raaCtr + 1
    prac := Function.update b.prac row (u32 (b.prac row + 1)) }
  (b.moatAct cfg row).drfmPostAct row

def closeRow : BankState := { b with state := .closed, openRow := -1, rowHitCount := 0 }

def updateState (cmd : Command) : Except Exit BankState :=
  let b := { b with lastCmd := some cmd }
  match b.state with
  | .open =>
    match cmd.cmdType with
    | .read | .write => .ok { b with rowHitCount := b.rowHitCount + 1 }
    | .readPrecharge | .writePrecharge | .precharge | .preAb | .preSb => .ok b.closeRow
    | _ => .error (.abruptExit .bankUpdateState)
  | .closed =>
    match cmd.cmdType with
    | .refSb | .refreshBank | .refAb => .ok (b.refreshed cfg)
    | .drfmB | .drfmSb | .drfmAb => .ok (b.drfmServed cfg)
    | .rfmAb => .ok (b.rfmAbServed cfg)
    | .rfmSb => .ok (b.rfmSbServed cfg)
    | .activate => .ok (b.activated cfg cmd)
    | .srefEnter => .ok { b with state := .sref }
    | .preAb | .preSb => .ok b
    | _ => .error (.abruptExit .bankUpdateState)
  | .sref =>
    match cmd.cmdType with
    | .srefExit => .ok { b with state := .closed }
    | _ => .error (.abruptExit .bankUpdateState)
  | .pd | .size => .error (.abruptExit .bankUpdateState)

end BankState
end CactusDram
