import CactusDram.Channel.State

/-! The channel-wide trackers DREAM, CACTUS and ABACUS: counting before an activation,
mitigation, and the resets that follow refresh. -/
namespace CactusDram
namespace ChannelState
variable (cfg : Config) (cs : ChannelState)

/-- The position of a bank in the tables that list all banks of the channel. -/
def bankIdx (i : BankId) : ℕ :=
  i.rank.toNat * cfg.bankgroups * cfg.banksPerGroup + i.bankgroup.toNat * cfg.banksPerGroup +
    i.bank.toNat

def totalBanks : ℕ := cfg.ranks * cfg.bankgroups * cfg.banksPerGroup

def tuscSize : ℕ := cfg.rows / cfg.dreamK

def getTuscIdx (i : BankId) (rowid : ℕ) : Except Exit ℕ :=
  if cfg.dreamPolicy = 0 then .ok (rowid / cfg.dreamK)
  else if cfg.dreamPolicy = 1 then
    .ok (u32 ((rowid % tuscSize cfg : ℕ) - (bankIdx cfg i : ℤ) + tuscSize cfg) % tuscSize cfg)
  else if cfg.dreamPolicy = 2 then
    .ok (rowid / cfg.dreamK ^^^
      cs.randomMasks (bankIdx cfg i + rowid % cfg.dreamK * totalBanks cfg))
  else .error (.abruptExit .getTuscIdx)

def getRowIdx (i : BankId) (tuscIdx rowNum : ℕ) : Except Exit ℕ :=
  if cfg.dreamPolicy = 0 then .ok (tuscIdx * cfg.dreamK + rowNum)
  else if cfg.dreamPolicy = 1 then
    .ok ((tuscIdx + bankIdx cfg i + rowNum * tuscSize cfg) % cfg.rows)
  else if cfg.dreamPolicy = 2 then
    .ok ((tuscIdx ^^^ cs.randomMasks (bankIdx cfg i + rowNum * totalBanks cfg)) * cfg.dreamK + rowNum)
  else .error (.abruptExit .getRowIdx)

/-- Queue the rows of one counter for mitigation in one bank. -/
def dreamInsertBank (tuscIdx : ℕ) (cs : ChannelState) (i : BankId) : Except Exit ChannelState :=
  (List.range cfg.dreamK).foldlM
    (fun cs l => do
      let rowid ← cs.getRowIdx cfg i tuscIdx l
      .ok (cs.modifyBank i fun b => b.insertDrfm cfg rowid)) cs

/-- The counter value that is compared with the threshold. -/
def tuscVal (idx : ℕ) : ℕ :=
  if cfg.dreamPrevEnable then u32 (cs.tusc idx + cs.tuscPrev idx) else cs.tusc idx

def tuscThreshold : ℕ := if cfg.dreamPrevEnable then u32 (cfg.dreamTh * 2) else u32 cfg.dreamTh

def dreamPreact (i : BankId) (rowid : ℕ) : Except Exit ChannelState := do
  let tuscIdx ← cs.getTuscIdx cfg i rowid
  let cs := { cs with tusc := Function.update cs.tusc tuscIdx (u32 (cs.tusc tuscIdx + 1)) }
  if cfg.dreamMode = 0 then .ok cs
  else
    if tuscThreshold cfg ≤ cs.tuscVal cfg tuscIdx then do
      let cs ← cfg.allBanks.foldlM (dreamInsertBank cfg tuscIdx) cs
      .ok { cs with
        tuscQ := cs.tuscQ ++ List.replicate cfg.dreamK tuscIdx
        log := .dreamCross tuscIdx :: cs.log }
    else .ok cs

def dreamMitig : ChannelState :=
  if cfg.dreamMode = 0 then cs
  else
    match cs.tuscQ with
    | [] => cs
    | t :: rest =>
      { cs with
        tuscPrev := Function.update cs.tuscPrev t (cs.tusc t)
        tusc := Function.update cs.tusc t 0
        tuscQ := rest
        log := .dreamMitig t :: cs.log }

/-- With DREAM off the table only feeds a printed statistic and is then cleared. -/
def dreamRefresh (shouldReset : Bool) : ChannelState :=
  if cfg.dreamMode = 0 ∧ shouldReset ∧ cs.refIdx % (cfg.refchunks / cfg.dreamReset) = 0 then
    { cs with tusc := fun _ => 0 }
  else if cfg.dreamMode = 1 ∧ shouldReset then
    let perRef := cfg.dreamReset * (tuscSize cfg / cfg.refchunks)
    let first := cs.refIdx % (cfg.refchunks / cfg.dreamReset) * perRef
    { cs with
      tuscPrev := fun i => if first ≤ i ∧ i < first + perRef then cs.tusc i else cs.tuscPrev i
      tusc := fun i => if first ≤ i ∧ i < first + perRef then 0 else cs.tusc i
      log := .dreamReset first (first + perRef) :: cs.log }
  else cs

/-- Counters per rank. -/
def cactusSize : ℕ := cfg.rows

def getCactusIdx (i : BankId) (rowid : ℕ) : Except Exit ℕ :=
  if cfg.cactusPolicy = 0 then .ok (i.rank.toNat * cactusSize cfg + rowid)
  else if cfg.cactusPolicy = 1 then
    .ok (i.rank.toNat * cactusSize cfg + cs.cactusInvRowPerms (bankIdx cfg i * cfg.rows + rowid))
  else .error (.abruptExit .getCactusIdx)

def getCactusRowIdx (i : BankId) (cactusIdx : ℕ) : Except Exit ℕ :=
  let localIdx := u32 ((cactusIdx : ℤ) - i.rank.toNat * cactusSize cfg)
  if cfg.cactusPolicy = 0 then .ok localIdx
  else if cfg.cactusPolicy = 1 then .ok (cs.cactusRowPerms (bankIdx cfg i * cfg.rows + localIdx))
  else .error (.abruptExit .getCactusRowIdx)

/-- As for DREAM, the previous epoch may be added to a counter, against twice the threshold. -/
def cactusVal (idx : ℕ) : ℕ :=
  if cfg.cactusPrevEnable then u32 (cs.cactus idx + cs.cactusPrev idx) else cs.cactus idx

def cactusThreshold : ℕ := if cfg.cactusPrevEnable then u32 (cfg.cactusTh * 2) else u32 cfg.cactusTh

/-- Keep the register of the rank on its hottest live counter. -/
def cactusTrackMax (rank : ℤ) (idx : ℕ) : ChannelState :=
  if cfg.trefEnable = 1 ∧ cfg.trefMode = 1 then
    let maxIdx := cs.cactusTrefMaxCounterIdx rank
    if maxIdx < 0 ∨ cs.cactusVal cfg maxIdx.toNat < cs.cactusVal cfg idx then
      { cs with cactusTrefMaxCounterIdx := Function.update cs.cactusTrefMaxCounterIdx rank idx }
    else cs
  else cs

/-- Raise an alert unless one is being served or too few activations followed the last one. -/
def cactusRaise (rank : ℤ) (idx clk : ℕ) : ChannelState :=
  if cs.cactusAlertPending rank || cs.cactusRfmInflight rank ||
      cs.cactusActsSinceRfm rank < cfg.aboDelayActs then cs
  else
    { cs with
      cactusAlertPending := Function.update cs.cactusAlertPending rank true
      cactusLastAlertClk := Function.update cs.cactusLastAlertClk rank clk
      cactusPendingCounterIdx := Function.update cs.cactusPendingCounterIdx rank idx
      log := .alert rank idx :: cs.log }

/-- Count an activation on a counter of the rank and raise an alert at the threshold. -/
def cactusCount (rank : ℤ) (idx clk : ℕ) : ChannelState :=
  let cs := { cs with cactus := Function.update cs.cactus idx (u32 (cs.cactus idx + 1)) }
  if cfg.cactusMode = 0 then cs
  else
    let cs := cs.cactusTrackMax cfg rank idx
    if cactusThreshold cfg ≤ cs.cactusVal cfg idx then cs.cactusRaise cfg rank idx clk
    else cs

def cactusPreact (i : BankId) (rowid clk : ℕ) : Except Exit ChannelState := do
  let idx ← cs.getCactusIdx cfg i rowid
  .ok (cs.cactusCount cfg i.rank idx clk)

/-- Refresh the victims of a counter in every bank of the rank and restart the counter. -/
def cactusMitigCounter (rank : ℤ) (idx : ℕ) : Except Exit ChannelState :=
  if cfg.cactusMode = 0 then .ok cs
  else do
    let cs ← (cfg.rankBanks rank).foldlM
      (fun cs i => do
        let aggressor ← cs.getCactusRowIdx cfg i idx
        .ok (cs.modifyBank i fun b => b.cactusMitig cfg aggressor)) cs
    let cs := { cs with
      cactusPrev := Function.update cs.cactusPrev idx (cs.cactus idx)
      cactus := Function.update cs.cactus idx 0
      log := .cactusMitig idx :: cs.log }
    .ok (if cs.cactusTrefMaxCounterIdx rank = (idx : ℤ) then
      { cs with cactusTrefMaxCounterIdx := Function.update cs.cactusTrefMaxCounterIdx rank (-1) }
      else cs)

def clearPending (rank : ℤ) : ChannelState :=
  { cs with
    cactusPendingCounterIdx := Function.update cs.cactusPendingCounterIdx rank (-1)
    log := .pendingMitig rank :: cs.log }

def clearInflight (rank : ℤ) : ChannelState :=
  { cs with
    cactusRfmInflight := Function.update cs.cactusRfmInflight rank false
    cactusActsSinceRfm := Function.update cs.cactusActsSinceRfm rank 0
    log := .actsCleared rank :: cs.log }

def clearAlert (rank : ℤ) : ChannelState :=
  { cs with cactusAlertPending := Function.update cs.cactusAlertPending rank false }

def cactusMitig (rank : ℤ) : Except Exit ChannelState :=
  if cfg.cactusMode = 0 then .ok cs
  else if cs.cactusPendingCounterIdx rank < 0 then .ok cs
  else do
    let cs ← cs.cactusMitigCounter cfg rank (cs.cactusPendingCounterIdx rank).toNat
    .ok (cs.clearPending rank)

/-- A REFab absorbs the RFMab of an outstanding alert. -/
def cactusTrefMitig (rank : ℤ) : Except Exit ChannelState :=
  if cfg.cactusMode = 0 ∨ cfg.trefEnable = 0 ∨ cfg.trefMode ≠ 0 then .ok cs
  else if cs.cactusPendingCounterIdx rank < 0 then .ok cs
  else if !cs.cactusAlertPending rank && !cs.cactusRfmInflight rank then .ok cs
  else do
    let cs ← cs.cactusMitig cfg rank
    .ok (((cs.clearAlert rank).clearInflight rank).rankNeedRFM rank false)

/-- Every `tref_interval` REFabs mitigate the counter in the max register. -/
def cactusTrefMaxMitig (rank : ℤ) : Except Exit ChannelState :=
  if cfg.cactusMode = 0 ∨ cfg.trefEnable = 0 ∨ cfg.trefMode ≠ 1 then .ok cs
  else if cfg.trefInterval ≤ 0 then .ok cs
  else
    let cs := { cs with
      cactusTrefRefabCount :=
        Function.update cs.cactusTrefRefabCount rank (cs.cactusTrefRefabCount rank + 1) }
    if cs.cactusTrefRefabCount rank % cfg.trefInterval ≠ 0 then .ok cs
    else
      let maxIdx := cs.cactusTrefMaxCounterIdx rank
      if maxIdx < 0 then .ok cs
      else if cs.cactusVal cfg maxIdx.toNat = 0 then .ok cs
      else do
        let cs ← cs.cactusMitigCounter cfg rank maxIdx.toNat
        .ok (if cs.cactusPendingCounterIdx rank = maxIdx then
          (((cs.clearPending rank).clearAlert rank).clearInflight rank).rankNeedRFM rank false
          else cs)

/-- The counters of the rank that one REF resets. -/
def cactusChunk (rank : ℤ) : ℕ × ℕ :=
  let perRef := cfg.cactusReset * (cactusSize cfg / cfg.refchunks)
  let first := rank.toNat * cactusSize cfg +
    cs.refIdx % (cfg.refchunks / cfg.cactusReset) * perRef
  (first, first + perRef)

def cactusRefresh (rank : ℤ) (shouldReset : Bool) : ChannelState :=
  if cfg.cactusMode = 0 ∨ !shouldReset then cs
  else
    let (first, last) := cs.cactusChunk cfg rank
    let cs := { cs with
      cactusPrev := fun i => if first ≤ i ∧ i < last then cs.cactus i else cs.cactusPrev i
      cactus := fun i => if first ≤ i ∧ i < last then 0 else cs.cactus i
      log := .cactusReset first last :: cs.log }
    let maxIdx := cs.cactusTrefMaxCounterIdx rank
    if 0 ≤ maxIdx ∧ first ≤ maxIdx.toNat ∧ maxIdx.toNat < last then
      { cs with cactusTrefMaxCounterIdx := Function.update cs.cactusTrefMaxCounterIdx rank (-1) }
    else cs

/-- A second activation of the row by the same bank counts a round and restarts the vector. -/
def abacusCount (i : BankId) (rowid : ℕ) : ChannelState :=
  let mask : BitVec 64 := 1#64 <<< bankIdx cfg i
  let e := cs.abacusTable rowid
  { cs with
    abacusTable := Function.update cs.abacusTable rowid
      (if e.sav &&& mask = 0 then { e with sav := e.sav ||| mask }
        else ⟨u32 (e.rac + 1), mask⟩) }

def abacusPreact (i : BankId) (rowid : ℕ) : ChannelState :=
  if cfg.abacusMode = 0 then cs
  else
    let cs := cs.abacusCount cfg i rowid
    if u32 cfg.abacusTh ≤ (cs.abacusTable rowid).rac then
      let cs := cfg.allBanks.foldl (fun cs i => cs.modifyBank i fun b => b.insertDrfm cfg rowid) cs
      { cs with abacusQ := cs.abacusQ ++ [rowid], log := .abacusCross rowid :: cs.log }
    else cs

def abacusMitig : ChannelState :=
  if cfg.abacusMode = 0 then cs
  else
    match cs.abacusQ with
    | [] => cs
    | rowid :: rest =>
      { cs with
        abacusTable := Function.update cs.abacusTable rowid {}
        abacusQ := rest
        log := .abacusMitig rowid :: cs.log }

def abacusRefresh (shouldReset : Bool) : ChannelState :=
  if cfg.abacusMode = 0 ∨ !shouldReset then cs
  else
    let perRef := cfg.rows / cfg.refchunks
    let first := cs.refIdx % cfg.refchunks * perRef
    { cs with
      abacusTable := fun r => if first ≤ r ∧ r < first + perRef then {} else cs.abacusTable r
      log := .abacusReset first (first + perRef) :: cs.log }

def resetAlert : ChannelState := { cs with alertN := false, alertRank := -1 }

/-- Turn a CACTUS alert whose delay has passed into an RFMab request. -/
def cactusTick (clk : ℕ) (cs : ChannelState) (rank : ℤ) : ChannelState :=
  if !cs.cactusAlertPending rank || cs.cactusRfmInflight rank then cs
  else if clk < addDelay (cs.cactusLastAlertClk rank) cfg.tABOAct then cs
  else
    let cs := cs.recordRfm (.cactus rank (cs.rfmQ.filter fun c => c.rank = rank))
    let cs := (cs.rankNeedRFM rank true).clearAlert rank
    { cs with cactusRfmInflight := Function.update cs.cactusRfmInflight rank true }

def clockTick (clk : ℕ) : ChannelState :=
  let cs :=
    if cs.alertN ∧ 0 ≤ cs.alertRank ∧ addDelay cs.lastAlertClk cfg.tABOAct ≤ clk then
      (cs.rankNeedRFM cs.alertRank true).resetAlert
    else cs
  if cfg.cactusMode = 0 then cs
  else (List.range cfg.ranks).foldl (fun cs (rank : ℕ) => cactusTick cfg clk cs rank) cs

end ChannelState
end CactusDram
