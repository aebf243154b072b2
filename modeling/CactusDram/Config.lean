import CactusDram.Common

/-! The configuration after its initializers have run, with the defaults of the
initializers, and the address decoder. Parameters that only feed statistics, energy or
thermal output are left out. -/
namespace CactusDram

inductive DRAMProtocol
  | ddr3
  | ddr4
  | ddr5
  | gddr5
  | gddr5x
  | gddr6
  | lpddr
  | lpddr3
  | lpddr4
  | hbm
  | hbm2
  | hmc
  deriving DecidableEq, Repr

inductive RefreshPolicy
  | rankLevelSimultaneous
  | rankLevelStaggered
  | banksetLevelStaggered
  | bankLevelStaggered
  | noRefresh
  deriving DecidableEq, Repr

inductive RowBufPolicy
  | openPage
  | closePage
  | softClosePage
  deriving DecidableEq, Repr

inductive QueueStructure
  | perRank
  | perBank
  deriving DecidableEq, Repr

/-- Every geometry that survives construction has at least one rank, bankgroup, bank and
row, and its row tables are indexed by 32-bit integers. -/
structure Config where
  protocol : DRAMProtocol := .ddr5
  ranks : ℕ := 1
  bankgroups : ℕ := 2
  banksPerGroup : ℕ := 2
  rows : ℕ := 65536
  columns : ℕ := 1024
  BL : ℕ := 8
  -- address mapping
  shiftBits : ℕ := 6
  chPos : ℕ := 0
  raPos : ℕ := 0
  bgPos : ℕ := 0
  baPos : ℕ := 0
  roPos : ℕ := 0
  coPos : ℕ := 0
  hiPos : ℕ := 0
  loPos : ℕ := 0
  channels : ℕ := 1
  mopSize : ℕ := 0
  mopEnabled : Bool := false
  -- timing
  burstCycle : ℤ := 4
  AL : ℤ := 0
  CL : ℤ := 12
  CWL : ℤ := 12
  tCCD_L : ℤ := 6
  tCCD_S : ℤ := 4
  tRTRS : ℤ := 2
  tRTP : ℤ := 5
  tWTR_L : ℤ := 5
  tWTR_S : ℤ := 5
  tWR : ℤ := 10
  tRP : ℤ := 10
  tRRD_L : ℤ := 4
  tRRD_S : ℤ := 4
  tRAS : ℤ := 24
  tRCD : ℤ := 10
  tCKESR : ℤ := 12
  tXS : ℤ := 432
  tREFSBRD : ℤ := 72
  tRFC : ℤ := 74
  tRFCsb : ℤ := 74
  tRFCb : ℤ := 20
  tREFI : ℤ := 7800
  tREFIsb : ℤ := 1950
  tREFIb : ℤ := 1950
  tFAW : ℤ := 50
  tPPD : ℤ := 2
  t32AW : ℤ := 330
  tRCDRD : ℤ := 24
  tRCDWR : ℤ := 20
  -- system
  queueStructure : QueueStructure := .perBank
  rowBufPolicy : RowBufPolicy := .openPage
  refreshPolicy : RefreshPolicy := .rankLevelStaggered
  refchunks : ℕ := 8192
  cmdQueueSize : ℕ := 16
  unifiedQueue : Bool := false
  transQueueSize : ℕ := 32
  enableSelfRefresh : Bool := false
  srefThreshold : ℤ := 1000
  hbmDualCmd : Bool := true
  -- RFM
  rfmMode : ℤ := 0
  rfmPolicy : ℤ := 1
  raaimt : ℤ := 32
  raammt : ℤ := 96
  rfmRaaDecrement : ℤ := 32
  refRaaDecrement : ℤ := 16
  tRFM : ℤ := 74
  tRFMsb : ℤ := 37
  -- ALERT
  alertMode : ℤ := 0
  tABOAct : ℤ := 432
  aboDelayActs : ℤ := 1
  trefEnable : ℤ := 0
  trefMode : ℤ := 0
  trefInterval : ℤ := 4
  -- MOAT
  moatMode : ℤ := 0
  moatth : ℤ := 64
  -- DRFM
  drfmMode : ℤ := 0
  drfmPolicy : ℤ := 0
  drfmQsize : ℤ := 1
  drfmQth : ℤ := 1
  tDRFMb : ℤ := 576
  tDRFMsb : ℤ := 576
  tDRFMab : ℤ := 672
  -- DREAM
  dreamMode : ℤ := 0
  dreamPolicy : ℤ := 0
  dreamTh : ℤ := 500
  dreamReset : ℕ := 1
  dreamK : ℕ := 1
  dreamPrevEnable : Bool := false
  -- CACTUS
  cactusMode : ℤ := 0
  cactusPolicy : ℤ := 0
  cactusTh : ℤ := 500
  cactusReset : ℕ := 1
  cactusPrevEnable : Bool := false
  -- MINT and PARA
  mintMode : ℤ := 0
  mintWindow : ℤ := 50
  paraMode : ℤ := 0
  paraProb : ℚ := 1 / 50
  -- Graphene
  grapheneMode : ℤ := 0
  grapheneTh : ℤ := 500
  -- Hydra
  hydraMode : ℤ := 0
  hydraTh : ℤ := 500
  hydraGctSize : ℕ := 1
  hydraGctTh : ℤ := 1
  hydraRccSets : ℕ := 1
  hydraRccWays : ℕ := 1
  hydraWbqSize : ℤ := 32
  -- ABACUS
  abacusMode : ℤ := 0
  abacusTh : ℤ := 500
  ranks_pos : 0 < ranks := by decide
  bankgroups_pos : 0 < bankgroups := by decide
  banksPerGroup_pos : 0 < banksPerGroup := by decide
  rows_pos : 0 < rows := by decide
  rows_lt : ranks * bankgroups * banksPerGroup * rows < 2 ^ 31 := by decide

namespace Config
variable (cfg : Config)

def banks : ℕ := cfg.bankgroups * cfg.banksPerGroup

/-- Only the bankset-level policy refreshes at fine granularity. -/
def fgr : Bool := cfg.refreshPolicy = .banksetLevelStaggered

def rowsRefreshed : ℕ := cfg.rows / cfg.refchunks

def isGDDR : Bool := cfg.protocol = .gddr5 || cfg.protocol = .gddr5x || cfg.protocol = .gddr6

def isHBM : Bool := cfg.protocol = .hbm || cfg.protocol = .hbm2

/-- Only HBM can issue two commands in one tick. -/
def enableHbmDualCmd : Bool := cfg.hbmDualCmd && cfg.isHBM

def RL : ℤ := cfg.AL + cfg.CL
def WL : ℤ := cfg.AL + cfg.CWL
def tRC : ℤ := cfg.tRAS + cfg.tRP
def readDelay : ℤ := cfg.RL + cfg.burstCycle
def writeDelay : ℤ := cfg.WL + cfg.burstCycle

/-- The mask of a field that is as wide as the logarithm of its range. -/
def fieldMask (width : ℕ) : ℕ := 2 ^ width - 1

def chMask : ℕ := fieldMask (logBase2 cfg.channels)
def raMask : ℕ := fieldMask (logBase2 cfg.ranks)
def bgMask : ℕ := fieldMask (logBase2 cfg.bankgroups)
def baMask : ℕ := fieldMask (logBase2 cfg.banksPerGroup)
def roMask : ℕ := fieldMask (logBase2 cfg.rows)
def actualColBits : ℕ := logBase2 cfg.columns - logBase2 cfg.BL
def coMask : ℕ := fieldMask cfg.actualColBits
def hiMask : ℕ := fieldMask (cfg.actualColBits - logBase2 cfg.mopSize)
def loMask : ℕ := fieldMask (logBase2 cfg.mopSize)

/-- One field of a line number. -/
def field (line pos mask : ℕ) : ℕ := (line >>> pos) &&& mask

def addressMapping (hexAddr : HexAddr) : Address :=
  let line := hexAddr.toNat >>> cfg.shiftBits
  let co :=
    if cfg.mopEnabled then
      (field line cfg.hiPos cfg.hiMask <<< logBase2 cfg.mopSize) |||
        field line cfg.loPos cfg.loMask
    else field line cfg.coPos cfg.coMask
  { channel := field line cfg.chPos cfg.chMask
    rank := field line cfg.raPos cfg.raMask
    bankgroup := field line cfg.bgPos cfg.bgMask
    bank := field line cfg.baPos cfg.baMask
    row := field line cfg.roPos cfg.roMask
    column := co }

/-- The set index of the row-count cache. -/
def removeColBits (hexAddr : HexAddr) : ℕ :=
  let line := hexAddr.toNat >>> cfg.shiftBits
  field line cfg.roPos cfg.roMask ^^^ field line cfg.baPos cfg.baMask ^^^
    field line cfg.bgPos cfg.bgMask

/-- The tag of the row-count cache: the address with its column bits cleared. -/
def resetColBits (hexAddr : HexAddr) : HexAddr :=
  let line := hexAddr >>> cfg.shiftBits
  let line :=
    if cfg.mopEnabled then
      (line &&& ~~~(BitVec.ofNat 64 cfg.loMask <<< cfg.loPos)) &&&
        ~~~(BitVec.ofNat 64 cfg.hiMask <<< cfg.hiPos)
    else line &&& ~~~(BitVec.ofNat 64 cfg.coMask <<< cfg.coPos)
  line <<< cfg.shiftBits

/-- The banks of a rank in the order of the two nested loops. -/
def rankBanks (rank : ℤ) : List BankId :=
  (List.range cfg.bankgroups).flatMap fun j : ℕ =>
    (List.range cfg.banksPerGroup).map fun k : ℕ => ⟨rank, j, k⟩

/-- The banks of one bank index across the bankgroups of a rank. -/
def banksetBanks (rank bank : ℤ) : List BankId :=
  (List.range cfg.bankgroups).map fun j : ℕ => ⟨rank, j, bank⟩

def allBanks : List BankId :=
  (List.range cfg.ranks).flatMap fun i : ℕ => cfg.rankBanks i

lemma field_lt {n : ℕ} (hn : 0 < n) (line pos : ℕ) :
    field line pos (fieldMask (logBase2 n)) < n := by
  have hle : field line pos (fieldMask (logBase2 n)) ≤ fieldMask (logBase2 n) :=
    Nat.and_le_right
  have hp := two_pow_logBase2_le hn
  have h1 := Nat.one_le_two_pow (n := logBase2 n)
  unfold fieldMask at *
  omega

/-- Every decoded rank, bankgroup, bank and row lies inside the geometry. -/
structure InRange (a : Address) : Prop where
  rank : ∃ r : ℕ, r < cfg.ranks ∧ a.rank = r
  bankgroup : ∃ g : ℕ, g < cfg.bankgroups ∧ a.bankgroup = g
  bank : ∃ b : ℕ, b < cfg.banksPerGroup ∧ a.bank = b
  row : ∃ r : ℕ, r < cfg.rows ∧ a.row = r

theorem addressMapping_inRange (hexAddr : HexAddr) : cfg.InRange (cfg.addressMapping hexAddr) where
  rank := ⟨_, field_lt cfg.ranks_pos _ _, rfl⟩
  bankgroup := ⟨_, field_lt cfg.bankgroups_pos _ _, rfl⟩
  bank := ⟨_, field_lt cfg.banksPerGroup_pos _ _, rfl⟩
  row := ⟨_, field_lt cfg.rows_pos _ _, rfl⟩

@[simp] theorem mem_rankBanks {r : ℤ} {b : BankId} :
    b ∈ cfg.rankBanks r ↔ b.rank = r ∧ (∃ g : ℕ, g < cfg.bankgroups ∧ b.bankgroup = g) ∧
      ∃ k : ℕ, k < cfg.banksPerGroup ∧ b.bank = k := by
  cases b
  simp only [rankBanks, List.mem_flatMap, List.mem_map, List.mem_range, BankId.mk.injEq]
  constructor
  · rintro ⟨g, hg, k, hk, rfl, rfl, rfl⟩
    exact ⟨rfl, ⟨g, hg, rfl⟩, k, hk, rfl⟩
  · rintro ⟨rfl, ⟨g, hg, rfl⟩, k, hk, rfl⟩
    exact ⟨g, hg, k, hk, rfl, rfl, rfl⟩

@[simp] theorem mem_banksetBanks {r k : ℤ} {b : BankId} :
    b ∈ cfg.banksetBanks r k ↔
      b.rank = r ∧ (∃ g : ℕ, g < cfg.bankgroups ∧ b.bankgroup = g) ∧ b.bank = k := by
  cases b
  simp only [banksetBanks, List.mem_map, List.mem_range, BankId.mk.injEq]
  constructor
  · rintro ⟨g, hg, rfl, rfl, rfl⟩
    exact ⟨rfl, ⟨g, hg, rfl⟩, rfl⟩
  · rintro ⟨rfl, ⟨g, hg, rfl⟩, rfl⟩
    exact ⟨g, hg, rfl, rfl, rfl⟩

theorem rankBanks_length (r : ℤ) : (cfg.rankBanks r).length = cfg.banks := by
  simp [rankBanks, banks]

theorem banksetBanks_length (r k : ℤ) : (cfg.banksetBanks r k).length = cfg.bankgroups := by
  simp [banksetBanks]

theorem rankBanks_ne_nil (r : ℤ) : cfg.rankBanks r ≠ [] :=
  List.ne_nil_of_length_pos
    (cfg.rankBanks_length r ▸ Nat.mul_pos cfg.bankgroups_pos cfg.banksPerGroup_pos)

theorem banksetBanks_ne_nil (r k : ℤ) : cfg.banksetBanks r k ≠ [] :=
  List.ne_nil_of_length_pos (cfg.banksetBanks_length r k ▸ cfg.bankgroups_pos)

theorem rankBanks_nodup (r : ℤ) : (cfg.rankBanks r).Nodup := by
  refine List.nodup_flatMap.mpr ⟨fun j _ => ?_, ?_⟩
  · exact List.nodup_range.map fun a b h => by simpa using h
  · refine List.nodup_range.imp fun hne => ?_
    intro b ha hb
    simp only [List.mem_map] at ha hb
    obtain ⟨_, _, rfl⟩ := ha
    obtain ⟨_, _, h⟩ := hb
    simp only [BankId.mk.injEq, Nat.cast_inj] at h
    exact hne h.2.1.symm

theorem banksetBanks_nodup (r k : ℤ) : (cfg.banksetBanks r k).Nodup :=
  List.nodup_range.map fun a b h => by simpa using h

theorem mem_allBanks {i : BankId} : i ∈ cfg.allBanks ↔
    (∃ r : ℕ, r < cfg.ranks ∧ i.rank = r) ∧ (∃ g : ℕ, g < cfg.bankgroups ∧ i.bankgroup = g) ∧
      ∃ k : ℕ, k < cfg.banksPerGroup ∧ i.bank = k := by
  simp only [allBanks, List.mem_flatMap, List.mem_range, mem_rankBanks]
  constructor
  · rintro ⟨r, hr, hir, hg, hk⟩
    exact ⟨⟨r, hr, hir⟩, hg, hk⟩
  · rintro ⟨⟨r, hr, hir⟩, hg, hk⟩
    exact ⟨r, hr, hir, hg, hk⟩

theorem allBanks_nodup : cfg.allBanks.Nodup := by
  refine List.nodup_flatMap.mpr ⟨fun r _ => cfg.rankBanks_nodup r, ?_⟩
  refine List.nodup_range.imp fun hne => ?_
  intro i ha hb
  rw [mem_rankBanks] at ha hb
  exact hne (by exact_mod_cast ha.1.symm.trans hb.1)

end Config
end CactusDram
