import CactusDram.Config

/-! The seven relation tables of command-to-command delays. -/
namespace CactusDram

/-- The delays one command imposes on later commands, for one spatial relation. -/
abbrev TimingTable := CommandType → List (CommandType × ℤ)

structure Timing where
  sameBank : TimingTable
  otherBanksSameBankgroup : TimingTable
  otherBankgroupsSameRank : TimingTable
  otherRanks : TimingTable
  sameRank : TimingTable
  sameBankset : TimingTable
  otherBanksets : TimingTable

namespace Config
variable (cfg : Config)

def readToReadL : ℤ :=
  if cfg.bankgroups = 1 then max cfg.burstCycle cfg.tCCD_S else max cfg.burstCycle cfg.tCCD_L
def readToReadS : ℤ := max cfg.burstCycle cfg.tCCD_S
def readToReadO : ℤ := cfg.burstCycle + cfg.tRTRS
def readToWrite : ℤ := cfg.RL + cfg.burstCycle - cfg.WL + cfg.tRTRS
def readToWriteO : ℤ := cfg.readDelay + cfg.burstCycle + cfg.tRTRS - cfg.writeDelay
def readToPrecharge : ℤ := cfg.AL + cfg.tRTP
def readpToAct : ℤ := cfg.AL + cfg.burstCycle + cfg.tRTP + cfg.tRP

def writeToReadL : ℤ :=
  if cfg.bankgroups = 1 then cfg.writeDelay + cfg.tWTR_S else cfg.writeDelay + cfg.tWTR_L
def writeToReadS : ℤ := cfg.writeDelay + cfg.tWTR_S
def writeToReadO : ℤ := cfg.writeDelay + cfg.burstCycle + cfg.tRTRS - cfg.readDelay
def writeToWriteL : ℤ :=
  if cfg.bankgroups = 1 then max cfg.burstCycle cfg.tCCD_S else max cfg.burstCycle cfg.tCCD_L
def writeToWriteS : ℤ := max cfg.burstCycle cfg.tCCD_S
def writeToWriteO : ℤ := cfg.burstCycle
def writeToPrecharge : ℤ := cfg.WL + cfg.burstCycle + cfg.tWR

def prechargeToActivate : ℤ := cfg.tRP
def prechargeToPrecharge : ℤ := cfg.tPPD
def readToActivate : ℤ := cfg.readToPrecharge + cfg.prechargeToActivate
def writeToActivate : ℤ := cfg.writeToPrecharge + cfg.prechargeToActivate

def activateToActivate : ℤ := cfg.tRC
def activateToActivateL : ℤ := if cfg.bankgroups = 1 then cfg.tRRD_S else cfg.tRRD_L
def activateToActivateS : ℤ := cfg.tRRD_S
def activateToPrecharge : ℤ := cfg.tRAS
def activateToRead : ℤ := if cfg.isGDDR || cfg.isHBM then cfg.tRCDRD else cfg.tRCD - cfg.AL
def activateToWrite : ℤ := if cfg.isGDDR || cfg.isHBM then cfg.tRCDWR else cfg.tRCD - cfg.AL
def activateToRefresh : ℤ := cfg.tRC
def activateToRefsb : ℤ := cfg.tRRD_L

/-- The delays of a column command to the column commands of another bank. -/
def columnDelays (toRead toWrite : ℤ) : List (CommandType × ℤ) :=
  [(.read, toRead), (.write, toWrite), (.readPrecharge, toRead), (.writePrecharge, toWrite)]

/-- The delay of a command to the three precharges. -/
def prechargeDelays (delay : ℤ) : List (CommandType × ℤ) :=
  [(.precharge, delay), (.preAb, delay), (.preSb, delay)]

/-- The delay of a command that leaves its bank closed to every command that needs it closed. -/
def closedDelays (toActivate delay : ℤ) : List (CommandType × ℤ) :=
  [(.activate, toActivate), (.refSb, delay), (.refAb, delay), (.refreshBank, delay),
    (.srefEnter, delay), (.rfmSb, delay), (.rfmAb, delay), (.drfmSb, delay), (.drfmAb, delay),
    (.drfmB, delay)]

def sameBank : TimingTable
  | .read => columnDelays cfg.readToReadL cfg.readToWrite ++ prechargeDelays cfg.readToPrecharge
  | .write => columnDelays cfg.writeToReadL cfg.writeToWriteL ++ prechargeDelays cfg.writeToPrecharge
  | .readPrecharge => closedDelays cfg.readpToAct cfg.readToActivate
  | .writePrecharge => closedDelays cfg.writeToActivate cfg.writeToActivate
  | .activate =>
    (.activate, cfg.activateToActivate) :: columnDelays cfg.activateToRead cfg.activateToWrite ++
      prechargeDelays cfg.activateToPrecharge
  | .precharge | .preAb | .preSb =>
    closedDelays cfg.prechargeToActivate cfg.prechargeToActivate ++
      prechargeDelays cfg.prechargeToPrecharge
  | .drfmB =>
    [(.activate, cfg.tDRFMb), (.refSb, cfg.tDRFMb), (.refAb, cfg.tDRFMb),
      (.refreshBank, cfg.tDRFMb), (.srefEnter, cfg.tDRFMb), (.rfmAb, cfg.tDRFMb),
      (.rfmSb, cfg.tDRFMb), (.drfmB, cfg.tDRFMb)]
  | _ => []

/-- The protocols whose precharges are spaced by tPPD across banks. -/
def needsPPD : Bool := cfg.isGDDR || cfg.protocol = .lpddr4 || cfg.protocol = .ddr5

def otherBanksSameBankgroup : TimingTable
  | .read | .readPrecharge => columnDelays cfg.readToReadL cfg.readToWrite
  | .write | .writePrecharge => columnDelays cfg.writeToReadL cfg.writeToWriteL
  | .activate =>
    [(.activate, cfg.activateToActivateL), (.refreshBank, cfg.activateToRefresh),
      (.refSb, cfg.activateToRefsb)]
  | .precharge | .preAb | .preSb =>
    if cfg.needsPPD then prechargeDelays cfg.prechargeToPrecharge else []
  | .refreshBank => [(.activate, cfg.tRFC), (.refreshBank, cfg.tREFIb)]
  | _ => []

def otherBankgroupsSameRank : TimingTable
  | .read | .readPrecharge => columnDelays cfg.readToReadS cfg.readToWrite
  | .write | .writePrecharge => columnDelays cfg.writeToReadS cfg.writeToWriteS
  | .activate =>
    [(.activate, cfg.activateToActivateS), (.refreshBank, cfg.activateToRefresh),
      (.refSb, cfg.activateToRefsb)]
  | .precharge | .preAb | .preSb =>
    if cfg.needsPPD then prechargeDelays cfg.prechargeToPrecharge else []
  | .refreshBank => [(.activate, cfg.tRFC), (.refreshBank, cfg.tREFIb)]
  | _ => []

def otherRanks : TimingTable
  | .read | .readPrecharge => columnDelays cfg.readToReadO cfg.readToWriteO
  | .write | .writePrecharge => columnDelays cfg.writeToReadO cfg.writeToWriteO
  | _ => []

def sameRank : TimingTable
  | .refreshBank =>
    [(.activate, cfg.tRFCb), (.refSb, cfg.tRFCb), (.refAb, cfg.tRFCb), (.refreshBank, cfg.tRFCb),
      (.srefEnter, cfg.tRFCb)]
  | .refAb =>
    [(.activate, cfg.tRFC), (.refAb, cfg.tRFC), (.refSb, cfg.tRFC), (.srefEnter, cfg.tRFC),
      (.rfmAb, cfg.tRFC), (.rfmSb, cfg.tRFC), (.drfmAb, cfg.tRFC), (.drfmSb, cfg.tRFC),
      (.drfmB, cfg.tRFC)]
  | .srefEnter => [(.srefExit, cfg.tCKESR)]
  | .srefExit =>
    [(.activate, cfg.tXS), (.refSb, cfg.tXS), (.refAb, cfg.tXS), (.refreshBank, cfg.tXS),
      (.srefEnter, cfg.tXS)]
  | .rfmAb => closedDelays cfg.tRFM cfg.tRFM
  | .drfmAb =>
    [(.activate, cfg.tDRFMab), (.refSb, cfg.tDRFMab), (.refAb, cfg.tDRFMab),
      (.refreshBank, cfg.tDRFMab), (.srefEnter, cfg.tDRFMab), (.rfmAb, cfg.tDRFMab),
      (.rfmSb, cfg.tDRFMab), (.drfmAb, cfg.tDRFMab)]
  | _ => []

def sameBankset : TimingTable
  | .rfmSb =>
    [(.activate, cfg.tRFMsb), (.refSb, cfg.tRFMsb), (.refAb, cfg.tRFMsb),
      (.refreshBank, cfg.tRFMsb), (.srefEnter, cfg.tRFMsb), (.rfmSb, cfg.tRFMsb),
      (.drfmAb, cfg.tRFMsb), (.drfmSb, cfg.tRFMsb), (.drfmB, cfg.tRFMsb)]
  | .drfmSb => closedDelays cfg.tDRFMsb cfg.tDRFMsb
  | .refSb =>
    [(.activate, cfg.tRFCsb), (.refSb, cfg.tRFCsb), (.refAb, cfg.tRFCsb), (.srefEnter, cfg.tRFCsb),
      (.rfmAb, cfg.tRFCsb), (.rfmSb, cfg.tRFCsb), (.drfmAb, cfg.tRFCsb), (.drfmSb, cfg.tRFCsb),
      (.drfmB, cfg.tRFCsb)]
  | _ => []

def otherBanksets : TimingTable
  | .refSb => [(.activate, cfg.tREFSBRD)]
  | _ => []

/-- The tables the constructor fills in. -/
def timing : Timing where
  sameBank := cfg.sameBank
  otherBanksSameBankgroup := cfg.otherBanksSameBankgroup
  otherBankgroupsSameRank := cfg.otherBankgroupsSameRank
  otherRanks := cfg.otherRanks
  sameRank := cfg.sameRank
  sameBankset := cfg.sameBankset
  otherBanksets := cfg.otherBanksets

end Config
end CactusDram
