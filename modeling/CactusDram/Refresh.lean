import CactusDram.Channel.State

/-! The refresh timer. -/
namespace CactusDram

structure Refresh where
  clk : ℕ := 0
  nextRank : ℕ := 0
  nextBg : ℕ := 0
  nextBank : ℕ := 0

namespace Refresh
variable (cfg : Config) (r : Refresh)

def refreshInterval : ℤ :=
  match cfg.refreshPolicy with
  | .rankLevelSimultaneous => cfg.tREFI
  | .banksetLevelStaggered => cfg.tREFIsb.tdiv cfg.banksPerGroup
  | .bankLevelStaggered => cfg.tREFIb
  | .rankLevelStaggered | .noRefresh => cfg.tREFI.tdiv cfg.ranks

def stepBank (r : Refresh) : Refresh :=
  let bank := (r.nextBank + 1) % cfg.banksPerGroup
  { r with nextBank := bank, nextRank := if bank = 0 then (r.nextRank + 1) % cfg.ranks else r.nextRank }

def stepBg (r : Refresh) : Refresh :=
  let bg := (r.nextBg + 1) % cfg.bankgroups
  let r := { r with nextBg := bg }
  if bg = 0 then r.stepBank cfg else r

/-- The case of the bankset policy falls through into that of the bank policy. -/
def iterateNext : Refresh :=
  match cfg.refreshPolicy with
  | .rankLevelStaggered => { r with nextRank := (r.nextRank + 1) % cfg.ranks }
  | .banksetLevelStaggered => (r.stepBank cfg).stepBg cfg
  | .bankLevelStaggered => r.stepBg cfg
  | .rankLevelSimultaneous | .noRefresh => r

/-- The simultaneous policy leaves its loop after the first rank that is not in self-refresh. -/
def insertRefresh (cs : ChannelState) : Refresh × ChannelState :=
  match cfg.refreshPolicy with
  | .rankLevelSimultaneous =>
    match (List.range cfg.ranks).find? fun i => !cs.rankIsSref (i : ℤ) with
    | some i => (r, cs.rankNeedRefresh i true)
    | none => (r, cs)
  | .rankLevelStaggered =>
    (r.iterateNext cfg,
      if cs.rankIsSref r.nextRank then cs else cs.rankNeedRefresh r.nextRank true)
  | .banksetLevelStaggered =>
    (r.iterateNext cfg,
      if cs.rankIsSref r.nextRank then cs else cs.banksetNeedRefresh r.nextRank r.nextBank true)
  | .bankLevelStaggered =>
    (r.iterateNext cfg,
      if cs.rankIsSref r.nextRank then cs
      else cs.bankNeedRefresh r.nextRank r.nextBg r.nextBank true)
  | .noRefresh => (r, cs)

def clockTick (cs : ChannelState) : Refresh × ChannelState :=
  let (r', cs) :=
    if r.clk % u64 (refreshInterval cfg) = 0 ∧ 0 < r.clk then r.insertRefresh cfg cs else (r, cs)
  ({ r' with clk := r.clk + 1 }, cs)

end Refresh
end CactusDram
