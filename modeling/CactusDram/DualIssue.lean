import CactusDram.Flow

/-! HBM dual issue. The second command of a tick has left its queue before it is compared with the
first; column delays of at least one cycle keep two column commands apart. -/
namespace CactusDram
open Foundations ChannelState

/-- READ and WRITE, with or without precharge. -/
def CommandType.isColumn : CommandType → Bool
  | .read | .readPrecharge | .write | .writePrecharge => true
  | _ => false

theorem Command.isReadWrite_eq (cmd : Command) : cmd.isReadWrite = cmd.cmdType.isColumn := by
  obtain ⟨ty, _, _⟩ := cmd
  cases ty <;> rfl

/-- The READ/WRITE-to-READ/WRITE delays of all four bank relations are at least one cycle. -/
def Config.ColumnSpaced (cfg : Config) : Prop :=
  ∀ table ∈ [cfg.timing.sameBank, cfg.timing.otherBanksSameBankgroup,
      cfg.timing.otherBankgroupsSameRank, cfg.timing.otherRanks],
    ∀ ty : CommandType, ty.isColumn → ∀ d ∈ table ty, d.1.isColumn → 1 ≤ d.2

namespace Config
variable {cfg : Config} {ty ty' : CommandType}

theorem exists_mem_columnDelays (toRead toWrite : ℤ) (h : ty.isColumn) :
    ∃ d, (ty, d) ∈ columnDelays toRead toWrite := by
  cases ty <;> first | exact ⟨_, by simp [columnDelays]; rfl⟩ | cases h

/-- The tables for other banks list every column command. -/
theorem exists_mem_other (cfg : Config) (h : ty.isColumn) (h' : ty'.isColumn) (table : TimingTable)
    (htable : table ∈ [cfg.timing.otherBanksSameBankgroup, cfg.timing.otherBankgroupsSameRank,
      cfg.timing.otherRanks]) : ∃ d, (ty', d) ∈ table ty := by
  simp only [List.mem_cons, List.not_mem_nil, or_false] at htable
  rcases htable with rfl | rfl | rfl <;>
    cases ty <;> first | exact exists_mem_columnDelays _ _ h' | cases h

theorem exists_mem_sameBank (cfg : Config) (h : ty = .read ∨ ty = .write) (h' : ty'.isColumn) :
    ∃ d, (ty', d) ∈ cfg.timing.sameBank ty := by
  rcases h with rfl | rfl
  · obtain ⟨d, hd⟩ := exists_mem_columnDelays cfg.readToReadL cfg.readToWrite h'
    exact ⟨d, List.mem_append_left _ hd⟩
  · obtain ⟨d, hd⟩ := exists_mem_columnDelays cfg.writeToReadL cfg.writeToWriteL h'
    exact ⟨d, List.mem_append_left _ hd⟩

end Config

namespace ChannelState
variable {cfg : Config}

theorem timingUpdates_column {cmd : Command} (h : cmd.cmdType.isColumn) :
    timingUpdates cfg cmd =
      updateSameBankTiming cmd.addr (cfg.timing.sameBank cmd.cmdType) ++
        updateOtherBanksSameBankgroupTiming cfg cmd.addr (cfg.timing.otherBanksSameBankgroup cmd.cmdType) ++
        updateOtherBankgroupsSameRankTiming cfg cmd.addr (cfg.timing.otherBankgroupsSameRank cmd.cmdType) ++
        updateOtherRanksTiming cfg cmd.addr (cfg.timing.otherRanks cmd.cmdType) := by
  obtain ⟨ty, _, _⟩ := cmd
  cases ty <;> first | rfl | cases h

end ChannelState

namespace Chan
variable {cfg : Config} {π : Micro.Policy} {v v' : Chan}

/-- A column command registers a delay for the column commands of every bank, except for its own
when it closes that. -/
theorem exists_delay {cmd : Command} (hcmd : cmd.cmdType.isColumn) {a : Address} (ha : cfg.InRange a)
    {ty : CommandType} (hty : ty.isColumn)
    (hown : a.bankId = cmd.bankId → cmd.cmdType = .read ∨ cmd.cmdType = .write) {P : ℤ → Prop}
    (hsame : a.rank = cmd.rank → ∀ table ∈ [cfg.timing.sameBank, cfg.timing.otherBanksSameBankgroup,
      cfg.timing.otherBankgroupsSameRank], ∀ d, (ty, d) ∈ table cmd.cmdType → P d)
    (hother : a.rank ≠ cmd.rank → ∀ d, (ty, d) ∈ cfg.timing.otherRanks cmd.cmdType → P d) :
    ∃ d, P d ∧ (a.bankId, ty, d) ∈ timingUpdates cfg cmd := by
  obtain ⟨⟨r, hr, hr'⟩, hbg, hbank, _⟩ := ha
  have hrank : a.bankId ∈ cfg.rankBanks a.rank := by
    rw [Config.mem_rankBanks]
    exact ⟨rfl, hbg, hbank⟩
  rw [timingUpdates_column hcmd]
  simp only [List.mem_append]
  by_cases h₁ : a.rank = cmd.addr.rank
  · rw [h₁] at hrank
    by_cases h₂ : a.bankgroup = cmd.addr.bankgroup
    · by_cases h₃ : a.bank = cmd.addr.bank
      · have hid : a.bankId = cmd.bankId := by
          simp only [Address.bankId, Command.bankId, h₁, h₂, h₃]
        obtain ⟨d, hd⟩ := cfg.exists_mem_sameBank (hown hid) hty
        refine ⟨d, hsame h₁ _ (by simp) d hd, .inl (.inl (.inl (mem_onBanks ?_ hd)))⟩
        rw [hid]
        exact List.mem_singleton_self _
      · obtain ⟨d, hd⟩ := cfg.exists_mem_other hcmd hty cfg.timing.otherBanksSameBankgroup (by simp)
        refine ⟨d, hsame h₁ _ (by simp) d hd, .inl (.inl (.inr (mem_onBanks ?_ hd)))⟩
        rw [List.mem_filter]
        exact ⟨hrank, by simpa [Address.bankId, h₂] using h₃⟩
    · obtain ⟨d, hd⟩ := cfg.exists_mem_other hcmd hty cfg.timing.otherBankgroupsSameRank (by simp)
      refine ⟨d, hsame h₁ _ (by simp) d hd, .inl (.inr (mem_onBanks ?_ hd))⟩
      rw [List.mem_filter]
      exact ⟨hrank, decide_eq_true h₂⟩
  · obtain ⟨d, hd⟩ := cfg.exists_mem_other hcmd hty cfg.timing.otherRanks (by simp)
    refine ⟨d, hother h₁ d hd, .inr (mem_onBanks ?_ hd)⟩
    rw [List.mem_filter, Config.allBanks, List.mem_flatMap]
    exact ⟨⟨r, List.mem_range.mpr hr, hr' ▸ hrank⟩, decide_eq_true h₁⟩

/-- With spaced columns the delay is at least one cycle. -/
theorem exists_column_delay (hcfg : cfg.ColumnSpaced) {cmd : Command} (hcmd : cmd.cmdType.isColumn)
    {a : Address} (ha : cfg.InRange a) {ty : CommandType} (hty : ty.isColumn)
    (hown : a.bankId = cmd.bankId → cmd.cmdType = .read ∨ cmd.cmdType = .write) :
    ∃ d, 1 ≤ d ∧ (a.bankId, ty, d) ∈ timingUpdates cfg cmd := by
  refine exists_delay hcmd ha hty hown (fun _ table htable d hd => ?_) fun _ d hd => ?_
  · refine hcfg table ?_ _ hcmd _ hd hty
    simp only [List.mem_cons, List.not_mem_nil, or_false] at htable ⊢
    tauto
  · exact hcfg _ (by simp) _ hcmd _ hd hty

/-- A column command that leaves its bank open has no precharge. -/
theorem stays_open {cs cs' : ChannelState} {cmd : Command} {clk : ℕ}
    {origin : Origin} (h : Issued cfg cs cmd clk origin cs') (hcmd : cmd.cmdType.isColumn)
    (hopen : (cs'.cores cmd.bankId).state = .open) : cmd.cmdType = .read ∨ cmd.cmdType = .write := by
  rw [← Command.isReadWrite_eq] at hcmd
  obtain ⟨hrank, hsb⟩ := not_multi_of_isReadWrite hcmd
  obtain ⟨b, hb, hstate, _⟩ := h.legal cmd.bankId (by simp [covered, hrank, hsb])
  have hface : b.face.state = .open := hstate.symm.trans hopen
  rcases BankState.updateState_face hb with ⟨_, _, h⟩ | ⟨h, _⟩ | ⟨h, hs, _⟩ | ⟨_, _, h⟩ | ⟨h, _⟩ | ⟨h, _⟩
  · exact h
  · rw [h] at hface; cases hface
  · rw [h] at hface
    cases hs.symm.trans hface
  · simp [Command.isReadWrite, Command.isRead, Command.isWrite, h] at hcmd
  · rw [h] at hface; cases hface
  · rw [h] at hface; cases hface

/-- After a column command no other column command is ready in the same tick. -/
structure Exclusive (cfg : Config) (v : Chan) : Prop where
  ready : Ready cfg v
  ticket : ∀ p, v.ticket = some p → p.cmd.isReadWrite →
    p.origin = .demand ∧ cfg.InRange p.cmd.addr
  spaced : ∀ first, v.issued = [first] → first.isReadWrite → ∀ a, cfg.InRange a → ∀ ty : CommandType,
    ty.isColumn → (v.cs.cores a.bankId).state = .open → v.clk < (v.cs.cores a.bankId).cmdTiming ty

theorem Exclusive.boot (boot : Boot cfg) : Exclusive cfg ⟨boot.channelState, 0, none, []⟩ :=
  ⟨ready_boot boot, fun _ h => (nomatch h), fun _ h => nomatch h⟩

theorem Exclusive.queried {cs cs' : ChannelState} {clk : ℕ} {ticket : Option Pick}
    {issued : List Command} (hv : Exclusive cfg ⟨cs, clk, none, issued⟩)
    (hready : Ready cfg ⟨cs', clk, ticket, issued⟩) (hcores : ∀ i, cs'.cores i = cs.cores i)
    (hticket : ∀ p, ticket = some p → p.cmd.isReadWrite →
    p.origin = .demand ∧ cfg.InRange p.cmd.addr) :
    Exclusive cfg ⟨cs', clk, ticket, issued⟩ := by
  refine ⟨hready, hticket, fun first hi hrw a ha ty hty => ?_⟩
  simp only [hcores]
  exact hv.spaced first hi hrw a ha ty hty

/-- A chosen column command is the demand that was asked for. -/
theorem demanded_of_answer {cs cs' : ChannelState} {cmd r : Command} {origin : Origin} {clk : ℕ}
    (hreg : Regular cfg cs) (hs : Asks cfg cs cmd origin) (h : cs.Answer cfg cmd clk (some r) cs')
    (hrw : r.isReadWrite) : origin = .demand ∧ cfg.InRange r.addr := by
  obtain rfl := h.eq_of_isReadWrite hrw
  obtain rfl := hs.origin_of_isReadWrite hreg hrw
  cases hs with
  | demand _ haddr =>
    refine ⟨rfl, ?_⟩
    rw [haddr]
    exact cfg.addressMapping_inRange _

theorem Exclusive.step (hcfg : cfg.ColumnSpaced) (hmode : cfg.hydraMode ≠ 1) (hv : Exclusive cfg v)
    (h : Step cfg π v v') : Exclusive cfg v' := by
  have hready := hv.ready.step h
  have hnone (p : Pick) (hp : none = some p) : p.cmd.isReadWrite →
    p.origin = .demand ∧ cfg.InRange p.cmd.addr :=
    nomatch hp
  cases h with
  | environment | requestRefresh => exact hv.queried hready (fun _ => rfl) hnone
  | tick => exact hv.queried hready queried_clockTick.cores hnone
  | query _ h => exact hv.queried hready h.queried.cores hnone
  | hydraQuery h => exact hv.queried hready (queried_getReadyHydraCommand h).cores hnone
  | pick _ hs _ h =>
    refine hv.queried hready h.queried.cores fun p hp hrw => ?_
    cases hp
    exact demanded_of_answer hv.ready.regular hs h hrw
  | @pickHydra cs clk issued r cs' _ h =>
    obtain ⟨h₁, h₂, h₃⟩ := hv.ready.regular.hydraOff hmode
    rw [getReadyHydraCommand_off h₃ h₁ h₂] at h
    cases h
  | @issue cs clk p issued cs' h =>
    refine ⟨hready, hnone, fun first hi hrw a ha ty hty hopen => ?_⟩
    cases hi
    have hissued := updateTimingAndStates_issued h
    rw [Command.isReadWrite_eq] at hrw
    have hown : a.bankId = p.cmd.bankId → p.cmd.cmdType = .read ∨ p.cmd.cmdType = .write :=
      fun hid => stays_open hissued hrw (hid ▸ hopen)
    obtain ⟨d, hd, hmem⟩ := exists_column_delay hcfg hrw ha hty hown
    have hle : addDelay clk d ≤ (cs'.cores a.bankId).cmdTiming ty := hissued.timing _ hmem
    have := le_addDelay clk d
    show clk < (cs'.cores a.bankId).cmdTiming ty
    omega
  | drop => exact ⟨hready, hnone, fun first hi => by cases hi⟩
  | tock => exact ⟨hready, hnone, fun first hi => by cases hi⟩

/-- A chosen column command finds its row open and is ready. -/
theorem Granted.column_ready {cs : ChannelState} {clk : ℕ} {p : Pick} (h : Granted cfg cs clk p)
    (hrw : p.cmd.isReadWrite) (ho : p.origin = .demand) :
    (cs.cores p.cmd.bankId).state = .open ∧ (cs.cores p.cmd.bankId).cmdTiming p.cmd.cmdType ≤ clk := by
  cases h with
  | column _ hopen _ ht => exact ⟨hopen, ht⟩
  | precharge h | activate h => simp [Command.isReadWrite, Command.isRead, Command.isWrite, h] at hrw
  | maintain _ h | prechargeAll _ h => rcases h with rfl | rfl <;> cases ho
  | sref _ h =>
    rcases h with h | ⟨req, h⟩
    · simp [Command.isReadWrite, Command.isRead, Command.isWrite, h] at hrw
    · simp [ho] at h
  | hydraRFM => cases ho

end Chan

namespace Micro
variable {cfg : Config} {π : Policy} {m : Micro}

/-- With spaced columns, a column command is never chosen beside another one. -/
theorem Reached.first_not_column (hcfg : cfg.ColumnSpaced) (hmode : cfg.hydraMode ≠ 1)
    (h : Reached cfg π m) {cmd first : Command} (ht : m.flow.ticket = some cmd)
    (hi : m.flow.issued = [first]) : first.isReadWrite = false := by
  have hex := h.chan_induct (P := Chan.Exclusive cfg) Chan.Exclusive.boot fun _ _ hv hs =>
    hv.step hcfg hmode hs
  obtain ⟨p, hp, rfl, hrw⟩ : ∃ p, m.ticket = some p ∧ p.cmd = cmd ∧ p.cmd.isReadWrite := by
    simp only [Micro.flow, Option.filter_eq_some_iff, Option.map_eq_some_iff] at ht
    obtain ⟨⟨p, hp, rfl⟩, hrw⟩ := ht
    exact ⟨p, hp, rfl, hrw⟩
  obtain ⟨ho, hrange⟩ := hex.ticket p hp hrw
  obtain ⟨hopen, hready⟩ := (hex.ready.ticket p hp).column_ready hrw ho
  by_contra hfirst
  have := hex.spaced first hi (by simpa using hfirst) _ hrange _
    (by rwa [← Command.isReadWrite_eq]) hopen
  exact absurd hready (Nat.not_le_of_lt this)

end Micro
end CactusDram
