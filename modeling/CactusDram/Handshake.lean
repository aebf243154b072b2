import CactusDram.Maintenance
import CactusDram.Samplers

/-! The mitigation requests of a channel as a protocol of their own: CACTUS alerts, the RFMab they
lead to, the banks that wait for a DRFM, and the queue they all share. -/
namespace CactusDram
open Foundations Relation

namespace BankState
variable {cfg : Config} {b : BankState} {cmd : Command}

/-- A bank asks for an RFM or DRFM only to serve one, or as RFM asks for it before an activation. -/
theorem requiredType_rfm {ty : CommandType} (h : b.requiredType cfg cmd = .ok (some ty))
    (hty : ty = .rfmSb ∨ ty = .rfmAb ∨ ty = .drfmB ∨ ty = .drfmSb ∨ ty = .drfmAb) :
    ty = cmd.cmdType ∨ cmd.isReadWrite ∧ cfg.rfmMode ≠ 0 ∧ (ty = .rfmSb ∨ ty = .rfmAb) := by
  rcases requiredType_cases h with hsame | (rfl | rfl | rfl) | ⟨hrw, rfl | hrfm | rfl⟩
  · exact .inl hsame
  · simp at hty
  · simp at hty
  · simp at hty
  · simp at hty
  · exact .inr ⟨hrw, hrfm⟩
  · simp at hty

end BankState

namespace ChannelState
variable {cfg : Config} {cs cs' : ChannelState} {cmd : Command} {clk : ℕ}

/-- The part of a step that neither raises nor serves an ABO alert. -/
structure AboKept (cs cs' : ChannelState) : Prop where
  abo : cs'.abo = cs.abo
  fixed : cs'.fixed = cs.fixed
  log : ∃ extra, cs'.log = extra ++ cs.log ∧ ∀ e ∈ extra, e.isAbo = false

theorem AboKept.refl (cs : ChannelState) : AboKept cs cs := ⟨rfl, rfl, ⟨[], rfl, by simp⟩⟩

theorem AboKept.fields (h : AboKept cs cs') : cs'.alertN = cs.alertN ∧
    cs'.lastAlertClk = cs.lastAlertClk ∧ cs'.alertRank = cs.alertRank := by
  have habo := h.abo
  simp only [ChannelState.abo, Prod.mk.injEq] at habo
  exact habo

theorem needRFM_fixed (req : Command) (target : Command → Bool) (need : Bool) :
    (cs.needRFM req target need).fixed = cs.fixed := by
  unfold needRFM
  split_ifs <;> rfl

theorem aboKept_needRFM (req : Command) (target : Command → Bool) (need : Bool) :
    AboKept cs (cs.needRFM req target need) := by
  unfold needRFM
  split_ifs <;> exact ⟨rfl, rfl, ⟨[], rfl, by simp⟩⟩

theorem Hooked.aboKept {full : Bool} (h : Hooked cfg cs cmd clk full cs') : AboKept cs cs' := by
  obtain ⟨alert, inflight, alerts, hraise, hlog⟩ := h.log
  refine ⟨h.abo, h.fixed, ⟨.hook cmd.bankId cmd.row clk full alert inflight ::
    (h.abacus.es ++ (alerts ++ h.dream.es)), by simp [hlog], ?_⟩⟩
  have hdream : ∀ e ∈ h.dream.es, e.isAbo = false := by
    rcases h.hdream with ⟨_, hd⟩ | ⟨_, _, _, _, hd⟩ <;> rw [hd] <;> simp [Event.isAbo]
  have habacus : ∀ e ∈ h.abacus.es, e.isAbo = false := by
    rcases h.habacus with ⟨_, ha⟩ | ⟨_, _, ha⟩ <;> rw [ha] <;> simp [Event.isAbo]
  simp only [List.mem_cons, List.mem_append]
  rintro e (rfl | he | he | he)
  · rfl
  · exact habacus e he
  · obtain ⟨n, rfl⟩ := hraise.events e he
    rfl
  · exact hdream e he

/-- A query leaves the ABO alert alone. -/
theorem Answer.aboKept {r? : Option Command} (h : Answer cfg cs cmd clk r? cs') :
    AboKept cs cs' := by
  have hhooked {cs₁ cs₂ : ChannelState} {full : Bool} (hcheck : cs.hydraCheck cfg cmd = (true, cs₁))
      (hhook : cs₁.preactHooks cfg cmd clk = .ok (full, cs₂)) : AboKept cs cs₂ := by
    obtain ⟨_, _, _, rfl⟩ := hydraCheck_eq hcheck
    obtain ⟨hh⟩ := preactHooks_hooked hhook
    exact ⟨hh.aboKept.abo, hh.aboKept.fixed, hh.aboKept.log⟩
  cases h with
  | wait | divert | allReady | single => exact .refl cs
  | needRFMsb | needRFMab => exact aboKept_needRFM _ _ _
  | eager _ _ h =>
    obtain ⟨_, rfl⟩ := launchDRFM_exact h
    exact ⟨rfl, rfl, ⟨[], rfl, by simp⟩⟩
  | hydraWait h =>
    obtain ⟨_, _, _, rfl⟩ := hydraCheck_eq h
    exact ⟨rfl, rfl, ⟨[], rfl, by simp⟩⟩
  | lazy _ hcheck hhook h =>
    have hkept := hhooked hcheck hhook
    obtain ⟨_, rfl⟩ := launchDRFM_exact h
    exact ⟨hkept.abo, hkept.fixed, hkept.log⟩
  | activate _ hcheck hhook => exact hhooked hcheck hhook

end ChannelState

/-- The part of the history that the protocol is about. -/
inductive DeskEvent
  | raised (rank : ℤ)
  | mitigated (rank : ℤ)
  | activated (rank : ℤ)
  deriving DecidableEq

def Event.desk? : Event → Option DeskEvent
  | .alert rank _ => some (.raised rank)
  | .pendingMitig rank => some (.mitigated rank)
  | .issue cmd _ _ _ => if cmd.cmdType = .activate then some (.activated cmd.rank) else none
  | _ => none

/-- The CACTUS state of the ranks and the queue of RFM and DRFM requests. -/
structure Desk where
  alert : ℤ → Bool
  inflight : ℤ → Bool
  pending : ℤ → ℤ
  acts : ℤ → ℤ
  rfmQ : List Command
  calls : List RfmCall
  trail : List DeskEvent

def ChannelState.desk (cs : ChannelState) : Desk where
  alert := cs.cactusAlertPending
  inflight := cs.cactusRfmInflight
  pending := cs.cactusPendingCounterIdx
  acts := cs.cactusActsSinceRfm
  rfmQ := cs.rfmQ
  calls := cs.rfmCalls
  trail := cs.log.filterMap Event.desk?

namespace Desk
open ChannelState
variable (cfg : Config) (d : Desk)

/-- An alert for a counter of the rank. -/
def raise (k : ℤ) (idx : ℕ) : Desk :=
  { d with
    alert := Function.update d.alert k true
    pending := Function.update d.pending k idx
    trail := .raised k :: d.trail }

/-- Queue a request unless one for its target waits. -/
def ask (req : Command) : Desk :=
  { d with rfmQ := if d.rfmQ.any (rfmTarget req) then d.rfmQ else d.rfmQ ++ [req] }

/-- The alert of a rank becomes an RFMab request. -/
def promote (k : ℤ) : Desk :=
  { d.ask (request .rfmAb k (-1) (-1)) with
    alert := Function.update d.alert k false
    inflight := Function.update d.inflight k true
    calls := .cactus k (d.rfmQ.filter fun c => c.rank = k) :: d.calls }

def launch (cmd : Command) : Desk :=
  { d.ask (drfmRequest cfg cmd) with
    calls := .launch cmd.bankId (d.rfmQ.filter (rfmTarget (drfmRequest cfg cmd))) :: d.calls }

def activate (k : ℤ) : Desk :=
  { d with
    acts := if cfg.cactusMode ≠ 0 then Function.update d.acts k (d.acts k + 1) else d.acts
    trail := .activated k :: d.trail }

def drop (req : Command) : Desk :=
  { d with
    rfmQ := d.rfmQ.eraseP (rfmTarget req)
    calls := .drop req (d.rfmQ.find? (rfmTarget req)) :: d.calls }

def mitigate (k : ℤ) : Desk :=
  { d with pending := Function.update d.pending k (-1), trail := .mitigated k :: d.trail }

def release (k : ℤ) : Desk :=
  { d with inflight := Function.update d.inflight k false, acts := Function.update d.acts k 0 }

/-- A REFab does the work of the RFMab of the rank. -/
def absorb (k : ℤ) : Desk :=
  { (((d.mitigate k).release k).drop (request .rfmAb k (-1) (-1))) with
    alert := Function.update d.alert k false }

/-- The request that an issued RFM or DRFM answers. -/
def requestOf (cmd : Command) : Command :=
  if cmd.isRankCMD then request cmd.cmdType cmd.rank (-1) (-1)
  else if cmd.isSbCMD then request cmd.cmdType cmd.rank (-1) cmd.bank
  else request cmd.cmdType cmd.rank cmd.bankgroup cmd.bank

/-- An RFM or DRFM was issued: an RFMab mitigates the pending counter of a rank that waits for it. -/
def serve (cmd : Command) : Desk :=
  let d' := d.drop (requestOf cmd)
  if cmd.cmdType = .rfmAb ∧ d.inflight cmd.rank then
    (if cfg.cactusMode ≠ 0 ∧ 0 ≤ d.pending cmd.rank then d'.mitigate cmd.rank else d').release cmd.rank
  else d'

@[simp] theorem rfmTarget_requestOf (cmd : Command) : rfmTarget (requestOf cmd) = rfmTarget cmd := by
  funext c
  obtain ⟨ty, addr, hex⟩ := cmd
  cases ty <;> rfl

/-- The transitions of the protocol. -/
inductive Move (cfg : Config) : Desk × (BankId → Bool) → Desk × (BankId → Bool) → Prop
  | raise {d b} {k : ℤ} {idx : ℕ} (hmode : cfg.cactusMode ≠ 0)
      (hidx : k * cfg.rows ≤ idx ∧ (idx : ℤ) < (k + 1) * cfg.rows)
      (ha : d.alert k = false) (hi : d.inflight k = false) (hacts : cfg.aboDelayActs ≤ d.acts k) :
      Move cfg (d, b) (d.raise k idx, b)
  | promote {d b k} (hmode : cfg.cactusMode ≠ 0) (ha : d.alert k = true)
      (hi : d.inflight k = false) : Move cfg (d, b) (d.promote k, b)
  | ask {d b req} (hmode : cfg.rfmMode ≠ 0 ∨ cfg.moatMode = 1 ∧ req.cmdType = .rfmAb) (hreq : req.isRFM) :
      Move cfg (d, b) (d.ask req, b)
  | launch {d b cmd} (hmode : cfg.drfmMode = 1 ∨ cfg.drfmMode = 2 ∨ cfg.drfmMode = 3)
      (hbank : cmd.bankId ∈ cfg.allBanks) :
      Move cfg (d, b) (d.launch cfg cmd, Function.update b cmd.bankId true)
  | activate {d b} (k) : Move cfg (d, b) (d.activate cfg k, b)
  | serve {d b cmd} (hcmd : cmd.isRFM ∨ cmd.isDRFM)
      (hfront : d.rfmQ.head? = some cmd ∨ cmd.isRFM ∧ cfg.rfmMode ≠ 0) :
      Move cfg (d, b) (d.serve cfg cmd,
        fun i => if cmd.isDRFM ∧ i ∈ covered cfg cmd then false else b i)
  | absorb {d b k} (hmode : cfg.cactusMode ≠ 0) (hp : 0 ≤ d.pending k) :
      Move cfg (d, b) (d.absorb k, b)

end Desk

/-- The protocol state of a channel: its desk, and the banks that wait for a DRFM. -/
def ChannelState.hand (cs : ChannelState) : Desk × (BankId → Bool) :=
  (cs.desk, fun i => (cs.bankStates i).drfmIssued)

namespace BankState
variable {cfg : Config} {b b' : BankState} {cmd : Command}

theorem preACT_drfmIssued (draws : List ℕ) (rcc : LRUCache) :
    (b.preACT cfg cmd draws rcc).1.drfmIssued = b.drfmIssued := by
  have hmint (b : BankState) (row : ℕ) (draws : List ℕ) :
      (b.mintPreact cfg row draws).1.drfmIssued = b.drfmIssued := by
    unfold mintPreact
    dsimp only
    split_ifs <;> rfl
  have hpara (b : BankState) (row : ℕ) (draws : List ℕ) :
      (b.paraPreact cfg row draws).1.drfmIssued = b.drfmIssued := by
    unfold paraPreact
    split_ifs <;> rfl
  have hcount (b : BankState) (row : ℕ) : (b.grapheneCount row).drfmIssued = b.drfmIssued := by
    unfold grapheneCount
    split
    · rfl
    · split_ifs
      · rfl
      · split <;> rfl
  have hgraphene (b : BankState) (row : ℕ) :
      (b.graphenePreact cfg row).drfmIssued = b.drfmIssued := by
    unfold graphenePreact
    split_ifs
    · rfl
    · dsimp only
      split <;> exact hcount b row
  have hhydra (b : BankState) : (b.hydraPreact cfg cmd rcc).1.drfmIssued = b.drfmIssued := by
    unfold hydraPreact
    split_ifs
    · rfl
    · dsimp only
      split_ifs <;> rfl
  simp only [preACT, hhydra, hgraphene, hpara, hmint]

/-- Only a DRFM lets a bank stop waiting. -/
theorem updateState_drfmIssued (h : b.updateState cfg cmd = .ok b') :
    b'.drfmIssued = if cmd.isDRFM then false else b.drfmIssued := by
  have hrefresh (b : BankState) :
      ((b.grapheneRefresh cfg).hydraRefresh cfg).tables.drfmIssued = b.drfmIssued :=
    (trackersRefresh_sampler b cfg).2
  have htables (b' : BankState) : b'.tables.drfmIssued = b'.drfmIssued := rfl
  have hnot (hr : cmd.isRefresh) : cmd.isDRFM = false := by
    by_contra hd
    simp [ChannelState.not_isRefresh_of_isDRFM (by simpa using hd)] at hr
  rcases updateState_trackers h with ⟨_, hd, ht, _⟩ | ⟨hr, _, ht | ⟨b₀, hb₀, ht⟩⟩ | ⟨hd, rfl⟩
  · rw [hd, ← htables, ht]
    rfl
  · rw [hnot hr, ← htables, ht]
    rfl
  · rw [hnot hr, ← htables, ht, hrefresh, ← htables, hb₀]
    rfl
  · rw [hd, ← htables, rfmAbServed_tables]
    rfl

end BankState

namespace ChannelState
variable {cfg : Config} {cs cs' : ChannelState} {cmd : Command} {clk : ℕ} {k : ℤ}

theorem cactusMitigCounter_desk {idx : ℕ} (h : cs.cactusMitigCounter cfg k idx = .ok cs') :
    cs'.desk = cs.desk := by
  by_cases hmode : cfg.cactusMode = 0
  · rw [cactusMitigCounter, if_pos hmode] at h
    cases h
    rfl
  · obtain ⟨bs, m, rfl, _⟩ := cactusMitigCounter_eq hmode h
    rfl

theorem cactusMitig_desk (h : cs.cactusMitig cfg k = .ok cs') :
    cs'.desk = if cfg.cactusMode ≠ 0 ∧ 0 ≤ cs.desk.pending k then cs.desk.mitigate k
      else cs.desk := by
  unfold cactusMitig at h
  split_ifs at h with hmode hneg
  · cases h
    rw [if_neg fun h => h.1 hmode]
  · cases h
    rw [if_neg fun h => not_lt.mpr h.2 hneg]
  · obtain ⟨cs₁, h₁, h⟩ := bind_ok_iff.mp h
    cases h
    rw [if_pos ⟨hmode, not_lt.mp hneg⟩, ← cactusMitigCounter_desk h₁]
    rfl

theorem cactusTrefMitig_desk (h : cs.cactusTrefMitig cfg k = .ok cs') : cs'.desk = cs.desk ∨
    cfg.cactusMode ≠ 0 ∧ cfg.trefMode = 0 ∧ 0 ≤ cs.desk.pending k ∧ cs'.desk = cs.desk.absorb k := by
  unfold cactusTrefMitig at h
  split_ifs at h with hmode hneg hquiet
  · cases h
    exact .inl rfl
  · cases h
    exact .inl rfl
  · cases h
    exact .inl rfl
  · obtain ⟨cs₁, h₁, h⟩ := bind_ok_iff.mp h
    simp only [not_or, not_not] at hmode
    have hpos : 0 ≤ cs.desk.pending k := not_lt.mp hneg
    have hdesk := cactusMitig_desk h₁
    rw [if_pos ⟨hmode.1, hpos⟩] at hdesk
    cases h
    refine .inr ⟨hmode.1, hmode.2.2, hpos, ?_⟩
    change { ((cs₁.desk.release k).drop (request .rfmAb k (-1) (-1))) with
      alert := Function.update cs₁.desk.alert k false } = _
    rw [hdesk]
    rfl

theorem cactusTrefMaxMitig_desk (h : cs.cactusTrefMaxMitig cfg k = .ok cs') : cs'.desk = cs.desk ∨
    cfg.cactusMode ≠ 0 ∧ cfg.trefMode = 1 ∧ 0 ≤ cs.desk.pending k ∧ cs'.desk = cs.desk.absorb k := by
  unfold cactusTrefMaxMitig at h
  dsimp only at h
  split_ifs at h with hmode _ _ hneg _
  any_goals
    cases h
    exact .inl rfl
  obtain ⟨cs₁, h₁, h⟩ := bind_ok_iff.mp h
  have hdesk := cactusMitigCounter_desk h₁
  change cs₁.desk = cs.desk at hdesk
  simp only [not_or, not_not] at hmode
  split_ifs at h with hpend
  · have hpos : 0 ≤ cs.desk.pending k := by
      have : cs₁.desk.pending k = cs.cactusTrefMaxCounterIdx k := hpend
      rw [hdesk] at this
      omega
    cases h
    refine .inr ⟨hmode.1, hmode.2.2, hpos, ?_⟩
    rw [← hdesk]
    rfl
  · cases h
    exact .inl hdesk

theorem refreshTrackers_desk : (cs.refreshTrackers cfg cmd).desk = cs.desk := by
  have hdream (cs : ChannelState) (reset : Bool) : (cs.dreamRefresh cfg reset).desk = cs.desk := by
    unfold dreamRefresh
    dsimp only
    split_ifs <;> rfl
  have hcactus (cs : ChannelState) (k : ℤ) (reset : Bool) :
      (cs.cactusRefresh cfg k reset).desk = cs.desk := by
    unfold cactusRefresh
    dsimp only
    split_ifs <;> rfl
  have habacus (cs : ChannelState) (reset : Bool) : (cs.abacusRefresh cfg reset).desk = cs.desk := by
    unfold abacusRefresh
    dsimp only
    split_ifs <;> rfl
  rw [refreshTrackers, habacus, hcactus, hdream]

theorem updateREFCounter_desk (h : cs.updateREFCounter cfg cmd = .ok cs') : cs'.desk = cs.desk := by
  unfold updateREFCounter at h
  dsimp only at h
  split_ifs at h <;> cases h <;> rfl

theorem channelMitig_desk : ((cs.dreamMitig cfg).abacusMitig cfg).desk = cs.desk := by
  have hdream : (cs.dreamMitig cfg).desk = cs.desk := by
    unfold dreamMitig
    split_ifs
    · rfl
    · split <;> rfl
  rw [← hdream]
  unfold abacusMitig
  split_ifs
  · rfl
  · split <;> rfl

/-- What an issued command does to the desk before activations are counted. -/
def DeskServed (cfg : Config) (d : Desk) (cmd : Command) (d' : Desk) : Prop :=
  (cmd.isRFM ∨ cmd.isDRFM) ∧ d' = d.serve cfg cmd ∨
    cmd.cmdType = .refAb ∧ cfg.cactusMode ≠ 0 ∧ 0 ≤ d.pending cmd.rank ∧ d' = d.absorb cmd.rank ∨
    (cmd.isRFM = false ∧ cmd.isDRFM = false) ∧ d' = d

theorem rankServed_desk (hm : cmd.isRankCMD) (h : cs.rankServed cfg cmd = .ok cs') :
    DeskServed cfg cs.desk cmd cs'.desk := by
  have hreq : Desk.requestOf cmd = request cmd.cmdType cmd.rank (-1) (-1) := if_pos hm
  unfold rankServed at h
  dsimp only at h
  split_ifs at h with hrfm hin href hdrfm
  · -- an RFMab that a rank waits for
    rw [Bool.and_eq_true, decide_eq_true_eq] at hin
    obtain ⟨cs₁, h₁, h⟩ := bind_ok_iff.mp h
    cases h
    refine .inl ⟨.inl hrfm, ?_⟩
    have hdesk := cactusMitig_desk h₁
    have hdrop : (cs.rankNeedRFM cmd.rank false).desk = cs.desk.drop (Desk.requestOf cmd) := by
      rw [hreq, hin.1]
      rfl
    rw [hdrop] at hdesk
    have hserve : cs.desk.serve cfg cmd = (if cfg.cactusMode ≠ 0 ∧ 0 ≤ cs.desk.pending cmd.rank then
        (cs.desk.drop (Desk.requestOf cmd)).mitigate cmd.rank
        else cs.desk.drop (Desk.requestOf cmd)).release cmd.rank := if_pos hin
    rw [hserve]
    change cs₁.desk.release cmd.rank = _
    rw [hdesk]
    rfl
  · cases h
    refine .inl ⟨.inl hrfm, ?_⟩
    have hty : cmd.cmdType = .rfmAb := by
      obtain ⟨ty, _, _⟩ := cmd
      cases ty <;> simp_all [Command.isRFM, Command.isRankCMD]
    have hserve : cs.desk.serve cfg cmd = cs.desk.drop (Desk.requestOf cmd) :=
      if_neg fun h => hin (by rw [Bool.and_eq_true, decide_eq_true_eq]; exact h)
    rw [hserve, hreq, hty]
    rfl
  · obtain ⟨cs₁, h₁, h⟩ := bind_ok_iff.mp h
    obtain ⟨cs₂, h₂, h⟩ := bind_ok_iff.mp h
    rw [updateREFCounter_desk h]
    have hty : cmd.cmdType = .refAb := by
      obtain ⟨ty, _, _⟩ := cmd
      cases ty <;> simp_all [Command.isRefresh, Command.isRankCMD]
    have hnot : cmd.isRFM = false ∧ cmd.isDRFM = false := by
      simp [Command.isRFM, Command.isDRFM, hty]
    have hstart : ((cs.rankNeedRefresh cmd.rank false).refreshTrackers cfg cmd).desk = cs.desk :=
      refreshTrackers_desk
    have hmitig := cactusTrefMitig_desk h₁
    rw [hstart] at hmitig
    -- the two TREF modes exclude each other
    rcases hmitig with hmitig | ⟨hmode, htref, hpos, hmitig⟩ <;>
      rcases cactusTrefMaxMitig_desk h₂ with hmax | ⟨hmode', htref', hpos', hmax⟩
    · exact .inr (.inr ⟨hnot, hmax.trans hmitig⟩)
    · rw [hmitig] at hpos' hmax
      exact .inr (.inl ⟨hty, hmode', hpos', hmax⟩)
    · exact .inr (.inl ⟨hty, hmode, hpos, hmax.trans hmitig⟩)
    · omega
  · cases h
    rw [channelMitig_desk]
    refine .inl ⟨.inr hdrfm, ?_⟩
    have hty : cmd.cmdType = .drfmAb := by
      obtain ⟨ty, _, _⟩ := cmd
      cases ty <;> simp_all [Command.isDRFM, Command.isRankCMD]
    have hserve : cs.desk.serve cfg cmd = cs.desk.drop (Desk.requestOf cmd) :=
      if_neg fun h => by simp [hty] at h
    rw [hserve, hreq, hty]
    rfl
  all_goals
    cases h
    exact .inr (.inr ⟨⟨by simpa using hrfm, by simpa using hdrfm⟩, rfl⟩)

theorem banksetServed_desk (hm : cmd.isRankCMD = false) (hs : cmd.isSbCMD)
    (h : cs.banksetServed cfg cmd = .ok cs') : DeskServed cfg cs.desk cmd cs'.desk := by
  have hreq : Desk.requestOf cmd = request cmd.cmdType cmd.rank (-1) cmd.bank := by
    simp [Desk.requestOf, hm, hs]
  have hserve : cs.desk.serve cfg cmd = cs.desk.drop (Desk.requestOf cmd) :=
    if_neg fun h => by simp [Command.isRankCMD, h.1] at hm
  unfold banksetServed at h
  split_ifs at h with hrfm hdrfm href
  · have hty : cmd.cmdType = .rfmSb := by
      obtain ⟨ty, _, _⟩ := cmd
      cases ty <;> simp_all [Command.isRFM, Command.isRankCMD]
    cases h
    refine .inl ⟨.inl hrfm, ?_⟩
    rw [hserve, hreq, hty]
    rfl
  · have hty : cmd.cmdType = .drfmSb := by
      obtain ⟨ty, _, _⟩ := cmd
      cases ty <;> simp_all [Command.isDRFM, Command.isRankCMD, Command.isSbCMD]
    cases h
    refine .inl ⟨.inr hdrfm, ?_⟩
    rw [hserve, hreq, hty]
    rfl
  · refine .inr (.inr ⟨⟨by simpa using hrfm, by simpa using hdrfm⟩, ?_⟩)
    exact (updateREFCounter_desk h).trans refreshTrackers_desk
  · cases h
    exact .inr (.inr ⟨⟨by simpa using hrfm, by simpa using hdrfm⟩, rfl⟩)

theorem bankServed_desk (hm : cmd.isRankCMD = false) (hs : cmd.isSbCMD = false) :
    DeskServed cfg cs.desk cmd (cs.bankServed cmd).desk := by
  have hrfm : cmd.isRFM = false := by
    obtain ⟨ty, _, _⟩ := cmd
    cases ty <;> simp_all [Command.isRFM, Command.isRankCMD, Command.isSbCMD]
  unfold bankServed
  split_ifs with href hdrfm
  · have hdrfm : cmd.isDRFM = false := by
      obtain ⟨ty, _, _⟩ := cmd
      cases ty <;> simp_all [Command.isRefresh, Command.isDRFM]
    exact .inr (.inr ⟨⟨hrfm, hdrfm⟩, rfl⟩)
  · have hty : cmd.cmdType = .drfmB := by
      obtain ⟨ty, _, _⟩ := cmd
      cases ty <;> simp_all [Command.isDRFM, Command.isRankCMD, Command.isSbCMD]
    have hreq : Desk.requestOf cmd = request cmd.cmdType cmd.rank cmd.bankgroup cmd.bank := by
      simp [Desk.requestOf, hm, hs]
    have hserve : cs.desk.serve cfg cmd = cs.desk.drop (Desk.requestOf cmd) :=
      if_neg fun h => by simp [hty] at h
    refine .inl ⟨.inr hdrfm, ?_⟩
    rw [hserve, hreq, hty]
    rfl
  · exact .inr (.inr ⟨⟨hrfm, by simpa using hdrfm⟩, rfl⟩)

theorem updateState_desk (h : cs.updateState cfg cmd = .ok cs') :
    DeskServed cfg cs.desk cmd cs'.desk := by
  obtain ⟨bs, _, hserved⟩ := updateState_eq h
  have hdesk : ({ cs with bankStates := bs } : ChannelState).desk = cs.desk := rfl
  rw [← hdesk]
  rcases hserved with ⟨hm, h⟩ | ⟨hm, hs, h⟩ | ⟨hm, hs, rfl⟩
  · exact rankServed_desk hm h
  · exact banksetServed_desk hm hs h
  · exact bankServed_desk hm hs

/-- An issued command counts an activation, serves a request, or absorbs one. -/
theorem updateTimingAndStates_desk {origin : Origin}
    (h : cs.updateTimingAndStates cfg cmd clk origin = .ok cs') :
    cmd.cmdType = .activate ∧ cs'.desk = cs.desk.activate cfg cmd.rank ∨
      cmd.cmdType ≠ .activate ∧ DeskServed cfg cs.desk cmd cs'.desk := by
  obtain ⟨cs₁, h₁, h⟩ := bind_ok_iff.mp h
  obtain ⟨cs₂, h₂, h⟩ := bind_ok_iff.mp h
  cases h
  obtain ⟨⟨bs, htiming⟩, _⟩ := applyTiming_eq cs₂ clk (timingUpdates cfg cmd)
  rw [htiming]
  obtain ⟨n, f, t, a, l, es, rfl, hes⟩ := countAndAlert_eq h₂
  have hserved := updateState_desk h₁
  have hquiet : es.filterMap Event.desk? = [] := by
    rcases hes with ⟨_, _, rfl⟩ | ⟨_, _, _, _, rfl⟩ <;> rfl
  have hdesk : ChannelState.desk { cs₁ with
      bankStates := bs, numActsAbo := n, cactusActsSinceRfm := actsAfter cfg cs₁ cmd, fourAw := f,
      thirtyTwoAw := t, alertN := a, lastAlertClk := l, log := es ++ cs₁.log } =
      { cs₁.desk with acts := actsAfter cfg cs₁ cmd } := by
    simp [ChannelState.desk, hquiet]
  rw [hdesk]
  by_cases hact : cmd.cmdType = .activate
  · refine .inl ⟨hact, ?_⟩
    rcases hserved with ⟨hcmd, _⟩ | ⟨hty, _⟩ | ⟨_, heq⟩
    · simp [Command.isRFM, Command.isDRFM, hact] at hcmd
    · simp [hact] at hty
    · rw [heq]
      have hacts : cs₁.cactusActsSinceRfm = cs.cactusActsSinceRfm := congrArg Desk.acts heq
      simp [actsAfter, hact, hacts, Desk.activate, ChannelState.desk, record, Event.desk?]
  · refine .inr ⟨hact, ?_⟩
    have hrecord : (cs.record (.issue cmd clk origin cs.bankStates)).desk = cs.desk := by
      simp [ChannelState.desk, record, Event.desk?, hact]
    have hacts : actsAfter cfg cs₁ cmd = cs₁.desk.acts := by
      simp [actsAfter, hact, ChannelState.desk]
    rw [hacts]
    rw [hrecord] at hserved
    exact hserved

/-- The banks that wait for a DRFM after an issued command. -/
theorem Issued.blocked {origin : Origin} (h : Issued cfg cs cmd clk origin cs') :
    cs'.hand.2 = fun i => if cmd.isDRFM ∧ i ∈ covered cfg cmd then false else cs.hand.2 i := by
  funext i
  obtain ⟨b, hin, hout, htables, _⟩ := h.tables i
  have hb : cs'.hand.2 i = b.drfmIssued := congrArg BankState.Tables.drfmIssued htables
  rw [hb]
  by_cases hi : i ∈ covered cfg cmd
  · rw [BankState.updateState_drfmIssued (hin hi)]
    simp [hi, hand]
  · rw [hout hi]
    simp [hi, hand]

theorem Issued.blocked_of_not_isDRFM {origin : Origin} (h : Issued cfg cs cmd clk origin cs')
    (hd : cmd.isDRFM = false) : cs'.hand.2 = cs.hand.2 := by
  rw [h.blocked]
  simp [hd]

theorem getCactusIdx_range {i : BankId} {r row cidx : ℕ} (hrank : i.rank = r) (hrow : row < cfg.rows)
    (hperms : ∀ n, cs.cactusInvRowPerms n < cfg.rows) (h : cs.getCactusIdx cfg i row = .ok cidx) :
    i.rank * cfg.rows ≤ cidx ∧ (cidx : ℤ) < (i.rank + 1) * cfg.rows := by
  have hle {n : ℕ} (hn : n < cfg.rows) (hcidx : r * cfg.rows + n = cidx) :
      i.rank * cfg.rows ≤ cidx ∧ (cidx : ℤ) < (i.rank + 1) * cfg.rows := by
    rw [hrank, ← hcidx]
    push_cast
    constructor <;> nlinarith
  unfold getCactusIdx cactusSize at h
  rw [hrank, Int.toNat_natCast] at h
  split_ifs at h
  · exact hle hrow (Except.ok.inj h)
  · exact hle (hperms _) (Except.ok.inj h)

/-- The hooks of an activation raise at most an alert of its rank. -/
theorem Hooked.hand {full : Bool} (h : Hooked cfg cs cmd clk full cs') (ha : cfg.InRange cmd.addr)
    (hperms : ∀ n, cs.cactusInvRowPerms n < cfg.rows) :
    ReflTransGen (Desk.Move cfg) cs.hand cs'.hand := by
  have hblocked : cs'.hand.2 = cs.hand.2 := by
    funext j
    change (cs'.bankStates j).drfmIssued = (cs.bankStates j).drfmIssued
    rw [h.banks]
    by_cases hj : j = cmd.bankId
    · subst hj
      simp [BankState.sampled, BankState.preACT_drfmIssued]
    · simp [BankState.sampled, hj]
  obtain ⟨alert, inflight, alerts, hraise, hlog⟩ := h.log
  have hdream : h.dream.es.filterMap Event.desk? = [] := by
    rcases h.hdream with ⟨_, hd⟩ | ⟨_, _, _, _, hd⟩ <;> rw [hd] <;> rfl
  have habacus : h.abacus.es.filterMap Event.desk? = [] := by
    rcases h.habacus with ⟨_, ha⟩ | ⟨_, _, ha⟩ <;> rw [ha] <;> rfl
  have htrail : cs'.desk.trail = alerts.filterMap Event.desk? ++ cs.desk.trail := by
    change cs'.log.filterMap Event.desk? = _
    rw [hlog, List.filterMap_cons_none rfl]
    simp [List.filterMap_append, hdream, habacus, ChannelState.desk]
  have hhand : cs'.hand = (cs'.desk, cs.hand.2) := Prod.ext rfl hblocked
  obtain ⟨r, _, hrank⟩ := ha.rank
  obtain ⟨row, hrow, hrow'⟩ := ha.row
  have hrowid : u32 cmd.row < cfg.rows := by
    have hle : u32 cmd.row ≤ row := by
      rw [Command.row, hrow']
      unfold u32
      omega
    omega
  have hidx := getCactusIdx_range (i := cmd.bankId) hrank hrowid hperms h.hcidx
  rw [hhand]
  rcases hraise with ⟨halert, hpend, rfl⟩ | ⟨hmode, hquiet, hfree, hacts, halert, hpend, rfl⟩
  · have hdesk : cs'.desk = cs.desk := by
      have htrail' : cs'.desk.trail = cs.desk.trail := by simpa using htrail
      simp only [ChannelState.desk] at htrail' ⊢
      rw [halert, hpend, h.inflight, h.acts, h.rfmQ, h.rfmCalls, htrail']
    rw [hdesk]
    exact .refl
  · have hdesk : cs'.desk = cs.desk.raise cmd.bankId.rank h.cidx := by
      have htrail' : cs'.desk.trail = .raised cmd.bankId.rank :: cs.desk.trail := by
        simpa [Event.desk?] using htrail
      simp only [ChannelState.desk, Desk.raise] at htrail' ⊢
      rw [halert, hpend, h.inflight, h.acts, h.rfmQ, h.rfmCalls, htrail']
    rw [hdesk]
    exact .single (.raise hmode hidx hquiet hfree hacts)

theorem launched_hand : (cs.launched cfg cmd).hand =
    (cs.desk.launch cfg cmd, Function.update cs.hand.2 cmd.bankId true) := by
  refine Prod.ext rfl (funext fun j => ?_)
  by_cases hj : j = cmd.bankId
  · subst hj
    simp [hand, launched, modifyBank, BankState.markDRFMIssued]
  · simp [hand, launched, modifyBank, hj]

theorem needRFM_hand {req : Command} {target : Command → Bool} (ht : target = rfmTarget req) :
    (cs.needRFM req target true).hand = (cs.desk.ask req, cs.hand.2) := by
  subst ht
  unfold needRFM Desk.ask
  rw [if_pos rfl]
  cases hany : cs.rfmQ.any (rfmTarget req) <;> simp [hany, hand, ChannelState.desk]

theorem banksetNeedRFM_hand (rank bank : ℤ) : (cs.banksetNeedRFM rank bank true).hand =
    (cs.desk.ask (request .rfmSb rank (-1) bank), cs.hand.2) :=
  needRFM_hand rfl

theorem rankNeedRFM_hand (rank : ℤ) : (cs.rankNeedRFM rank true).hand =
    (cs.desk.ask (request .rfmAb rank (-1) (-1)), cs.hand.2) :=
  needRFM_hand rfl

/-- The alert of a rank whose delay has passed becomes a request. -/
theorem cactusTick_hand (hmode : cfg.cactusMode ≠ 0) (k : ℤ) :
    ReflTransGen (Desk.Move cfg) cs.hand (cactusTick cfg clk cs k).hand := by
  unfold cactusTick
  dsimp only
  split_ifs with hidle
  · exact .refl
  · exact .refl
  · simp only [Bool.or_eq_true, Bool.not_eq_true', not_or, Bool.not_eq_true,
      Bool.not_eq_false] at hidle
    generalize hcall : RfmCall.cactus k (cs.rfmQ.filter fun c => c.rank = k) = call
    have hask := (cs.recordRfm call).rankNeedRFM_hand k
    generalize (cs.recordRfm call).rankNeedRFM k true = cs' at hask ⊢
    have hdesk : ({ cs'.clearAlert k with
        cactusRfmInflight := Function.update (cs'.clearAlert k).cactusRfmInflight k true }).hand =
        ({ cs'.hand.1 with
          alert := Function.update cs'.hand.1.alert k false
          inflight := Function.update cs'.hand.1.inflight k true }, cs'.hand.2) := rfl
    rw [hdesk, hask, ← hcall]
    exact .single (.promote hmode hidle.1 hidle.2)

/-- A READ or WRITE makes a bank ask for an RFM only if that is on. -/
theorem rfmMode_of_needRFM {ty : CommandType} {i : BankId} (hty : ty = .rfmSb ∨ ty = .rfmAb)
    (hne : ty ≠ cmd.cmdType)
    (h : (cs.bankStates i).getReadyCommand cfg cmd clk = .ok (some { cmd with cmdType := ty })) :
    cfg.rfmMode ≠ 0 := by
  obtain ⟨ty', hreq, _, heq⟩ := BankState.getReadyCommand_some_iff.mp h
  obtain rfl : ty' = ty := (congrArg Command.cmdType heq).symm
  exact ((BankState.requiredType_rfm hreq (hty.imp_right .inl)).resolve_left hne).2.1

/-- A query makes at most moves of the protocol. -/
theorem Answer.hand (hreg : Regular cfg cs) {origin : Origin} (ha : Chan.Asks cfg cs cmd origin)
    (hperms : ∀ n, cs.cactusInvRowPerms n < cfg.rows) {r? : Option Command}
    (h : Answer cfg cs cmd clk r? cs') : ReflTransGen (Desk.Move cfg) cs.hand cs'.hand := by
  have hlaunch {cs cs' : ChannelState} (h : cs.launchDRFM cfg cmd = .ok cs')
      (hr : cfg.InRange cmd.addr) : Desk.Move cfg cs.hand cs'.hand := by
    obtain ⟨hmode, rfl⟩ := launchDRFM_exact h
    rw [launched_hand]
    exact .launch hmode hr.mem_allBanks
  cases h with
  | wait | divert | allReady | single => exact .refl
  | needRFMsb hb hm =>
    have hmode := rfmMode_of_needRFM (.inl rfl)
      (fun hty => hm.2 (by simp [Command.isSbCMD, ← hty])) hb
    rw [banksetNeedRFM_hand]
    exact .single (.ask (.inl hmode) rfl)
  | needRFMab hb hm =>
    have hmode := rfmMode_of_needRFM (.inr rfl)
      (fun hty => hm.1 (by simp [Command.isRankCMD, ← hty])) hb
    rw [rankNeedRFM_hand]
    exact .single (.ask (.inl hmode) rfl)
  | eager _ _ h hb => exact .single (hlaunch h (inRange_of_activate hreg ha hb))
  | hydraWait h =>
    obtain ⟨_, _, _, rfl⟩ := hydraCheck_eq h
    exact .refl
  | lazy _ hcheck hhook h hb =>
    have hr := inRange_of_activate hreg ha hb
    obtain ⟨_, _, _, rfl⟩ := hydraCheck_eq hcheck
    obtain ⟨hh⟩ := preactHooks_hooked hhook
    exact (hh.hand hr hperms).tail (hlaunch h hr)
  | activate _ hcheck hhook hb =>
    obtain ⟨_, _, _, rfl⟩ := hydraCheck_eq hcheck
    obtain ⟨hh⟩ := preactHooks_hooked hhook
    exact hh.hand (inRange_of_activate hreg ha hb) hperms

/-- The clock of a channel turns alerts into RFMab requests. -/
theorem clockTick_hand (hquiet : cfg.moatMode ≠ 1 → cs.alertN = false) :
    ReflTransGen (Desk.Move cfg) cs.hand (cs.clockTick cfg clk).hand := by
  refine clockTick_rel (R := fun cs cs' => ReflTransGen (Desk.Move cfg) cs.hand cs'.hand)
    (fun _ => .refl) .trans (fun halert => .single ?_) fun hmode _ k => cactusTick_hand hmode k
  have hmoat : cfg.moatMode = 1 := by
    by_contra hmoat
    simp [hquiet hmoat] at halert
  have hreset : ((cs.rankNeedRFM cs.alertRank true).resetAlert).hand =
      (cs.rankNeedRFM cs.alertRank true).hand := rfl
  rw [hreset, rankNeedRFM_hand]
  exact .ask (.inr ⟨hmoat, rfl⟩) rfl

end ChannelState

theorem Boot.cactusInvRowPerms_lt {cfg : Config} (boot : Boot cfg) (n : ℕ) :
    boot.cactusInvRowPerms n < cfg.rows := by
  suffices h : ∀ (l : List ℕ) (tables : (ℕ → ℕ) × (ℕ → ℕ)), tables.2 n < cfg.rows →
      (l.foldl boot.permuteBank tables).2 n < cfg.rows from h _ _ cfg.rows_pos
  intro l
  induction l with
  | nil => exact fun _ h => h
  | cons b l ih =>
    intro tables h
    apply ih
    apply writeAll_induct (P := (· < cfg.rows)) h
    intro k hk
    exact List.mem_range.mp hk

namespace Chan
open ChannelState
variable {cfg : Config} {π : Micro.Policy} {v v' : Chan}

/-- A chosen RFM or DRFM is the request in front of its queue, or an RFM that a metadata access
needs; without MOAT no ABO alert is set; the inverse permutations stay within the rows. -/
structure HandReady (cfg : Config) (v : Chan) : Prop where
  ready : Ready cfg v
  front : ∀ p, v.ticket = some p → p.cmd.isRFM ∨ p.cmd.isDRFM →
    v.cs.rfmQ.head? = some p.cmd ∨ p.cmd.isRFM ∧ cfg.rfmMode ≠ 0
  quiet : cfg.moatMode ≠ 1 → v.cs.alertN = false
  perms : ∀ n, v.cs.cactusInvRowPerms n < cfg.rows

theorem handReady_boot (boot : Boot cfg) : HandReady cfg ⟨boot.channelState, 0, none, []⟩ :=
  ⟨ready_boot boot, fun _ h => (nomatch h), fun _ => rfl, boot.cactusInvRowPerms_lt⟩

/-- A step makes moves of the protocol. -/
theorem Step.hand (hv : HandReady cfg v) (h : Step cfg π v v') :
    ReflTransGen (Desk.Move cfg) v.cs.hand v'.cs.hand := by
  cases h with
  | environment | requestRefresh | drop | tock => exact .refl
  | tick => exact clockTick_hand hv.quiet
  | query hs h => exact h.hand hv.ready.regular hs hv.perms
  | pick _ hs _ h => exact h.hand hv.ready.regular hs hv.perms
  | hydraQuery h =>
    obtain ⟨⟨_, _, _, rfl⟩, _⟩ := getReadyHydraCommand_eq h
    exact .refl
  | pickHydra _ h =>
    obtain ⟨⟨_, _, _, rfl⟩, _⟩ := getReadyHydraCommand_eq h
    exact .refl
  | @issue cs clk p _ cs' h =>
    have hi := updateTimingAndStates_issued h
    have hplain (hd : p.cmd.isDRFM = false) : cs'.hand = (cs'.desk, cs.hand.2) :=
      Prod.ext rfl (hi.blocked_of_not_isDRFM hd)
    rcases updateTimingAndStates_desk h with ⟨hty, hdesk⟩ | ⟨_, ⟨hcmd, hdesk⟩ | hrefresh | hnone⟩
    · change ReflTransGen (Desk.Move cfg) cs.hand cs'.hand
      rw [hplain (by simp [Command.isDRFM, hty]), hdesk]
      exact .single (.activate _)
    · have hhand : cs'.hand = (cs.desk.serve cfg p.cmd,
          fun i => if p.cmd.isDRFM ∧ i ∈ covered cfg p.cmd then false else cs.hand.2 i) :=
        Prod.ext hdesk hi.blocked
      change ReflTransGen (Desk.Move cfg) cs.hand cs'.hand
      rw [hhand]
      exact .single (.serve hcmd (hv.front p rfl hcmd))
    · obtain ⟨hty, hmode, hpos, hdesk⟩ := hrefresh
      change ReflTransGen (Desk.Move cfg) cs.hand cs'.hand
      rw [hplain (by simp [Command.isDRFM, hty]), hdesk]
      exact .single (.absorb hmode hpos)
    · obtain ⟨⟨_, hd⟩, hdesk⟩ := hnone
      change ReflTransGen (Desk.Move cfg) cs.hand cs'.hand
      rw [hplain hd, hdesk]
      exact .refl

theorem type_of_isRFM {r : Command} (hr : r.isRFM ∨ r.isDRFM) : r.cmdType = .rfmSb ∨
    r.cmdType = .rfmAb ∨ r.cmdType = .drfmB ∨ r.cmdType = .drfmSb ∨ r.cmdType = .drfmAb := by
  obtain ⟨ty, _, _⟩ := r
  cases ty <;> simp_all [Command.isRFM, Command.isDRFM]

/-- An RFM or DRFM in answer to a query is the request itself. -/
theorem answer_eq_of_isRFM {cs cs' : ChannelState} {cmd r : Command} {clk : ℕ}
    (h : Answer cfg cs cmd clk (some r) cs') (hr : r.isRFM ∨ r.isDRFM) : r = cmd := by
  cases h with
  | divert hm hd =>
    obtain ⟨_, i, _, ty, _, _, hi, hne, rfl⟩ := hd
    obtain ⟨ty', hreq, _, heq⟩ := BankState.getReadyCommand_some_iff.mp hi
    cases heq
    rcases BankState.requiredType_rfm hreq (type_of_isRFM hr) with hsame | ⟨hrw, _⟩
    · exact absurd hsame hne
    · simp [not_multi_of_isReadWrite hrw] at hm
  | allReady => rfl
  | single _ hb _ hrfm =>
    obtain ⟨ty, hreq, _, rfl⟩ := BankState.getReadyCommand_some_iff.mp hb
    rcases BankState.requiredType_rfm hreq (type_of_isRFM hr) with rfl | ⟨_, _, hty | hty⟩
    · rfl
    · simp [Command.isRFM, hty] at hrfm
    · simp [Command.isRFM, hty] at hrfm
  | activate => simp [activation, Command.isRFM, Command.isDRFM] at hr

/-- A chosen RFM or DRFM is in front of its queue. -/
theorem front_of_answer {cs cs' : ChannelState} {cmd r : Command} {clk : ℕ} {origin : Origin}
    (hreg : Regular cfg cs) (hs : Asks cfg cs cmd origin) (h : Answer cfg cs cmd clk (some r) cs')
    (hr : r.isRFM ∨ r.isDRFM) : cs'.rfmQ.head? = some r := by
  obtain rfl := answer_eq_of_isRFM h hr
  obtain ⟨extra, hextra, _⟩ := h.queried.rfmQ
  have hother : ¬r.isRefresh ∧ ¬r.isReadWrite ∧ r.cmdType ≠ .srefEnter ∧ r.cmdType ≠ .srefExit := by
    obtain ⟨ty, _, _⟩ := r
    cases ty <;> simp_all [Command.isRFM, Command.isDRFM, Command.isRefresh, Command.isReadWrite,
      Command.isRead, Command.isWrite]
  cases hs with
  | refresh hq => exact absurd (hreg.refreshQ _ (hq ▸ List.mem_cons_self)) hother.1
  | rfm hq => simp [hextra, hq]
  | demand hrw => exact absurd hrw hother.2.1
  | sref _ _ hty => exact absurd hty (not_or.mpr hother.2.2)

/-- The clock of a channel raises no ABO alert. -/
theorem clockTick_alertN {cs : ChannelState} {clk : ℕ} (h : (cs.clockTick cfg clk).alertN) :
    cs.alertN := by
  revert h
  refine clockTick_rel (R := fun cs cs' => cs'.alertN → cs.alertN) (fun _ => id)
    (fun h h' => h ∘ h') (fun _ h => nomatch h) fun _ cs k h => ?_
  unfold cactusTick at h
  dsimp only at h
  split_ifs at h
  · exact h
  · exact h
  · generalize RfmCall.cactus _ _ = call at h
    have hkept : ((cs.recordRfm call).rankNeedRFM k true).alertN = cs.alertN :=
      (aboKept_needRFM _ _ _).fields.1
    exact hkept.symm.trans h

theorem clockTick_fixed {cs : ChannelState} {clk : ℕ} : (cs.clockTick cfg clk).fixed = cs.fixed :=
  clockTick_keeps fixed (fun _ _ => needRFM_fixed _ _ _) (fun _ _ => rfl) (fun _ => rfl)
    fun _ _ _ => rfl

/-- The maintenance that a bank asks for before a READ or WRITE is an RFM. -/
theorem rfm_of_readWrite {b : BankState} {cmd r : Command} {clk : ℕ} (hrw : cmd.isReadWrite)
    (h : b.getReadyCommand cfg cmd clk = .ok (some r)) (hr : r.isRFM ∨ r.isDRFM) :
    r.isRFM ∧ cfg.rfmMode ≠ 0 := by
  obtain ⟨ty, hreq, _, rfl⟩ := BankState.getReadyCommand_some_iff.mp h
  rcases BankState.requiredType_rfm hreq (type_of_isRFM hr) with rfl | ⟨_, hmode, hty⟩
  · have hne : ¬(cmd.isRFM ∨ cmd.isDRFM) := by
      obtain ⟨cty, _, _⟩ := cmd
      cases cty <;> simp_all [Command.isReadWrite, Command.isRead, Command.isWrite, Command.isRFM,
        Command.isDRFM]
    exact absurd hr hne
  · exact ⟨by rcases hty with rfl | rfl <;> rfl, hmode⟩

theorem HandReady.step (hv : HandReady cfg v) (h : Step cfg π v v') : HandReady cfg v' := by
  have hperms {cs cs' : ChannelState} (hp : ∀ n, cs.cactusInvRowPerms n < cfg.rows)
      (hfixed : cs'.fixed = cs.fixed) (n : ℕ) : cs'.cactusInvRowPerms n < cfg.rows := by
    have heq : cs'.cactusInvRowPerms = cs.cactusInvRowPerms := congrArg (·.2.2) hfixed
    rw [heq]
    exact hp n
  have hanswer {cs cs' : ChannelState} {cmd : Command} {clk : ℕ} {r? : Option Command}
      (hquiet : cfg.moatMode ≠ 1 → cs.alertN = false) (hp : ∀ n, cs.cactusInvRowPerms n < cfg.rows)
      (h : Answer cfg cs cmd clk r? cs') : (cfg.moatMode ≠ 1 → cs'.alertN = false) ∧
        ∀ n, cs'.cactusInvRowPerms n < cfg.rows :=
    ⟨fun hm => h.aboKept.fields.1.trans (hquiet hm), hperms hp h.aboKept.fixed⟩
  have hready := hv.ready.step h
  obtain ⟨hr, _, hquiet, hp⟩ := hv
  cases h with
  | environment | requestRefresh | drop | tock => exact ⟨hready, fun _ h => (nomatch h), hquiet, hp⟩
  | tick =>
    refine ⟨hready, fun _ h => (nomatch h), fun hm => ?_, hperms hp clockTick_fixed⟩
    refine Bool.eq_false_iff.mpr fun hset => ?_
    have hbefore := clockTick_alertN hset
    exact absurd ((hquiet hm).symm.trans hbefore) (by decide)
  | query _ h => exact ⟨hready, fun _ h => (nomatch h), (hanswer hquiet hp h).1, (hanswer hquiet hp h).2⟩
  | pick _ hs _ h =>
    refine ⟨hready, fun p hp hcmd => ?_, (hanswer hquiet hp h).1, (hanswer hquiet hp h).2⟩
    cases hp
    exact .inl (front_of_answer hr.regular hs h hcmd)
  | hydraQuery h =>
    obtain ⟨⟨_, _, _, rfl⟩, _⟩ := getReadyHydraCommand_eq h
    exact ⟨hready, fun _ h => (nomatch h), hquiet, hp⟩
  | pickHydra _ h =>
    obtain ⟨⟨_, _, _, rfl⟩, hanswer, _⟩ := getReadyHydraCommand_eq h
    refine ⟨hready, fun p hp hcmd => .inr ?_, hquiet, hp⟩
    cases hp
    obtain ⟨cmd, hmem, hb⟩ := hanswer _ rfl
    exact rfm_of_readWrite (hr.regular.hydraQ cmd hmem) hb hcmd
  | issue h =>
    have hi := updateTimingAndStates_issued h
    refine ⟨hready, fun _ h => (nomatch h), fun hm => ?_, hperms hp hi.fixed⟩
    obtain ⟨_, _, _, ⟨hn, _⟩ | ⟨hmoat, _⟩, _⟩ := hi.alert
    · exact hn.trans (hquiet hm)
    · exact absurd hmoat hm

end Chan

/-- What the moves of the protocol keep holds of the protocol state of every reached channel. -/
theorem Micro.Reached.hand_induct {cfg : Config} {π : Micro.Policy} {m : Micro}
    {P : Desk × (BankId → Bool) → Prop} (hboot : ∀ boot : Boot cfg, P boot.channelState.hand)
    (hmove : ∀ s s', P s → Desk.Move cfg s s' → P s') (h : Micro.Reached cfg π m) :
    P m.ctl.channelState.hand := by
  have hchan := h.chan_induct (P := fun v => Chan.HandReady cfg v ∧ P v.cs.hand)
    (fun boot => ⟨Chan.handReady_boot boot, hboot boot⟩) fun v v' hv hs =>
      ⟨hv.1.step hs, invariant_of_steps hmove (hs.hand hv.1) hv.2⟩
  exact hchan.2

end CactusDram
