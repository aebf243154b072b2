import CactusDram.AboAlerts
import CactusDram.SharedQueue

/-! The DRFM requests of a channel on which nothing else uses the RFM queue: which banks wait for
which request, and what cannot happen to a bank while it waits. -/
namespace CactusDram
open Foundations Relation ChannelState

/-- DRFMs are on, and RFM, CACTUS, MOAT and Hydra are off. -/
structure Config.OnlyDRFM (cfg : Config) : Prop where
  mode : cfg.drfmMode = 1 ∨ cfg.drfmMode = 2 ∨ cfg.drfmMode = 3
  rfm : cfg.rfmMode = 0
  cactus : cfg.cactusMode = 0
  moat : cfg.moatMode = 0
  hydra : cfg.hydraMode = 0

namespace ChannelState
variable {cfg : Config}

/-- Two DRFM requests for one target are the same request. -/
theorem drfmRequest_eq_of_rfmTarget {cmd cmd' : Command}
    (h : rfmTarget (drfmRequest cfg cmd) (drfmRequest cfg cmd')) :
    drfmRequest cfg cmd' = drfmRequest cfg cmd := by
  unfold drfmRequest at h ⊢
  split_ifs at h ⊢ with h₁ h₂
  · have hsame : (cmd'.rank = cmd.rank && cmd'.bankgroup = cmd.bankgroup && cmd'.bank = cmd.bank) =
        true := h
    simp only [Bool.and_eq_true, decide_eq_true_eq] at hsame
    rw [hsame.1.1, hsame.1.2, hsame.2]
  · have hsame : (cmd'.rank = cmd.rank && cmd'.bank = cmd.bank) = true := h
    simp only [Bool.and_eq_true, decide_eq_true_eq] at hsame
    rw [hsame.1, hsame.2]
  · rw [show cmd'.rank = cmd.rank from of_decide_eq_true h]

/-- Different DRFM requests concern different banks. -/
theorem drfmRequest_eq_of_mem {cmd cmd' : Command} {i : BankId}
    (h : i ∈ covered cfg (drfmRequest cfg cmd)) (h' : i ∈ covered cfg (drfmRequest cfg cmd')) :
    drfmRequest cfg cmd' = drfmRequest cfg cmd := by
  unfold drfmRequest at h h' ⊢
  split_ifs at h h' ⊢ with h₁ h₂
  · have hid : (request .drfmB cmd'.rank cmd'.bankgroup cmd'.bank).bankId =
        (request .drfmB cmd.rank cmd.bankgroup cmd.bank).bankId :=
      (List.mem_singleton.mp h').symm.trans (List.mem_singleton.mp h)
    simp only [request, Command.bankId, Address.bankId, BankId.mk.injEq] at hid ⊢
    rw [hid.1, hid.2.1, hid.2.2]
  · have hb := cfg.mem_banksetBanks.mp h
    have hb' := cfg.mem_banksetBanks.mp h'
    simp only [request, Command.rank, Command.bank] at hb hb' ⊢
    rw [← hb.1, ← hb.2.2, hb'.1, hb'.2.2]
  · have hb := cfg.mem_rankBanks.mp h
    have hb' := cfg.mem_rankBanks.mp h'
    simp only [request, Command.rank] at hb hb' ⊢
    rw [← hb.1, hb'.1]

end ChannelState

namespace Desk
variable {cfg : Config} {d : Desk} {b : BankId → Bool}

/-- The queue holds DRFM requests for different targets; a bank waits exactly if one of them covers
it, and each of them covers a bank that waits. -/
structure Booked (cfg : Config) (s : Desk × (BankId → Bool)) : Prop where
  shape : ∀ r ∈ s.1.rfmQ, ∃ cmd, r = drfmRequest cfg cmd
  marked : ∀ i, s.2 i = true → ∃ r ∈ s.1.rfmQ, i ∈ covered cfg r
  owed : ∀ r ∈ s.1.rfmQ, ∃ i ∈ covered cfg r, s.2 i = true
  nodup : s.1.rfmQ.Nodup

theorem Booked.launch {cmd : Command} (h : Booked cfg (d, b)) (hbank : cmd.bankId ∈ cfg.allBanks) :
    Booked cfg (d.launch cfg cmd, Function.update b cmd.bankId true) := by
  have hcover := mem_covered_drfmRequest hbank
  have hup {i : BankId} (hi : b i = true) : Function.update b cmd.bankId true i = true := by
    rw [Function.update_apply]
    split_ifs
    · rfl
    · exact hi
  have hfound : drfmRequest cfg cmd ∈ (d.launch cfg cmd).rfmQ := by
    rcases d.exists_ask (drfmRequest cfg cmd) with hnew | ⟨hfound, hsame⟩
    · exact hnew
    · obtain ⟨r, hr⟩ := List.exists_mem_of_ne_nil _ hfound
      obtain ⟨hr, htarget⟩ := List.mem_filter.mp hr
      obtain ⟨cmd', rfl⟩ := h.shape r hr
      rw [drfmRequest_eq_of_rfmTarget htarget] at hr
      exact mem_ask hr
  refine ⟨fun r hr => ?_, fun i hi => ?_, fun r hr => ?_, ?_⟩
  · change r ∈ (d.ask (drfmRequest cfg cmd)).rfmQ at hr
    unfold ask at hr
    dsimp only at hr
    split_ifs at hr
    · exact h.shape r hr
    · rcases List.mem_append.mp hr with hr | hr
      · exact h.shape r hr
      · exact ⟨cmd, List.mem_singleton.mp hr⟩
  · by_cases hic : i = cmd.bankId
    · subst hic
      exact ⟨_, hfound, hcover⟩
    · obtain ⟨r, hr, hi⟩ := h.marked i (by simpa [hic] using hi)
      exact ⟨r, mem_ask hr, hi⟩
  · change r ∈ (d.ask (drfmRequest cfg cmd)).rfmQ at hr
    have hcases : r ∈ d.rfmQ ∨ r = drfmRequest cfg cmd := by
      unfold ask at hr
      dsimp only at hr
      split_ifs at hr
      · exact .inl hr
      · exact (List.mem_append.mp hr).imp_right List.mem_singleton.mp
    rcases hcases with hr | rfl
    · obtain ⟨i, hi, hb⟩ := h.owed r hr
      exact ⟨i, hi, hup hb⟩
    · exact ⟨cmd.bankId, hcover, by simp⟩
  · change (d.ask (drfmRequest cfg cmd)).rfmQ.Nodup
    unfold ask
    dsimp only
    split_ifs with hany
    · exact h.nodup
    · refine List.nodup_append.mpr ⟨h.nodup, List.nodup_singleton _, fun r hr r' hr' => ?_⟩
      rintro rfl
      rw [List.mem_singleton] at hr'
      subst hr'
      refine hany (List.any_eq_true.mpr ⟨_, hr, ?_⟩)
      unfold drfmRequest
      split_ifs <;> simp [rfmTarget, request, Command.isRankCMD, Command.isSbCMD]

theorem Booked.serve {cmd : Command} (h : Booked cfg (d, b)) (hfront : d.rfmQ.head? = some cmd) :
    Booked cfg (d.serve cfg cmd,
      fun i => if cmd.isDRFM ∧ i ∈ covered cfg cmd then false else b i) := by
  obtain ⟨rest, hq⟩ : ∃ rest, d.rfmQ = cmd :: rest := by
    cases hd : d.rfmQ with
    | nil => simp [hd] at hfront
    | cons r rest =>
      rw [hd] at hfront
      cases hfront
      exact ⟨rest, rfl⟩
  obtain ⟨cmd₀, rfl⟩ := h.shape cmd (hq ▸ List.mem_cons_self)
  have hself : rfmTarget (drfmRequest cfg cmd₀) (drfmRequest cfg cmd₀) = true := by
    unfold drfmRequest
    split_ifs <;> simp [rfmTarget, request, Command.isRankCMD, Command.isSbCMD]
  have hrest : (d.serve cfg (drfmRequest cfg cmd₀)).rfmQ = rest := by
    rw [serve_rfmQ]
    change d.rfmQ.eraseP _ = rest
    rw [rfmTarget_requestOf, hq, List.eraseP_cons_of_pos hself]
  have hdrfm : (drfmRequest cfg cmd₀).isDRFM = true := isDRFM_drfmRequest cmd₀
  have hnodup := h.nodup
  rw [show (d, b).1.rfmQ = _ from hq] at hnodup
  obtain ⟨hnot, hnodup⟩ := List.nodup_cons.mp hnodup
  -- a bank of another request is no bank of the served one
  have hapart {r : Command} (hr : r ∈ rest) {i : BankId} (hi : i ∈ covered cfg r) :
      i ∉ covered cfg (drfmRequest cfg cmd₀) := by
    intro hserved
    obtain ⟨cmd', rfl⟩ := h.shape r (hq ▸ List.mem_cons_of_mem _ hr)
    rw [drfmRequest_eq_of_mem hserved hi] at hr
    exact hnot hr
  refine ⟨fun r hr => ?_, fun i hi => ?_, fun r hr => ?_, ?_⟩
  · rw [hrest] at hr
    exact h.shape r (hq ▸ List.mem_cons_of_mem _ hr)
  · simp only [hdrfm, true_and] at hi
    split_ifs at hi with hserved
    obtain ⟨r, hr, hcover⟩ := h.marked i hi
    rw [show (d, b).1.rfmQ = _ from hq, List.mem_cons] at hr
    rcases hr with rfl | hr
    · exact absurd hcover hserved
    · exact ⟨r, hrest ▸ hr, hcover⟩
  · rw [hrest] at hr
    obtain ⟨i, hi, hb⟩ := h.owed r (hq ▸ List.mem_cons_of_mem _ hr)
    refine ⟨i, hi, ?_⟩
    simp [hapart hr hi, show b i = true from hb]
  · rw [hrest]
    exact hnodup

/-- On a channel with DRFMs only, the moves keep the queue and the waiting banks together. -/
theorem Booked.move (hcfg : cfg.OnlyDRFM) {s s' : Desk × (BankId → Bool)} (h : Booked cfg s)
    (hm : Move cfg s s') : Booked cfg s' := by
  have hcactus := hcfg.cactus
  have hrfm := hcfg.rfm
  have hmoat := hcfg.moat
  cases hm with
  | raise hmode | promote hmode | absorb hmode => exact absurd hcactus hmode
  | ask hmode => omega
  | activate => exact ⟨h.shape, h.marked, h.owed, h.nodup⟩
  | launch _ hbank => exact h.launch hbank
  | serve hcmd hfront => exact h.serve (hfront.resolve_right fun hno => hno.2 hrfm)

end Desk
namespace Event

/-- A DRFM was issued that covers the bank. -/
def releases (cfg : Config) (i : BankId) : Event → Bool
  | .issue cmd _ _ _ => cmd.isDRFM && i ∈ covered cfg cmd
  | _ => false

def activates (i : BankId) : Event → Bool
  | .issue cmd _ _ _ => cmd.cmdType = .activate && cmd.bankId = i
  | _ => false

theorem activates_of_isIssue {i : BankId} {e : Event} (h : e.isIssue = false) :
    e.activates i = false := by
  cases e with
  | issue => cases h
  | _ => rfl

end Event

/-- In a history, the newest event first, every activation of the bank follows a DRFM that covers
it. -/
def Guarded (cfg : Config) (i : BankId) : List Event → Prop
  | [] => True
  | e :: older => (e.activates i → older.any (Event.releases cfg i)) ∧ Guarded cfg i older

theorem Guarded.append {cfg : Config} {i : BankId} {extra older : List Event}
    (hextra : ∀ e ∈ extra, e.isIssue = false) (h : Guarded cfg i older) :
    Guarded cfg i (extra ++ older) := by
  induction extra with
  | nil => exact h
  | cons e extra ih =>
    refine ⟨fun he => ?_, ih fun e' he' => hextra e' (List.mem_cons_of_mem _ he')⟩
    rw [Event.activates_of_isIssue (hextra e List.mem_cons_self)] at he
    cases he

namespace ChannelState
variable {cfg : Config} {cs cs' : ChannelState} {cmd r : Command} {clk : ℕ}

/-- The bank waits for a DRFM. -/
def waits (cs : ChannelState) (i : BankId) : Bool := (cs.bankStates i).drfmIssued

theorem preactHooks_waits {full : Bool} (h : cs.preactHooks cfg cmd clk = .ok (full, cs'))
    (i : BankId) : cs'.waits i = cs.waits i := by
  obtain ⟨hh⟩ := preactHooks_hooked h
  have htables := congrArg BankState.Tables.drfmIssued (hh.tables i)
  change cs'.waits i = _ at htables
  rw [htables]
  split_ifs
  · exact BankState.preACT_drfmIssued _ _
  · rfl

theorem launchDRFM_waits (h : cs.launchDRFM cfg cmd = .ok cs') {i : BankId} (hi : cs.waits i) :
    cs'.waits i := by
  have htables := congrArg BankState.Tables.drfmIssued (launchDRFM_tables h i)
  change cs'.waits i = (decide (i = cmd.bankId) || cs.waits i) at htables
  rw [htables, hi, Bool.or_true]

/-- A query that answers lets no bank wait that did not. -/
theorem Answer.waits_eq (h : Answer cfg cs cmd clk (some r) cs') (i : BankId) :
    cs'.waits i = cs.waits i := by
  cases h with
  | divert | allReady | single => rfl
  | activate _ hcheck hhook =>
    obtain ⟨_, _, _, rfl⟩ := hydraCheck_eq hcheck
    exact preactHooks_waits hhook i

theorem Answer.waits {r? : Option Command} (h : Answer cfg cs cmd clk r? cs') {i : BankId}
    (hi : cs.waits i) : cs'.waits i := by
  cases h with
  | wait | divert | allReady | single => exact hi
  | needRFMsb => rwa [ChannelState.waits, banksetNeedRFM, needRFM_bankStates]
  | needRFMab => rwa [ChannelState.waits, rankNeedRFM, needRFM_bankStates]
  | eager _ _ h _ => exact launchDRFM_waits h hi
  | hydraWait h =>
    obtain ⟨_, _, _, rfl⟩ := hydraCheck_eq h
    exact hi
  | lazy _ hcheck hhook h _ =>
    obtain ⟨_, _, _, rfl⟩ := hydraCheck_eq hcheck
    refine launchDRFM_waits h ?_
    rw [preactHooks_waits hhook]
    exact hi
  | activate _ hcheck hhook =>
    obtain ⟨_, _, _, rfl⟩ := hydraCheck_eq hcheck
    rw [preactHooks_waits hhook]
    exact hi

end ChannelState

namespace Chan
variable {cfg : Config} {π : Micro.Policy} {v v' : Chan}

/-- Between issued commands a bank goes on waiting. -/
theorem Step.waits_or_issue (h : Step cfg π v v') (i : BankId) :
    (∃ extra, v'.cs.log = extra ++ v.cs.log ∧ (∀ e ∈ extra, e.isIssue = false) ∧
      (v.cs.waits i → v'.cs.waits i)) ∨
    ∃ p, v.ticket = some p ∧ Issued cfg v.cs p.cmd v.clk p.origin v'.cs := by
  cases h with
  | environment | drop | tock => exact .inl ⟨[], rfl, by simp, id⟩
  | requestRefresh => exact .inl ⟨[_], rfl, by simp [Event.isIssue], id⟩
  | tick =>
    obtain ⟨extra, hlog, hextra⟩ := queried_clockTick.log
    refine .inl ⟨extra, hlog, hextra, fun hi => ?_⟩
    dsimp only
    rwa [waits, clockTick_bankStates]
  | query _ h =>
    obtain ⟨extra, hlog, hextra⟩ := h.queried.log
    exact .inl ⟨extra, hlog, hextra, h.waits⟩
  | pick _ _ _ h =>
    obtain ⟨extra, hlog, hextra⟩ := h.queried.log
    exact .inl ⟨extra, hlog, hextra, h.waits⟩
  | hydraQuery h =>
    obtain ⟨⟨_, _, _, rfl⟩, _⟩ := getReadyHydraCommand_eq h
    exact .inl ⟨[], rfl, by simp, id⟩
  | pickHydra _ h =>
    obtain ⟨⟨_, _, _, rfl⟩, _⟩ := getReadyHydraCommand_eq h
    exact .inl ⟨[], rfl, by simp, id⟩
  | issue h => exact .inr ⟨_, rfl, updateTimingAndStates_issued h⟩

/-- A chosen activation is for a bank that does not wait. -/
def Allowed (v : Chan) : Prop :=
  ∀ p, v.ticket = some p → p.cmd.cmdType = .activate → v.cs.waits p.cmd.bankId = false

theorem Step.allowed (h : Step cfg π v v') : Allowed v' := by
  intro p hp hact
  obtain ⟨cmd, hcmd, hreq⟩ := h.requires_activate hp hact
  have hbefore : v.cs.waits p.cmd.bankId = false := by
    rw [hcmd]
    exact BankState.drfmIssued_of_requires_activate hreq
  cases h with
  | environment | requestRefresh | tick | query | hydraQuery | issue | drop | tock => cases hp
  | pick _ _ _ h =>
    dsimp only at hp ⊢
    rw [h.waits_eq]
    exact hbefore
  | pickHydra _ h =>
    obtain ⟨⟨_, _, _, rfl⟩, _⟩ := getReadyHydraCommand_eq h
    exact hbefore

/-- Since the history `past`, in which the bank began to wait, it has been released, or it still
waits; before that it was not activated. -/
def Waiting (cfg : Config) (i : BankId) (past : List Event) (v : Chan) : Prop :=
  Allowed v ∧ ∃ since, v.cs.log = since ++ past ∧ Guarded cfg i since ∧
    (since.any (Event.releases cfg i) ∨ v.cs.waits i)

theorem Waiting.step {i : BankId} {past : List Event} (hv : Waiting cfg i past v)
    (h : Step cfg π v v') : Waiting cfg i past v' := by
  obtain ⟨hallowed, since, hlog, hguard, hstill⟩ := hv
  refine ⟨h.allowed, ?_⟩
  rcases h.waits_or_issue i with ⟨extra, hlog', hextra, hwait⟩ | ⟨p, hp, hi⟩
  · refine ⟨extra ++ since, by rw [hlog', hlog, List.append_assoc], hguard.append hextra, ?_⟩
    rcases hstill with hreleased | hwaits
    · exact .inl (by rw [List.any_append, hreleased, Bool.or_true])
    · exact .inr (hwait hwaits)
  · obtain ⟨extra, hlog', hextra⟩ := hi.log
    have hissue : ∀ e ∈ extra, e.isIssue = false := fun e he =>
      Event.isIssue_of_internal (hextra e he)
    refine ⟨extra ++ .issue p.cmd v.clk p.origin v.cs.bankStates :: since, ?_,
      Guarded.append hissue ⟨fun hact => ?_, hguard⟩, ?_⟩
    · rw [hlog', hlog, List.append_assoc]
      rfl
    · simp only [Event.activates, Bool.and_eq_true, decide_eq_true_eq] at hact
      have hfree := hallowed p hp hact.1
      rw [hact.2] at hfree
      exact hstill.resolve_right (by simp [hfree])
    · have hblocked := congrFun hi.blocked i
      change v'.cs.waits i = if p.cmd.isDRFM ∧ i ∈ covered cfg p.cmd then false else v.cs.waits i
        at hblocked
      rw [List.any_append, List.any_cons]
      rcases hstill with hreleased | hwaits
      · exact .inl (by rw [hreleased]; simp)
      · by_cases hrel : p.cmd.isDRFM ∧ i ∈ covered cfg p.cmd
        · exact .inl (by simp [Event.releases, hrel.1, hrel.2])
        · rw [if_neg hrel] at hblocked
          exact .inr (hblocked.trans hwaits)

end Chan

/-- The DRFM requests of a channel and the banks that wait for them. -/
structure DrfmTracked (cfg : Config) (cs : ChannelState) : Prop where
  marked : ∀ i, (cs.bankStates i).drfmIssued = true → ∃ r ∈ cs.rfmQ, r.isDRFM ∧ i ∈ covered cfg r
  owed : ∀ r ∈ cs.rfmQ, r.isDRFM ∧ ∃ i ∈ covered cfg r, (cs.bankStates i).drfmIssued = true
  single : cs.rfmQ.Pairwise fun r r' => rfmTarget r r' = false

theorem Micro.Reached.drfmTracked {cfg : Config} (hcfg : cfg.OnlyDRFM) {π : Micro.Policy} {m : Micro}
    (hm : Micro.Reached cfg π m) : DrfmTracked cfg m.ctl.channelState := by
  have hbooked : Desk.Booked cfg m.ctl.channelState.hand :=
    hm.hand_induct (P := Desk.Booked cfg)
      (fun _ => ⟨fun _ h => (nomatch h), fun _ h => (nomatch h), fun _ h => (nomatch h), .nil⟩)
      fun _ _ hs hmove => hs.move hcfg hmove
  have hdrfm : ∀ r ∈ m.ctl.channelState.rfmQ, r.isDRFM := by
    intro r hr
    obtain ⟨cmd, rfl⟩ := hbooked.shape r hr
    exact ChannelState.isDRFM_drfmRequest cfg cmd
  refine ⟨fun i hi => ?_, fun r hr => ⟨hdrfm r hr, hbooked.owed r hr⟩, ?_⟩
  · obtain ⟨r, hr, hcover⟩ := hbooked.marked i hi
    exact ⟨r, hr, hdrfm r hr, hcover⟩
  · refine hbooked.nodup.imp_of_mem fun {r r'} hr hr' hne => ?_
    obtain ⟨cmd, rfl⟩ := hbooked.shape r hr
    obtain ⟨cmd', rfl⟩ := hbooked.shape r' hr'
    exact Bool.eq_false_iff.mpr fun htarget => hne (drfmRequest_eq_of_rfmTarget htarget).symm

/-- In every run of a channel with DRFMs only: a bank waits only while a DRFM request covers it, every
request covers a bank that waits, and no two requests are for one target; and a bank that waits is
not activated before a DRFM that covers it is issued. -/
theorem drfm_requests_tracked (cfg : Config) (hcfg : cfg.OnlyDRFM) :
    (∀ c, Reachable cfg c → DrfmTracked cfg c.channelState) ∧
    ∀ m, Micro.Reached cfg .free m → DrfmTracked cfg m.ctl.channelState ∧
      ∀ m' i, ReflTransGen (Micro.Step cfg .free) m m' →
        (m.ctl.channelState.bankStates i).drfmIssued = true →
        ∃ since, m'.ctl.channelState.log = since ++ m.ctl.channelState.log ∧ Guarded cfg i since := by
  refine ⟨fun c hc => (Micro.reached_of_reachable hc).drfmTracked hcfg, fun m hm =>
    ⟨hm.drfmTracked hcfg, fun m' i hs hi => ?_⟩⟩
  have hallowed : Chan.Allowed m.chan :=
    hm.chan_induct (P := Chan.Allowed) (fun _ _ h => (nomatch h)) fun _ _ _ hs => hs.allowed
  have hwaiting : Chan.Waiting cfg i m.ctl.channelState.log m'.chan :=
    hm.chan_steps (P := Chan.Waiting cfg i m.ctl.channelState.log) (fun _ _ hv hs => hv.step hs) hs
      ⟨hallowed, [], rfl, trivial, .inr hi⟩
  obtain ⟨_, since, hlog, hguard, _⟩ := hwaiting
  exact ⟨since, hlog, hguard⟩

/-- Every activation is sampled and asks for a DRFM of its rank. -/
def drfmConfig : Config :=
  { smallConfig with mintMode := 1, mintWindow := 1, drfmMode := 3, drfmPolicy := 1, drfmQsize := 1 }

theorem drfmConfig_onlyDRFM : drfmConfig.OnlyDRFM := ⟨.inr (.inr rfl), rfl, rfl, rfl, rfl⟩

theorem drfm_requests_tracked_small : drfmConfig.OnlyDRFM ∧ ∃ c, Reachable drfmConfig c ∧
    (c.channelState.bankStates ⟨0, 0, 0⟩).drfmIssued = true ∧
    c.channelState.rfmQ.length = 1 ∧ DrfmTracked drfmConfig c.channelState := by
  obtain ⟨c, hrun, hc⟩ := exists_ok_of_any
    (x := Controller.run drfmConfig ({} : Boot drfmConfig).controller (Input.request 0 false 2))
    (p := fun c => (c.channelState.bankStates ⟨0, 0, 0⟩).drfmIssued = true ∧
      c.channelState.rfmQ.length = 1) (by decide +kernel)
  obtain ⟨hissued, hlen⟩ := of_decide_eq_true hc
  have hr : Reachable drfmConfig c := ⟨{}, _, hrun⟩
  exact ⟨drfmConfig_onlyDRFM, c, hr, hissued, hlen,
    (drfm_requests_tracked drfmConfig drfmConfig_onlyDRFM).1 c hr⟩

end CactusDram
