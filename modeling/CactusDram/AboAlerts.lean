import CactusDram.Handshake

/-! The ABO alert of MOAT: a tick turns it into an RFMab once its delay has passed, for the rank
that the channel happens to hold. -/
namespace CactusDram
open Foundations Relation

/-- The rank of the command that raised an ABO alert, the time, and the rank the channel held. -/
def Event.abo? : Event → Option (ℤ × ℕ × ℤ)
  | .abo rank clk found => some (rank, clk, found)
  | _ => none

theorem Event.abo?_eq_none {e : Event} (h : e.isAbo = false) : e.abo? = none := by
  cases e <;> simp_all [Event.abo?, Event.isAbo]

namespace ChannelState
variable {cfg : Config} {cs cs' : ChannelState} {cmd : Command} {clk : ℕ}

/-- The ABO alert that was raised last. -/
def lastAbo (cs : ChannelState) : Option (ℤ × ℕ × ℤ) := cs.log.findSome? Event.abo?

theorem AboKept.lastAbo (h : AboKept cs cs') : cs'.lastAbo = cs.lastAbo := by
  obtain ⟨extra, hlog, hextra⟩ := h.log
  have hnone : extra.findSome? Event.abo? = none :=
    List.findSome?_eq_none_iff.mpr fun e he => Event.abo?_eq_none (hextra e he)
  simp [ChannelState.lastAbo, hlog, List.findSome?_append, hnone]

end ChannelState

/-- A command that raises an ABO alert finds its own rank in the channel, and the end of the delay
does not wrap around. -/
def Event.fairAbo (cfg : Config) : Event → Bool
  | .abo rank clk found => found = rank && 0 ≤ rank && 0 ≤ (clk : ℤ) + cfg.tABOAct
  | _ => true

namespace ChannelState
variable {cfg : Config} {cs cs' : ChannelState} {cmd : Command} {clk : ℕ}

def FairAbo (cfg : Config) (cs : ChannelState) : Prop := ∀ e ∈ cs.log, e.fairAbo cfg

theorem FairAbo.of_log (h : FairAbo cfg cs') {extra : List Event}
    (hlog : cs'.log = extra ++ cs.log) : FairAbo cfg cs :=
  fun e he => h e (hlog ▸ List.mem_append_right extra he)

theorem fairAbo_of_lastAbo (hfair : FairAbo cfg cs) {rank found : ℤ} {raised : ℕ}
    (h : cs.lastAbo = some (rank, raised, found)) :
    found = rank ∧ 0 ≤ rank ∧ 0 ≤ (raised : ℤ) + cfg.tABOAct := by
  obtain ⟨e, he, hsome⟩ := List.exists_of_findSome?_eq_some h
  have hok := hfair e he
  cases e with
  | abo r t f =>
    obtain ⟨rfl, rfl, rfl⟩ : r = rank ∧ t = raised ∧ f = found := by simpa [Event.abo?] using hsome
    simpa [Event.fairAbo, and_assoc] using hok
  | _ => simp [Event.abo?] at hsome

/-- A set alert is the last one that was raised. -/
def AboTracked (cs : ChannelState) : Prop :=
  cs.alertN → ∃ rank, cs.lastAbo = some (rank, cs.lastAlertClk, cs.alertRank)

/-- Every waiting request is an RFMab. -/
def RfmAbOnly (rfmQ : List Command) : Prop := ∀ r ∈ rfmQ, r.cmdType = .rfmAb

theorem AboTracked.kept (ht : AboTracked cs) (h : AboKept cs cs') : AboTracked cs' := by
  obtain ⟨hn, hclk, hrank⟩ := h.fields
  intro hset
  rw [h.lastAbo, hclk, hrank]
  exact ht (hn ▸ hset)

/-- The due alert of a channel becomes an RFMab request. -/
theorem clockTick_abo (hcactus : cfg.cactusMode = 0) : cs.clockTick cfg clk =
    if cs.alertN ∧ 0 ≤ cs.alertRank ∧ addDelay cs.lastAlertClk cfg.tABOAct ≤ clk then
      (cs.rankNeedRFM cs.alertRank true).resetAlert
    else cs := by
  simp [clockTick, hcactus]

theorem rankNeedRFM_rfmQ (ht : RfmAbOnly cs.rfmQ) (rank : ℤ) : (cs.rankNeedRFM rank true).rfmQ =
    if cs.rfmQ.any (fun r => r.cmdType = .rfmAb && r.rank = rank) then cs.rfmQ
    else cs.rfmQ ++ [request .rfmAb rank (-1) (-1)] := by
  have hany : cs.rfmQ.any (fun r => r.cmdType = .rfmAb && r.rank = rank) =
      cs.rfmQ.any fun r => r.rank = rank := by
    rw [Bool.eq_iff_iff]
    simp only [List.any_eq_true, Bool.and_eq_true, decide_eq_true_eq]
    exact exists_congr fun r => and_congr_right fun hr => and_iff_right (ht r hr)
  rw [hany, rankNeedRFM, needRFM_rfmQ]

theorem AboTracked.tick (hcactus : cfg.cactusMode = 0) (ht : AboTracked cs) :
    AboTracked (cs.clockTick cfg clk) := by
  rw [clockTick_abo hcactus]
  split_ifs with hdue
  · exact fun h => nomatch h
  · exact ht

theorem AboTracked.issued {origin : Origin} (ht : AboTracked cs)
    (h : Issued cfg cs cmd clk origin cs') : AboTracked cs' := by
  intro hset
  obtain ⟨hrank, es, extra, halerts, hextra, hlog⟩ := h.alert
  have hnone : extra.findSome? Event.abo? = none :=
    List.findSome?_eq_none_iff.mpr fun e he => Event.abo?_eq_none (hextra e he).2
  rcases halerts with ⟨hn, hclk, rfl⟩ | ⟨_, _, _, hclk, rfl⟩
  · rw [hrank, hclk]
    have hlast : cs'.lastAbo = cs.lastAbo := by
      simp [lastAbo, hlog, List.findSome?_append, List.findSome?_cons, hnone, Event.abo?]
    rw [hlast]
    exact ht (hn ▸ hset)
  · refine ⟨cmd.rank, ?_⟩
    rw [hrank, hclk]
    simp [lastAbo, hlog, List.findSome?_cons, Event.abo?]

end ChannelState

namespace Chan
open ChannelState
variable {cfg : Config} {π : Micro.Policy} {v v' : Chan}

/-- The steps as far as the ABO alert is concerned. -/
theorem Step.abo_cases (h : Step cfg π v v') :
    (AboKept v.cs v'.cs ∧ (v'.clk = v.clk ∨ v'.clk = v.clk + 1)) ∨
      (v'.cs = v.cs.clockTick cfg v.clk ∧ v'.clk = v.clk) ∨
      ∃ cmd origin, Issued cfg v.cs cmd v.clk origin v'.cs ∧ v'.clk = v.clk := by
  cases h with
  | environment => exact .inl ⟨⟨rfl, rfl, ⟨[], rfl, by simp⟩⟩, .inl rfl⟩
  | requestRefresh => exact .inl ⟨⟨rfl, rfl, ⟨[_], rfl, by simp [Event.isAbo]⟩⟩, .inl rfl⟩
  | tick => exact .inr (.inl ⟨rfl, rfl⟩)
  | query _ h => exact .inl ⟨h.aboKept, .inl rfl⟩
  | pick _ _ _ h => exact .inl ⟨h.aboKept, .inl rfl⟩
  | hydraQuery h =>
    obtain ⟨⟨_, _, _, rfl⟩, _⟩ := getReadyHydraCommand_eq h
    exact .inl ⟨⟨rfl, rfl, ⟨[], rfl, by simp⟩⟩, .inl rfl⟩
  | pickHydra _ h =>
    obtain ⟨⟨_, _, _, rfl⟩, _⟩ := getReadyHydraCommand_eq h
    exact .inl ⟨⟨rfl, rfl, ⟨[], rfl, by simp⟩⟩, .inl rfl⟩
  | issue h => exact .inr (.inr ⟨_, _, updateTimingAndStates_issued h, rfl⟩)
  | drop => exact .inl ⟨.refl _, .inl rfl⟩
  | tock => exact .inl ⟨.refl _, .inr rfl⟩

end Chan

/-- The time limits on a set alert around the tick at time `n`: until its end the alert is new or
not due, and afterwards the delay has hardly passed. -/
def Chan.AboTimely (cfg : Config) (n : ℕ) (v : Chan) : Prop :=
  n ≤ v.clk ∧ (ChannelState.FairAbo cfg v.cs → v.cs.alertN →
    (v.clk = n → v.cs.lastAlertClk = n ∨ (n : ℤ) < v.cs.lastAlertClk + cfg.tABOAct) ∧
      (v.clk = n + 1 → ((n + 1 : ℕ) : ℤ) ≤ v.cs.lastAlertClk + max 1 cfg.tABOAct))

namespace Chan
open ChannelState
variable {cfg : Config} {π : Micro.Policy} {v v' : Chan} {n : ℕ}

theorem AboTimely.step (hcactus : cfg.cactusMode = 0) (hv : AboTimely cfg n v)
    (h : Step cfg π v v') : AboTimely cfg n v' := by
  obtain ⟨hle, hv⟩ := hv
  rcases h.abo_cases with ⟨hkept, hclk⟩ | ⟨hcs, hclk⟩ | ⟨cmd, origin, hi, hclk⟩
  · obtain ⟨extra, hlog, _⟩ := hkept.log
    obtain ⟨hn, ht, _⟩ := hkept.fields
    refine ⟨by omega, fun hfair hset => ?_⟩
    have := hv (.of_log hfair hlog) (hn ▸ hset)
    rw [ht]
    omega
  · refine ⟨by omega, fun hfair hset => ?_⟩
    rw [hcs, clockTick_abo hcactus] at hfair hset ⊢
    rw [hclk]
    split_ifs at hfair hset ⊢
    · cases hset
    · exact hv hfair hset
  · obtain ⟨_, es, extra, halerts, _, hlog⟩ := hi.alert
    refine ⟨by omega, fun hfair hset => ?_⟩
    rw [hclk]
    rcases halerts with ⟨hn, ht, _⟩ | ⟨_, _, _, ht, _⟩
    · rw [ht]
      have hlog' : v'.cs.log = (es ++ (extra ++ [.issue cmd v.clk origin v.cs.bankStates])) ++
          v.cs.log := by
        simp [hlog]
      exact hv (hfair.of_log hlog') (hn ▸ hset)
    · rw [ht]
      omega

end Chan

namespace Micro
open ChannelState
variable {cfg : Config} {π : Policy} {m m' : Micro}

/-- What the channel steps keep holds along every sequence of steps from a reached state. -/
theorem Reached.chan_steps {P : Chan → Prop} (hstep : ∀ v v', P v → Chan.Step cfg π v v' → P v')
    (h : Reached cfg π m) (hs : ReflTransGen (Step cfg π) m m') (hm : P m.chan) : P m'.chan := by
  induction hs with
  | refl => exact hm
  | @tail m₁ m₂ hsteps hlast ih =>
    obtain ⟨boot, hboot⟩ := h
    have hq := Reached.wellQueued ⟨boot, hboot.trans hsteps⟩
    rcases hlast.chan hq with hc | hc
    · exact hstep _ _ ih hc
    · rw [hc]
      exact ih

theorem Reached.aboTracked (hcactus : cfg.cactusMode = 0) (h : Reached cfg π m) :
    AboTracked m.ctl.channelState := by
  refine h.chan_induct (P := fun v => AboTracked v.cs) (fun boot h => nomatch h) fun v v' hv hs => ?_
  rcases hs.abo_cases with ⟨hkept, _⟩ | ⟨hcs, _⟩ | ⟨_, _, hi, _⟩
  · exact hv.kept hkept
  · rw [hcs]
    exact hv.tick hcactus
  · exact hv.issued hi

/-- Without RFM and DRFM only alerts fill the queue. -/
theorem Reached.rfmAbOnly (hrfm : cfg.rfmMode = 0) (hdrfm : cfg.drfmMode = 0)
    (h : Reached cfg π m) : RfmAbOnly m.ctl.channelState.rfmQ := by
  have hask {d : Desk} {req : Command} (hd : RfmAbOnly d.rfmQ) (hreq : req.cmdType = .rfmAb) :
      RfmAbOnly (d.ask req).rfmQ := by
    intro r hr
    unfold Desk.ask at hr
    dsimp only at hr
    split_ifs at hr
    · exact hd r hr
    · rcases List.mem_append.mp hr with hr | hr
      · exact hd r hr
      · rw [List.mem_singleton.mp hr]
        exact hreq
  have hdrop {d : Desk} (req : Command) (hd : RfmAbOnly d.rfmQ) : RfmAbOnly (d.drop req).rfmQ :=
    fun r hr => hd r (List.mem_of_mem_eraseP hr)
  refine h.hand_induct (P := fun s => RfmAbOnly s.1.rfmQ) (fun _ _ h => nomatch h) fun s s' hs hm => ?_
  cases hm with
  | raise | activate => exact hs
  | promote => exact hask hs rfl
  | ask hmode => exact hask hs (hmode.resolve_left (absurd hrfm)).2
  | launch hmode => omega
  | @serve d _ cmd =>
    have hq : (d.serve cfg cmd).rfmQ = (d.drop (Desk.requestOf cmd)).rfmQ := by
      unfold Desk.serve
      dsimp only
      split_ifs <;> rfl
    change RfmAbOnly (d.serve cfg cmd).rfmQ
    rw [hq]
    exact hdrop _ hs
  | absorb => exact hdrop _ hs

end Micro

namespace Controller
open ChannelState Micro
variable {cfg : Config} {c c' : Controller}

/-- A set alert of a channel between two calls is not older than its delay. -/
def AboTimely (cfg : Config) (c : Controller) : Prop :=
  FairAbo cfg c.channelState → c.channelState.alertN →
    (c.clk : ℤ) ≤ c.channelState.lastAlertClk + max 1 cfg.tABOAct

theorem refreshTick_aboKept (cfg : Config) (c : Controller) :
    AboKept c.channelState (c.refreshTick cfg).channelState := by
  rcases c.refresh.clockTick_eq cfg c.channelState with h | ⟨req, _, h⟩ <;>
    simp only [refreshTick, h]
  · exact .refl _
  · exact ⟨rfl, rfl, ⟨[_], rfl, by simp [Event.isAbo]⟩⟩

theorem refreshTick_rfmQ (cfg : Config) (c : Controller) :
    (c.refreshTick cfg).channelState.rfmQ = c.channelState.rfmQ := by
  rcases c.refresh.clockTick_eq cfg c.channelState with h | ⟨req, _, h⟩ <;>
    simp only [refreshTick, h]
  rfl

/-- The timers of a tick serve a due alert and keep another one. -/
theorem ticked_abo (hcactus : cfg.cactusMode = 0) (htracked : AboTracked c.channelState)
    (honly : RfmAbOnly c.channelState.rfmQ) (hfair : FairAbo cfg c.channelState)
    (hset : c.channelState.alertN) : ∃ rank raised,
    c.channelState.lastAbo = some (rank, raised, rank) ∧ c.channelState.lastAlertClk = raised ∧
      let cs := (ticked cfg c).channelState
      if (raised : ℤ) + cfg.tABOAct ≤ c.clk then cs.alertN = false ∧ cs.rfmQ =
        if c.channelState.rfmQ.any (fun r => r.cmdType = .rfmAb && r.rank = rank) then
          c.channelState.rfmQ
        else c.channelState.rfmQ ++ [request .rfmAb rank (-1) (-1)]
      else cs.alertN = true ∧ cs.lastAlertClk = raised := by
  obtain ⟨rank, hlast⟩ := htracked hset
  obtain ⟨hrank, hpos, hdelay⟩ := fairAbo_of_lastAbo hfair hlast
  refine ⟨rank, c.channelState.lastAlertClk, by rw [hlast, hrank], rfl, ?_⟩
  have hkept := c.refreshTick_aboKept cfg
  obtain ⟨hn, hclk, hfound⟩ := hkept.fields
  have hrest := c.refreshTick_rfmQ cfg
  have hq := rankNeedRFM_rfmQ (hrest ▸ honly) rank
  have htick : (ticked cfg c).channelState =
      (c.refreshTick cfg).channelState.clockTick cfg c.clk := rfl
  have hsum : (addDelay c.channelState.lastAlertClk cfg.tABOAct : ℤ) =
      c.channelState.lastAlertClk + cfg.tABOAct := by
    rw [addDelay, if_pos hdelay]
    exact Int.toNat_of_nonneg hdelay
  dsimp only
  rw [htick, clockTick_abo hcactus, hn, hclk, hfound, hrank]
  by_cases hdue : (c.channelState.lastAlertClk : ℤ) + cfg.tABOAct ≤ c.clk
  · rw [if_pos hdue, if_pos ⟨hset, hpos, by omega⟩]
    rw [hrest] at hq
    exact ⟨rfl, hq⟩
  · rw [if_neg hdue, if_neg fun h => hdue (by omega)]
    exact ⟨hn.trans hset, hclk⟩

/-- The timers raise no alert. -/
theorem alertN_of_ticked (hcactus : cfg.cactusMode = 0)
    (h : (ticked cfg c).channelState.alertN) : c.channelState.alertN := by
  have htick : (ticked cfg c).channelState =
      (c.refreshTick cfg).channelState.clockTick cfg c.clk := rfl
  rw [htick, clockTick_abo hcactus] at h
  split_ifs at h
  · cases h
  · exact (c.refreshTick_aboKept cfg).fields.1 ▸ h

theorem clockTick_aboTimely (hcactus : cfg.cactusMode = 0) (hrfm : cfg.rfmMode = 0)
    (hdrfm : cfg.drfmMode = 0) (hr : Reached cfg .free (rest c)) (h : c.clockTick cfg = .ok c') :
    AboTimely cfg c' := by
  have hticked : Reached cfg .free (rest (ticked cfg c)) := by
    obtain ⟨boot, hsteps⟩ := hr
    exact ⟨boot, (hsteps.tail (.refreshTick c)).tail (.channelTick _)⟩
  have hstart : Chan.AboTimely cfg c.clk (rest (ticked cfg c)).chan := by
    refine ⟨le_rfl, fun hfair hset => ⟨fun _ => .inr ?_, fun hclk => ?_⟩⟩
    · have hset' := alertN_of_ticked hcactus hset
      have hticks : Queried cfg (c.refreshTick cfg).channelState (ticked cfg c).channelState :=
        queried_clockTick
      obtain ⟨extra, hlog, _⟩ := hticks.log
      obtain ⟨extra', hlog', _⟩ := (c.refreshTick_aboKept cfg).log
      have hfair' : FairAbo cfg c.channelState := (hfair.of_log hlog).of_log hlog'
      have htracked : AboTracked c.channelState := hr.aboTracked hcactus
      have honly : RfmAbOnly c.channelState.rfmQ := hr.rfmAbOnly hrfm hdrfm
      obtain ⟨rank, raised, _, rfl, hdue⟩ := ticked_abo hcactus htracked honly hfair' hset'
      change (c.clk : ℤ) < (ticked cfg c).channelState.lastAlertClk + cfg.tABOAct
      by_cases hle : (c.channelState.lastAlertClk : ℤ) + cfg.tABOAct ≤ c.clk
      · dsimp only at hdue
        rw [if_pos hle] at hdue
        rw [Micro.chan, rest, hdue.1] at hset
        cases hset
      · dsimp only at hdue
        rw [if_neg hle] at hdue
        rw [hdue.2]
        omega
    · exact absurd hclk (by simp [Micro.chan, rest, ticked, channelTick, refreshTick])
  have hsteps := (ticked_realizes (π := .free) hr.synced (by simp [Admits, Policy.free])).1 c' h
  have hend := hticked.chan_steps (fun _ _ hv hs => hv.step hcactus hs) hsteps hstart
  intro hfair hset
  have hclk : c'.clk = c.clk + 1 := clockTick_clk h
  have := (hend.2 hfair hset).2 hclk
  rw [hclk]
  exact this

theorem step_aboTimely (hcactus : cfg.cactusMode = 0) (hrfm : cfg.rfmMode = 0)
    (hdrfm : cfg.drfmMode = 0) (hr : Reached cfg .free (rest c)) (hc : AboTimely cfg c)
    {input : Input} (h : c.step cfg input = .ok c') : AboTimely cfg c' := by
  cases input with
  | addTransaction addr isWrite =>
    cases h
    split_ifs
    · obtain ⟨_, _, _, _, _, _, _, heq⟩ := c.addTransaction_eq cfg addr isWrite
      rw [heq]
      exact hc
    · exact hc
  | clockTick => exact clockTick_aboTimely hcactus hrfm hdrfm hr h
  | returnDoneTrans clk =>
    cases h
    obtain ⟨_, _, heq⟩ := c.returnDoneTrans_eq clk
    rw [heq]
    exact hc
  | others rcc draws =>
    cases h
    exact hc

theorem run_aboTimely (hcactus : cfg.cactusMode = 0) (hrfm : cfg.rfmMode = 0)
    (hdrfm : cfg.drfmMode = 0) {inputs : List Input} (hr : Reached cfg .free (rest c))
    (hc : AboTimely cfg c) (h : c.run cfg inputs = .ok c') : AboTimely cfg c' := by
  have hboth : Reached cfg .free (rest c') ∧ AboTimely cfg c' := by
    refine foldlM_invariant (P := fun c => Reached cfg .free (rest c) ∧ AboTimely cfg c)
      (fun c input _ c' hc hstep => ⟨?_, step_aboTimely hcactus hrfm hdrfm hc.1 hc.2 hstep⟩) h ⟨hr, hc⟩
    obtain ⟨boot, hsteps⟩ := hc.1
    have hadmits : Admits cfg .free c input := by cases input <;> simp [Admits, Policy.free]
    exact ⟨boot, hsteps.trans ((step_realizes hc.1.synced hadmits).1 c' hstep)⟩
  exact hboth.2

end Controller

/-- As long as every command that raises an alert finds its own rank in the channel, a set alert is
served by the first tick of the channel at which its delay has passed, and is never older than
the delay. -/
theorem abo_alerts_served (cfg : Config) (hcactus : cfg.cactusMode = 0) (hrfm : cfg.rfmMode = 0)
    (hdrfm : cfg.drfmMode = 0) (boot : Boot cfg) (inputs : List Input) (c : Controller)
    (hrun : Controller.run cfg boot.controller inputs = .ok c)
    (hfair : ∀ e ∈ c.channelState.log, e.fairAbo cfg) (hset : c.channelState.alertN) :
    ∃ rank raised, c.channelState.lastAbo = some (rank, raised, rank) ∧
      (c.clk : ℤ) ≤ raised + max 1 cfg.tABOAct ∧
      let cs := (Micro.ticked cfg c).channelState
      if (raised : ℤ) + cfg.tABOAct ≤ c.clk then cs.alertN = false ∧ cs.rfmQ =
        if c.channelState.rfmQ.any (fun r => r.cmdType = .rfmAb && r.rank = rank) then
          c.channelState.rfmQ
        else c.channelState.rfmQ ++ [ChannelState.request .rfmAb rank (-1) (-1)]
      else cs.alertN = true := by
  have hreached := Micro.reached_of_reachable ⟨boot, inputs, hrun⟩
  have htracked : c.channelState.AboTracked := hreached.aboTracked hcactus
  have honly : ChannelState.RfmAbOnly c.channelState.rfmQ := hreached.rfmAbOnly hrfm hdrfm
  have htimely : Controller.AboTimely cfg c :=
    Controller.run_aboTimely hcactus hrfm hdrfm ⟨boot, .refl⟩ (fun _ h => nomatch h) hrun
  obtain ⟨rank, raised, hlast, rfl, htick⟩ := Controller.ticked_abo hcactus htracked honly hfair hset
  refine ⟨rank, _, hlast, htimely hfair hset, ?_⟩
  dsimp only at htick ⊢
  split_ifs at htick ⊢
  · exact htick
  · exact htick
  · exact htick.1

/-- Every first activation of a row raises an alert. -/
def moatConfig : Config :=
  { smallConfig with moatMode := 1, alertMode := 1, moatth := 0, aboDelayActs := 0 }

theorem abo_alerts_served_small : ∃ c,
    Controller.run moatConfig ({} : Boot moatConfig).controller (Input.request 0 false 2) = .ok c ∧
      c.channelState.alertN ∧ (Micro.ticked moatConfig c).channelState.alertN = false ∧
        (Micro.ticked moatConfig c).channelState.rfmQ = [ChannelState.request .rfmAb 0 (-1) (-1)] := by
  obtain ⟨c, hrun, hc⟩ := exists_ok_of_any (p := fun c : Controller =>
    c.channelState.alertN && c.channelState.log.all (Event.fairAbo moatConfig) &&
      c.channelState.lastAbo = some (0, 1, 0) && c.clk = 2 && c.channelState.rfmQ = [])
    (x := Controller.run moatConfig ({} : Boot moatConfig).controller (Input.request 0 false 2)) (by decide +kernel)
  simp only [Bool.and_eq_true, decide_eq_true_eq, List.all_eq_true] at hc
  obtain ⟨⟨⟨⟨hset, hfair⟩, hlast⟩, hclk⟩, hq⟩ := hc
  obtain ⟨rank, raised, habo, _, htick⟩ := abo_alerts_served moatConfig rfl rfl rfl {} _ c hrun hfair hset
  obtain ⟨rfl, rfl⟩ : rank = 0 ∧ raised = 1 := by
    rw [hlast] at habo
    cases habo
    exact ⟨rfl, rfl⟩
  dsimp only at htick
  rw [if_pos (by rw [hclk]; decide), hq] at htick
  exact ⟨c, hrun, hset, htick.1, htick.2⟩

/-- The second alert is raised while the first one is being served, and is never served: the channel
does not hold its rank. -/
theorem abo_alert_stuck : ∃ c,
    Controller.run moatConfig ({} : Boot moatConfig).controller (Input.request 0 false 6) = .ok c ∧
      c.channelState.alertN ∧ c.channelState.lastAbo = some (0, 2, -1) ∧
      (2 : ℤ) + max 1 moatConfig.tABOAct < c.clk ∧ c.channelState.rfmQ = [] ∧
      (Micro.ticked moatConfig c).channelState.alertN ∧
      (Micro.ticked moatConfig c).channelState.rfmQ = [] := by
  obtain ⟨c, hrun, hc⟩ := exists_ok_of_any (p := fun c : Controller =>
    c.channelState.alertN && c.channelState.lastAbo = some (0, 2, -1) &&
      (2 : ℤ) + max 1 moatConfig.tABOAct < c.clk && c.channelState.rfmQ = [] &&
      (Micro.ticked moatConfig c).channelState.alertN &&
      (Micro.ticked moatConfig c).channelState.rfmQ = [])
    (x := Controller.run moatConfig ({} : Boot moatConfig).controller (Input.request 0 false 6)) (by decide +kernel)
  simp only [Bool.and_eq_true, decide_eq_true_eq, and_assoc] at hc
  exact ⟨c, hrun, hc⟩

end CactusDram
