import CactusDram.Accounting

/-! Tracker counts under the lazy policy: the hooks run before it is decided whether the
activation waits for a DRFM, and run again when it is retried. -/
namespace CactusDram
open Foundations

/-- The hooks ran and filled the sampler, so that the lazy policy holds the activation back. -/
def Event.postpones (bank : BankId) (row : ℤ) : Event → Bool
  | .hook b r _ true _ _ => b = bank && r = row
  | _ => false

def ChannelState.postponedCount (cs : ChannelState) (bank : BankId) (row : ℤ) : ℕ :=
  cs.log.countP (Event.postpones bank row)

/-- A demand ACT that was chosen as a second HBM command and then left out. -/
def TransEvent.dropsActivation (bank : BankId) (row : ℤ) : TransEvent → Bool
  | .dropped p => p.origin = .demand && p.cmd.cmdType = .activate && p.cmd.bankId = bank &&
      p.cmd.row = row
  | _ => false

def Controller.droppedCount (c : Controller) (bank : BankId) (row : ℤ) : ℕ :=
  c.log.countP (TransEvent.dropsActivation bank row)

namespace ChannelState
variable {cfg : Config} {cs cs' : ChannelState} {cmd : Command} {clk : ℕ}

/-- What the history says of a row: hooks, demand activations, and hooks that postponed. -/
def tally (cs : ChannelState) (bank : BankId) (row : ℤ) : ℕ × ℕ × ℕ :=
  (cs.hookCount bank row, cs.demandActCount bank row, cs.postponedCount bank row)

theorem tally_congr (h : cs'.log = cs.log) : cs'.tally = cs.tally := by
  funext bank row
  simp only [tally, hookCount, demandActCount, postponedCount, trackedLog, h]

/-- Whether an activation is one of the row. -/
def hits (bank : BankId) (row : ℤ) (cmd : Command) : ℕ :=
  if cmd.bankId = bank ∧ cmd.row = row then 1 else 0

theorem HookAdded.tally {full : Bool} (h : HookAdded cs cs' cmd clk full) (bank : BankId)
    (row : ℤ) : cs'.tally bank row = (cs.hookCount bank row + hits bank row cmd,
      cs.demandActCount bank row,
      cs.postponedCount bank row + if full then hits bank row cmd else 0) := by
  obtain ⟨alert, inflight, alerts, hlog, hal⟩ := id h
  have halerts : alerts.countP (Event.postpones bank row) = 0 := by
    refine List.countP_eq_zero.mpr fun e he => ?_
    have hcross := hal e he
    cases e <;> simp_all [Event.crossing, Event.postpones]
  simp only [ChannelState.tally, Prod.mk.injEq]
  refine ⟨?_, ?_, ?_⟩
  · simp [hookCount, h.trackedLog, List.countP_cons, hits]
  · simp [demandActCount, h.trackedLog]
  · unfold postponedCount hits
    rw [hlog, List.cons_append, List.countP_cons, List.countP_append, halerts]
    cases full <;> simp [Event.postpones]

theorem Issued.tally {origin : Origin} (h : Issued cfg cs cmd clk origin cs') (bank : BankId)
    (row : ℤ) : cs'.tally bank row = (cs.hookCount bank row,
      cs.demandActCount bank row +
        (if cmd.cmdType = .activate ∧ origin = .demand then hits bank row cmd else 0),
      cs.postponedCount bank row) := by
  obtain ⟨extra, hlog, hextra⟩ := h.log
  have hcount : extra.countP (Event.postpones bank row) = 0 := by
    refine List.countP_eq_zero.mpr fun e he => ?_
    have := hextra e he
    cases e <;> simp_all [Event.internal, Event.postpones]
  simp only [ChannelState.tally, Prod.mk.injEq, hookCount, demandActCount, h.trackedLog,
    List.countP_append]
  refine ⟨?_, ?_, ?_⟩
  · cases origin <;> simp [Event.tracked]
  · cases origin <;> simp [Event.tracked, hits]
    split_ifs <;> simp_all [Nat.add_comm]
  · unfold postponedCount
    rw [hlog, List.countP_append, hcount, List.countP_cons]
    simp [Event.postpones]

end ChannelState

namespace Micro
open Controller ChannelState
variable {cfg : Config} {π : Policy} {m m' : Micro}

/-- The activation of the row that is chosen and not yet issued. -/
def pendingHits (bank : BankId) (row : ℤ) : Option Pick → ℕ
  | some p => if p.cmd.cmdType = .activate ∧ p.origin = .demand then hits bank row p.cmd else 0
  | none => 0

/-- Every run of the hooks ends in an activation, in a postponement, in a dropped second command,
or in the command that is chosen now. -/
def Balanced (m : Micro) : Prop := ∀ bank row,
  m.ctl.channelState.hookCount bank row =
    m.ctl.channelState.demandActCount bank row + m.ctl.channelState.postponedCount bank row +
      m.ctl.droppedCount bank row + pendingHits bank row m.ticket

theorem Balanced.of_tally {c c' : Controller} {issued issued' : List Command} {ticket : Option Pick}
    (hm : Balanced ⟨c, none, issued⟩) (ht : c'.channelState.tally = c.channelState.tally)
    (hd : ∀ bank row, c'.droppedCount bank row = c.droppedCount bank row)
    (hp : ∀ bank row, pendingHits bank row ticket = 0) : Balanced ⟨c', ticket, issued'⟩ := by
  intro bank row
  have h := hm bank row
  have ht' := congrFun (congrFun ht bank) row
  simp only [tally, Prod.mk.injEq] at ht'
  rw [hd, hp, ht'.1, ht'.2.1, ht'.2.2]
  exact h

/-- An answered query keeps the balance. -/
theorem Balanced.pick (hpol : cfg.drfmPolicy = 1) {c c' : Controller} {issued : List Command}
    {cmd r : Command} {origin : Origin} {cs' : ChannelState} (hm : Balanced ⟨c, none, issued⟩)
    (hreg : Regular cfg c.channelState) (hs : Chan.Asks cfg c.channelState cmd origin)
    (h : Answer cfg c.channelState cmd c.clk (some r) cs') (hc : c'.channelState = cs')
    (hlog : c'.log = c.log) : Balanced ⟨c', some ⟨r, origin⟩, issued⟩ := by
  have hd (bank : BankId) (row : ℤ) : c'.droppedCount bank row = c.droppedCount bank row := by
    simp only [droppedCount, hlog]
  rcases h.log_some with ⟨hne, hcs⟩ | ⟨hrw, rfl, full, hfull, hhook⟩
  · refine hm.of_tally ?_ hd fun bank row => by simp [pendingHits, hne]
    rw [hc]
    exact tally_congr hcs
  · intro bank row
    have h := hm bank row
    have ht := hhook.tally bank row
    simp only [tally, Prod.mk.injEq, hfull hpol] at ht
    obtain rfl := hs.origin_of_isReadWrite hreg hrw
    have hhit : pendingHits bank row (some ⟨activation cmd, .demand⟩) = hits bank row cmd := by
      simp only [pendingHits, activation, hits, Command.bankId, Command.row]
      rfl
    simp only [pendingHits] at h
    rw [hd, hhit]
    simp only [hc]
    rw [ht.1, ht.2.1, ht.2.2]
    simp only [Bool.false_eq_true, if_false]
    omega

theorem Balanced.step (hpol : cfg.drfmPolicy = 1) (hr : Chan.Ready cfg m.chan)
    (hq : m.ctl.cmdQueue.WellQueued cfg) (hm : Balanced m) (h : Step cfg π m m') : Balanced m' := by
  have hnone (bank : BankId) (row : ℤ) : pendingHits bank row none = 0 := rfl
  cases h with
  | others | startRefresh | startRFM | rotate | endTick =>
    exact hm.of_tally rfl (fun _ _ => rfl) hnone
  | @accept c addr isWrite =>
    obtain ⟨_, _, _, _, _, _, _, heq⟩ := c.addTransaction_eq cfg addr isWrite
    rw [heq]
    exact hm.of_tally rfl (fun _ _ => by simp [droppedCount, TransEvent.dropsActivation]) hnone
  | returnDone c clk =>
    obtain ⟨_, done, heq⟩ := c.returnDoneTrans_eq clk
    rw [heq]
    refine hm.of_tally rfl (fun bank row => ?_) hnone
    have hdone : done.countP (TransEvent.dropsActivation bank row ∘ fun d => .returned d.1 d.2) = 0 :=
      List.countP_eq_zero.mpr fun d _ => by simp [TransEvent.dropsActivation]
    simp only [droppedCount, List.countP_append, List.countP_map, hdone, Nat.zero_add]
  | refreshTick c =>
    refine hm.of_tally ?_ (fun _ _ => rfl) hnone
    rcases c.refresh.clockTick_eq cfg c.channelState with h | ⟨req, _, h⟩ <;>
      simp only [Controller.refreshTick, h]
    rfl
  | channelTick c => exact hm.of_tally (tally_congr clockTick_log) (fun _ _ => rfl) hnone
  | @query c issued cmd origin cs' _ h =>
    rcases (getReadyCommand_answer h).log_none with hlog | ⟨_, hhook⟩
    · exact hm.of_tally (tally_congr hlog) (fun _ _ => rfl) hnone
    · intro bank row
      have h := hm bank row
      have ht := hhook.tally bank row
      simp only [tally, Prod.mk.injEq, if_true] at ht
      simp only [withChannel, pendingHits] at h ⊢
      rw [ht.1, ht.2.1, ht.2.2]
      change _ = _ + _ + c.droppedCount bank row + 0
      omega
  | hydraQuery h => exact hm.of_tally (tally_congr (getReadyHydraCommand_log h)) (fun _ _ => rfl) hnone
  | pickMaintenance hs _ _ h =>
    exact hm.pick hpol hr.regular (hs.asks hq) (getReadyCommand_answer h) rfl rfl
  | pickQueued _ hc =>
    cases hc with
    | hydra h =>
      exact hm.of_tally (tally_congr (getReadyHydraCommand_log h)) (fun _ _ => rfl)
        fun bank row => by simp [pendingHits]
    | demand hqueue hb h =>
      exact hm.pick hpol hr.regular (Source.asks hq (.demand hqueue hb)) (getReadyCommand_answer h)
        rfl rfl
  | @issue c p issued c' h =>
    obtain ⟨_, _, _, cs', hcs, rfl⟩ := issueCommand_frame h
    intro bank row
    have h := hm bank row
    have ht := (updateTimingAndStates_issued hcs).tally bank row
    simp only [tally, Prod.mk.injEq] at ht
    simp only [pendingHits] at h ⊢
    rw [ht.1, ht.2.1, ht.2.2]
    have hd : droppedCount { c with log := .issued p.cmd :: c.log } bank row =
        c.droppedCount bank row := by
      simp [droppedCount, TransEvent.dropsActivation]
    change _ = _ + _ + droppedCount { c with log := .issued p.cmd :: c.log } bank row + 0
    omega
  | @drop c p first =>
    intro bank row
    have h := hm bank row
    have hd : (c.record (.dropped p)).droppedCount bank row =
        c.droppedCount bank row + pendingHits bank row (some p) := by
      simp only [droppedCount, Controller.record, List.countP_cons, TransEvent.dropsActivation, pendingHits, hits]
      congr 1
      by_cases h₁ : p.origin = .demand <;> by_cases h₂ : p.cmd.cmdType = .activate <;>
        simp [h₁, h₂]
    rw [hd]
    simp only [pendingHits] at h ⊢
    change c.channelState.hookCount bank row = c.channelState.demandActCount bank row +
      c.channelState.postponedCount bank row + _ + 0
    omega
  | powerUpdate c =>
    obtain ⟨f, heq⟩ := c.powerUpdate_eq cfg
    rw [heq]
    exact hm.of_tally rfl (fun _ _ => rfl) hnone
  | schedule c =>
    obtain ⟨_, _, _, _, _, _, heq⟩ := c.scheduleTransaction_frame cfg
    rw [heq]
    exact hm.of_tally rfl (fun _ _ => rfl) hnone

theorem Reached.balanced (hpol : cfg.drfmPolicy = 1) (h : Reached cfg π m) : Balanced m := by
  obtain ⟨boot, h⟩ := h
  induction h with
  | refl => exact fun _ _ => rfl
  | tail hm hs ih =>
    have hr : Reached cfg π _ := ⟨boot, hm⟩
    exact ih.step hpol hr.ready hr.wellQueued hs

end Micro

/-- Under the lazy policy the counts agree for every row exactly when no run of the hooks filled
the sampler of its bank, which postpones the activation and feeds it to the trackers again, and
no activation was left out as a second HBM command. -/
theorem lazy_hooks_match_activations_iff {cfg : Config} (hpol : cfg.drfmPolicy = 1) {c : Controller}
    (h : Reachable cfg c) :
    (∀ bank row, c.channelState.hookCount bank row = c.channelState.demandActCount bank row) ↔
      (∀ bank row clk alert inflight,
        Event.hook bank row clk true alert inflight ∉ c.channelState.log) ∧
      ∀ p : Pick, p.origin = .demand → p.cmd.cmdType = .activate →
        TransEvent.dropped p ∉ c.log := by
  have hb : ∀ bank row, c.channelState.hookCount bank row =
      c.channelState.demandActCount bank row + c.channelState.postponedCount bank row +
        c.droppedCount bank row := (Micro.reached_of_reachable h).balanced hpol
  constructor
  · intro heq
    have hzero (bank : BankId) (row : ℤ) : c.channelState.postponedCount bank row = 0 ∧
        c.droppedCount bank row = 0 := by
      have := hb bank row
      have := heq bank row
      omega
    refine ⟨fun bank row clk alert inflight hmem => ?_, fun p ho hty hmem => ?_⟩
    · have := List.countP_eq_zero.mp (hzero bank row).1 _ hmem
      simp [Event.postpones] at this
    · have := List.countP_eq_zero.mp (hzero p.cmd.bankId p.cmd.row).2 _ hmem
      simp [TransEvent.dropsActivation, ho, hty] at this
  · rintro ⟨hfull, hdrop⟩ bank row
    have hpost : c.channelState.postponedCount bank row = 0 := by
      refine List.countP_eq_zero.mpr fun e he hpost => ?_
      cases e with
      | hook b r clk full alert inflight =>
        cases full with
        | true => exact hfull b r clk alert inflight he
        | false => cases hpost
      | _ => cases hpost
    have hdropped : c.droppedCount bank row = 0 := by
      refine List.countP_eq_zero.mpr fun e he hdropped => ?_
      cases e with
      | dropped p =>
        simp only [TransEvent.dropsActivation, Bool.and_eq_true, decide_eq_true_eq] at hdropped
        exact hdrop p hdropped.1.1.1 hdropped.1.1.2 he
      | _ => cases hdropped
    rw [hb, hpost, hdropped]
    rfl

/-- MINT with a window of two and a lazily served sampler of one row. -/
def lazyConfig : Config :=
  { smallConfig with mintMode := 1, mintWindow := 2, drfmMode := 1, drfmQsize := 1, drfmPolicy := 1 }

theorem lazy_hooks_match_activations_iff_small : ∃ c, Reachable lazyConfig c ∧
    ((∀ bank row, c.channelState.hookCount bank row = c.channelState.demandActCount bank row) ↔
      (∀ bank row clk alert inflight,
        Event.hook bank row clk true alert inflight ∉ c.channelState.log) ∧
      ∀ p : Pick, p.origin = .demand → p.cmd.cmdType = .activate →
        TransEvent.dropped p ∉ c.log) := by
  obtain ⟨c, hrun, _⟩ := exists_ok_of_any (p := fun _ => true)
    (x := Controller.run lazyConfig ({} : Boot lazyConfig).controller smallInputs) (by decide +kernel)
  exact ⟨c, ⟨{}, smallInputs, hrun⟩, lazy_hooks_match_activations_iff rfl ⟨{}, smallInputs, hrun⟩⟩

/-- The second activation fills the sampler: its row is fed to the trackers twice and activated
once. -/
theorem lazy_hooks_exceed_activations : ∃ c, Reachable lazyConfig c ∧
    c.channelState.hookCount ⟨0, 0, 0⟩ 1 = 2 ∧ c.channelState.demandActCount ⟨0, 0, 0⟩ 1 = 1 := by
  obtain ⟨c, hrun, hc⟩ := exists_ok_of_any
    (x := Controller.run lazyConfig ({} : Boot lazyConfig).controller smallInputs)
    (p := fun c => c.channelState.hookCount ⟨0, 0, 0⟩ 1 = 2 ∧
      c.channelState.demandActCount ⟨0, 0, 0⟩ 1 = 1) (by decide +kernel)
  exact ⟨c, ⟨{}, smallInputs, hrun⟩, by simpa using hc⟩

end CactusDram
