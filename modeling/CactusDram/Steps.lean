import CactusDram.Channel.Issue
import CactusDram.ControllerSpec
import CactusDram.Run

/-! The atomic steps of a controller. A tick is a sequence of them, and every result about runs
is an invariant of the steps. -/
namespace CactusDram
open Foundations Relation

/-- A controller inside a tick: `ticket` is a command chosen and not yet issued, `issued` are the
commands the tick has issued or dropped. -/
structure Micro where
  ctl : Controller
  ticket : Option Pick
  issued : List Command

namespace Controller

def withChannel (c : Controller) (cs : ChannelState) : Controller := { c with channelState := cs }

@[simp] theorem withChannel_self (c : Controller) : c.withChannel c.channelState = c := rfl

@[simp] theorem withChannel_withChannel (c : Controller) (cs cs' : ChannelState) :
    (c.withChannel cs).withChannel cs' = c.withChannel cs' := rfl

def withCmdQueue (c : Controller) (q : CommandQueue) : Controller := { c with cmdQueue := q }

/-- The requests that are asked for readiness, with the origin their answer gets. -/
inductive Source (cfg : Config) (c : Controller) : Command → Origin → Prop
  | refresh {ref rest} (hq : c.channelState.refreshQ = ref :: rest) (hin : c.cmdQueue.isInRef)
      (hrfm : c.cmdQueue.isInRfm = false) : Source cfg c ref (.refresh ref)
  | rfm {rfm rest} (hq : c.channelState.rfmQ = rfm :: rest) (hin : c.cmdQueue.isInRfm) :
      Source cfg c rfm (.rfm rfm)
  | demand {before cmd after} (hq : c.cmdQueue.queues c.cmdQueue.queueIdx = before ++ cmd :: after)
      (hb : c.cmdQueue.blocked = false) : Source cfg c cmd .demand
  | sref {rank : ℕ} {ty} (hr : rank < cfg.ranks) (hen : cfg.enableSelfRefresh)
      (hreq : c.srefRequest cfg rank = some ty) :
      Source cfg c ⟨ty, { rank := rank }, noAddr⟩ (.sref ⟨ty, { rank := rank }, noAddr⟩)

/-- A ready command of the queue in turn that passes arbitration, or a Hydra command. -/
inductive Candidate (cfg : Config) (c : Controller) : Pick → ChannelState → Prop
  | hydra {r cs'} (h : c.channelState.getReadyHydraCommand cfg c.clk = .ok (some r, cs')) :
      Candidate cfg c ⟨r, .hydra⟩ cs'
  | demand {before cmd after r cs'}
      (hq : c.cmdQueue.queues c.cmdQueue.queueIdx = before ++ cmd :: after)
      (hb : c.cmdQueue.blocked = false)
      (h : c.channelState.getReadyCommand cfg cmd c.clk = .ok (some r, cs'))
      (hpre : r.cmdType = .precharge → CommandQueue.arbitratePrecharge cs' before cmd after)
      (hdep : r.isWrite → CommandQueue.hasRWDependency before cmd = false) :
      Candidate cfg c ⟨r, .demand⟩ cs'

/-- The command queues after a maintenance command has been chosen. -/
def settled (q : CommandQueue) (p : Pick) : CommandQueue :=
  match p.origin with
  | .refresh _ => if p.cmd.isRefresh then { q with refQIndices := [], isInRef := false } else q
  | .rfm _ => if p.cmd.isRFM || p.cmd.isDRFM then { q with rfmQIndices := [], isInRfm := false } else q
  | _ => q

theorem settled_frame (q : CommandQueue) (p : Pick) :
    (settled q p).queues = q.queues ∧ (settled q p).clk = q.clk := by
  unfold settled
  split <;> (try split_ifs) <;> exact ⟨rfl, rfl⟩

/-- The command queues after a queued command has been chosen: only a READ or WRITE leaves. -/
def Taken (cfg : Config) (q : CommandQueue) (r : Command) (q' : CommandQueue) : Prop :=
  if r.isReadWrite then q.eraseRWCommand cfg r = .ok q' else q' = q

end Controller

namespace Micro
open Controller

/-- A tick chooses one command, or two under HBM dual issue. -/
def MayPick (cfg : Config) (issued : List Command) : Prop :=
  issued = [] ∨ cfg.enableHbmDualCmd ∧ issued.length = 1

/-- Restrictions under which runs are considered: the addresses that are accepted, the channel states
in which a tick may work on a refresh or RFM request, and the row-count caches that the other channels
may leave behind. -/
structure Policy where
  allowed : HexAddr → Prop
  grant : ChannelState → ℕ → Command → Prop
  shared : LRUCache → Prop

def Policy.free : Policy := ⟨fun _ => True, fun _ _ _ => True, fun _ => True⟩

def Policy.addresses (allowed : HexAddr → Prop) : Policy := ⟨allowed, fun _ _ _ => True, fun _ => True⟩

/-- The atomic steps. -/
inductive Step (cfg : Config) (π : Policy) : Micro → Micro → Prop
  | others (c) {rcc} (draws) (hs : π.shared rcc) : Step cfg π ⟨c, none, []⟩
      ⟨c.withChannel { c.channelState with rcc := rcc, draws := draws }, none, []⟩
  | accept {c addr isWrite} (ha : π.allowed addr) (h : c.willAcceptTransaction cfg isWrite) :
      Step cfg π ⟨c, none, []⟩ ⟨c.addTransaction cfg addr isWrite, none, []⟩
  | returnDone (c clk) : Step cfg π ⟨c, none, []⟩ ⟨c.returnDoneTrans clk, none, []⟩
  | refreshTick (c) : Step cfg π ⟨c, none, []⟩ ⟨c.refreshTick cfg, none, []⟩
  | channelTick (c) : Step cfg π ⟨c, none, []⟩ ⟨c.channelTick cfg, none, []⟩
  | startRefresh {c ref rest idx} (hq : c.channelState.refreshQ = ref :: rest)
      (hrfm : c.cmdQueue.isInRfm = false) (hin : c.cmdQueue.isInRef = false)
      (h : CommandQueue.maintenanceQIndices cfg ref = .ok idx) :
      Step cfg π ⟨c, none, []⟩ ⟨c.withCmdQueue { c.cmdQueue with
        refQIndices := c.cmdQueue.refQIndices ++ idx, isInRef := true }, none, []⟩
  | startRFM {c rfm rest idx} (hq : c.channelState.rfmQ = rfm :: rest)
      (hin : c.cmdQueue.isInRfm = false) (href : c.cmdQueue.isInRef = false)
      (h : CommandQueue.maintenanceQIndices cfg rfm = .ok idx) :
      Step cfg π ⟨c, none, []⟩ ⟨c.withCmdQueue { c.cmdQueue with
        rfmQIndices := c.cmdQueue.rfmQIndices ++ idx, isInRfm := true }, none, []⟩
  | rotate (c issued) : Step cfg π ⟨c, none, issued⟩ ⟨c.withCmdQueue { c.cmdQueue with
        queueIdx := CommandQueue.nextIdx cfg c.cmdQueue.queueIdx }, none, issued⟩
  | query {c issued cmd origin cs'} (hs : c.Source cfg cmd origin)
      (h : c.channelState.getReadyCommand cfg cmd c.clk = .ok (none, cs')) :
      Step cfg π ⟨c, none, issued⟩ ⟨c.withChannel cs', none, issued⟩
  | hydraQuery {c issued cs'}
      (h : c.channelState.getReadyHydraCommand cfg c.clk = .ok (none, cs')) :
      Step cfg π ⟨c, none, issued⟩ ⟨c.withChannel cs', none, issued⟩
  | pickMaintenance {c cmd origin r cs'} (hs : c.Source cfg cmd origin) (ho : origin ≠ .demand)
      (hg : origin = .refresh cmd ∨ origin = .rfm cmd → π.grant c.channelState c.clk cmd)
      (h : c.channelState.getReadyCommand cfg cmd c.clk = .ok (some r, cs')) :
      Step cfg π ⟨c, none, []⟩
        ⟨(c.withChannel cs').withCmdQueue (settled c.cmdQueue ⟨r, origin⟩), some ⟨r, origin⟩, []⟩
  | pickQueued {c issued p cs' q'} (hmay : MayPick cfg issued) (hc : c.Candidate cfg p cs')
      (hq : Taken cfg c.cmdQueue p.cmd q') :
      Step cfg π ⟨c, none, issued⟩ ⟨(c.withChannel cs').withCmdQueue q', some p, issued⟩
  | issue {c p issued c'} (h : c.issueCommand cfg p = .ok c') :
      Step cfg π ⟨c, some p, issued⟩ ⟨c', none, p.cmd :: issued⟩
  | drop {c p first} (hdual : cfg.enableHbmDualCmd)
      (hsame : p.cmd.isReadWrite = first.isReadWrite) :
      Step cfg π ⟨c, some p, [first]⟩ ⟨c.record (.dropped p), none, [p.cmd, first]⟩
  | powerUpdate (c issued) : Step cfg π ⟨c, none, issued⟩ ⟨c.powerUpdate cfg, none, issued⟩
  | schedule (c issued) :
      Step cfg π ⟨c, none, issued⟩ ⟨c.scheduleTransaction cfg, none, issued⟩
  | endTick (c issued) : Step cfg π ⟨c, none, issued⟩ ⟨c.endTick, none, []⟩

/-- The ways a step can end the process. -/
inductive Fails (cfg : Config) : Micro → Exit → Prop
  | noRefresh {c} (hin : c.cmdQueue.isInRef) (hrfm : c.cmdQueue.isInRfm = false)
      (hq : c.channelState.refreshQ = []) : Fails cfg ⟨c, none, []⟩ .emptyFront
  | noRFM {c} (hin : c.cmdQueue.isInRfm) (hq : c.channelState.rfmQ = []) :
      Fails cfg ⟨c, none, []⟩ .emptyFront
  | start {c req e} (hq : req ∈ c.channelState.refreshQ ∨ req ∈ c.channelState.rfmQ)
      (h : CommandQueue.maintenanceQIndices cfg req = .error e) : Fails cfg ⟨c, none, []⟩ e
  | query {c issued cmd origin e} (hs : c.Source cfg cmd origin)
      (h : c.channelState.getReadyCommand cfg cmd c.clk = .error e) :
      Fails cfg ⟨c, none, issued⟩ e
  | hydraQuery {c issued e} (h : c.channelState.getReadyHydraCommand cfg c.clk = .error e) :
      Fails cfg ⟨c, none, issued⟩ e
  | erase {c issued p cs' e} (hc : c.Candidate cfg p cs') (hrw : p.cmd.isReadWrite)
      (h : c.cmdQueue.eraseRWCommand cfg p.cmd = .error e) : Fails cfg ⟨c, none, issued⟩ e
  | issue {c p issued e} (h : c.issueCommand cfg p = .error e) : Fails cfg ⟨c, some p, issued⟩ e

section Simulation
variable {cfg : Config} {π : Policy} {c : Controller} {issued : List Command}

/-- A search through the queue in turn: queries that end with nothing, with a candidate, or with
a failure. -/
structure Searches (cfg : Config) (π : Policy) (c : Controller)
    (issued : List Command) (cs : ChannelState)
    (x : Except Exit (Option Pick × ChannelState)) : Prop where
  onNone : ∀ cs', x = .ok (none, cs') → ReflTransGen (Step cfg π)
    ⟨c.withChannel cs, none, issued⟩ ⟨c.withChannel cs', none, issued⟩
  onSome : ∀ p cs', x = .ok (some p, cs') → ∃ cs₁, ReflTransGen (Step cfg π)
    ⟨c.withChannel cs, none, issued⟩ ⟨c.withChannel cs₁, none, issued⟩ ∧
      (c.withChannel cs₁).Candidate cfg p cs'
  onError : ∀ e, x = .error e → ∃ cs₁, ReflTransGen (Step cfg π)
    ⟨c.withChannel cs, none, issued⟩ ⟨c.withChannel cs₁, none, issued⟩ ∧
      Fails cfg ⟨c.withChannel cs₁, none, issued⟩ e

namespace Searches
variable {cs cs₁ cs' : ChannelState} {x : Except Exit (Option Pick × ChannelState)}

theorem after (h : ReflTransGen (Step cfg π) ⟨c.withChannel cs, none, issued⟩
    ⟨c.withChannel cs₁, none, issued⟩) (hx : Searches cfg π c issued cs₁ x) :
    Searches cfg π c issued cs x where
  onNone cs' he := h.trans (hx.onNone cs' he)
  onSome p cs' he := (hx.onSome p cs' he).imp fun _ h' => ⟨h.trans h'.1, h'.2⟩
  onError e he := (hx.onError e he).imp fun _ h' => ⟨h.trans h'.1, h'.2⟩

theorem nothing : Searches cfg π c issued cs (.ok (none, cs)) where
  onNone cs' he := by cases he; exact .refl
  onSome p cs' he := nomatch he
  onError e he := nomatch he

theorem found {p : Pick} (h : (c.withChannel cs).Candidate cfg p cs') :
    Searches cfg π c issued cs (.ok (some p, cs')) where
  onNone cs' he := nomatch he
  onSome p cs' he := by cases he; exact ⟨cs, .refl, h⟩
  onError e he := nomatch he

theorem failed {e : Exit} (h : Fails cfg ⟨c.withChannel cs, none, issued⟩ e) :
    Searches cfg π c issued cs (.error e) where
  onNone cs' he := nomatch he
  onSome p cs' he := nomatch he
  onError e he := by cases he; exact ⟨cs, .refl, h⟩

end Searches

theorem getFirstReadyInQueue_searches {before after : List Command} {cs : ChannelState}
    (hq : c.cmdQueue.queues c.cmdQueue.queueIdx = before ++ after)
    (hb : c.cmdQueue.blocked = false) : Searches cfg π c issued cs
      (CommandQueue.getFirstReadyInQueue cfg c.clk before after cs) := by
  induction after generalizing before cs with
  | nil => exact .nothing
  | cons cmd after ih =>
    have hq' : c.cmdQueue.queues c.cmdQueue.queueIdx = (before ++ [cmd]) ++ after := by
      simpa using hq
    rw [CommandQueue.getFirstReadyInQueue]
    -- the Hydra query comes first, then the query for the command itself
    cases hh : cs.getReadyHydraCommand cfg c.clk with
    | error e => exact .failed (.hydraQuery hh)
    | ok hres =>
      obtain ⟨hydra?, cs₁⟩ := hres
      cases hydra? with
      | some r => exact .found (.hydra hh)
      | none =>
        refine .after (.single (.hydraQuery (c := c.withChannel cs) hh)) ?_
        have hs : (c.withChannel cs₁).Source cfg cmd .demand := .demand hq hb
        cases hr : cs₁.getReadyCommand cfg cmd c.clk with
        | error e =>
          simp only [bind, Except.bind, hr]
          exact .failed (.query hs hr)
        | ok res =>
          obtain ⟨ready?, cs₂⟩ := res
          cases ready? with
          | none =>
            simp only [bind, Except.bind, hr]
            exact .after (.single (.query (c := c.withChannel cs₁) hs hr)) (ih hq')
          | some r =>
            simp only [bind, Except.bind, hr]
            have hskip : r.cmdType ≠ .activate → cs₂ = cs₁ :=
              (ChannelState.getReadyCommand_answer hr).eq_of_ne_activate
            split_ifs with hpre hdep
            · rw [hskip (by simp [hpre.1])]
              exact ih hq'
            · have hne : r.cmdType ≠ .activate := by
                intro hr
                simp [Command.isWrite, hr] at hdep
              rw [hskip hne]
              exact ih hq'
            · refine .found (.demand hq hb hr (fun h => ?_) fun h => ?_)
              · simpa [h] using hpre
              · simpa [h] using hdep

/-- The view of a chosen command. -/
def chosen (issued : List Command) (r : Option Pick × Controller) : Micro := ⟨r.2, r.1, issued⟩

theorem getCommandLoop_realizes (cs : ChannelState) (hmay : MayPick cfg issued) {n : ℕ}
    {q : CommandQueue} (hclk : q.clk = c.clk) :
    Realizes (Step cfg π) (Fails cfg) ⟨(c.withChannel cs).withCmdQueue q, none, issued⟩
      (CommandQueue.getCommandLoop cfg n q cs) (fun r => chosen issued (c.withQueue r)) := by
  induction n generalizing q cs with
  | zero => exact .ok .refl
  | succ n ih =>
    rw [CommandQueue.getCommandLoop]
    refine .step (.rotate _ issued) ?_
    obtain ⟨q₁, hq₁⟩ : ∃ q₁, q₁ = { q with queueIdx := CommandQueue.nextIdx cfg q.queueIdx } :=
      ⟨_, rfl⟩
    have hclk₁ : q₁.clk = c.clk := by rw [hq₁, ← hclk]
    change Realizes _ _ (⟨(c.withChannel cs).withCmdQueue { q with
      queueIdx := CommandQueue.nextIdx cfg q.queueIdx }, none, issued⟩ : Micro) _ _
    rw [← hq₁]
    split_ifs with hb
    · exact ih _ hclk₁
    · rw [Bool.not_eq_true] at hb
      have hsearch : Searches cfg π (c.withCmdQueue q₁) issued cs
          (CommandQueue.getFirstReadyInQueue cfg c.clk [] (q₁.queues q₁.queueIdx) cs) :=
        getFirstReadyInQueue_searches (c := c.withCmdQueue q₁) rfl hb
      rw [hclk₁]
      generalize CommandQueue.getFirstReadyInQueue cfg c.clk [] (q₁.queues q₁.queueIdx) cs = x
        at hsearch
      cases x with
      | error e =>
        obtain ⟨cs₁, hsteps, hfail⟩ := hsearch.onError e rfl
        exact .steps hsteps (.error hfail)
      | ok res =>
        obtain ⟨pick, cs'⟩ := res
        cases pick with
        | none => exact .steps (hsearch.onNone cs' rfl) (ih _ hclk₁)
        | some p =>
          obtain ⟨cs₁, hsteps, hcand⟩ := hsearch.onSome p cs' rfl
          refine .steps hsteps ?_
          simp only [bind, Except.bind]
          split_ifs with hrw
          · split
            · exact .error (.erase hcand hrw ‹_›)
            · refine .ok (.single (.pickQueued hmay hcand ?_))
              simp only [Taken, hrw, if_true]
              assumption
          · refine .ok (.single (.pickQueued hmay hcand ?_))
            simp only [Taken, hrw]
            rfl

theorem demand_realizes (hmay : MayPick cfg issued) (hclk : c.cmdQueue.clk = c.clk) :
    Realizes (Step cfg π) (Fails cfg) ⟨c, none, issued⟩ (c.demand cfg) (chosen issued) :=
  .map (fun _ => rfl) (getCommandLoop_realizes (c := c) c.channelState hmay hclk)

/-- Asking for a maintenance command once its queues are blocked. -/
theorem ask_realizes {cmd : Command} {origin : Origin} (hs : c.Source cfg cmd origin)
    (ho : origin ≠ .demand) (hg : π.grant c.channelState c.clk cmd) (hclk : c.cmdQueue.clk = c.clk)
    {f : Option Command × ChannelState → Except Exit (Option Pick × CommandQueue × ChannelState)}
    (hnone : ∀ cs', f (none, cs') = .ok (none, c.cmdQueue, cs'))
    (hsome : ∀ r cs', f (some r, cs') = .ok (some ⟨r, origin⟩, settled c.cmdQueue ⟨r, origin⟩, cs')) :
    Realizes (Step cfg π) (Fails cfg) ⟨c, none, []⟩
      (c.channelState.getReadyCommand cfg cmd c.cmdQueue.clk >>= f)
      (fun r => chosen [] (c.withQueue r)) := by
  rw [hclk]
  refine .call (fun e he => .query hs he) fun res hres => ?_
  obtain ⟨r?, cs'⟩ := res
  cases r? with
  | none =>
    rw [hnone]
    exact .ok (.single (.query hs hres))
  | some r =>
    rw [hsome]
    exact .ok (.single (.pickMaintenance hs ho (fun _ => hg) hres))

theorem finishRefresh_realizes (hclk : c.cmdQueue.clk = c.clk) (hrfm : c.cmdQueue.isInRfm = false)
    (hg : ∀ ref, c.channelState.refreshQ.head? = some ref → π.grant c.channelState c.clk ref)
    (hin : c.cmdQueue.isInRef ∨ c.channelState.refreshQ ≠ []) :
    Realizes (Step cfg π) (Fails cfg) ⟨c, none, []⟩
      (c.cmdQueue.finishRefresh cfg c.channelState) (fun r => chosen [] (c.withQueue r)) := by
  unfold CommandQueue.finishRefresh
  split
  · rename_i hq
    exact .error (.noRefresh (by simpa [hq] using hin) hrfm hq)
  · rename_i ref rest hq
    have hgrant := hg ref (by rw [hq]; rfl)
    split_ifs with hinRef
    · refine ask_realizes (.refresh hq hinRef hrfm) (by simp) hgrant hclk (fun cs' => rfl) fun r cs' => ?_
      simp [settled]
    · rw [Bool.not_eq_true] at hinRef
      have hstart : Realizes (Step cfg π) (Fails cfg) ⟨c, none, []⟩ (c.cmdQueue.getRefQIndices cfg ref)
          fun q => ⟨c.withCmdQueue q, none, []⟩ := by
        refine .call (fun e he => .start (.inl (hq ▸ List.mem_cons_self)) he) fun idx hidx => ?_
        exact .ok (.single (.startRefresh hq hrfm hinRef hidx))
      refine hstart.bind fun q hq' => ?_
      obtain ⟨idx, _, hq'⟩ := bind_ok_iff.mp hq'
      cases hq'
      refine ask_realizes (c := c.withCmdQueue { c.cmdQueue with
          refQIndices := c.cmdQueue.refQIndices ++ idx, isInRef := true })
        (.refresh hq rfl hrfm) (by simp) hgrant hclk (fun cs' => rfl) fun r cs' => ?_
      simp [settled, withCmdQueue]

theorem finishRFM_realizes (hclk : c.cmdQueue.clk = c.clk)
    (hg : ∀ rfm, c.channelState.rfmQ.head? = some rfm → π.grant c.channelState c.clk rfm)
    (hin : c.cmdQueue.isInRfm ∨ c.cmdQueue.isInRef = false ∧ c.channelState.rfmQ ≠ []) :
    Realizes (Step cfg π) (Fails cfg) ⟨c, none, []⟩
      (c.cmdQueue.finishRFM cfg c.channelState) (fun r => chosen [] (c.withQueue r)) := by
  unfold CommandQueue.finishRFM
  split
  · rename_i hq
    exact .error (.noRFM (by simpa [hq] using hin) hq)
  · rename_i rfm rest hq
    have hgrant := hg rfm (by rw [hq]; rfl)
    split_ifs with hinRfm
    · refine ask_realizes (.rfm hq hinRfm) (by simp) hgrant hclk (fun cs' => rfl) fun r cs' => ?_
      simp [settled]
    · rw [Bool.not_eq_true] at hinRfm
      have href : c.cmdQueue.isInRef = false := by simpa [hinRfm, hq] using hin
      have hstart : Realizes (Step cfg π) (Fails cfg) ⟨c, none, []⟩ (c.cmdQueue.getRFMQIndices cfg rfm)
          fun q => ⟨c.withCmdQueue q, none, []⟩ := by
        refine .call (fun e he => .start (.inr (hq ▸ List.mem_cons_self)) he) fun idx hidx => ?_
        exact .ok (.single (.startRFM hq hinRfm href hidx))
      refine hstart.bind fun q hq' => ?_
      obtain ⟨idx, _, hq'⟩ := bind_ok_iff.mp hq'
      cases hq'
      refine ask_realizes (c := c.withCmdQueue { c.cmdQueue with
          rfmQIndices := c.cmdQueue.rfmQIndices ++ idx, isInRfm := true })
        (.rfm hq rfl) (by simp) hgrant hclk (fun cs' => rfl) fun r cs' => ?_
      simp [settled, withCmdQueue]

theorem maintenance_realizes (hclk : c.cmdQueue.clk = c.clk)
    (hg : ∀ served, c.inService = some served → π.grant c.channelState c.clk served) :
    Realizes (Step cfg π) (Fails cfg) ⟨c, none, []⟩ (c.maintenance cfg) (chosen []) := by
  unfold maintenance
  unfold inService at hg
  split_ifs with hrfm href hq
  · rw [if_pos hrfm] at hg
    exact .map (fun _ => rfl) (finishRFM_realizes hclk hg (.inl hrfm))
  · rw [if_neg hrfm, if_pos href] at hg
    refine .map (fun _ => rfl) (finishRefresh_realizes hclk (by simpa using hrfm) hg ?_)
    simpa [Bool.or_eq_true] using href
  · rw [if_neg hrfm, if_neg href] at hg
    rw [Bool.or_eq_true, not_or, Bool.not_eq_true] at href
    exact .map (fun _ => rfl) (finishRFM_realizes hclk hg (.inr ⟨href.1, by simpa using hq⟩))
  · exact .ok .refl

/-- The clocks of the controller and of its queues agree. -/
def Synced (m : Micro) : Prop := m.ctl.cmdQueue.clk = m.ctl.clk

theorem Step.synced {m m' : Micro} (hm : Synced m) (h : Step cfg π m m') : Synced m' := by
  unfold Synced at *
  cases h with
  | others | refreshTick | channelTick | startRefresh | startRFM | rotate | query | hydraQuery
  | drop => exact hm
  | @accept c addr isWrite =>
    obtain ⟨_, _, _, _, _, _, _, heq⟩ := c.addTransaction_eq cfg addr isWrite
    rw [heq]
    exact hm
  | returnDone c clk =>
    obtain ⟨_, _, heq⟩ := c.returnDoneTrans_eq clk
    rw [heq]
    exact hm
  | pickMaintenance => exact (settled_frame _ _).2.trans hm
  | pickQueued _ _ hq =>
    unfold Taken at hq
    split_ifs at hq
    · obtain ⟨qs, rfl⟩ := CommandQueue.eraseRWCommand_eq hq
      exact hm
    · subst hq
      exact hm
  | issue h =>
    obtain ⟨_, _, _, _, _, rfl⟩ := issueCommand_frame h
    exact hm
  | powerUpdate c =>
    obtain ⟨f, heq⟩ := c.powerUpdate_eq cfg
    rw [heq]
    exact hm
  | schedule c =>
    obtain ⟨_, _, _, _, _, _, heq⟩ := c.scheduleTransaction_frame cfg
    rw [heq]
    exact hm
  | endTick => exact congrArg (· + 1) hm

theorem synced_of_steps {m m' : Micro} (h : ReflTransGen (Step cfg π) m m')
    (hm : Synced m) : Synced m' :=
  invariant_of_steps (P := Synced) (fun _ _ hm h => Step.synced hm h) h hm

/-- Between two calls nothing is chosen. -/
def rest (c : Controller) : Micro := ⟨c, none, []⟩

theorem selectCommand_realizes (hclk : c.cmdQueue.clk = c.clk)
    (hg : ∀ served, c.inService = some served → π.grant c.channelState c.clk served) :
    Realizes (Step cfg π) (Fails cfg) (rest c) (c.selectCommand cfg) (chosen []) := by
  have hm : Realizes (Step cfg π) (Fails cfg) ⟨c, none, []⟩ (c.maintenance cfg) (chosen []) :=
    maintenance_realizes hclk hg
  refine hm.bind fun res hres => ?_
  have hsync := synced_of_steps (hm.1 res hres) hclk
  obtain ⟨pick, c'⟩ := res
  cases pick with
  | some p => exact .ok .refl
  | none => exact demand_realizes (.inl rfl) hsync

variable {view : Controller → Micro} {f : Controller → Except Exit Controller}

theorem issueCommand_realizes {p : Pick} (issued : List Command) :
    Realizes (Step cfg π) (Fails cfg) ⟨c, some p, issued⟩ (c.issueCommand cfg p)
      fun c => ⟨c, none, p.cmd :: issued⟩ :=
  ⟨fun _ h => .single (.issue h), fun _ h => ⟨_, .refl, .issue h⟩⟩

/-- The commands a tick issues are followed by the rest of the tick. -/
theorem secondCommand_realizes {first : Command} (hdual : cfg.enableHbmDualCmd)
    (hclk : c.cmdQueue.clk = c.clk)
    (hf : ∀ c issued, issued ≠ [] → Realizes (Step cfg π) (Fails cfg) ⟨c, none, issued⟩ (f c) view) :
    Realizes (Step cfg π) (Fails cfg) ⟨c, none, [first]⟩ (c.secondCommand cfg first >>= f)
      view := by
  unfold secondCommand
  rw [bind_assoc]
  have hd : Realizes (Step cfg π) (Fails cfg) ⟨c, none, [first]⟩ (c.demand cfg) (chosen [first]) :=
    demand_realizes (.inr ⟨hdual, rfl⟩) hclk
  refine hd.bind fun res hres => ?_
  obtain ⟨pick, c'⟩ := res
  cases pick with
  | none => exact hf _ _ (by simp)
  | some p =>
    dsimp only
    split_ifs with hne
    · exact (issueCommand_realizes [first]).bind fun c'' _ => hf _ _ (by simp)
    · exact .step (.drop hdual (by simpa using hne)) (hf _ _ (by simp))

theorem issueSelected_realizes {pick : Option Pick} (hclk : c.cmdQueue.clk = c.clk)
    (hf : ∀ c issued, (pick = none → issued = []) →
      Realizes (Step cfg π) (Fails cfg) ⟨c, none, issued⟩ (f c) view) :
    Realizes (Step cfg π) (Fails cfg) ⟨c, pick, []⟩ (c.issueSelected cfg pick >>= f) view := by
  cases pick with
  | none => exact hf c [] fun _ => rfl
  | some p =>
    unfold issueSelected
    dsimp only
    rw [bind_assoc]
    refine (issueCommand_realizes []).bind fun c' hc' => ?_
    split_ifs with hdual
    · obtain ⟨_, _, _, _, _, rfl⟩ := issueCommand_frame hc'
      exact secondCommand_realizes hdual hclk fun c issued _ => hf c issued fun h => nomatch h
    · exact hf c' _ fun h => nomatch h

theorem selfRefresh_realizes (hen : cfg.enableSelfRefresh)
    (hf : ∀ c issued, Realizes (Step cfg π) (Fails cfg) ⟨c, none, issued⟩ (f c) view)
    {ranks : List ℕ} (hranks : ∀ r ∈ ranks, r < cfg.ranks) :
    Realizes (Step cfg π) (Fails cfg) (rest c) (selfRefresh cfg ranks c >>= f) view := by
  induction ranks generalizing c with
  | nil => exact hf c []
  | cons rank ranks ih =>
    have ih' (c : Controller) := ih (c := c) fun r hr => hranks r (List.mem_cons_of_mem _ hr)
    rw [selfRefresh]
    split
    · exact ih' c
    · rename_i ty hreq
      have hs : c.Source cfg ⟨ty, { rank := rank }, noAddr⟩ (.sref ⟨ty, { rank := rank }, noAddr⟩) :=
        .sref (hranks rank List.mem_cons_self) hen hreq
      rw [bind_assoc]
      refine .call (fun e he => .query hs he) fun res hres => ?_
      obtain ⟨r?, cs'⟩ := res
      cases r? with
      | none => exact .step (.query hs hres) (ih' _)
      | some r =>
        refine .step (.pickMaintenance hs (by simp) (by simp) hres) ?_
        exact (issueCommand_realizes []).bind fun c' _ => hf c' [r]

/-- A controller after the timers of a tick. -/
def ticked (cfg : Config) (c : Controller) : Controller := (c.refreshTick cfg).channelTick cfg

/-- The restrictions on one call. -/
def Admits (cfg : Config) (π : Policy) (c : Controller) : Input → Prop
  | .addTransaction addr _ => π.allowed addr
  | .clockTick => ∀ served, (ticked cfg c).inService = some served →
      π.grant (ticked cfg c).channelState c.clk served
  | .others rcc _ => π.shared rcc
  | .returnDoneTrans _ => True

/-- Every call of a run meets the restrictions. -/
def Meets (cfg : Config) (π : Policy) : Controller → List Input → Prop
  | _, [] => True
  | c, input :: inputs =>
    Admits cfg π c input ∧ ∀ c', c.step cfg input = .ok c' → Meets cfg π c' inputs

instance decidableMeets [∀ c input, Decidable (Admits cfg π c input)] :
    ∀ c inputs, Decidable (Meets cfg π c inputs)
  | _, [] => .isTrue trivial
  | c, input :: inputs =>
    match h : c.step cfg input with
    | .ok c' =>
      have := decidableMeets c' inputs
      decidable_of_iff (Admits cfg π c input ∧ Meets cfg π c' inputs) (by simp [Meets, h])
    | .error _ => decidable_of_iff (Admits cfg π c input) (by simp [Meets, h])

/-- A tick after its timers. -/
theorem ticked_realizes (hclk : c.cmdQueue.clk = c.clk) (hin : Admits cfg π c .clockTick) :
    Realizes (Step cfg π) (Fails cfg) (rest (ticked cfg c)) (c.clockTick cfg) rest := by
  unfold Controller.clockTick
  have hsel : Realizes (Step cfg π) (Fails cfg) (rest (ticked cfg c)) ((ticked cfg c).selectCommand cfg)
      (chosen []) := selectCommand_realizes hclk hin
  refine hsel.bind fun res hres => ?_
  have hsync := synced_of_steps (hsel.1 res hres) hclk
  obtain ⟨pick, c₁⟩ := res
  refine issueSelected_realizes hsync fun c₂ issued hissued => ?_
  refine .step (.powerUpdate c₂ issued) ?_
  have hend (c : Controller) (issued : List Command) : Realizes (Step cfg π) (Fails cfg)
      ⟨c, none, issued⟩ (.ok (c.scheduleTransaction cfg).endTick) rest :=
    .step (.schedule c issued) (.step (.endTick _ issued) (.ok .refl))
  unfold idleTick
  split_ifs with hidle
  · rw [Bool.and_eq_true, Option.isNone_iff_eq_none] at hidle
    rw [hissued hidle.2]
    exact selfRefresh_realizes hidle.1 hend fun r hr => List.mem_range.mp hr
  · exact hend _ _

theorem clockTick_realizes (hclk : c.cmdQueue.clk = c.clk) (hin : Admits cfg π c .clockTick) :
    Realizes (Step cfg π) (Fails cfg) (rest c) (c.clockTick cfg) rest :=
  .step (.refreshTick c) (.step (.channelTick _) (ticked_realizes hclk hin))

theorem step_realizes (hclk : c.cmdQueue.clk = c.clk) {input : Input} (hin : Admits cfg π c input) :
    Realizes (Step cfg π) (Fails cfg) (rest c) (c.step cfg input) rest := by
  cases input with
  | addTransaction addr isWrite =>
    simp only [Controller.step]
    split_ifs with hacc
    · exact .step (.accept hin hacc) (.ok .refl)
    · exact .ok .refl
  | clockTick => exact clockTick_realizes hclk hin
  | returnDoneTrans clk => exact .step (.returnDone c clk) (.ok .refl)
  | others rcc draws => exact .step (.others c draws hin) (.ok .refl)

/-- Every run is a sequence of atomic steps, and every exit of a run is one of theirs. -/
theorem run_realizes {inputs : List Input} (hclk : c.cmdQueue.clk = c.clk)
    (hin : Meets cfg π c inputs) :
    Realizes (Step cfg π) (Fails cfg) (rest c) (c.run cfg inputs) rest := by
  induction inputs generalizing c with
  | nil => exact .ok .refl
  | cons input inputs ih =>
    have hstep : Realizes (Step cfg π) (Fails cfg) (rest c) (c.step cfg input) rest :=
      step_realizes hclk hin.1
    refine hstep.bind fun c' hc' => ?_
    exact ih (synced_of_steps (hstep.1 c' hc') hclk) (hin.2 c' hc')

end Simulation

section Runs
variable {cfg : Config} {π : Policy}

theorem meets_free (c : Controller) (inputs : List Input) : Meets cfg .free c inputs := by
  induction inputs generalizing c with
  | nil => trivial
  | cons input inputs ih =>
    refine ⟨?_, fun c' _ => ih c'⟩
    cases input <;> simp [Admits, Policy.free]

/-- A restriction on addresses is one on the calls alone. -/
theorem meets_addresses {allowed : HexAddr → Prop} {inputs : List Input}
    (h : ∀ addr isWrite, Input.addTransaction addr isWrite ∈ inputs → allowed addr)
    (c : Controller) : Meets cfg (.addresses allowed) c inputs := by
  induction inputs generalizing c with
  | nil => trivial
  | cons input inputs ih =>
    refine ⟨?_, fun c' _ => ih (fun a w ha => h a w (List.mem_cons_of_mem _ ha)) c'⟩
    cases input with
    | addTransaction addr isWrite => exact h addr isWrite List.mem_cons_self
    | clockTick | returnDoneTrans | others => simp [Admits, Policy.addresses]

/-- The atomic states of the runs of a channel. -/
def Reached (cfg : Config) (π : Policy) (m : Micro) : Prop :=
  ∃ boot : Boot cfg, ReflTransGen (Step cfg π) (rest boot.controller) m

theorem reached_of_run {boot : Boot cfg} {inputs : List Input} {c : Controller}
    (hin : Meets cfg π boot.controller inputs)
    (h : Controller.run cfg boot.controller inputs = .ok c) : Reached cfg π (rest c) :=
  ⟨boot, (run_realizes rfl hin).1 c h⟩

theorem fails_of_run {boot : Boot cfg} {inputs : List Input} {e : Exit}
    (hin : Meets cfg π boot.controller inputs)
    (h : Controller.run cfg boot.controller inputs = .error e) :
    ∃ m, Reached cfg π m ∧ Fails cfg m e := by
  obtain ⟨m, hsteps, hfail⟩ := (run_realizes rfl hin).2 e h
  exact ⟨m, ⟨boot, hsteps⟩, hfail⟩

theorem reached_of_reachable {c : Controller} (h : Reachable cfg c) :
    Reached cfg .free (rest c) := by
  obtain ⟨boot, inputs, h⟩ := h
  exact reached_of_run (meets_free _ _) h

/-- What holds of every fresh channel and is kept by every step holds in every reached state. -/
theorem Reached.induct {P : Micro → Prop} (hboot : ∀ boot : Boot cfg, P (rest boot.controller))
    (hstep : ∀ m m', P m → Step cfg π m m' → P m') {m : Micro} (h : Reached cfg π m) :
    P m := by
  obtain ⟨boot, h⟩ := h
  exact invariant_of_steps hstep h (hboot boot)

theorem Reached.synced {m : Micro} (h : Reached cfg π m) : Synced m :=
  h.induct (fun _ => rfl) fun _ _ hm h => Step.synced hm h

end Runs
end Micro
end CactusDram
