import CactusDram.Steps

/-! The memory system: one controller per channel. The configuration object that the controllers share
holds the row-count cache of Hydra, and `rand()` is global, so a call on one channel changes what all
others find. It is a sequence of atomic steps of its controller, during which the others rest. -/
namespace CactusDram
open Foundations Relation

def Config.getChannel (cfg : Config) (hexAddr : HexAddr) : ℕ :=
  Config.field (hexAddr.toNat >>> cfg.shiftBits) cfg.chPos cfg.chMask

/-- A call of `read_callback_` or `write_callback_`. -/
structure Callback where
  addr : HexAddr
  isWrite : Bool
  deriving DecidableEq, Repr

/-- The cache and the random numbers as another channel has left them. -/
def Controller.share (c : Controller) (cs : ChannelState) : Controller :=
  c.withChannel { c.channelState with rcc := cs.rcc, draws := cs.draws }

structure JedecDRAMSystem where
  clk : ℕ := 0
  ctrls : ℕ → Controller
  callbacks : List Callback := []

namespace JedecDRAMSystem
variable (cfg : Config) (s : JedecDRAMSystem)

/-- A call on one controller has returned. -/
def store (i : ℕ) (c : Controller) : JedecDRAMSystem :=
  { s with ctrls := fun j => if j = i then c else (s.ctrls j).share c.channelState }

def willAcceptTransaction (hexAddr : HexAddr) (isWrite : Bool) : Bool :=
  (s.ctrls (cfg.getChannel hexAddr)).willAcceptTransaction cfg isWrite

/-- A transaction that does not fit is refused and changes nothing. -/
def addTransaction (hexAddr : HexAddr) (isWrite : Bool) : JedecDRAMSystem :=
  let channel := cfg.getChannel hexAddr
  if s.willAcceptTransaction cfg hexAddr isWrite then
    s.store channel ((s.ctrls channel).addTransaction cfg hexAddr isWrite)
  else s

/-- Hand back completed transactions until none is left. -/
def returnLoop (clk : ℕ) : ℕ → Controller → List Callback × Controller
  | 0, c => ([], c)
  | n + 1, c =>
    match c.returnQueue.find? fun t => t.completeCycle ≤ clk with
    | some t =>
      let (done, c) := returnLoop clk n (c.returnDoneTrans clk)
      (⟨t.addr, t.isWrite⟩ :: done, c)
    | none => ([], c)

def returnDone (s : JedecDRAMSystem) (i : ℕ) : JedecDRAMSystem :=
  let (done, c) := returnLoop s.clk (s.ctrls i).returnQueue.length (s.ctrls i)
  { s.store i c with callbacks := s.callbacks ++ done }

def tickChannel (s : JedecDRAMSystem) (i : ℕ) : Except Exit JedecDRAMSystem := do
  let c ← (s.ctrls i).clockTick cfg
  .ok (s.store i c)

/-- Every channel first hands back what is done. -/
def clockTick : Except Exit JedecDRAMSystem := do
  let s := (List.range cfg.channels).foldl returnDone s
  let s ← (List.range cfg.channels).foldlM (tickChannel cfg) s
  .ok { s with clk := s.clk + 1 }

/-- The calls made on a system. -/
inductive Call
  | addTransaction (hexAddr : HexAddr) (isWrite : Bool)
  | clockTick

def step (s : JedecDRAMSystem) : Call → Except Exit JedecDRAMSystem
  | .addTransaction hexAddr isWrite => .ok (s.addTransaction cfg hexAddr isWrite)
  | .clockTick => s.clockTick cfg

def run (s : JedecDRAMSystem) (calls : List Call) : Except Exit JedecDRAMSystem :=
  calls.foldlM (step cfg) s

end JedecDRAMSystem

/-- What the constructors of the controllers leave open; `rand()` is the same for all. -/
structure SystemBoot (cfg : Config) where
  boots : ℕ → Boot cfg := fun _ => {}
  draws : List ℕ := []

def SystemBoot.controller {cfg : Config} (boot : SystemBoot cfg) (i : ℕ) : Controller :=
  { boot.boots i with channel := i, draws := boot.draws : Boot cfg }.controller

def SystemBoot.system {cfg : Config} (boot : SystemBoot cfg) : JedecDRAMSystem where
  ctrls := boot.controller

/-- A channel accepts the addresses that are routed to it, and nobody else touches what it shares. -/
def Micro.Policy.routed (cfg : Config) (A : HexAddr → Prop) (i : ℕ) : Policy :=
  ⟨fun a => A a ∧ cfg.getChannel a = i, fun _ _ _ => True, fun _ => False⟩

def Micro.share (m : Micro) (cs : ChannelState) : Micro := ⟨m.ctl.share cs, m.ticket, m.issued⟩

def Micro.AtRest (m : Micro) : Prop := m.ticket = none ∧ m.issued = []

/-- A channel that nobody interferes with is one among those that others may interfere with. -/
theorem Micro.Step.widen {cfg : Config} {A : HexAddr → Prop} {i : ℕ} {m m' : Micro}
    (h : Step cfg (.routed cfg A i) m m') :
    Step cfg (.addresses fun a => A a ∧ cfg.getChannel a = i) m m' := by
  cases h with
  | others _ _ hs => exact hs.elim
  | accept ha h => exact .accept ha h
  | returnDone c clk => exact .returnDone c clk
  | refreshTick c => exact .refreshTick c
  | channelTick c => exact .channelTick c
  | startRefresh hq hrfm hin h => exact .startRefresh hq hrfm hin h
  | startRFM hq hin href h => exact .startRFM hq hin href h
  | rotate c issued => exact .rotate c issued
  | query hs h => exact .query hs h
  | hydraQuery h => exact .hydraQuery h
  | pickMaintenance hs ho hg h => exact .pickMaintenance hs ho hg h
  | pickQueued hmay hc hq => exact .pickQueued hmay hc hq
  | issue h => exact .issue h
  | drop hdual hsame => exact .drop hdual hsame
  | powerUpdate c issued => exact .powerUpdate c issued
  | schedule c issued => exact .schedule c issued
  | endTick c issued => exact .endTick c issued

/-- The controllers of a system inside a tick. -/
abbrev Channels := ℕ → Micro

def JedecDRAMSystem.channels (s : JedecDRAMSystem) : Channels := fun i => Micro.rest (s.ctrls i)

namespace Channels
variable {cfg : Config} {A : HexAddr → Prop} {s s' : Channels} {i : ℕ} {m m' : Micro}

/-- One channel has moved; the others find its cache and its random numbers. -/
def moved (s : Channels) (i : ℕ) (m : Micro) : Channels :=
  fun j => if j = i then m else (s j).share m.ctl.channelState

inductive Step (cfg : Config) (A : HexAddr → Prop) : Channels → Channels → Prop
  | move {s : Channels} {i m} (hrest : ∀ j, j ≠ i → (s j).AtRest)
      (h : Micro.Step cfg (.routed cfg A i) (s i) m) : Step cfg A s (s.moved i m)

/-- A failing step of one channel ends the process. -/
inductive Fails (cfg : Config) : Channels → Exit → Prop
  | fail {s : Channels} {i e} (h : Micro.Fails cfg (s i) e) : Fails cfg s e

/-- All channels see one cache and one stream of random numbers. -/
def Agree (s : Channels) : Prop := ∀ i j, (s j).share (s i).ctl.channelState = s j

theorem moved_self (h : s.Agree) (i : ℕ) : s.moved i (s i) = s := by
  funext j
  unfold moved
  split_ifs with hj
  · rw [hj]
  · exact h i j

theorem moved_moved (s : Channels) (i : ℕ) (m m' : Micro) : (s.moved i m).moved i m' = s.moved i m' := by
  funext j
  unfold moved
  split_ifs <;> rfl

theorem moved_apply (s : Channels) (i : ℕ) (m : Micro) : s.moved i m i = m := if_pos rfl

theorem agree_moved (s : Channels) (i : ℕ) (m : Micro) : (s.moved i m).Agree := by
  intro j k
  unfold moved
  split_ifs <;> rfl

theorem Step.agree (h : Step cfg A s s') : s'.Agree := by
  cases h
  exact agree_moved _ _ _

/-- The steps of one channel are steps of the system. -/
theorem steps_moved (hagree : s.Agree) (hrest : ∀ j, j ≠ i → (s j).AtRest)
    (h : ReflTransGen (Micro.Step cfg (.routed cfg A i)) (s i) m) :
    ReflTransGen (Step cfg A) s (s.moved i m) := by
  induction h with
  | refl => rw [moved_self hagree]
  | @tail m m' _ hstep ih =>
    refine ih.tail ?_
    rw [← moved_moved s i m m']
    refine .move (fun j hj => ?_) ?_
    · rw [moved, if_neg hj]
      exact hrest j hj
    · rwa [moved_apply]

/-- A call on one channel of a resting system. -/
theorem realizes_store {sys : JedecDRAMSystem} (hagree : sys.channels.Agree) {x : Except Exit Controller}
    (hx : Realizes (Micro.Step cfg (.routed cfg A i)) (Micro.Fails cfg) (Micro.rest (sys.ctrls i)) x
      Micro.rest) :
    Realizes (Step cfg A) (Fails cfg) sys.channels (sys.store i <$> x) JedecDRAMSystem.channels := by
  have hrest (j : ℕ) : (sys.channels j).AtRest := ⟨rfl, rfl⟩
  have hmoved (m : Micro) (h : ReflTransGen (Micro.Step cfg (.routed cfg A i))
      (Micro.rest (sys.ctrls i)) m) : ReflTransGen (Step cfg A) sys.channels (sys.channels.moved i m) :=
    steps_moved hagree (fun j _ => hrest j) h
  constructor
  · intro s hs
    obtain ⟨c, hc, rfl⟩ := map_ok_iff.mp hs
    have hview : (sys.store i c).channels = sys.channels.moved i (Micro.rest c) := by
      funext j
      unfold JedecDRAMSystem.channels JedecDRAMSystem.store moved
      dsimp only
      split_ifs <;> rfl
    rw [hview]
    exact hmoved _ (hx.1 c hc)
  · intro e he
    obtain ⟨m, hm, hfail⟩ := hx.2 e (map_error_iff.mp he)
    refine ⟨_, hmoved m hm, .fail (i := i) ?_⟩
    rwa [moved_apply]

/-- What a call on a system relies on: the channels agree, and the clocks of every one are in step. -/
def Fit (s : Channels) : Prop := s.Agree ∧ ∀ i, (s i).Synced

theorem Fit.step (hs : s.Fit) (h : Step cfg A s s') : s'.Fit := by
  refine ⟨h.agree, fun j => ?_⟩
  cases h with
  | @move i m _ h =>
    unfold moved
    split_ifs with hj
    · exact Micro.Step.synced (hs.2 i) h
    · exact hs.2 j

theorem Fit.steps (hs : s.Fit) (h : ReflTransGen (Step cfg A) s s') : s'.Fit :=
  invariant_of_steps (P := Fit) (fun _ _ hs h => hs.step h) h hs

theorem addTransaction_steps {sys : JedecDRAMSystem} (hs : sys.channels.Fit) {addr : HexAddr}
    {isWrite : Bool} (ha : A addr) : ReflTransGen (Step cfg A) sys.channels
      (sys.addTransaction cfg addr isWrite).channels := by
  unfold JedecDRAMSystem.addTransaction
  dsimp only
  split_ifs with hacc
  · have hcall : Realizes (Micro.Step cfg (.routed cfg A (cfg.getChannel addr))) (Micro.Fails cfg)
        (Micro.rest (sys.ctrls (cfg.getChannel addr)))
        (.ok ((sys.ctrls (cfg.getChannel addr)).addTransaction cfg addr isWrite)) Micro.rest :=
      .step (.accept ⟨ha, rfl⟩ hacc) (.ok .refl)
    exact (realizes_store hs.1 hcall).1 _ rfl
  · exact .refl

theorem returnLoop_steps {π : Micro.Policy} (clk n : ℕ) (c : Controller) :
    ReflTransGen (Micro.Step cfg π) (Micro.rest c)
      (Micro.rest (JedecDRAMSystem.returnLoop clk n c).2) := by
  induction n generalizing c with
  | zero => exact .refl
  | succ n ih =>
    unfold JedecDRAMSystem.returnLoop
    split
    · exact .head (.returnDone c clk) (ih _)
    · exact .refl

theorem returnDone_steps {sys : JedecDRAMSystem} (hs : sys.channels.Fit) (i : ℕ) :
    ReflTransGen (Step cfg A) sys.channels (sys.returnDone i).channels := by
  have hcall : Realizes (Micro.Step cfg (.routed cfg A i)) (Micro.Fails cfg) (Micro.rest (sys.ctrls i))
      (.ok (JedecDRAMSystem.returnLoop sys.clk (sys.ctrls i).returnQueue.length (sys.ctrls i)).2)
      Micro.rest := .ok (returnLoop_steps _ _ _)
  exact (realizes_store hs.1 hcall).1 (sys.store i _) rfl

theorem returnAll_steps {sys : JedecDRAMSystem} (hs : sys.channels.Fit) (l : List ℕ) :
    ReflTransGen (Step cfg A) sys.channels (l.foldl JedecDRAMSystem.returnDone sys).channels := by
  induction l generalizing sys with
  | nil => exact .refl
  | cons i l ih =>
    have hfirst : ReflTransGen (Step cfg A) sys.channels (sys.returnDone i).channels :=
      returnDone_steps hs i
    exact hfirst.trans (ih (hs.steps hfirst))

theorem clockTick_realizes {sys : JedecDRAMSystem} (hs : sys.channels.Fit) :
    Realizes (Step cfg A) (Fails cfg) sys.channels (sys.clockTick cfg) JedecDRAMSystem.channels := by
  have hreturn : ReflTransGen (Step cfg A) sys.channels
      ((List.range cfg.channels).foldl JedecDRAMSystem.returnDone sys).channels := returnAll_steps hs _
  have htick : Realizes (Step cfg A) (Fails cfg)
      ((List.range cfg.channels).foldl JedecDRAMSystem.returnDone sys).channels
      ((List.range cfg.channels).foldlM (JedecDRAMSystem.tickChannel cfg)
        ((List.range cfg.channels).foldl JedecDRAMSystem.returnDone sys)) JedecDRAMSystem.channels := by
    refine Realizes.foldlM (I := Fit) (fun _ _ hs h => hs.step h) (fun sys i _ hs => ?_) (hs.steps hreturn)
    refine realizes_store hs.1 (Micro.clockTick_realizes (hs.2 i) ?_)
    exact fun _ _ => trivial
  exact .steps hreturn (htick.bind fun sys' _ => .ok .refl)

/-- Every run of a system is a sequence of atomic steps, and every exit of a run is one of theirs. -/
theorem run_realizes {sys : JedecDRAMSystem} (hs : sys.channels.Fit) {calls : List JedecDRAMSystem.Call}
    (hA : ∀ a isWrite, .addTransaction a isWrite ∈ calls → A a) :
    Realizes (Step cfg A) (Fails cfg) sys.channels (sys.run cfg calls) JedecDRAMSystem.channels := by
  refine Realizes.foldlM (I := Fit) (fun _ _ hs h => hs.step h) (fun sys call hcall hs => ?_) hs
  cases call with
  | addTransaction a isWrite => exact .ok (addTransaction_steps hs (hA a isWrite hcall))
  | clockTick => exact clockTick_realizes hs

theorem fit_boot (boot : SystemBoot cfg) : boot.system.channels.Fit :=
  ⟨fun _ _ => rfl, fun _ => rfl⟩

/-- The states of the runs of a system. -/
def Reached (cfg : Config) (A : HexAddr → Prop) (s : Channels) : Prop :=
  ∃ boot : SystemBoot cfg, ReflTransGen (Step cfg A) boot.system.channels s

theorem reached_of_run {boot : SystemBoot cfg} {calls : List JedecDRAMSystem.Call} {sys : JedecDRAMSystem}
    (hA : ∀ a isWrite, .addTransaction a isWrite ∈ calls → A a)
    (h : boot.system.run cfg calls = .ok sys) : Reached cfg A sys.channels :=
  ⟨boot, (run_realizes (fit_boot boot) hA).1 sys h⟩

theorem fails_of_run {boot : SystemBoot cfg} {calls : List JedecDRAMSystem.Call} {e : Exit}
    (hA : ∀ a isWrite, .addTransaction a isWrite ∈ calls → A a)
    (h : boot.system.run cfg calls = .error e) : ∃ s, Reached cfg A s ∧ Fails cfg s e := by
  obtain ⟨s, hs, hfail⟩ := (run_realizes (fit_boot boot) hA).2 e h
  exact ⟨s, ⟨boot, hs⟩, hfail⟩

/-- Each channel of a system runs like one on its own, for which the others are the environment. -/
theorem Reached.channel (h : Reached cfg A s) (i : ℕ) :
    Micro.Reached cfg (.addresses fun a => A a ∧ cfg.getChannel a = i) (s i) := by
  obtain ⟨boot, h⟩ := h
  refine invariant_of_steps (P := fun s => ∀ i, Micro.Reached cfg
    (.addresses fun a => A a ∧ cfg.getChannel a = i) (s i)) (fun s s' hs hstep i => ?_) h
    (fun i => ⟨_, .refl⟩) i
  cases hstep with
  | @move k m hrest h =>
    unfold moved
    split_ifs with hi
    · subst hi
      obtain ⟨boot, hreach⟩ := hs i
      exact ⟨boot, hreach.tail h.widen⟩
    · obtain ⟨boot, hreach⟩ := hs i
      refine ⟨boot, hreach.tail ?_⟩
      obtain ⟨hticket, hissued⟩ := hrest i hi
      generalize s i = n at hticket hissued
      obtain ⟨c, ticket, issued⟩ := n
      obtain rfl : ticket = none := hticket
      obtain rfl : issued = [] := hissued
      exact .others c _ trivial

end Channels
end CactusDram
