import CactusDram.RowTags
import CactusDram.RccOutcomes
import CactusDram.Samplers
import CactusDram.System

/-! The Hydra metadata of several channels. Their counts share one cache, whose sets do not depend on
the channel, so that a lookup of one channel can evict a count of another. -/
namespace CactusDram
open Foundations Foundations.BitFields Relation

/-- The tag of an address names its channel. -/
theorem Config.Mapped.tag_channel {cfg : Config} (h : cfg.Mapped) (a : HexAddr) :
    (cfg.addressMapping (cfg.resetColBits a)).channel = cfg.getChannel a :=
  congrArg Nat.cast (h.field_resetColBits a (f := .ch) (by decide))

namespace LRUCache
variable {c : LRUCache} {P : ℕ → HexAddr → Prop} {setOf : HexAddr → ℕ} {x : Call}

/-- Every line is in a set in which its tag may be. -/
def Stocked (P : ℕ → HexAddr → Prop) (c : LRUCache) : Prop := ∀ set, ∀ e ∈ c.lines set, P set e.addr

theorem Stocked.put (h : c.Stocked P) {set i : ℕ} (hi : i < c.ways) {e : CacheEntry} (he : e.valid)
    (hP : P set e.addr) : (c.put set i e).Stocked P := by
  intro set' e' he'
  obtain ⟨j, hj, hslot⟩ := mem_held.mp he'
  have hlt : j < c.ways := List.mem_range.mp hj
  rw [put_slot hi he hlt] at hslot
  split_ifs at hslot with hset
  · subst hset
    by_cases hji : j = i
    · subst hji
      rw [Function.update_self, Option.some_inj] at hslot
      exact hslot ▸ hP
    · rw [Function.update_of_ne hji] at hslot
      exact h set' e' (mem_held.mpr ⟨j, List.mem_range.mpr hlt, hslot⟩)
  · exact h set' e' (mem_held.mpr ⟨j, List.mem_range.mpr hlt, hslot⟩)

theorem Stocked.call (hways : 0 < c.ways) (h : c.Stocked P)
    (hx : P (c.getIndex (setOf x.addr)) x.addr) : (c.call setOf x).2.Stocked P := by
  rcases c.call_eq setOf x with ⟨i, e, hlook, he, hcall⟩ | ⟨_, v, e, rfl, _, hcall⟩ <;> rw [hcall]
  · obtain ⟨hi, f, hslot, haddr, hf⟩ := lookup_some hlook
    obtain rfl := he.trans hf.symm
    exact h.put hi (CacheEntry.line?_eq_some.mp hslot).2 (haddr ▸ hx)
  · exact h.put (findVictim_spec hways _).1 rfl hx

/-- A tag that a call returns was in the set of the call. -/
theorem mem_lines_of_call (hways : 0 < c.ways) (hzero : (c.call setOf x).1 ≠ 0)
    (hminus : (c.call setOf x).1 ≠ noAddr) :
    ∃ e ∈ c.lines (c.getIndex (setOf x.addr)), e.addr = (c.call setOf x).1 := by
  rcases c.call_eq setOf x with ⟨i, e, _, _, hcall⟩ | ⟨_, v, e, rfl, he, hcall⟩ <;>
    rw [hcall] at hzero hminus ⊢
  · exact absurd rfl hzero
  · dsimp only at hminus ⊢
    split_ifs at hminus ⊢ with hdirty
    · rw [Bool.and_eq_true] at hdirty
      have hslot : c.slot (c.getIndex (setOf x.addr)) (c.findVictim (c.getIndex (setOf x.addr))) = some e :=
        CacheEntry.line?_eq_some.mpr ⟨he.symm, hdirty.1⟩
      exact ⟨e, mem_held.mpr ⟨_, List.mem_range.mpr (findVictim_spec hways _).1, hslot⟩, rfl⟩
    · exact absurd rfl hminus

theorem call_frame (c : LRUCache) (setOf : HexAddr → ℕ) (x : Call) :
    (c.call setOf x).2.sets = c.sets ∧ (c.call setOf x).2.ways = c.ways := by
  rcases c.call_eq setOf x with ⟨_, _, _, _, hcall⟩ | ⟨_, _, _, _, _, hcall⟩ <;> rw [hcall] <;>
    exact ⟨rfl, rfl⟩

end LRUCache

/-- The set of a row in the shared cache. -/
def Config.rccSet (cfg : Config) (a : HexAddr) : ℕ := cfg.removeColBits a % cfg.hydraRccSets

/-- A cache that only holds counts for addresses of `A`. -/
structure Stock (cfg : Config) (A : HexAddr → Prop) (rcc : LRUCache) : Prop where
  sets : rcc.sets = cfg.hydraRccSets
  ways : rcc.ways = cfg.hydraRccWays
  lines : rcc.Stocked fun set tag => ∃ a, A a ∧ cfg.resetColBits a = tag ∧ cfg.rccSet a = set

namespace Stock
variable {cfg : Config} {A : HexAddr → Prop} {rcc : LRUCache} {a : HexAddr}

theorem call (hways : 0 < cfg.hydraRccWays) (h : Stock cfg A rcc) (ha : A a) (isWrite : Bool) :
    Stock cfg A (rcc.call (fun _ => cfg.removeColBits a) ⟨isWrite, cfg.resetColBits a⟩).2 := by
  obtain ⟨hsets, hways'⟩ := rcc.call_frame (fun _ => cfg.removeColBits a) ⟨isWrite, cfg.resetColBits a⟩
  refine ⟨hsets.trans h.sets, hways'.trans h.ways, h.lines.call (h.ways ▸ hways) ⟨a, ha, rfl, ?_⟩⟩
  rw [Config.rccSet, LRUCache.getIndex, h.sets]

theorem read (hways : 0 < cfg.hydraRccWays) (h : Stock cfg A rcc) (ha : A a) :
    Stock cfg A (rcc.read (cfg.resetColBits a) (cfg.removeColBits a)).2 := h.call hways ha false

theorem write (hways : 0 < cfg.hydraRccWays) (h : Stock cfg A rcc) (ha : A a) :
    Stock cfg A (rcc.write (cfg.resetColBits a) (cfg.removeColBits a)).2 := h.call hways ha true

/-- A tag that a lookup returns belongs to an address of the set that was looked up. -/
theorem owner (hways : 0 < cfg.hydraRccWays) (h : Stock cfg A rcc) {tag : HexAddr}
    (htag : (rcc.read (cfg.resetColBits a) (cfg.removeColBits a)).1 = tag) (hzero : tag ≠ 0)
    (hminus : tag ≠ noAddr) : ∃ b, A b ∧ cfg.resetColBits b = tag ∧ cfg.rccSet b = cfg.rccSet a := by
  have hread : rcc.read (cfg.resetColBits a) (cfg.removeColBits a) =
    rcc.call (fun _ => cfg.removeColBits a) ⟨false, cfg.resetColBits a⟩ := rfl
  rw [hread] at htag
  rw [← htag] at hzero hminus
  obtain ⟨e, he, haddr⟩ := LRUCache.mem_lines_of_call (h.ways ▸ hways) hzero hminus
  obtain ⟨b, hb, hb', hset⟩ := h.lines _ e he
  refine ⟨b, hb, hb'.trans (haddr.trans htag), ?_⟩
  rw [hset, LRUCache.getIndex, h.sets, Config.rccSet]

end Stock

namespace ChannelState
variable {cfg : Config} {A : HexAddr → Prop} {cs cs' : ChannelState} {cmd : Command} {clk : ℕ}

/-- The channel is the same one, and its cache keeps what the accesses for the addresses of `A` keep. -/
def Keeps (cfg : Config) (A : HexAddr → Prop) (cs cs' : ChannelState) : Prop :=
  cs'.channel = cs.channel ∧ ∀ Q : LRUCache → Prop,
    (∀ a rcc, A a → Q rcc → Q (rcc.read (cfg.resetColBits a) (cfg.removeColBits a)).2 ∧
      Q (rcc.write (cfg.resetColBits a) (cfg.removeColBits a)).2) → Q cs.rcc → Q cs'.rcc

theorem Keeps.of_eq (hchannel : cs'.channel = cs.channel) (hrcc : cs'.rcc = cs.rcc) :
    Keeps cfg A cs cs' := ⟨hchannel, fun _ _ h => hrcc ▸ h⟩

theorem Keeps.trans {cs'' : ChannelState} (h : Keeps cfg A cs cs') (h' : Keeps cfg A cs' cs'') :
    Keeps cfg A cs cs'' := ⟨h'.1.trans h.1, fun Q hQ hq => h'.2 Q hQ (h.2 Q hQ hq)⟩

theorem keeps_hydraCheck (ha : A cmd.hexAddr) {ok : Bool} (h : cs.hydraCheck cfg cmd = (ok, cs')) :
    Keeps cfg A cs cs' := by
  obtain ⟨_, _, _, heq⟩ := hydraCheck_eq h
  refine ⟨by rw [heq], fun Q hQ hq => ?_⟩
  by_cases hmode : cfg.hydraMode = 1
  · have hrcc := hydraCheck_rcc hmode cs cmd
    rw [h] at hrcc
    rw [hrcc]
    unfold BankState.hydraCheckRcc
    split_ifs
    · exact hq
    · exact hq
    · exact (hQ _ _ ha hq).1
  · rw [hydraCheck_off hmode] at h
    cases h
    exact hq

theorem hydraPreact_rcc (b : BankState) (rcc : LRUCache) : (b.hydraPreact cfg cmd rcc).2 = rcc ∨
    (b.hydraPreact cfg cmd rcc).2 =
      (rcc.write (cfg.resetColBits cmd.hexAddr) (cfg.removeColBits cmd.hexAddr)).2 := by
  unfold BankState.hydraPreact
  dsimp only
  split_ifs <;> simp

theorem keeps_preactHooks (ha : A cmd.hexAddr) {full : Bool}
    (h : cs.preactHooks cfg cmd clk = .ok (full, cs')) : Keeps cfg A cs cs' := by
  unfold preactHooks at h
  dsimp only at h
  have hrcc : ((cs.bankStates cmd.bankId).preACT cfg cmd cs.draws cs.rcc).2.2 = cs.rcc ∨
      ((cs.bankStates cmd.bankId).preACT cfg cmd cs.draws cs.rcc).2.2 =
        (cs.rcc.write (cfg.resetColBits cmd.hexAddr) (cfg.removeColBits cmd.hexAddr)).2 :=
    hydraPreact_rcc _ _
  generalize (cs.bankStates cmd.bankId).preACT cfg cmd cs.draws cs.rcc = p at h hrcc
  obtain ⟨b, draws, rcc⟩ := p
  obtain ⟨cs₁, hdream, h₁⟩ := bind_ok_iff.mp h
  obtain ⟨_, _, _, _, rfl, _, _⟩ := dreamPreact_eq hdream
  obtain ⟨cs₂, hcactus, h₂⟩ := bind_ok_iff.mp h₁
  obtain ⟨idx, _, hcactus⟩ := bind_ok_iff.mp hcactus
  obtain ⟨_, _, _, _, habacus, _, _⟩ := cs₂.abacusPreact_eq cfg cmd.bankId (u32 cmd.row)
  have hcount (cs : ChannelState) : (cs.cactusCount cfg cmd.rank idx clk).channel = cs.channel ∧
      (cs.cactusCount cfg cmd.rank idx clk).rcc = cs.rcc := by
    unfold cactusCount cactusRaise cactusTrackMax
    dsimp only
    split_ifs <;> exact ⟨rfl, rfl⟩
  rw [habacus] at h₂
  cases h₂
  cases hcactus
  refine ⟨(hcount _).1, fun Q hQ hq => ?_⟩
  change Q (cactusCount cfg _ cmd.rank idx clk).rcc
  rw [(hcount _).2]
  rcases hrcc with hrcc | hrcc
  · exact hrcc ▸ hq
  · exact hrcc ▸ (hQ _ _ ha hq).2

theorem keeps_launchDRFM (h : cs.launchDRFM cfg cmd = .ok cs') : Keeps cfg A cs cs' := by
  obtain ⟨_, _, _, rfl, _⟩ := launchDRFM_eq h
  exact .of_eq rfl rfl

theorem needRFM_shared (cs : ChannelState) (req : Command) (target : Command → Bool) (need : Bool) :
    (cs.needRFM req target need).channel = cs.channel ∧ (cs.needRFM req target need).rcc = cs.rcc := by
  unfold needRFM
  split_ifs <;> exact ⟨rfl, rfl⟩

/-- A query for anything but a READ or WRITE leaves the cache alone. -/
theorem Answer.keeps {r? : Option Command} (h : Answer cfg cs cmd clk r? cs')
    (ha : cmd.isReadWrite → A cmd.hexAddr) : Keeps cfg A cs cs' := by
  have haddr (hb : (cs.bankStates cmd.bankId).getReadyCommand cfg cmd clk = .ok (some (activation cmd))) :
      A cmd.hexAddr := by
    obtain ⟨ty, hty, _, heq⟩ := BankState.getReadyCommand_some_iff.mp hb
    obtain rfl : ty = .activate := (congrArg Command.cmdType heq).symm
    exact ha (BankState.isReadWrite_of_requires_activate hty)
  cases h with
  | wait | divert | allReady | single => exact .of_eq rfl rfl
  | needRFMsb | needRFMab => exact .of_eq (needRFM_shared _ _ _ _).1 (needRFM_shared _ _ _ _).2
  | eager _ _ h hb => exact keeps_launchDRFM h
  | hydraWait h hb => exact keeps_hydraCheck (haddr hb) h
  | lazy _ hcheck hhook h hb =>
    exact ((keeps_hydraCheck (haddr hb) hcheck).trans (keeps_preactHooks (haddr hb) hhook)).trans
      (keeps_launchDRFM h)
  | activate _ hcheck hhook hb =>
    exact (keeps_hydraCheck (haddr hb) hcheck).trans (keeps_preactHooks (haddr hb) hhook)

end ChannelState

namespace Micro
open Controller ChannelState
variable {cfg : Config} {π : Policy} {m m' : Micro}

/-- Everything that waits came from an accepted address. -/
structure Fed (π : Policy) (m : Micro) : Prop where
  waiting : ∀ lane, ∀ t ∈ m.ctl.laneQueue lane, π.allowed t.addr
  queued : ∀ idx, ∀ cmd ∈ m.ctl.cmdQueue.queues idx, π.allowed cmd.hexAddr

theorem Fed.congr (h : Fed π m) (hlane : ∀ lane, m'.ctl.laneQueue lane = m.ctl.laneQueue lane)
    (hqueue : ∀ idx, (m'.ctl.cmdQueue.queues idx).Sublist (m.ctl.cmdQueue.queues idx)) : Fed π m' :=
  ⟨fun lane t ht => h.waiting lane t (hlane lane ▸ ht), fun idx cmd hcmd =>
    h.queued idx cmd ((hqueue idx).mem hcmd)⟩

theorem Fed.accept {c : Controller} {issued : List Command} (h : Fed π ⟨c, none, issued⟩)
    {addr : HexAddr} (ha : π.allowed addr) (isWrite : Bool) :
    Fed π ⟨c.addTransaction cfg addr isWrite, none, issued⟩ := by
  have hlane (lane : Lane) (t : Transaction) (ht : t ∈ (c.addTransaction cfg addr isWrite).laneQueue lane) :
      t ∈ c.laneQueue lane ∨ t.addr = addr := by
    unfold addTransaction complete enqueue Controller.record at ht
    dsimp only at ht
    split_ifs at ht <;> cases lane <;> simp only [laneQueue, List.mem_append, List.mem_singleton] at ht ⊢
    all_goals first
      | exact .inl ht
      | exact ht.imp_right fun heq => by rw [heq]
  obtain ⟨_, _, _, _, _, _, _, heq⟩ := c.addTransaction_eq cfg addr isWrite
  refine ⟨fun lane t ht => ?_, fun idx cmd hcmd => h.queued idx cmd ?_⟩
  · rcases hlane lane t ht with hold | hnew
    · exact h.waiting lane t hold
    · exact hnew ▸ ha
  · rwa [heq] at hcmd

theorem Fed.schedule {c : Controller} {issued : List Command} (h : Fed π ⟨c, none, issued⟩) :
    Fed π ⟨c.scheduleTransaction cfg, none, issued⟩ := by
  obtain ⟨s, heq, hs⟩ := c.scheduleTransaction_eq cfg
  have hqueue : (c.setLane (c.lane cfg) s).cmdQueue = s.cmdQueue := by
    cases c.lane cfg <;> rfl
  have hlane (lane : Lane) : (c.setLane (c.lane cfg) s).laneQueue lane =
      if lane = c.lane cfg then s.queue else c.laneQueue lane := by
    cases c.lane cfg <;> cases lane <;> rfl
  have hwaiting (hsub : ∀ t ∈ s.queue, π.allowed t.addr) (lane : Lane) :
      ∀ t ∈ (c.setLane (c.lane cfg) s).laneQueue lane, π.allowed t.addr := by
    rw [hlane]
    split_ifs
    · exact hsub
    · exact h.waiting lane
  rw [heq]
  refine ⟨hwaiting ?_, ?_⟩
  · cases hs with
    | nothing | conflict => exact h.waiting (c.lane cfg)
    | moved hq =>
      intro t ht
      refine h.waiting (c.lane cfg) t ?_
      rw [hq]
      simp only [List.mem_append, List.mem_cons] at ht ⊢
      tauto
  · dsimp only
    rw [hqueue]
    cases hs with
    | nothing | conflict => exact h.queued
    | @moved pre t post hq =>
      intro idx cmd hcmd
      rcases CommandQueue.mem_addCommand hcmd with hold | ⟨_, rfl⟩
      · exact h.queued idx cmd hold
      · exact h.waiting (c.lane cfg) t (by rw [hq]; simp)

theorem Step.fed (hm : Fed π m) (h : Step cfg π m m') : Fed π m' := by
  cases h with
  | others | refreshTick | channelTick | startRefresh | startRFM | rotate | query | hydraQuery
  | drop | endTick => exact hm.congr (fun lane => by cases lane <;> rfl) fun _ => .refl _
  | accept ha _ => exact hm.accept ha _
  | returnDone c clk =>
    obtain ⟨_, _, heq⟩ := c.returnDoneTrans_eq clk
    rw [heq]
    exact hm.congr (fun lane => by cases lane <;> rfl) fun _ => .refl _
  | pickMaintenance =>
    refine hm.congr (fun lane => by cases lane <;> rfl) fun idx => ?_
    rw [withCmdQueue, (settled_frame _ _).1]
  | pickQueued _ _ hq =>
    refine hm.congr (fun lane => by cases lane <;> rfl) fun idx => ?_
    unfold Taken at hq
    split_ifs at hq
    · exact CommandQueue.eraseRWCommand_sublist hq idx
    · subst hq
      exact .refl _
  | issue h =>
    obtain ⟨_, _, _, _, _, rfl⟩ := issueCommand_frame h
    exact hm.congr (fun lane => by cases lane <;> rfl) fun _ => .refl _
  | powerUpdate c =>
    obtain ⟨f, heq⟩ := c.powerUpdate_eq cfg
    rw [heq]
    exact hm.congr (fun lane => by cases lane <;> rfl) fun _ => .refl _
  | schedule c => exact hm.schedule

theorem Reached.fed (h : Reached cfg π m) : Fed π m := by
  refine h.induct (P := Fed π) (fun boot => ⟨fun lane t ht => ?_, fun _ _ h => (nomatch h)⟩)
    fun _ _ hm h => h.fed hm
  cases lane <;> cases ht

/-- A step of a channel that nobody interferes with. -/
theorem Step.keeps (hready : Chan.Ready cfg m.chan) (hqueue : m.ctl.cmdQueue.WellQueued cfg)
    (hfed : Fed π m) (hshared : ∀ rcc, ¬π.shared rcc) (h : Step cfg π m m') :
    Keeps cfg π.allowed m.ctl.channelState m'.ctl.channelState := by
  have hask {c : Controller} {cmd : Command} {origin : Origin} {r? : Option Command} {cs' : ChannelState}
      (hc : m.ctl = c) (hs : c.Source cfg cmd origin)
      (h : c.channelState.getReadyCommand cfg cmd c.clk = .ok (r?, cs')) :
      Keeps cfg π.allowed c.channelState cs' := by
    subst hc
    refine (getReadyCommand_answer h).keeps fun hrw => ?_
    have ho : origin = .demand := (hs.asks hqueue).origin_of_isReadWrite hready.regular hrw
    subst ho
    cases hs with
    | demand hq => exact hfed.queued _ cmd (by rw [hq]; simp)
  have hhydra {cs cs' : ChannelState} {clk : ℕ} {r? : Option Command}
      (h : cs.getReadyHydraCommand cfg clk = .ok (r?, cs')) : Keeps cfg π.allowed cs cs' := by
    obtain ⟨⟨_, _, _, rfl⟩, _⟩ := getReadyHydraCommand_eq h
    exact .of_eq rfl rfl
  cases h with
  | others _ _ hs => exact absurd hs (hshared _)
  | @accept c addr isWrite =>
    obtain ⟨_, _, _, _, _, _, _, heq⟩ := c.addTransaction_eq cfg addr isWrite
    rw [heq]
    exact .of_eq rfl rfl
  | returnDone c clk =>
    obtain ⟨_, _, heq⟩ := c.returnDoneTrans_eq clk
    rw [heq]
    exact .of_eq rfl rfl
  | refreshTick c =>
    dsimp only [Controller.refreshTick]
    rcases c.refresh.clockTick_eq cfg c.channelState with h | ⟨req, _, h⟩ <;> rw [h] <;>
      exact .of_eq rfl rfl
  | channelTick c =>
    exact .of_eq
      (clockTick_keeps (·.channel) (fun _ _ => (needRFM_shared _ _ _ _).1) (fun _ _ => rfl) (fun _ => rfl)
        fun _ _ _ => rfl)
      (clockTick_keeps (·.rcc) (fun _ _ => (needRFM_shared _ _ _ _).2) (fun _ _ => rfl) (fun _ => rfl)
        fun _ _ _ => rfl)
  | startRefresh | startRFM | rotate | drop | endTick => exact .of_eq rfl rfl
  | query hs h => exact hask rfl hs h
  | hydraQuery h => exact hhydra h
  | pickMaintenance hs _ _ h => exact hask rfl hs h
  | pickQueued _ hc _ =>
    cases hc with
    | hydra h => exact hhydra h
    | demand hq hb h => exact hask rfl (.demand hq hb) h
  | issue h =>
    obtain ⟨_, _, _, _, hissue, rfl⟩ := issueCommand_frame h
    have hshared := (updateTimingAndStates_issued hissue).shared
    exact .of_eq hshared.1 hshared.2
  | powerUpdate c =>
    obtain ⟨f, heq⟩ := c.powerUpdate_eq cfg
    rw [heq]
    exact .of_eq rfl rfl
  | schedule c =>
    obtain ⟨_, _, _, _, _, _, heq⟩ := c.scheduleTransaction_frame cfg
    rw [heq]
    exact .of_eq rfl rfl

end Micro

namespace Channels
open ChannelState
variable {cfg : Config} {A : HexAddr → Prop} {s s' : Channels}

/-- Every channel knows its number, and the shared cache only holds counts for addresses of `A`. -/
def Stocked (cfg : Config) (A : HexAddr → Prop) (s : Channels) : Prop :=
  ∀ i, (s i).ctl.channelState.channel = i ∧ Stock cfg A (s i).ctl.channelState.rcc

theorem stock_updateSize : Stock cfg A (LRUCache.updateSize cfg.hydraRccSets cfg.hydraRccWays) := by
  refine ⟨rfl, rfl, fun set e he => ?_⟩
  obtain ⟨_, _, hslot⟩ := mem_held.mp he
  cases hslot

theorem Step.stocked (hways : 0 < cfg.hydraRccWays) (hreach : Reached cfg A s) (hs : Stocked cfg A s)
    (h : Step cfg A s s') : Stocked cfg A s' := by
  cases h with
  | @move i m _ h =>
    have hown := hreach.channel i
    have hfed : Micro.Fed (.routed cfg A i) (s i) := ⟨hown.fed.waiting, hown.fed.queued⟩
    obtain ⟨hchannel, hrcc⟩ := h.keeps hown.ready hown.wellQueued hfed fun _ => id
    have hstock : Stock cfg A m.ctl.channelState.rcc := by
      refine hrcc (Stock cfg A) (fun a rcc ha hrcc => ?_) (hs i).2
      exact ⟨hrcc.read hways ha.1, hrcc.write hways ha.1⟩
    intro j
    unfold moved
    split_ifs with hj
    · subst hj
      exact ⟨hchannel.trans (hs j).1, hstock⟩
    · exact ⟨(hs j).1, hstock⟩

theorem Reached.stocked (hways : 0 < cfg.hydraRccWays) (h : Reached cfg A s) : Stocked cfg A s := by
  obtain ⟨boot, h⟩ := h
  induction h with
  | refl => exact fun i => ⟨rfl, stock_updateSize⟩
  | tail hprev hstep ih => exact hstep.stocked hways ⟨boot, hprev⟩ ih

/-- Whenever a lookup for a queued command returns the tag of a dirty line, the tag is one of the own
channel, and the metadata accesses for it go to the row of the tag. -/
def MetadataOwned (cfg : Config) (s : Channels) : Prop :=
  cfg.hydraMode = 1 → ∀ i idx, ∀ cmd ∈ (s i).ctl.cmdQueue.queues idx, ∀ tag,
    (((s i).ctl.channelState.bankStates cmd.bankId).hydraCheckRcc cfg cmd
      (s i).ctl.channelState.rcc).1 = tag → tag ≠ 0 → tag ≠ noAddr →
    (cfg.addressMapping tag).channel = (s i).ctl.channelState.channel ∧
      ∀ ty, ((s i).ctl.channelState.metadata ty (cfg.addressMapping tag).bankId
        (cfg.addressMapping tag).row).addr = { cfg.addressMapping tag with column := -1 }

theorem Reached.metadataOwned (hmap : cfg.Mapped) (hways : 0 < cfg.hydraRccWays)
    (hsep : cfg.hydraMode = 1 → ∀ a b, A a → A b → cfg.rccSet a = cfg.rccSet b →
      cfg.getChannel a = cfg.getChannel b) (h : Reached cfg A s) : MetadataOwned cfg s := by
  intro hmode i idx cmd hcmd tag htag hzero hminus
  obtain ⟨hchannel, hstock⟩ := h.stocked hways i
  have hcmd : A cmd.hexAddr ∧ cfg.getChannel cmd.hexAddr = i := (h.channel i).fed.queued idx cmd hcmd
  have howned : (cfg.addressMapping tag).channel = (s i).ctl.channelState.channel := by
    unfold BankState.hydraCheckRcc at htag
    split_ifs at htag
    · exact absurd htag.symm hzero
    · exact absurd htag.symm hzero
    · obtain ⟨b, hb, rfl, hset⟩ := hstock.owner hways htag hzero hminus
      rw [hmap.tag_channel, hchannel, hsep hmode b cmd.hexAddr hb hcmd.1 hset, hcmd.2]
  refine ⟨howned, fun ty => ?_⟩
  rw [metadata, ← howned]
  rfl

end Channels

/-- The addresses of the transactions of a run. -/
def JedecDRAMSystem.requested (calls : List Call) : List HexAddr :=
  calls.filterMap fun
    | .addTransaction hexAddr _ => some hexAddr
    | .clockTick => none

/-- In every run in which no two transactions of different channels have their counts in one set of
the shared cache, Hydra only moves metadata of the own channel. The states of a run are those between
its atomic steps. -/
theorem hydra_metadata_stays (cfg : Config) (hmap : cfg.Mapped) (hways : 0 < cfg.hydraRccWays)
    (boot : SystemBoot cfg) (calls : List JedecDRAMSystem.Call)
    (hsep : cfg.hydraMode = 1 → ∀ a ∈ JedecDRAMSystem.requested calls,
      ∀ b ∈ JedecDRAMSystem.requested calls, cfg.rccSet a = cfg.rccSet b →
        cfg.getChannel a = cfg.getChannel b) :
    Realizes (Channels.Step cfg (· ∈ JedecDRAMSystem.requested calls)) (Channels.Fails cfg)
        boot.system.channels (boot.system.run cfg calls) JedecDRAMSystem.channels ∧
      ∀ s, ReflTransGen (Channels.Step cfg (· ∈ JedecDRAMSystem.requested calls)) boot.system.channels s →
        s.MetadataOwned cfg := by
  refine ⟨Channels.run_realizes (Channels.fit_boot boot) fun a isWrite hcall => ?_, fun s hs => ?_⟩
  · exact List.mem_filterMap.mpr ⟨_, hcall, rfl⟩
  · exact Channels.Reached.metadataOwned hmap hways (fun hmode a b ha hb => hsep hmode a ha b hb)
      ⟨boot, hs⟩

namespace JedecDRAMSystem

/-- A read, followed by some ticks. -/
def read (hexAddr : HexAddr) (ticks : ℕ) : List Call :=
  .addTransaction hexAddr false :: List.replicate ticks .clockTick

/-- Both channels count rows, and each looks up its own set. -/
def apartCalls : List Call := read 2 5 ++ read 2 6 ++ read 2 5 ++ read 12 5 ++ read 6 1

/-- Channel 0 leaves a dirty count of its row 1, and channel 1 reads its own row 2 twice. -/
def crossingCalls : List Call := read 2 5 ++ read 2 6 ++ read 2 5 ++ read 12 5 ++ read 12 1

end JedecDRAMSystem

/-- Two channels, selected by the bit above the row, and a cache of a single line. -/
def twoChannels : Config := { rccConfig with channels := 2, chPos := 3 }

/-- A cache of two sets, selected by the lowest bit of row and bank. -/
def twoSets : Config := { twoChannels with hydraRccSets := 2 }

theorem twoSets_mapped : twoSets.Mapped := by
  let g : Geometry := ⟨2, 1, 1, 2, 4, 8, 8, 0, 8⟩
  obtain ⟨m, hm, hp⟩ := exists_ok_of_any (x := g.setAddressMapping "chrobarabgco".toList)
    (p := fun m => m.mopEnabled = false ∧ ∀ f ∈ MapField.six,
      twoSets.addressMap.pos f = m.pos f ∧ twoSets.addressMap.mask f = m.mask f) (by decide +kernel)
  exact ⟨g, _, m, hm, of_decide_eq_true hp⟩

theorem apartCalls_apart : ∀ a ∈ JedecDRAMSystem.requested JedecDRAMSystem.apartCalls,
    ∀ b ∈ JedecDRAMSystem.requested JedecDRAMSystem.apartCalls, twoSets.rccSet a = twoSets.rccSet b →
      twoSets.getChannel a = twoSets.getChannel b := by
  have hreq : JedecDRAMSystem.requested JedecDRAMSystem.apartCalls = [2, 2, 2, 12, 6] := by decide +kernel
  have hsets : twoSets.hydraRccSets = 2 := rfl
  have hrows : twoSets.removeColBits 2#64 = 1 ∧ twoSets.removeColBits 6#64 = 3 ∧
    twoSets.removeColBits 12#64 = 2 := by decide +kernel
  have hchannels : twoSets.getChannel 2#64 = 0 ∧ twoSets.getChannel 6#64 = 0 := by decide +kernel
  rw [hreq]
  simp [Config.rccSet, hsets, hrows, hchannels]

theorem hydra_metadata_stays_small : ∃ sys,
    ({} : SystemBoot twoSets).system.run twoSets JedecDRAMSystem.apartCalls = .ok sys ∧
      (((sys.ctrls 0).channelState.bankStates ⟨0, 0, 0⟩).hydraCheckRcc twoSets
        ⟨.readPrecharge, twoSets.addressMapping 6, 6⟩ (sys.ctrls 0).channelState.rcc).1 = 2 ∧
      (twoSets.addressMapping 2).channel = (sys.ctrls 0).channelState.channel := by
  have hmain := hydra_metadata_stays twoSets twoSets_mapped (by decide) {} JedecDRAMSystem.apartCalls
    fun _ => apartCalls_apart
  obtain ⟨sys, hrun, hc⟩ := exists_ok_of_any
    (x := ({} : SystemBoot twoSets).system.run twoSets JedecDRAMSystem.apartCalls)
    (p := fun sys => (sys.ctrls 0).cmdQueue.queues 0 = [⟨.readPrecharge, twoSets.addressMapping 6, 6⟩] ∧
      (((sys.ctrls 0).channelState.bankStates ⟨0, 0, 0⟩).hydraCheckRcc twoSets
        ⟨.readPrecharge, twoSets.addressMapping 6, 6⟩ (sys.ctrls 0).channelState.rcc).1 = 2)
    (by decide +kernel)
  obtain ⟨hqueue, hlook⟩ := of_decide_eq_true hc
  have hmem : ⟨.readPrecharge, twoSets.addressMapping 6, 6⟩ ∈ (sys.ctrls 0).cmdQueue.queues 0 := by
    rw [hqueue]
    exact List.mem_singleton_self _
  refine ⟨sys, hrun, hlook, ?_⟩
  exact (hmain.2 _ (hmain.1.1 sys hrun) rfl 0 0 _ hmem 2 hlook (by decide) (by decide)).1

/-- Channel 1 evicts the count of channel 0 and writes it back to its own row 1. -/
theorem hydra_metadata_crosses : ∃ sys sys',
    ({} : SystemBoot twoChannels).system.run twoChannels JedecDRAMSystem.crossingCalls = .ok sys ∧
      sys.clockTick twoChannels = .ok sys' ∧
      (((sys.ctrls 1).channelState.bankStates ⟨0, 0, 0⟩).hydraCheckRcc twoChannels
        ⟨.readPrecharge, twoChannels.addressMapping 12, 12⟩ (sys.ctrls 1).channelState.rcc).1 = 2 ∧
      (twoChannels.addressMapping 2).channel = 0 ∧ (sys.ctrls 1).channelState.channel = 1 ∧
      (sys'.ctrls 1).channelState.hydraWbQ = [⟨.write, ⟨1, 0, 0, 0, 1, -1⟩, noAddr⟩] ∧
      ¬sys.channels.MetadataOwned twoChannels := by
  obtain ⟨sys, hrun, hc⟩ := exists_ok_of_any
    (x := ({} : SystemBoot twoChannels).system.run twoChannels JedecDRAMSystem.crossingCalls)
    (p := fun sys => (sys.ctrls 1).cmdQueue.queues 0 = [⟨.readPrecharge, twoChannels.addressMapping 12, 12⟩] ∧
      (((sys.ctrls 1).channelState.bankStates ⟨0, 0, 0⟩).hydraCheckRcc twoChannels
        ⟨.readPrecharge, twoChannels.addressMapping 12, 12⟩ (sys.ctrls 1).channelState.rcc).1 = 2 ∧
      (sys.ctrls 1).channelState.channel = 1 ∧ (sys.clockTick twoChannels).toOption.any fun sys' =>
        (sys'.ctrls 1).channelState.hydraWbQ = [⟨.write, ⟨1, 0, 0, 0, 1, -1⟩, noAddr⟩])
    (by decide +kernel)
  obtain ⟨hqueue, hlook, hchannel, htick⟩ := of_decide_eq_true hc
  obtain ⟨sys', hsys', hwb⟩ := exists_ok_of_any htick
  have hmem : ⟨.readPrecharge, twoChannels.addressMapping 12, 12⟩ ∈ (sys.ctrls 1).cmdQueue.queues 0 := by
    rw [hqueue]
    exact List.mem_singleton_self _
  refine ⟨sys, sys', hrun, hsys', hlook, by decide, hchannel, of_decide_eq_true hwb, fun h => ?_⟩
  have howned := (h rfl 1 0 _ hmem 2 hlook (by decide) (by decide)).1
  have hone : (twoChannels.addressMapping 2).channel = 1 := howned.trans hchannel
  exact absurd hone (by decide)

end CactusDram
