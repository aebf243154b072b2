import CactusDram.Memsim.Requests
import CactusDram.Memsim.Points

/-! The reorder buffers neither overflow nor wrap, retire in order, and still hold every instruction
that memory answers. -/
namespace CactusDram.Memsim
open Foundations

namespace Point
variable {gz : Zlib} {mem : MainMemory} {p : Params} {pt pt' : Point gz mem}

/-- Whenever a core begins a cycle, what it waits for has not waited for `DEFAULT_MEM_DELAY` cycles. -/
def Patient (pt : Point gz mem) : Prop :=
  match pt.phase, pt.turns with
  | .rest, .core i :: _ =>
    ∀ r ∈ pt.sys.requests i, (pt.sys.mcore i).cycle + 1 < r.since + defaultMemDelay
  | _, _ => True

/-- Emptiness is tested once for the retirements of a cycle. They cannot take out more than is
there, unless a sleeping request, which is not ready, comes before. -/
def Balanced (p : Params) (pt : Point gz mem) : Prop :=
  match pt.phase with
  | .rest | .calling _ => ∀ j, (pt.sys.mcore j).flight.Rested p
  | .retiring i n => (∀ j ≠ i, (pt.sys.mcore j).flight.Rested p) ∧
      (n ≤ (pt.sys.mcore i).rob.size ∨ (pt.sys.mcore i).sleep = true)
  | .issuing i n => (∀ j ≠ i, (pt.sys.mcore j).flight.Rested p) ∧
      (pt.sys.mcore i).sleep = false ∧ p.coreWidth ≤ (pt.sys.mcore i).rob.size + n

structure Safe (p : Params) (pt : Point gz mem) : Prop where
  sound : pt.sys.Sound p
  balanced : pt.Balanced p

theorem safe_start (b : Setup gz mem) (hrob : 0 < b.params.robSize) (turns : List Turn) :
    (⟨b.sys, .rest, turns⟩ : Point gz mem).Safe b.params := by
  have hflight (j : ℕ) : (b.sys.mcore j).flight = ⟨{}, 0, false, 0, 0, 0, 0⟩ :=
    MCore.flight_readTrace b.params _
  refine ⟨⟨fun j => ?_, List.nodup_nil⟩, fun j => ?_⟩
  · rw [hflight]
    exact ⟨ROB.sound_empty hrob, fun hsleep => nomatch hsleep⟩
  · rw [hflight]
    exact .inl rfl

theorem Balanced.all {s : Sys gz mem} {i : ℕ} (hothers : ∀ j ≠ i, (s.mcore j).flight.Rested p)
    (hi : (s.mcore i).flight.Rested p) (j : ℕ) : (s.mcore j).flight.Rested p := by
  by_cases hj : j = i
  · rw [hj]
    exact hi
  · exact hothers j hj

variable {s : Sys gz mem} {i n : ℕ} {turns : List Turn}

theorem Safe.begin (h : (⟨s, .rest, turns⟩ : Point gz mem).Safe p)
    (hpatient : (⟨s, .rest, turns⟩ : Point gz mem).Patient) (hb : begin p s turns = some pt) :
    pt.Safe p := by
  cases turns with
  | nil => cases hb
  | cons turn turns =>
    have hrested : ∀ j, (s.mcore j).flight.Rested p := h.balanced
    cases turn with
    | core i =>
      cases hb
      refine ⟨h.sound.startCycle hpatient, fun j hj => ?_, ?_⟩
      · rw [Sys.startCycle, Sys.mcore_setCore_of_ne s hj]
        exact hrested j
      · simp only [Sys.startCycle, Sys.mcore_setCore, MCore.retireTurns]
        obtain hempty | hfull | hsleep := hrested i
        · left
          split_ifs with hsize
          · exact Nat.zero_le _
          · exact absurd hempty hsize
        · left
          split_ifs
          · exact Nat.zero_le _
          · exact hfull
        · exact .inr hsleep
    | memory =>
      cases hb
      exact ⟨⟨h.sound.cores, h.sound.lines⟩, hrested⟩

theorem Safe.size_pos (h : (⟨s, .retiring i (n + 1), turns⟩ : Point gz mem).Safe p) :
    0 < (s.mcore i).rob.size := by
  obtain ⟨_, hcount | hsleep⟩ := h.balanced
  · exact Nat.zero_lt_of_lt hcount
  · exact (h.sound.cores i).size_pos hsleep

theorem Safe.retire (hmax : p.robSize ≤ maxRobEntries)
    (h : (⟨s, .retiring i (n + 1), turns⟩ : Point gz mem).Safe p)
    (hr : retire p s i n turns = .ok pt) : pt.Safe p := by
  have hsize := h.size_pos
  obtain ⟨hothers, hcount⟩ := h.balanced
  obtain ⟨hready, _, rfl⟩ | ⟨_, rfl⟩ := retire_cases hr
  · have hi := (h.sound.cores i).rob
    have hflight := Sys.popHead_flight hmax hi.ptr_lt hi.size_le hsize
    refine ⟨h.sound.retire hmax hsize hready, fun j hj => ?_, ?_⟩
    · dsimp only
      rw [Sys.mcore_setCore_of_ne s hj]
      exact hothers j hj
    · dsimp only
      rw [Sys.mcore_setCore]
      refine hcount.imp (fun hle => ?_) fun hsleep => (congrArg Flight.sleep hflight).trans hsleep
      have hpopped : ((s.mcore i).popHead p).rob.size = (s.mcore i).rob.size - 1 :=
        congrArg (fun f : Flight => f.rob.size) hflight
      dsimp only at hle
      omega
  · exact ⟨h.sound, hothers, .inl (Nat.zero_le _)⟩

theorem Safe.wake (h : (⟨s, .retiring i 0, turns⟩ : Point gz mem).Safe p)
    (hw : wake p s i turns = .ok pt) : pt.Safe p := by
  obtain ⟨hothers, _⟩ := h.balanced
  obtain ⟨hawake, rfl⟩ | ⟨hsleep, accepted, s', hretry, rfl⟩ := wake_cases hw
  · exact ⟨h.sound, hothers, hawake, Nat.le_add_left _ _⟩
  · obtain ⟨hs', hsame, hsleep'⟩ := h.sound.retry hsleep hretry
    have hothers' : ∀ j ≠ i, (s'.mcore j).flight.Rested p := by
      intro j hj
      rw [hsame j hj]
      exact hothers j hj
    cases accepted with
    | true => exact ⟨hs', hothers', hsleep', Nat.le_add_left _ _⟩
    | false => exact ⟨hs', Balanced.all hothers' (.inr (.inr hsleep'))⟩

theorem Safe.issue (hwidth : p.coreWidth ≤ p.robSize) (hmax : p.robSize ≤ maxRobEntries)
    (hl3 : p.l3Latency < defaultMemDelay) (h : (⟨s, .issuing i (n + 1), turns⟩ : Point gz mem).Safe p)
    (hi : issue p s i n turns = .ok pt) : pt.Safe p := by
  obtain ⟨hothers, hawake, hcount⟩ := h.balanced
  obtain ⟨hfull, rfl⟩ | ⟨_, goesOn, s', hissue, rfl⟩ := issue_cases hi
  · refine ⟨h.sound, Balanced.all hothers (.inr (.inl ?_))⟩
    exact hwidth.trans hfull.ge
  · obtain ⟨hs', hsame, hstate⟩ := h.sound.issue hmax hl3 hawake hissue
    have hothers' : ∀ j ≠ i, (s'.mcore j).flight.Rested p := by
      intro j hj
      rw [hsame j hj]
      exact hothers j hj
    cases goesOn with
    | true =>
      refine ⟨hs', hothers', hstate.1, ?_⟩
      have hsize : (s'.mcore i).rob.size = (s.mcore i).rob.size + 1 := hstate.2
      have hroom : p.coreWidth ≤ (s.mcore i).rob.size + (n + 1) := hcount
      dsimp only
      omega
    | false => exact ⟨hs', Balanced.all hothers' (.inr (.inr hstate))⟩

theorem Safe.callback {addr : HexAddr} {addrs : List HexAddr} {s' : Sys gz mem}
    (h : (⟨s, .calling (addr :: addrs), turns⟩ : Point gz mem).Safe p)
    (hc : s.memsysCallback addr = .ok s') : (⟨s', .calling addrs, turns⟩ : Point gz mem).Safe p := by
  obtain ⟨hs', hsame⟩ := h.sound.callback hc
  refine ⟨hs', fun j => ?_⟩
  have hrested : (s.mcore j).flight.Rested p := h.balanced j
  unfold Flight.Rested at hrested ⊢
  dsimp only [MCore.flight] at hrested ⊢
  rw [(hsame j).1, (hsame j).2]
  exact hrested

/-- Every step of a patient run leads to a safe point. -/
theorem Safe.next (hwidth : p.coreWidth ≤ p.robSize) (hmax : p.robSize ≤ maxRobEntries)
    (hl3 : p.l3Latency < defaultMemDelay) (h : pt.Safe p) (hpatient : pt.Patient)
    (hn : pt.next p = .ok (some pt')) : pt'.Safe p := by
  obtain ⟨s, phase, turns⟩ := pt
  cases phase with
  | rest =>
    cases hn' : Point.begin p s turns with
    | none =>
      rw [Point.next, hn'] at hn
      cases hn
    | some pt₁ =>
      rw [Point.next, hn'] at hn
      cases hn
      exact h.begin hpatient hn'
  | retiring i n =>
    cases n with
    | zero =>
      obtain ⟨pt₁, hw, hsome⟩ := map_ok_iff.mp hn
      cases hsome
      exact h.wake hw
    | succ n =>
      obtain ⟨pt₁, hr, hsome⟩ := map_ok_iff.mp hn
      cases hsome
      exact h.retire hmax hr
  | issuing i n =>
    cases n with
    | zero =>
      cases hn
      obtain ⟨hothers, _, hcount⟩ := h.balanced
      exact ⟨h.sound, Balanced.all hothers (.inr (.inl hcount))⟩
    | succ n =>
      obtain ⟨pt₁, hi, hsome⟩ := map_ok_iff.mp hn
      cases hsome
      exact h.issue hwidth hmax hl3 hi
  | calling addrs =>
    cases addrs with
    | nil =>
      obtain ⟨s₁, ht, hsome⟩ := map_ok_iff.mp hn
      cases hsome
      obtain ⟨m, rfl⟩ := Sys.tickMemory_ok ht
      exact ⟨⟨h.sound.cores, h.sound.lines⟩, h.balanced⟩
    | cons addr addrs =>
      obtain ⟨s₁, hc, hsome⟩ := map_ok_iff.mp hn
      cases hsome
      exact h.callback hc

/-- What ends the simulation at a safe point is not the reorder buffer. -/
theorem Safe.next_error {e : Abort} (h : pt.Safe p) (hn : pt.next p = .error e) :
    e ≠ .lostPacket ∧ e ≠ .zombieWakeup ∧ e ≠ .robFull := by
  obtain ⟨i, n, hphase, hr⟩ | ⟨i, _, hr⟩ | ⟨i, ⟨_, hfull⟩, hi⟩ | ⟨addr, hc⟩ | ⟨x, rfl⟩ :=
    Point.next_error hn
  · obtain ⟨s, phase, turns⟩ := pt
    cases hphase
    exact absurd hr (h.sound.retireHead_ne_error h.size_pos e)
  · obtain ⟨rfl, _⟩ := Sys.retry_error hr
    decide
  · obtain hi | ⟨lineaddr, s₁, hnext, hi | ⟨a, s₂, haccess, hi⟩⟩ := Sys.issue_error hi
    · obtain hi | ⟨_, _, hi⟩ := bind_error_iff.mp hi
      · obtain rfl | rfl | rfl := OS.v2pLineaddr_error hi <;> decide
      · cases hi
    · rw [Sys.access_error hi]
      decide
    · obtain ⟨_, hover⟩ | ⟨rfl, _⟩ := Sys.dispatch_error hi
      · have hrob : (s₂.mcore i).rob = (pt.sys.mcore i).rob := congrArg Flight.rob
          (((Sys.access_flight haccess).1 i).trans ((Sys.nextInst_flight hnext).1 i))
        rw [hrob] at hover
        exact absurd (le_antisymm (h.sound.cores i).rob.size_le hover) hfull
      · decide
  · obtain rfl | ⟨_, m, hm, hinst⟩ := Sys.memsysCallback_error hc
    · decide
    · exact absurd (h.sound.holds hm).instNum hinst
  · exact ⟨by simp, by simp, by simp⟩

theorem Visits.safe {b : Setup gz mem} (hwidth : b.params.coreWidth ≤ b.params.robSize)
    (hmax : b.params.robSize ≤ maxRobEntries) (hl3 : b.params.l3Latency < defaultMemDelay)
    {turns : List Turn}
    (hpatient : ∀ pt, Visits (Point.next b.params) ⟨b.sys, .rest, turns⟩ pt → pt.Patient)
    (h : Visits (Point.next b.params) ⟨b.sys, .rest, turns⟩ pt) : pt.Safe b.params :=
  h.induct (fun _ _ hsafe hpat hn => hsafe.next hwidth hmax hl3 hpat hn) hpatient
    (safe_start b (b.params.coreWidth_pos.trans_le hwidth) turns)

end Point

/-- As long as the latency of the cache is below `DEFAULT_MEM_DELAY` and no request waits that long,
at every point of every cycle the reorder buffer of each core is within its bounds and has retired
its entries in the order of insertion, and each request in flight finds its instruction in its slot.
No run ends in a lost packet or in the wakeup of an instruction that has left. -/
theorem rob_safe {gz : Zlib} {mem : MainMemory} (b : Setup gz mem) (hwidth : b.params.coreWidth ≤ b.params.robSize)
    (hmax : b.params.robSize ≤ maxRobEntries) (hl3 : b.params.l3Latency < defaultMemDelay)
    (turns : List Turn)
    (hpatient : ∀ pt, Visits (Point.next b.params) ⟨b.sys, .rest, turns⟩ pt → pt.Patient) :
    (∀ pt, Visits (Point.next b.params) ⟨b.sys, .rest, turns⟩ pt →
      (∀ j, (pt.sys.mcore j).rob.size ≤ b.params.robSize ∧
        (pt.sys.mcore j).rob.ptr < b.params.robSize ∧
        (pt.sys.mcore j).rob.retired <+: (pt.sys.mcore j).rob.inserted) ∧
      ∀ e ∈ pt.sys.mshr, e.robid ∈ (pt.sys.mcore e.coreid).rob.live b.params.robSize ∧
        ((pt.sys.mcore e.coreid).rob.entries e.robid).instNum = e.instNum) ∧
    b.sys.run b.params turns ≠ .error .lostPacket ∧
    b.sys.run b.params turns ≠ .error .zombieWakeup := by
  have hexit : ∀ e, b.sys.run b.params turns = .error e → e ≠ .lostPacket ∧ e ≠ .zombieWakeup := by
    intro e he
    obtain ⟨pt, hvisit, hfail⟩ := (Point.run_realizes turns b.sys).2 e he
    obtain ⟨hlost, hzombie, _⟩ := (Point.Visits.safe hwidth hmax hl3 hpatient hvisit).next_error hfail
    exact ⟨hlost, hzombie⟩
  refine ⟨fun pt hvisit => ?_, fun he => (hexit _ he).1 rfl, fun he => (hexit _ he).2 rfl⟩
  have hsafe := Point.Visits.safe hwidth hmax hl3 hpatient hvisit
  refine ⟨fun j => ?_, fun e he => ?_⟩
  · have hrob := (hsafe.sound.cores j).rob
    refine ⟨hrob.size_le, hrob.ptr_lt, ?_⟩
    exact ⟨_, hrob.order.symm⟩
  · have hholds := hsafe.sound.holds he
    exact ⟨hholds.live, hholds.instNum⟩

instance {gz : Zlib} {mem : MainMemory} (pt : Point gz mem) : Decidable pt.Patient := by
  unfold Point.Patient
  split <;> infer_instance

/-- A memory that takes every transaction and hands back the reads in its next tick. -/
def promptMemory : MainMemory where
  State := List HexAddr
  willAcceptTransaction _ _ _ := true
  addTransaction pending addr isWrite := if isWrite then pending else pending ++ [addr]
  returnDoneTrans pending := (pending, [])
  clockTick := .ok

/-- One core that reads one line again and again. -/
def oneLine (params : Params) : Setup (plainFiles fun _ => List.replicate 10 0) promptMemory where
  params := params
  numPages := 4
  sets := 16
  assocs := 1
  traces _ := "trace"
  mainmem := []
  rand _ := 1

theorem rob_safe_one_line :
    (∀ pt, Visits (Point.next { robSize := 4 })
        ⟨(oneLine { robSize := 4 }).sys, .rest, [.core 0, .memory, .core 0]⟩ pt →
      (pt.sys.mcore 0).rob.size ≤ 4 ∧ (pt.sys.mcore 0).rob.ptr < 4) ∧
    (oneLine { robSize := 4 }).sys.run { robSize := 4 } [.core 0, .memory, .core 0] ≠
      .error .lostPacket := by
  obtain ⟨hpoints, hlost, _⟩ := rob_safe (oneLine { robSize := 4 }) (by decide) (by decide) (by decide)
    [.core 0, .memory, .core 0] fun _ hvisit => hvisit.of_passes (n := 40) (fun pt => pt.Patient)
      (fun _ => false) (fun _ h => of_decide_eq_true h) (fun _ _ h => nomatch h) (by decide +kernel)
  refine ⟨fun pt hvisit => ?_, hlost⟩
  obtain ⟨hsize, hptr, _⟩ := (hpoints pt hvisit).1 0
  exact ⟨hsize, hptr⟩

/-- A full buffer that waits for a hit of the slow cache, with nothing in flight. -/
structure Stalled {gz : Zlib} (p : Params) (s : Sys gz promptMemory) : Prop where
  mshr : s.mshr = []
  mainmem : s.mainmem = []
  awake : (s.mcore 0).sleep = false
  full : (s.mcore 0).rob.size = p.robSize
  slow : defaultMemDelay ≤ u64 ((s.mcore 0).head.readyTime - (s.mcore 0).head.birthTime)

namespace Stalled
variable {gz : Zlib} {p : Params} {s : Sys gz promptMemory}

theorem startCycle (h : Stalled p s) : Stalled p (s.startCycle 0) := by
  have hcore : (s.startCycle 0).mcore 0 = { s.mcore 0 with cycle := (s.mcore 0).cycle + 1 } :=
    Sys.mcore_setCore s 0 _
  refine ⟨h.mshr, h.mainmem, ?_, ?_, ?_⟩ <;> rw [hcore]
  · exact h.awake
  · exact h.full
  · exact h.slow

/-- A ready head would be a lost packet, so the buffer does not move. -/
theorem retireHead (h : Stalled p s) : (s.mcore 0).retireHead p =
    if (s.mcore 0).head.readyTime ≤ (s.mcore 0).cycle then .error .lostPacket else .ok none := by
  unfold MCore.retireHead
  congr 1
  rw [if_pos ⟨h.slow, by simp [h.awake]⟩]

theorem begin_turn (h : Stalled p s) (hrob : 0 < p.robSize) :
    s.mcoreCycle p 0 = if (s.mcore 0).head.readyTime ≤ (s.mcore 0).cycle + 1 then .error .lostPacket
      else .ok (s.startCycle 0) := by
  have hstart := h.startCycle
  have hcore : (s.startCycle 0).mcore 0 = { s.mcore 0 with cycle := (s.mcore 0).cycle + 1 } :=
    Sys.mcore_setCore s 0 _
  have hfull := hstart.full
  have hhead := hstart.retireHead
  obtain ⟨width, hwidth⟩ := Nat.exists_eq_add_of_lt p.coreWidth_pos
  have hturns : ((s.startCycle 0).mcore 0).retireTurns p = width + 1 := by
    rw [MCore.retireTurns, if_neg (by omega), hwidth]
    omega
  have hready : ((s.startCycle 0).mcore 0).head.readyTime = (s.mcore 0).head.readyTime := by
    rw [hcore]
    rfl
  have hcycle : ((s.startCycle 0).mcore 0).cycle = (s.mcore 0).cycle + 1 := by rw [hcore]
  rw [hready, hcycle] at hhead
  unfold Sys.mcoreCycle
  dsimp only
  rw [MCore.robRetire, hturns, MCore.retireLoop, hhead]
  split_ifs with hdue
  · rfl
  · have hset : (s.startCycle 0).setCore 0 ((s.startCycle 0).mcore 0) = s.startCycle 0 := by
      simp [Sys.setCore]
    change (if ((s.startCycle 0).mcore 0).sleep = true then _ else
      Sys.issueLoop p 0 p.coreWidth ((s.startCycle 0).setCore 0 ((s.startCycle 0).mcore 0))) = _
    rw [if_neg (by simp [hstart.awake]), hset, show p.coreWidth = width + 1 by omega, Sys.issueLoop,
      if_pos hfull]

theorem returned_eq (h : Stalled p s) : s.returned = ([], s) := by
  obtain ⟨mainmem, mshr, os, llc, mcore, rand, evicted, written⟩ := s
  have hmem : mainmem = [] := h.mainmem
  subst hmem
  rfl

theorem memsysCycle (h : Stalled p s) : s.memsysCycle = .ok s := by
  unfold Sys.memsysCycle
  rw [h.returned_eq]
  rfl

/-- Rounds of the core and the memory. -/
def rounds (n : ℕ) : List Turn := (List.replicate n [Turn.core 0, .memory]).flatten

theorem eq_of_mem_rounds {n : ℕ} {t : Turn} (h : t ∈ rounds n) : t = .core 0 ∨ t = .memory := by
  obtain ⟨l, hl, ht⟩ := List.mem_flatten.mp h
  rw [List.eq_of_mem_replicate hl] at ht
  simpa using ht

/-- The buffer waits until its head is ready, and that is a lost packet. -/
theorem run_rounds (hrob : 0 < p.robSize) (n : ℕ) (h : Stalled p s)
    (hdue : (s.mcore 0).head.readyTime = (s.mcore 0).cycle + (n + 1)) :
    s.run p (rounds (n + 1)) = .error .lostPacket := by
  induction n generalizing s with
  | zero =>
    have hturn : s.turn p (.core 0) = .error .lostPacket := by
      rw [Sys.turn, h.begin_turn hrob, if_pos (by omega)]
    rw [Sys.run, show rounds 1 = [.core 0, .memory] from rfl, List.foldlM_cons, hturn]
    rfl
  | succ n ih =>
    have hcore : (s.startCycle 0).mcore 0 = { s.mcore 0 with cycle := (s.mcore 0).cycle + 1 } :=
      Sys.mcore_setCore s 0 _
    have hturn : s.turn p (.core 0) = .ok (s.startCycle 0) := by
      rw [Sys.turn, h.begin_turn hrob, if_neg (by omega)]
    have htick : (s.startCycle 0).turn p .memory = .ok (s.startCycle 0) := h.startCycle.memsysCycle
    have hrest := ih h.startCycle (by
      rw [hcore]
      change (s.mcore 0).head.readyTime = (s.mcore 0).cycle + 1 + (n + 1)
      omega)
    rw [Sys.run, show rounds (n + 1 + 1) = .core 0 :: .memory :: rounds (n + 1) from rfl,
      List.foldlM_cons, hturn]
    change List.foldlM _ _ _ = _
    rw [List.foldlM_cons, htick]
    exact hrest

/-- The phases of the first core, and of a memory that has nothing to hand back. -/
def Solo : Phase → Prop
  | .rest => True
  | .retiring i _ | .issuing i _ => i = 0
  | .calling addrs => addrs = []

/-- The points on the way of a stalled core. -/
structure AtPoint (p : Params) (pt : Point gz promptMemory) : Prop where
  stalled : Stalled p pt.sys
  turns : ∀ t ∈ pt.turns, t = .core 0 ∨ t = .memory
  phase : Solo pt.phase

theorem AtPoint.patient {pt : Point gz promptMemory} (h : AtPoint p pt) : pt.Patient := by
  obtain ⟨s, phase, turns⟩ := pt
  unfold Point.Patient
  split
  next i _ _ hturns =>
    cases hturns
    have hi : i = 0 := by
      obtain heq | heq := h.turns _ List.mem_cons_self <;> cases heq
      rfl
    subst hi
    have hmshr : s.mshr = [] := h.stalled.mshr
    have hrequests : s.requests 0 = [] := by
      rw [Sys.requests, hmshr, Flight.sleeping_of_awake h.stalled.awake]
      rfl
    intro r hr
    rw [hrequests] at hr
    cases hr
  next => trivial

theorem AtPoint.next {pt pt' : Point gz promptMemory} (h : AtPoint p pt)
    (hn : pt.next p = .ok (some pt')) : AtPoint p pt' := by
  obtain ⟨s, phase, turns⟩ := pt
  have hstalled : Stalled p s := h.stalled
  cases phase with
  | rest =>
    cases turns with
    | nil => cases hn
    | cons turn turns =>
      have hturns : ∀ t ∈ turns, t = .core 0 ∨ t = .memory :=
        fun t ht => h.turns t (List.mem_cons_of_mem _ ht)
      obtain rfl | rfl := h.turns turn List.mem_cons_self
      · cases hn
        exact ⟨hstalled.startCycle, hturns, rfl⟩
      · rw [Point.next, Point.begin, hstalled.returned_eq] at hn
        cases hn
        exact ⟨hstalled, hturns, rfl⟩
  | retiring i n =>
    obtain rfl : i = 0 := h.phase
    cases n with
    | zero =>
      obtain ⟨pt₁, hw, hsome⟩ := map_ok_iff.mp hn
      cases hsome
      obtain ⟨_, rfl⟩ | ⟨hsleep, _⟩ := Point.wake_cases hw
      · exact ⟨hstalled, h.turns, rfl⟩
      · exact absurd (hstalled.awake.symm.trans hsleep) (by decide)
    | succ n =>
      obtain ⟨pt₁, hr, hsome⟩ := map_ok_iff.mp hn
      cases hsome
      obtain ⟨hready, hhead, _⟩ | ⟨_, rfl⟩ := Point.retire_cases hr
      · rw [hstalled.retireHead, if_pos hready] at hhead
        cases hhead
      · exact ⟨hstalled, h.turns, rfl⟩
  | issuing i n =>
    obtain rfl : i = 0 := h.phase
    have hrest : AtPoint p ⟨s, .rest, turns⟩ := ⟨hstalled, h.turns, trivial⟩
    cases n with
    | zero =>
      cases hn
      exact hrest
    | succ n =>
      obtain ⟨pt₁, hi, hsome⟩ := map_ok_iff.mp hn
      cases hsome
      obtain ⟨_, rfl⟩ | ⟨hfull, _⟩ := Point.issue_cases hi
      · exact hrest
      · exact absurd hstalled.full hfull
  | calling addrs =>
    obtain rfl : addrs = [] := h.phase
    cases hn
    exact ⟨hstalled, h.turns, trivial⟩

theorem visits_patient {turns : List Turn} {pt : Point gz promptMemory} (h : Stalled p s)
    (hturns : ∀ t ∈ turns, t = .core 0 ∨ t = .memory)
    (hvisit : Visits (Point.next p) ⟨s, .rest, turns⟩ pt) : pt.Patient := by
  have hstart : AtPoint p ⟨s, .rest, turns⟩ := ⟨h, hturns, trivial⟩
  have hat : AtPoint p pt := hvisit.induct (fun _ _ hat _ hn => hat.next hn)
    (fun _ _ => trivial) hstart
  exact hat.patient

end Stalled

/-- A cache whose hits take as long as the delay that a miss is given. -/
def slowCache : Params where
  robSize := 4
  l3Latency := 5000000
  coreWidth_pos := Nat.succ_pos (nat_lit 3)
  lineSize_le := Nat.le_add_right lineSize (nat_lit 4032)

instance {gz : Zlib} (p : Params) (s : Sys gz promptMemory) : Decidable (Stalled p s) :=
  decidable_of_iff (s.mshr = [] ∧ (show List HexAddr from s.mainmem) = [] ∧ (s.mcore 0).sleep = false ∧
      (s.mcore 0).rob.size = p.robSize ∧
      defaultMemDelay ≤ u64 ((s.mcore 0).head.readyTime - (s.mcore 0).head.birthTime))
    ⟨fun ⟨h₁, h₂, h₃, h₄, h₅⟩ => ⟨h₁, h₂, h₃, h₄, h₅⟩,
      fun h => ⟨h.mshr, h.mainmem, h.awake, h.full, h.slow⟩⟩

/-- The first read of the line misses and is answered at once. The hits after it are not ready for
`DEFAULT_MEM_DELAY` cycles, so the first of them to retire counts as a lost packet although no
request has waited. -/
theorem slow_hit_is_lost : ∃ turns,
    slowCache.coreWidth ≤ slowCache.robSize ∧ slowCache.robSize ≤ maxRobEntries ∧
    (∀ pt, Visits (Point.next slowCache) ⟨(oneLine slowCache).sys, .rest, turns⟩ pt → pt.Patient) ∧
    (oneLine slowCache).sys.run slowCache turns = .error .lostPacket := by
  obtain ⟨s, hrun, hs⟩ := exists_ok_of_any
    (x := (oneLine slowCache).sys.run slowCache (Stalled.rounds 2))
    (p := fun s => Stalled slowCache s ∧
      (s.mcore 0).head.readyTime = (s.mcore 0).cycle + (4999998 + 1)) (by decide +kernel)
  obtain ⟨hstalled, hdue⟩ := of_decide_eq_true hs
  refine ⟨Stalled.rounds 2 ++ Stalled.rounds (4999998 + 1), by decide, by decide,
    fun pt hvisit => ?_, ?_⟩
  · refine hvisit.of_passes (n := 40) (fun pt => pt.Patient)
      (fun pt => pt.phase = .rest ∧ Stalled slowCache pt.sys) (fun _ h => of_decide_eq_true h)
      (fun u hu hgoal t ht => ?_) (by decide +kernel)
    obtain ⟨hrest, hu'⟩ := of_decide_eq_true hgoal
    obtain ⟨s', phase, turns⟩ := u
    cases hrest
    refine hu'.visits_patient (fun turn hturn => ?_) ht
    have hmem := (Point.visits_turns hu).subset hturn
    exact (List.mem_append.mp hmem).elim Stalled.eq_of_mem_rounds Stalled.eq_of_mem_rounds
  · rw [Sys.run, List.foldlM_append, show List.foldlM (Sys.turn slowCache) _ _ = .ok s from hrun]
    exact hstalled.run_rounds (by decide) 4999998 hdue

end CactusDram.Memsim
