import CactusDram.Memsim.SimulationSpec
import CactusDram.Foundations.Trajectory

/-! The points that a simulation passes inside the turns of the cores and of the memory. -/
namespace CactusDram.Memsim
open Foundations Relation

/-- Where in a turn the simulator is. `retiring` and `issuing` count the turns that their loops have
left, `calling` lists the callbacks to come. -/
inductive Phase
  | rest
  | retiring (i n : ℕ)
  | issuing (i n : ℕ)
  | calling (addrs : List HexAddr)
  deriving DecidableEq

structure Point (gz : Zlib) (mem : MainMemory) where
  sys : Sys gz mem
  phase : Phase := .rest
  turns : List Turn

namespace Point
variable {gz : Zlib} {mem : MainMemory} (p : Params)

/-- Begin the next turn. -/
def begin (s : Sys gz mem) : List Turn → Option (Point gz mem)
  | [] => none
  | .core i :: turns =>
    some ⟨s.startCycle i, .retiring i (((s.startCycle i).mcore i).retireTurns p), turns⟩
  | .memory :: turns => some ⟨s.returned.2, .calling s.returned.1, turns⟩

def retire (s : Sys gz mem) (i n : ℕ) (turns : List Turn) : Except Abort (Point gz mem) := do
  match ← (s.mcore i).retireHead p with
  | some c => .ok ⟨s.setCore i c, .retiring i n, turns⟩
  | none => .ok ⟨s, .retiring i 0, turns⟩

def wake (s : Sys gz mem) (i : ℕ) (turns : List Turn) : Except Abort (Point gz mem) :=
  if (s.mcore i).sleep then do
    let (accepted, s) ← s.retrySleepingRequest i
    .ok ⟨s, if accepted then .issuing i p.coreWidth else .rest, turns⟩
  else .ok ⟨s, .issuing i p.coreWidth, turns⟩

def issue (s : Sys gz mem) (i n : ℕ) (turns : List Turn) : Except Abort (Point gz mem) :=
  if (s.mcore i).rob.size = p.robSize then .ok ⟨s, .rest, turns⟩
  else do
    let (goesOn, s) ← s.issue p i
    .ok ⟨s, if goesOn then .issuing i n else .rest, turns⟩

/-- The next point, if any turn is left. -/
def next (pt : Point gz mem) : Except Abort (Option (Point gz mem)) :=
  match pt.phase with
  | .rest => .ok (begin p pt.sys pt.turns)
  | .retiring i (n + 1) => some <$> retire p pt.sys i n pt.turns
  | .retiring i 0 => some <$> wake p pt.sys i pt.turns
  | .issuing i (n + 1) => some <$> issue p pt.sys i n pt.turns
  | .issuing _ 0 => .ok (some ⟨pt.sys, .rest, pt.turns⟩)
  | .calling (addr :: addrs) => (fun s => some ⟨s, .calling addrs, pt.turns⟩) <$> pt.sys.memsysCallback addr
  | .calling [] => (fun s => some ⟨s, .rest, pt.turns⟩) <$> pt.sys.tickMemory

variable {p} {s s' : Sys gz mem} {i n : ℕ} {turns : List Turn} {pt pt' : Point gz mem}

theorem retire_cases (h : retire p s i n turns = .ok pt) :
    ((s.mcore i).head.readyTime ≤ (s.mcore i).cycle ∧
        (s.mcore i).retireHead p = .ok (some ((s.mcore i).popHead p)) ∧
        pt = ⟨s.setCore i ((s.mcore i).popHead p), .retiring i n, turns⟩) ∨
      ((s.mcore i).cycle < (s.mcore i).head.readyTime ∧ pt = ⟨s, .retiring i 0, turns⟩) := by
  obtain ⟨r, hr, h⟩ := bind_ok_iff.mp h
  have hhead := hr
  unfold MCore.retireHead at hr
  split_ifs at hr with hready hlost <;> cases hr <;> cases h
  · exact .inl ⟨hready, hhead, rfl⟩
  · exact .inr ⟨by omega, rfl⟩

theorem wake_cases (h : wake p s i turns = .ok pt) :
    ((s.mcore i).sleep = false ∧ pt = ⟨s, .issuing i p.coreWidth, turns⟩) ∨
      (s.mcore i).sleep = true ∧ ∃ accepted s', s.retrySleepingRequest i = .ok (accepted, s') ∧
        pt = ⟨s', if accepted then .issuing i p.coreWidth else .rest, turns⟩ := by
  unfold wake at h
  split_ifs at h with hsleep
  · obtain ⟨⟨accepted, s'⟩, hretry, h⟩ := bind_ok_iff.mp h
    cases h
    exact .inr ⟨hsleep, accepted, s', hretry, rfl⟩
  · cases h
    exact .inl ⟨by simpa using hsleep, rfl⟩

theorem issue_cases (h : issue p s i n turns = .ok pt) :
    ((s.mcore i).rob.size = p.robSize ∧ pt = ⟨s, .rest, turns⟩) ∨
      (s.mcore i).rob.size ≠ p.robSize ∧ ∃ goesOn s', s.issue p i = .ok (goesOn, s') ∧
        pt = ⟨s', if goesOn then .issuing i n else .rest, turns⟩ := by
  unfold issue at h
  split_ifs at h with hfull
  · cases h
    exact .inl ⟨hfull, rfl⟩
  · obtain ⟨⟨goesOn, s'⟩, hissue, h⟩ := bind_ok_iff.mp h
    cases h
    exact .inr ⟨hfull, goesOn, s', hissue, rfl⟩

/-- The next step is an instruction of core `i`. -/
def Issues (p : Params) (pt : Point gz mem) (i : ℕ) : Prop :=
  (∃ n, pt.phase = .issuing i (n + 1)) ∧ (pt.sys.mcore i).rob.size ≠ p.robSize

/-- What one step does to the simulated system. -/
inductive Change (p : Params) (pt : Point gz mem) : Sys gz mem → Prop
  | stay : Change p pt pt.sys
  | startCycle (i : ℕ) : Change p pt (pt.sys.startCycle i)
  | retire (i : ℕ) : Change p pt (pt.sys.setCore i ((pt.sys.mcore i).popHead p))
  | retry (i : ℕ) {accepted : Bool} {s' : Sys gz mem} (hsleep : (pt.sys.mcore i).sleep = true)
      (h : pt.sys.retrySleepingRequest i = .ok (accepted, s')) : Change p pt s'
  | issue (i : ℕ) {goesOn : Bool} {s' : Sys gz mem} (hissues : pt.Issues p i)
      (h : pt.sys.issue p i = .ok (goesOn, s')) : Change p pt s'
  | callback (addr : HexAddr) {s' : Sys gz mem} (h : pt.sys.memsysCallback addr = .ok s') :
      Change p pt s'
  | mainmem (m : mem.State) : Change p pt { pt.sys with mainmem := m }

theorem next_change (h : pt.next p = .ok (some pt')) : pt.Change p pt'.sys := by
  obtain ⟨s, phase, turns⟩ := pt
  cases phase with
  | rest =>
    cases turns with
    | nil => cases h
    | cons turn turns =>
      cases turn with
      | core i =>
        cases h
        exact .startCycle i
      | memory =>
        cases h
        exact .mainmem _
  | retiring i n =>
    cases n with
    | zero =>
      obtain ⟨_, hw, hsome⟩ := map_ok_iff.mp h
      cases hsome
      obtain ⟨_, rfl⟩ | ⟨hsleep, _, _, hretry, rfl⟩ := wake_cases hw
      · exact .stay
      · exact .retry i hsleep hretry
    | succ n =>
      obtain ⟨_, hr, hsome⟩ := map_ok_iff.mp h
      cases hsome
      obtain ⟨_, _, rfl⟩ | ⟨_, rfl⟩ := retire_cases hr
      · exact .retire i
      · exact .stay
  | issuing i n =>
    cases n with
    | zero =>
      cases h
      exact .stay
    | succ n =>
      obtain ⟨_, hi, hsome⟩ := map_ok_iff.mp h
      cases hsome
      obtain ⟨_, rfl⟩ | ⟨hfull, _, _, hissue, rfl⟩ := issue_cases hi
      · exact .stay
      · exact .issue i ⟨⟨n, rfl⟩, hfull⟩ hissue
  | calling addrs =>
    cases addrs with
    | nil =>
      obtain ⟨_, ht, hsome⟩ := map_ok_iff.mp h
      cases hsome
      obtain ⟨m, rfl⟩ := Sys.tickMemory_ok ht
      exact .mainmem m
    | cons addr addrs =>
      obtain ⟨_, hc, hsome⟩ := map_ok_iff.mp h
      cases hsome
      exact .callback addr hc

/-- The step of a core that issues is its instruction. -/
theorem next_of_issues {i : ℕ} (hissues : pt.Issues p i) (h : pt.next p = .ok (some pt')) :
    ∃ goesOn, pt.sys.issue p i = .ok (goesOn, pt'.sys) := by
  obtain ⟨s, phase, turns⟩ := pt
  obtain ⟨⟨n, hphase⟩, hfull⟩ := hissues
  cases hphase
  obtain ⟨_, hi, hsome⟩ := map_ok_iff.mp h
  cases hsome
  obtain ⟨hfull', _⟩ | ⟨_, goesOn, s', hissue, rfl⟩ := issue_cases hi
  · exact absurd hfull' hfull
  · exact ⟨goesOn, hissue⟩

/-- How a step fails. -/
theorem next_error {e : Abort} (h : pt.next p = .error e) :
    (∃ i n, pt.phase = .retiring i (n + 1) ∧ (pt.sys.mcore i).retireHead p = .error e) ∨
    (∃ i, (pt.sys.mcore i).sleep = true ∧ pt.sys.retrySleepingRequest i = .error e) ∨
    (∃ i, pt.Issues p i ∧ pt.sys.issue p i = .error e) ∨
    (∃ addr, pt.sys.memsysCallback addr = .error e) ∨ ∃ x, e = .mainmem x := by
  obtain ⟨s, phase, turns⟩ := pt
  cases phase with
  | rest => cases h
  | retiring i n =>
    cases n with
    | zero =>
      have hw : wake p s i turns = .error e := map_error_iff.mp h
      unfold wake at hw
      split_ifs at hw with hsleep
      obtain hw | ⟨_, _, hw⟩ := bind_error_iff.mp hw
      · exact .inr (.inl ⟨i, hsleep, hw⟩)
      · cases hw
    | succ n =>
      have hr : retire p s i n turns = .error e := map_error_iff.mp h
      obtain hr | ⟨r, _, hr⟩ := bind_error_iff.mp hr
      · exact .inl ⟨i, n, rfl, hr⟩
      · cases r <;> cases hr
  | issuing i n =>
    cases n with
    | zero => cases h
    | succ n =>
      have hi : issue p s i n turns = .error e := map_error_iff.mp h
      unfold issue at hi
      split_ifs at hi with hfull
      obtain hi | ⟨_, _, hi⟩ := bind_error_iff.mp hi
      · exact .inr (.inr (.inl ⟨i, ⟨⟨n, rfl⟩, hfull⟩, hi⟩))
      · cases hi
  | calling addrs =>
    cases addrs with
    | nil => exact .inr (.inr (.inr (.inr (Sys.tickMemory_error (map_error_iff.mp h)))))
    | cons addr addrs => exact .inr (.inr (.inr (.inl ⟨addr, map_error_iff.mp h⟩)))

/-- The turns are taken one after the other. -/
theorem next_turns (h : pt.next p = .ok (some pt')) : pt'.turns <:+ pt.turns := by
  obtain ⟨s, phase, turns⟩ := pt
  cases phase with
  | rest =>
    cases turns with
    | nil => cases h
    | cons turn turns =>
      cases turn <;> cases h <;> exact List.suffix_cons _ _
  | retiring i n =>
    cases n with
    | zero =>
      obtain ⟨_, hw, hsome⟩ := map_ok_iff.mp h
      cases hsome
      obtain ⟨_, rfl⟩ | ⟨_, _, _, _, rfl⟩ := wake_cases hw <;> exact List.suffix_rfl
    | succ n =>
      obtain ⟨_, hr, hsome⟩ := map_ok_iff.mp h
      cases hsome
      obtain ⟨_, _, rfl⟩ | ⟨_, rfl⟩ := retire_cases hr <;> exact List.suffix_rfl
  | issuing i n =>
    cases n with
    | zero =>
      cases h
      exact List.suffix_rfl
    | succ n =>
      obtain ⟨_, hi, hsome⟩ := map_ok_iff.mp h
      cases hsome
      obtain ⟨_, rfl⟩ | ⟨_, _, _, _, rfl⟩ := issue_cases hi <;> exact List.suffix_rfl
  | calling addrs =>
    cases addrs with
    | nil =>
      obtain ⟨_, _, hsome⟩ := map_ok_iff.mp h
      cases hsome
      exact List.suffix_rfl
    | cons addr addrs =>
      obtain ⟨_, _, hsome⟩ := map_ok_iff.mp h
      cases hsome
      exact List.suffix_rfl

theorem visits_turns (h : Visits (next p) pt pt') : pt'.turns <:+ pt.turns :=
  invariant_of_steps (P := fun q => q.turns <:+ pt.turns)
    (fun _ _ hq hn => (next_turns hn).trans hq) h List.suffix_rfl

theorem fails_of_map {α : Type} {x : Except Abort α} {f : α → Option (Point gz mem)}
    (hnext : pt.next p = f <$> x) (e : Abort) (he : x = .error e) : FailsWith (next p) pt e := by
  rw [FailsWith, hnext, he]
  rfl

theorem goes_of_map {α : Type} {x : Except Abort α} {f : α → Option (Point gz mem)} {a : α}
    (pt' : Point gz mem) (hnext : pt.next p = f <$> x) (ha : x = .ok a) (hf : f a = some pt') : Goes (next p) pt pt' := by
  rw [Goes, hnext, ha]
  exact congrArg Except.ok hf

/-- The retirement loop takes its steps and comes to its last turn. -/
theorem retireLoop_realizes (n : ℕ) (s : Sys gz mem) (i : ℕ) (turns : List Turn) :
    Realizes (Goes (next p)) (FailsWith (next p)) ⟨s, .retiring i n, turns⟩
      ((s.mcore i).retireLoop p n) fun c => ⟨s.setCore i c, .retiring i 0, turns⟩ := by
  induction n generalizing s with
  | zero => 
    refine .ok ?_
    simp only [Sys.setCore, Function.update_eq_self]
    exact .refl
  | succ n ih =>
    have hnext : (⟨s, .retiring i (n + 1), turns⟩ : Point gz mem).next p =
        some <$> retire p s i n turns := rfl
    refine Realizes.call (fun e he => fails_of_map hnext e ?_) fun r hr => ?_
    · unfold retire
      rw [he]
      rfl
    · cases r with
      | some c =>
        have hstep := goes_of_map ⟨s.setCore i c, .retiring i n, turns⟩ hnext
          (by unfold retire; rw [hr]; rfl) rfl
        have hrest := ih (s.setCore i c)
        simp only [Sys.setCore, Function.update_self, Function.update_idem] at hrest
        exact Realizes.step hstep hrest
      | none =>
        have hstep := goes_of_map ⟨s, .retiring i 0, turns⟩ hnext
          (by unfold retire; rw [hr]; rfl) rfl
        refine .ok ?_
        simp only [Sys.setCore, Function.update_eq_self]
        exact .single hstep

theorem issueLoop_realizes (n : ℕ) (s : Sys gz mem) (i : ℕ) (turns : List Turn) :
    Realizes (Goes (next p)) (FailsWith (next p)) ⟨s, .issuing i n, turns⟩
      (s.issueLoop p i n) fun s => ⟨s, .rest, turns⟩ := by
  induction n generalizing s with
  | zero => exact .ok (.single rfl)
  | succ n ih =>
    have hnext : (⟨s, .issuing i (n + 1), turns⟩ : Point gz mem).next p =
        some <$> issue p s i n turns := rfl
    unfold Sys.issueLoop
    split_ifs with hfull
    · exact .ok (.single (goes_of_map _ hnext (by rw [issue, if_pos hfull]) rfl))
    · refine Realizes.call (fun e he => fails_of_map hnext e ?_) fun r hr => ?_
      · rw [issue, if_neg hfull, he]
        rfl
      · obtain ⟨goesOn, s'⟩ := r
        have hstep := goes_of_map ⟨s', if goesOn then .issuing i n else .rest, turns⟩ hnext
          (by rw [issue, if_neg hfull, hr]; rfl) rfl
        refine Realizes.step hstep ?_
        cases goesOn with
        | true => exact ih s'
        | false => exact .ok .refl

theorem callbacks_realize (addrs : List HexAddr) (s : Sys gz mem) (turns : List Turn) :
    Realizes (Goes (next p)) (FailsWith (next p)) ⟨s, .calling addrs, turns⟩
      (addrs.foldlM Sys.memsysCallback s) fun s => ⟨s, .calling [], turns⟩ := by
  induction addrs generalizing s with
  | nil => exact .ok .refl
  | cons addr addrs ih =>
    have hnext : (⟨s, .calling (addr :: addrs), turns⟩ : Point gz mem).next p =
        (fun s => some ⟨s, .calling addrs, turns⟩) <$> s.memsysCallback addr := rfl
    rw [List.foldlM_cons]
    refine Realizes.call (fun e he => fails_of_map hnext e he) fun s' hs' => ?_
    exact Realizes.step (goes_of_map _ hnext hs' rfl) (ih s')

theorem mcoreCycle_realizes (s : Sys gz mem) (i : ℕ) (turns : List Turn) :
    Realizes (Goes (next p)) (FailsWith (next p)) ⟨s, .rest, .core i :: turns⟩
      (s.mcoreCycle p i) fun s => ⟨s, .rest, turns⟩ := by
  have hbegin : Goes (next p) (⟨s, .rest, .core i :: turns⟩ : Point gz mem)
      ⟨s.startCycle i, .retiring i (((s.startCycle i).mcore i).retireTurns p), turns⟩ := rfl
  refine Realizes.step hbegin ((retireLoop_realizes _ _ i turns).bind fun c _ => ?_)
  set s₁ := (s.startCycle i).setCore i c
  have hcore : s₁.mcore i = c := by simp [s₁, Sys.setCore]
  have hnext : (⟨s₁, .retiring i 0, turns⟩ : Point gz mem).next p = some <$> wake p s₁ i turns := rfl
  dsimp only
  split_ifs with hsleep
  · refine Realizes.call (fun e he => fails_of_map hnext e ?_) fun r hr => ?_
    · rw [wake, hcore, if_pos hsleep, he]
      rfl
    · obtain ⟨accepted, s'⟩ := r
      have hstep := goes_of_map
        ⟨s', if accepted then .issuing i p.coreWidth else .rest, turns⟩ hnext
        (by rw [wake, hcore, if_pos hsleep, hr]; rfl) rfl
      refine Realizes.step hstep ?_
      cases accepted with
      | true => exact issueLoop_realizes _ s' i turns
      | false => exact .ok .refl
  · have hstep := goes_of_map ⟨s₁, .issuing i p.coreWidth, turns⟩ hnext
      (by rw [wake, hcore, if_neg hsleep]) rfl
    exact Realizes.step hstep (issueLoop_realizes _ s₁ i turns)

theorem memsysCycle_realizes (s : Sys gz mem) (turns : List Turn) :
    Realizes (Goes (next p)) (FailsWith (next p)) ⟨s, .rest, .memory :: turns⟩
      s.memsysCycle fun s => ⟨s, .rest, turns⟩ := by
  have hbegin : Goes (next p) (⟨s, .rest, .memory :: turns⟩ : Point gz mem)
      ⟨s.returned.2, .calling s.returned.1, turns⟩ := rfl
  refine Realizes.step hbegin ((callbacks_realize _ _ turns).bind fun s' _ => ?_)
  have hnext : (⟨s', .calling [], turns⟩ : Point gz mem).next p =
      (fun s => some ⟨s, .rest, turns⟩) <$> s'.tickMemory := rfl
  exact ⟨fun s'' hs'' => .single (goes_of_map _ hnext hs'' rfl),
    fun e he => ⟨_, .refl, fails_of_map hnext e he⟩⟩

/-- A run visits the point at rest that it ends in, or one that fails as the run does. -/
theorem run_realizes (turns : List Turn) (s : Sys gz mem) :
    Realizes (Goes (next p)) (FailsWith (next p)) ⟨s, .rest, turns⟩ (s.run p turns)
      fun s => ⟨s, .rest, []⟩ := by
  unfold Sys.run
  induction turns generalizing s with
  | nil => exact .ok .refl
  | cons turn turns ih =>
    rw [List.foldlM_cons]
    cases turn with
    | core i => exact (mcoreCycle_realizes s i turns).bind fun s' _ => ih s'
    | memory => exact (memsysCycle_realizes s turns).bind fun s' _ => ih s'

end Point
end CactusDram.Memsim
