import CactusDram.Ledger
import CactusDram.SystemRules

/-! A memory system as its users see it, and what it owes them: every transaction that it has taken is
handed back once, or is held by the controller of its channel. -/
namespace CactusDram
open Foundations

/-- The calls that users make on a memory system, whatever memory is behind it. -/
structure MemorySystem (M : Type) where
  willAcceptTransaction : M → HexAddr → Bool → Bool
  addTransaction : M → HexAddr → Bool → M
  clockTick : M → Except Exit M

namespace MemorySystem
variable {M : Type}

/-- A property of a memory and of what was given to it, kept by the calls of a user who asks first. -/
structure Accounts (mem : MemorySystem M) (P : M → List Callback → Prop) : Prop where
  clockTick : ∀ {m m' given}, P m given → mem.clockTick m = .ok m' → P m' given
  addTransaction : ∀ {m given addr isWrite}, P m given → mem.willAcceptTransaction m addr isWrite →
    P (mem.addTransaction m addr isWrite) (given ++ [⟨addr, isWrite⟩])

/-- A memory in use, and what was given to it. -/
structure Session (M : Type) where
  memory : M
  given : List Callback := []

namespace Session
variable (mem : MemorySystem M) (s : Session M)

def step : JedecDRAMSystem.Call → Except Exit (Session M)
  | .addTransaction hexAddr isWrite =>
    if mem.willAcceptTransaction s.memory hexAddr isWrite then
      .ok ⟨mem.addTransaction s.memory hexAddr isWrite, s.given ++ [⟨hexAddr, isWrite⟩]⟩
    else .ok s
  | .clockTick => do
    let m ← mem.clockTick s.memory
    .ok { s with memory := m }

def run (calls : List JedecDRAMSystem.Call) : Except Exit (Session M) := calls.foldlM (step mem) s

variable {mem s} {s' : Session M} {P : M → List Callback → Prop}

theorem step_accounts (hP : mem.Accounts P) {call : JedecDRAMSystem.Call} (hs : P s.memory s.given)
    (h : s.step mem call = .ok s') : P s'.memory s'.given := by
  cases call with
  | addTransaction addr isWrite =>
    simp only [step] at h
    split_ifs at h with hacc
    · cases h
      exact hP.addTransaction hs hacc
    · cases h
      exact hs
  | clockTick =>
    obtain ⟨m, hm, h⟩ := bind_ok_iff.mp h
    cases h
    exact hP.clockTick hs hm

theorem run_accounts (hP : mem.Accounts P) {calls : List JedecDRAMSystem.Call}
    (hs : P s.memory s.given) (h : s.run mem calls = .ok s') : P s'.memory s'.given := by
  unfold run at h
  refine foldlM_invariant (P := fun s : Session M => P s.memory s.given) ?_ h hs
  intro s call _ s' hs h
  exact step_accounts hP hs h

end Session
end MemorySystem

namespace JedecDRAMSystem
variable {cfg : Config} {s s' : JedecDRAMSystem} {given : List Callback} {x : Callback} {i : ℕ}

def memorySystem (cfg : Config) : MemorySystem JedecDRAMSystem where
  willAcceptTransaction s := s.willAcceptTransaction cfg
  addTransaction s := s.addTransaction cfg
  clockTick s := s.clockTick cfg

/-- What was given has been handed back, or waits in the channel that its address is routed to. -/
def Owes (cfg : Config) (s : JedecDRAMSystem) (given : List Callback) : Prop :=
  ∀ x : Callback, given.count x = s.callbacks.count x + (s.ctrls (cfg.getChannel x.addr)).held x ∧
    ∀ i, i ≠ cfg.getChannel x.addr → (s.ctrls i).held x = 0

theorem share_held (c : Controller) (cs : ChannelState) : (c.share cs).held x = c.held x := rfl

theorem store_held_self (s : JedecDRAMSystem) (i : ℕ) (c : Controller) :
    ((s.store i c).ctrls i).held x = c.held x := by
  simp [store]

theorem store_held_of_ne {j : ℕ} (hj : j ≠ i) (s : JedecDRAMSystem) (c : Controller) :
    ((s.store i c).ctrls j).held x = (s.ctrls j).held x := by
  simp [store, hj, share_held]

/-- A call on one channel that keeps what the channel holds keeps the account. -/
theorem Owes.store (h : s.Owes cfg given) {c : Controller} (hheld : ∀ x, c.held x = (s.ctrls i).held x) :
    (s.store i c).Owes cfg given := by
  have hsame (j : ℕ) (x : Callback) : ((s.store i c).ctrls j).held x = (s.ctrls j).held x := by
    by_cases hj : j = i
    · subst hj
      rw [store_held_self, hheld]
    · exact store_held_of_ne hj s c
  intro x
  obtain ⟨hcount, hother⟩ := h x
  refine ⟨?_, fun j hj => ?_⟩
  · rw [hsame]
    exact hcount
  · rw [hsame]
    exact hother j hj

theorem Owes.addTransaction (h : s.Owes cfg given) {addr : HexAddr} {isWrite : Bool}
    (hacc : s.willAcceptTransaction cfg addr isWrite) :
    (s.addTransaction cfg addr isWrite).Owes cfg (given ++ [⟨addr, isWrite⟩]) := by
  have hadd : s.addTransaction cfg addr isWrite = s.store (cfg.getChannel addr)
      ((s.ctrls (cfg.getChannel addr)).addTransaction cfg addr isWrite) := if_pos hacc
  have hheld (x : Callback) : ((s.ctrls (cfg.getChannel addr)).addTransaction cfg addr isWrite).held x =
      (s.ctrls (cfg.getChannel addr)).held x + if (⟨addr, isWrite⟩ : Callback) = x then 1 else 0 :=
    congrArg Prod.fst (Controller.addTransaction_ledger addr isWrite)
  rw [hadd]
  intro x
  obtain ⟨hcount, hother⟩ := h x
  have hone : (given ++ [(⟨addr, isWrite⟩ : Callback)]).count x =
      given.count x + if (⟨addr, isWrite⟩ : Callback) = x then 1 else 0 := by
    rw [List.count_append, List.count_singleton]
    simp only [beq_iff_eq]
  have hcallbacks (c : Controller) : (s.store (cfg.getChannel addr) c).callbacks = s.callbacks := rfl
  rw [hone, hcallbacks]
  by_cases hroute : cfg.getChannel x.addr = cfg.getChannel addr
  · rw [hroute] at hcount hother ⊢
    rw [store_held_self, hheld]
    refine ⟨by omega, fun j hj => ?_⟩
    rw [store_held_of_ne hj]
    exact hother j hj
  · have hne : (⟨addr, isWrite⟩ : Callback) ≠ x := by
      rintro rfl
      exact hroute rfl
    rw [if_neg hne, store_held_of_ne hroute]
    refine ⟨hcount, fun j hj => ?_⟩
    by_cases hj' : j = cfg.getChannel addr
    · subst hj'
      rw [store_held_self, hheld, if_neg hne]
      exact hother _ hj
    · rw [store_held_of_ne hj']
      exact hother j hj

/-- Handing back moves transactions from a channel to the callbacks. -/
theorem Owes.returnDone (h : s.Owes cfg given) (i : ℕ) : (s.returnDone i).Owes cfg given := by
  intro x
  obtain ⟨hcount, hother⟩ := h x
  obtain ⟨hheld, -⟩ := returnLoop_ledger s.clk (s.ctrls i).returnQueue.length (s.ctrls i) x
  have hcallbacks : (s.returnDone i).callbacks =
      s.callbacks ++ (returnLoop s.clk (s.ctrls i).returnQueue.length (s.ctrls i)).1 := rfl
  have hctrls (j : ℕ) : (s.returnDone i).ctrls j =
      (s.store i (returnLoop s.clk (s.ctrls i).returnQueue.length (s.ctrls i)).2).ctrls j := rfl
  rw [hcallbacks, List.count_append, hctrls]
  by_cases hi : cfg.getChannel x.addr = i
  · rw [hi] at hcount hother ⊢
    rw [store_held_self]
    refine ⟨by omega, fun j hj => ?_⟩
    rw [hctrls, store_held_of_ne hj]
    exact hother j hj
  · have hzero := hother i (Ne.symm hi)
    rw [store_held_of_ne hi]
    refine ⟨by omega, fun j hj => ?_⟩
    rw [hctrls]
    by_cases hji : j = i
    · subst hji
      rw [store_held_self]
      omega
    · rw [store_held_of_ne hji]
      exact hother j hj

theorem Owes.tickChannel (h : s.Owes cfg given) (hs : s.tickChannel cfg i = .ok s') :
    s'.Owes cfg given := by
  obtain ⟨c, hc, hs⟩ := bind_ok_iff.mp hs
  cases hs
  exact h.store fun x => congrArg Prod.fst (congrFun (Controller.clockTick_ledger hc) x)

theorem Owes.clockTick (h : s.Owes cfg given) (hs : s.clockTick cfg = .ok s') : s'.Owes cfg given := by
  have hreturn : ∀ (l : List ℕ) (s : JedecDRAMSystem), s.Owes cfg given →
      (l.foldl JedecDRAMSystem.returnDone s).Owes cfg given := by
    intro l
    induction l with
    | nil => exact fun _ h => h
    | cons i l ih => exact fun s h => ih _ (h.returnDone i)
  obtain ⟨s₁, hticks, hs⟩ := bind_ok_iff.mp hs
  cases hs
  have htick : s₁.Owes cfg given :=
    foldlM_invariant (P := fun s : JedecDRAMSystem => s.Owes cfg given)
      (fun _ _ _ _ hs h => hs.tickChannel h) hticks (hreturn _ s h)
  exact htick

theorem accounts_owes (cfg : Config) : (memorySystem cfg).Accounts fun s given => s.Owes cfg given where
  clockTick h hs := h.clockTick hs
  addTransaction h hacc := h.addTransaction hacc

theorem owes_boot (boot : SystemBoot cfg) : boot.system.Owes cfg [] := fun _ => ⟨rfl, fun _ _ => rfl⟩

/-- Asking first makes no difference to a memory that refuses what it cannot take. -/
theorem session_step (s : JedecDRAMSystem) (given : List Callback) (call : Call) :
    (·.memory) <$> (⟨s, given⟩ : MemorySystem.Session _).step (memorySystem cfg) call =
      s.step cfg call := by
  cases call with
  | addTransaction addr isWrite =>
    simp only [MemorySystem.Session.step, JedecDRAMSystem.step]
    cases hacc : s.willAcceptTransaction cfg addr isWrite <;>
      simp [memorySystem, JedecDRAMSystem.addTransaction, hacc]
  | clockTick =>
    simp only [MemorySystem.Session.step, JedecDRAMSystem.step]
    change _ <$> (s.clockTick cfg >>= _) = s.clockTick cfg
    cases s.clockTick cfg <;> rfl

theorem session_run {calls : List Call} (given : List Callback) (h : s.run cfg calls = .ok s') :
    ∃ given', (⟨s, given⟩ : MemorySystem.Session _).run (memorySystem cfg) calls = .ok ⟨s', given'⟩ := by
  induction calls generalizing s given with
  | nil =>
    cases h
    exact ⟨given, rfl⟩
  | cons call calls ih =>
    obtain ⟨s₁, hstep, hrest⟩ := bind_ok_iff.mp h
    rw [← session_step s given call] at hstep
    obtain ⟨⟨_, given₁⟩, hsession, rfl⟩ := map_ok_iff.mp hstep
    obtain ⟨given', hrun⟩ := ih given₁ hrest
    exact ⟨given', bind_ok_iff.mpr ⟨_, hsession, hrun⟩⟩

end JedecDRAMSystem

/-- In every run of a memory system, whatever was accepted has been called back exactly as often as it was
accepted, except for what is still held, and this is in the channel of its address only. -/
theorem transactions_answered (cfg : Config) (boot : SystemBoot cfg) (calls : List JedecDRAMSystem.Call)
    (sys : JedecDRAMSystem) (hrun : boot.system.run cfg calls = .ok sys) :
    ∃ given, (⟨boot.system, []⟩ : MemorySystem.Session _).run (JedecDRAMSystem.memorySystem cfg) calls =
        .ok ⟨sys, given⟩ ∧
      ∀ x : Callback, given.count x = sys.callbacks.count x + (sys.ctrls (cfg.getChannel x.addr)).held x ∧
        ∀ i, i ≠ cfg.getChannel x.addr → (sys.ctrls i).held x = 0 := by
  obtain ⟨given, hsession⟩ := JedecDRAMSystem.session_run [] hrun
  refine ⟨given, hsession, ?_⟩
  have howes : sys.Owes cfg given :=
    MemorySystem.Session.run_accounts (JedecDRAMSystem.accounts_owes cfg)
      (JedecDRAMSystem.owes_boot boot) hsession
  exact howes

/-- Two reads that one READ serves, and a read that still waits. -/
def twiceCalls : List JedecDRAMSystem.Call :=
  [.addTransaction 0 false, .addTransaction 0 false] ++ List.replicate 4 .clockTick ++
    [.addTransaction 2 false] ++ List.replicate 3 .clockTick

theorem transactions_answered_small : ∃ sys given,
    (⟨({} : SystemBoot smallConfig).system, []⟩ : MemorySystem.Session _).run
        (JedecDRAMSystem.memorySystem smallConfig) twiceCalls = .ok ⟨sys, given⟩ ∧
      given.count ⟨0, false⟩ = 2 ∧ given.count ⟨2, false⟩ = 1 := by
  obtain ⟨sys, hrun, hc⟩ := exists_ok_of_any
    (x := ({} : SystemBoot smallConfig).system.run smallConfig twiceCalls)
    (p := fun sys => (sys.callbacks.count ⟨0, false⟩ = 2 && (sys.ctrls 0).held ⟨0, false⟩ = 0) &&
      (sys.callbacks.count ⟨2, false⟩ = 0 && (sys.ctrls 0).held ⟨2, false⟩ = 1)) (by decide +kernel)
  simp only [Bool.and_eq_true, decide_eq_true_eq] at hc
  obtain ⟨⟨hdone, hnone⟩, hundone, hheld⟩ := hc
  obtain ⟨given, hsession, hcount⟩ := transactions_answered smallConfig {} twiceCalls sys hrun
  have hfirst := (hcount ⟨0, false⟩).1
  have hsecond := (hcount ⟨2, false⟩).1
  have hchannel : smallConfig.getChannel 0 = 0 ∧ smallConfig.getChannel 2 = 0 := by decide +kernel
  rw [hchannel.1] at hfirst
  rw [hchannel.2] at hsecond
  exact ⟨sys, given, hsession, by omega, by omega⟩

end CactusDram
