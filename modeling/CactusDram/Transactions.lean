import CactusDram.Channel.Exits
import CactusDram.DualIssue

/-! Every accepted transaction is answered exactly once. -/
namespace CactusDram
open Foundations Controller

section Lists
variable {α : Type} {p q : α → Bool} {l : List α}

/-- Removing the first element of a kind lowers the count of that kind by one. -/
theorem countP_eraseP_add {x : α} (hx : x ∈ l) (hq : q x) (hp : ∀ y, q y → p y = p x) :
    (l.eraseP q).countP p + (if p x then 1 else 0) = l.countP p := by
  obtain ⟨y, l₁, l₂, _, hy, rfl, herase⟩ := List.exists_of_eraseP hx hq
  rw [herase, List.countP_append, List.countP_append, List.countP_cons, hp y hy]
  omega

end Lists

namespace Flow
variable {cfg : Config} {π : Micro.Policy} {f f' : Flow}

/-- The transaction is a write or read of the address. -/
def matchesTrans (k : Bool) (addr : HexAddr) (t : Transaction) : Bool := t.addr = addr && t.isWrite = k

def matchesCmd (k : Bool) (addr : HexAddr) (c : Command) : Bool := c.hexAddr = addr && c.isWrite = k

/-- The multimap of pending writes or reads. -/
def pending (f : Flow) (k : Bool) : List Transaction := if k then f.pendingWr else f.pendingRd

def waitCount (f : Flow) (k : Bool) (addr : HexAddr) : ℕ :=
  (f.waiting .unified).countP (matchesTrans k addr) + (f.waiting .write).countP (matchesTrans k addr) +
    (f.waiting .read).countP (matchesTrans k addr)

def queueCount (cfg : Config) (f : Flow) (k : Bool) (addr : HexAddr) : ℕ :=
  (f.queues (cfg.queueOf addr)).countP (matchesCmd k addr)

def ticketCount (f : Flow) (k : Bool) (addr : HexAddr) : ℕ :=
  f.ticket.toList.countP (matchesCmd k addr)

/-- How often a write or read of the address is on its way. -/
def inFlight (cfg : Config) (f : Flow) (k : Bool) (addr : HexAddr) : ℕ :=
  f.waitCount k addr + f.queueCount cfg k addr + f.ticketCount k addr

/-- A READ or WRITE of the address was left out as a second HBM command. -/
def lost (f : Flow) (k : Bool) (addr : HexAddr) : Bool :=
  f.log.any fun
    | .dropped p => p.cmd.isReadWrite && matchesCmd k addr p.cmd
    | _ => false

/-- A pending address has its request on the way, at most once; and always once, unless it was
left out or the address is that of commands without one. -/
structure Tracked (cfg : Config) (f : Flow) : Prop where
  upper : ∀ k addr, f.inFlight cfg k addr ≤ if hasAddr (f.pending k) addr then 1 else 0
  lower : ∀ k addr, addr ≠ noAddr → f.lost k addr = false → hasAddr (f.pending k) addr →
    1 ≤ f.inFlight cfg k addr
  single : ∀ addr, f.pendingWr.countP (fun t => t.addr = addr) ≤ 1
  ticket : ∀ cmd, f.ticket = some cmd → cmd.isReadWrite

theorem Tracked.congr (hf : Tracked cfg f)
    (hin : ∀ k addr, f'.inFlight cfg k addr = f.inFlight cfg k addr)
    (hhas : ∀ k addr, hasAddr (f'.pending k) addr = hasAddr (f.pending k) addr)
    (hlost : ∀ k addr, f'.lost k addr = f.lost k addr)
    (hwr : f'.pendingWr = f.pendingWr) (hticket : ∀ cmd, f'.ticket = some cmd → cmd.isReadWrite) :
    Tracked cfg f' := by
  refine ⟨fun k addr => ?_, fun k addr => ?_, hwr ▸ hf.single, hticket⟩
  · rw [hin, hhas]
    exact hf.upper k addr
  · rw [hin, hhas, hlost]
    exact hf.lower k addr

theorem waitCount_update (l : Lane) (q : List Transaction) (k : Bool) (addr : HexAddr) :
    { f with waiting := Function.update f.waiting l q }.waitCount k addr +
      (f.waiting l).countP (matchesTrans k addr) =
        f.waitCount k addr + q.countP (matchesTrans k addr) := by
  cases l <;> simp [waitCount] <;> omega

theorem inFlight_enqueue (t : Transaction) (k : Bool) (addr : HexAddr) :
    (f.enqueue cfg t).inFlight cfg k addr =
      f.inFlight cfg k addr + if matchesTrans k addr t then 1 else 0 := by
  have h := waitCount_update (f := f) (cfg.laneOf t) (f.waiting (cfg.laneOf t) ++ [t]) k addr
  rw [List.countP_append, List.countP_singleton] at h
  have hwait : (f.enqueue cfg t).waitCount k addr =
      f.waitCount k addr + if matchesTrans k addr t then 1 else 0 := by
    unfold Flow.enqueue
    omega
  unfold inFlight
  rw [hwait]
  simp only [queueCount, ticketCount, Flow.enqueue]
  omega

theorem hasAddr_append (q : List Transaction) (t : Transaction) (addr : HexAddr) :
    hasAddr (q ++ [t]) addr = (hasAddr q addr || decide (t.addr = addr)) := by
  simp [hasAddr]

/-- What changing one queue does to the counts, when only requests of its address come or go. -/
theorem queueCount_update {q : List Command} {n n' : ℕ} (a : HexAddr) (k : Bool) (addr : HexAddr)
    (h : q.countP (matchesCmd k addr) + n = (f.queues (cfg.queueOf a)).countP (matchesCmd k addr) + n')
    (hne : addr ≠ a → n = n') :
    { f with queues := Function.update f.queues (cfg.queueOf a) q }.queueCount cfg k addr + n =
      f.queueCount cfg k addr + n' := by
  unfold queueCount
  by_cases hidx : cfg.queueOf addr = cfg.queueOf a
  · simp only [hidx, Function.update_self]
    exact h
  · simp only [Function.update_of_ne hidx, hne fun h => hidx (by rw [h])]

/-- Scheduling moves a request from its lane to its queue. -/
theorem inFlight_schedule {l : Lane} {pre post : List Transaction} {t : Transaction} {cmd : Command}
    (hq : f.waiting l = pre ++ t :: post) (hcmd : Carries cfg t cmd) (k : Bool) (addr : HexAddr) :
    { f with
      waiting := Function.update f.waiting l (pre ++ post)
      queues := Function.update f.queues (cfg.queueOf t.addr)
        (f.queues (cfg.queueOf t.addr) ++ [cmd]) }.inFlight cfg k addr = f.inFlight cfg k addr := by
  have hwait := waitCount_update (f := f) l (pre ++ post) k addr
  rw [hq] at hwait
  simp only [List.countP_append, List.countP_cons] at hwait
  have hmatch : matchesCmd k addr cmd = matchesTrans k addr t := by
    obtain ⟨h₁, _, h₃, _⟩ := hcmd
    rw [matchesCmd, matchesTrans, h₁, h₃]
  have hadd : (f.queues (cfg.queueOf t.addr) ++ [cmd]).countP (matchesCmd k addr) + 0 =
      (f.queues (cfg.queueOf t.addr)).countP (matchesCmd k addr) +
        if matchesTrans k addr t then 1 else 0 := by
    rw [List.countP_append, List.countP_singleton, hmatch, Nat.add_zero]
  have hqueue := queueCount_update t.addr k addr hadd fun hne => by
    rw [if_neg]
    simp only [matchesTrans, Bool.and_eq_true, decide_eq_true_eq]
    exact fun h => hne h.1.symm
  unfold inFlight
  simp only [queueCount, waitCount, ticketCount] at hwait hqueue ⊢
  omega

/-- Taking a request moves it from its queue to the ticket. -/
theorem inFlight_take {before after : List Command} {cmd : Command} (ht : f.ticket = none)
    (hq : f.queues (cfg.queueOf cmd.hexAddr) = before ++ cmd :: after) (k : Bool) (addr : HexAddr) :
    { f with
      queues := Function.update f.queues (cfg.queueOf cmd.hexAddr)
        ((f.queues (cfg.queueOf cmd.hexAddr)).eraseP fun c =>
          cmd.hexAddr = c.hexAddr && cmd.cmdType = c.cmdType)
      ticket := some cmd }.inFlight cfg k addr = f.inFlight cfg k addr := by
  have hmem : cmd ∈ f.queues (cfg.queueOf cmd.hexAddr) := by simp [hq]
  have herase := countP_eraseP_add (p := matchesCmd k addr)
    (q := fun c => cmd.hexAddr = c.hexAddr && cmd.cmdType = c.cmdType) hmem (by simp) fun y hy => by
      simp only [Bool.and_eq_true, decide_eq_true_eq] at hy
      rw [matchesCmd, matchesCmd, Command.isWrite, Command.isWrite, hy.1, hy.2]
  rw [← Nat.add_zero (List.countP (matchesCmd k addr) (f.queues _))] at herase
  have hqueue := queueCount_update cmd.hexAddr k addr herase fun hne => by
    rw [if_neg]
    simp only [matchesCmd, Bool.and_eq_true, decide_eq_true_eq]
    exact fun h => hne h.1.symm
  unfold inFlight
  simp only [queueCount, waitCount, ticketCount, ht, Option.toList_none, Option.toList_some,
    List.countP_nil, List.countP_singleton] at hqueue ⊢
  omega

theorem pending_true : f.pending true = f.pendingWr := rfl

theorem pending_false : f.pending false = f.pendingRd := rfl

/-- A new pending request goes on its way. -/
theorem Tracked.enter {t : Transaction} (hf : Tracked cfg f)
    (hnew : hasAddr (f.pending t.isWrite) t.addr = false)
    (hpend : ∀ k, f'.pending k = if k = t.isWrite then f.pending k ++ [t] else f.pending k)
    (hin : ∀ k addr, f'.inFlight cfg k addr =
      f.inFlight cfg k addr + if matchesTrans k addr t then 1 else 0)
    (hlost : ∀ k addr, f'.lost k addr = f.lost k addr) (hticket : f'.ticket = f.ticket) :
    Tracked cfg f' := by
  have hhas (k : Bool) (addr : HexAddr) :
      hasAddr (f'.pending k) addr = (hasAddr (f.pending k) addr || matchesTrans k addr t) := by
    rw [hpend, matchesTrans]
    split_ifs with hk
    · simp [hasAddr_append, hk]
    · simp [Ne.symm hk]
  have hzero (k : Bool) (addr : HexAddr) (hm : matchesTrans k addr t) :
      f.inFlight cfg k addr = 0 := by
    simp only [matchesTrans, Bool.and_eq_true, decide_eq_true_eq] at hm
    have := hf.upper k addr
    rw [← hm.1, ← hm.2, hnew] at this
    rw [← hm.1, ← hm.2]
    simpa using this
  refine ⟨fun k addr => ?_, fun k addr hne hl hp => ?_, fun addr => ?_, hticket ▸ hf.ticket⟩
  · rw [hin, hhas]
    cases hm : matchesTrans k addr t with
    | true => simp [hzero k addr hm]
    | false => simpa using hf.upper k addr
  · rw [hin]
    rw [hlost] at hl
    rw [hhas] at hp
    cases hm : matchesTrans k addr t with
    | true => simp
    | false =>
      rw [hm, Bool.or_false] at hp
      have := hf.lower k addr hne hl hp
      omega
  · rw [← pending_true, hpend]
    split_ifs with hk
    · rw [List.countP_append, List.countP_singleton]
      split_ifs with ha
      · have : f.pendingWr.countP (fun t => t.addr = addr) = 0 := by
          rw [← hk, pending_true] at hnew
          rw [List.countP_eq_zero]
          simp only [hasAddr, List.any_eq_false] at hnew
          simp only [decide_eq_true_eq] at ha
          exact ha ▸ hnew
        rw [pending_true, this]
      · exact hf.single addr
    · exact hf.single addr

/-- The request on the ticket leaves. -/
theorem Tracked.leave {cmd : Command} (hf : Tracked cfg f) (ht : f.ticket = some cmd)
    (hw : f'.waiting = f.waiting) (hq : f'.queues = f.queues) (ht' : f'.ticket = none)
    (hhas : ∀ k addr, matchesCmd k addr cmd = false →
      hasAddr (f'.pending k) addr = hasAddr (f.pending k) addr)
    (hgone : ∀ k addr, matchesCmd k addr cmd → addr ≠ noAddr → f'.lost k addr = false →
      hasAddr (f'.pending k) addr = false)
    (hlost : ∀ k addr, f'.lost k addr = false → f.lost k addr = false)
    (hsingle : ∀ addr, f'.pendingWr.countP (fun t => t.addr = addr) ≤ 1) : Tracked cfg f' := by
  have hin (k : Bool) (addr : HexAddr) : f'.inFlight cfg k addr +
      (if matchesCmd k addr cmd then 1 else 0) = f.inFlight cfg k addr := by
    simp [inFlight, waitCount, queueCount, ticketCount, hw, hq, ht', ht, List.countP_singleton]
  refine ⟨fun k addr => ?_, fun k addr hne hl hp => ?_, hsingle, fun cmd h => by simp [ht'] at h⟩
  · have hup := hf.upper k addr
    have hadd := hin k addr
    cases hm : matchesCmd k addr cmd with
    | true =>
      rw [hm, if_pos rfl] at hadd
      split_ifs at hup <;> omega
    | false =>
      rw [hm] at hadd
      rw [hhas k addr hm]
      simp only [Bool.false_eq_true, if_false] at hadd
      omega
  · have hadd := hin k addr
    cases hm : matchesCmd k addr cmd with
    | true => simp [hgone k addr hm hne hl] at hp
    | false =>
      rw [hhas k addr hm] at hp
      have := hf.lower k addr hne (hlost k addr hl) hp
      simp only [hm, Bool.false_eq_true, if_false] at hadd
      omega

theorem hasAddr_iff {q : List Transaction} {addr : HexAddr} :
    hasAddr q addr ↔ ∃ t ∈ q, t.addr = addr := by
  simp [hasAddr]

theorem hasAddr_filter_ne {q : List Transaction} {a addr : HexAddr} (h : addr ≠ a) :
    hasAddr (q.filter fun t => t.addr ≠ a) addr = hasAddr q addr := by
  rw [Bool.eq_iff_iff, hasAddr_iff, hasAddr_iff]
  simp only [List.mem_filter, decide_eq_true_eq]
  exact ⟨fun ⟨t, ht, ha⟩ => ⟨t, ht.1, ha⟩, fun ⟨t, ht, ha⟩ => ⟨t, ⟨ht, ha ▸ h⟩, ha⟩⟩

theorem hasAddr_filter_self {q : List Transaction} {a : HexAddr} :
    hasAddr (q.filter fun t => t.addr ≠ a) a = false := by
  simp [hasAddr]

theorem hasAddr_eraseP_ne {q : List Transaction} {a addr : HexAddr} (h : addr ≠ a) :
    hasAddr (q.eraseP fun t => t.addr = a) addr = hasAddr q addr := by
  rw [Bool.eq_iff_iff, hasAddr_iff, hasAddr_iff]
  refine ⟨fun ⟨t, ht, ha⟩ => ⟨t, List.mem_of_mem_eraseP ht, ha⟩, fun ⟨t, ht, ha⟩ => ⟨t, ?_, ha⟩⟩
  refine (List.mem_eraseP_of_neg ?_).mpr ht
  simpa [ha] using h

theorem hasAddr_eraseP_self {q : List Transaction} {a : HexAddr}
    (h : q.countP (fun t => t.addr = a) ≤ 1) : hasAddr (q.eraseP fun t => t.addr = a) a = false := by
  by_contra hhas
  obtain ⟨t, ht, ha⟩ := hasAddr_iff.mp (by simpa using hhas)
  have hadd := countP_eraseP_add (p := fun t : Transaction => t.addr = a) (List.mem_of_mem_eraseP ht)
    (q := fun t : Transaction => t.addr = a) (by simpa using ha) fun y hy => by simpa [ha] using hy
  have hpos := List.countP_pos_iff (p := fun t : Transaction => decide (t.addr = a)).mpr ⟨t, ht, by simpa using ha⟩
  rw [if_pos (by simpa using ha)] at hadd
  omega

theorem matchesCmd_iff {k : Bool} {addr : HexAddr} {cmd : Command} :
    matchesCmd k addr cmd ↔ cmd.hexAddr = addr ∧ cmd.isWrite = k := by
  simp [matchesCmd]

theorem Tracked.step (hf : Tracked cfg f) (h : Step cfg π f f') : Tracked cfg f' := by
  cases h with
  | mergeWrite | forward | handBack | endTick =>
    exact hf.congr (fun _ _ => rfl) (fun _ _ => rfl) (fun _ _ => by simp [lost]) rfl hf.ticket
  | @newWrite t done ht _ hw hp =>
    refine hf.enter (t := t) (by simpa [hw, pending_true] using hp) (fun k => ?_)
      (inFlight_enqueue t) (fun _ _ => by simp [lost, enqueue]) rfl
    cases k <;> simp [pending, enqueue, hw]
  | @mergeRead t ht _ hw hp hr =>
    refine hf.congr (fun _ _ => rfl) (fun k addr => ?_) (fun _ _ => by simp [lost]) rfl hf.ticket
    cases k with
    | true => rfl
    | false =>
      rw [pending_false, pending_false, hasAddr_append]
      by_cases ha : t.addr = addr
      · subst ha
        simp [hr]
      · simp [ha]
  | @newRead t ht _ hw hp hr =>
    refine hf.enter (t := t) (by simpa [hw, pending_false] using hr) (fun k => ?_)
      (inFlight_enqueue t) (fun _ _ => by simp [lost, enqueue]) rfl
    cases k <;> simp [pending, enqueue, hw]
  | schedule ht _ hq hcmd =>
    exact hf.congr (inFlight_schedule hq hcmd) (fun _ _ => rfl) (fun _ _ => rfl) rfl hf.ticket
  | take ht hrw _ hq =>
    refine hf.congr (inFlight_take ht hq) (fun _ _ => rfl) (fun _ _ => rfl) rfl fun cmd h => ?_
    cases h
    exact hrw
  | @serveRead cmd n ht hr hne hp =>
    have hw := isWrite_of_isRead hr
    refine hf.leave ht rfl rfl rfl (fun k addr hm => ?_) (fun k addr hm _ _ => ?_)
      (fun _ _ h => by simpa [lost] using h) hf.single
    · cases k with
      | true => rfl
      | false => exact hasAddr_filter_ne fun ha => by simp [matchesCmd, ha, hw] at hm
    · obtain ⟨rfl, rfl⟩ := matchesCmd_iff.mp hm
      rw [hw]
      exact hasAddr_filter_self
  | @serveWrite cmd ht hw hne hp =>
    refine hf.leave ht rfl rfl rfl (fun k addr hm => ?_) (fun k addr hm _ _ => ?_)
      (fun _ _ h => by simpa [lost] using h) fun addr => ?_
    · cases k with
      | false => rfl
      | true => exact hasAddr_eraseP_ne fun ha => by simp [matchesCmd, ha, hw] at hm
    · obtain ⟨rfl, rfl⟩ := matchesCmd_iff.mp hm
      rw [hw]
      exact hasAddr_eraseP_self (hf.single _)
    · exact (List.Sublist.countP_le (List.eraseP_sublist)).trans (hf.single addr)
  | serveNone ht hno =>
    refine hf.leave ht rfl rfl rfl (fun _ _ _ => rfl) (fun k addr hm hne _ => ?_)
      (fun _ _ h => by simpa [lost] using h) hf.single
    exact absurd ((matchesCmd_iff.mp hm).1.symm.trans hno) hne
  | issueOther ht =>
    refine hf.congr (fun k addr => ?_) (fun _ _ => rfl) (fun _ _ => by simp [lost]) rfl
      fun _ h => nomatch h
    simp [inFlight, waitCount, queueCount, ticketCount, ht]
  | @lose p first ht =>
    refine hf.leave ht rfl rfl rfl (fun _ _ _ => rfl) (fun k addr hm _ hl => ?_) (fun k addr h => ?_)
      hf.single
    · simp [lost, hm, hf.ticket _ ht] at hl
    · simp only [lost, List.any_cons, Bool.or_eq_false_iff] at h
      exact h.2
  | dropOther ht hrw =>
    refine hf.congr (fun k addr => ?_) (fun _ _ => rfl) (fun _ _ => by simp [lost, hrw]) rfl
      fun _ h => nomatch h
    simp [inFlight, waitCount, queueCount, ticketCount, ht]

def accepts (k : Bool) (addr : HexAddr) : TransEvent → Bool
  | .accepted t _ => matchesTrans k addr t
  | _ => false

def returns (k : Bool) (addr : HexAddr) : TransEvent → Bool
  | .returned a w => matchesTrans k addr { addr := a, isWrite := w }
  | _ => false

theorem countP_accepts {k : Bool} {addr : HexAddr} {l : List TransEvent} (t : Transaction) (fwd : Bool) :
    (.accepted t fwd :: l).countP (accepts k addr) =
      l.countP (accepts k addr) + if matchesTrans k addr t then 1 else 0 :=
  List.countP_cons

theorem countP_returns {k : Bool} {addr : HexAddr} {l : List TransEvent} (t : Transaction) :
    (.returned t.addr t.isWrite :: l).countP (returns k addr) =
      l.countP (returns k addr) + if matchesTrans k addr t then 1 else 0 :=
  List.countP_cons

def acceptedCount (f : Flow) (k : Bool) (addr : HexAddr) : ℕ := f.log.countP (accepts k addr)

def returnedCount (f : Flow) (k : Bool) (addr : HexAddr) : ℕ := f.log.countP (returns k addr)

/-- What was accepted has been returned, is being returned or is a pending read. -/
structure Conserved (f : Flow) : Prop where
  balance : ∀ k addr, f.acceptedCount k addr = f.returnedCount k addr +
    f.returning.countP (matchesTrans k addr) + f.pendingRd.countP (matchesTrans k addr)
  reads : ∀ t ∈ f.pendingRd, t.isWrite = false
  lanes : (∀ t ∈ f.waiting .write, t.isWrite) ∧ ∀ t ∈ f.waiting .read, t.isWrite = false

theorem lanes_enqueue (t : Transaction)
    (h : (∀ t ∈ f.waiting .write, t.isWrite) ∧ ∀ t ∈ f.waiting .read, t.isWrite = false) :
    (∀ t' ∈ (f.enqueue cfg t).waiting .write, t'.isWrite) ∧
      ∀ t' ∈ (f.enqueue cfg t).waiting .read, t'.isWrite = false := by
  unfold Flow.enqueue Config.laneOf
  split_ifs with hu hw <;> simp only [Function.update_apply, reduceCtorEq, if_false, if_true,
    List.mem_append, List.mem_singleton]
  · exact h
  · exact ⟨fun t' ht' => ht'.elim (h.1 t') fun heq => heq ▸ hw, h.2⟩
  · exact ⟨h.1, fun t' ht' => ht'.elim (h.2 t') fun heq => heq ▸ by simpa using hw⟩

theorem matchesTrans_congr {t t' : Transaction} (h : t'.addr = t.addr ∧ t'.isWrite = t.isWrite)
    (k : Bool) (addr : HexAddr) : matchesTrans k addr t' = matchesTrans k addr t := by
  rw [matchesTrans, matchesTrans, h.1, h.2]

theorem Conserved.step (hf : Conserved f) (h : Step cfg π f f') : Conserved f' := by
  have happend {t : Transaction} (hw : t.isWrite = false) (t' : Transaction)
      (ht' : t' ∈ f.pendingRd ++ [t]) : t'.isWrite = false := by
    rcases List.mem_append.mp ht' with h | h
    · exact hf.reads t' h
    · rw [List.mem_singleton.mp h]
      exact hw
  have hret {k : Bool} {addr : HexAddr} {t : Transaction} {fwd : Bool} :
      (.accepted t fwd :: f.log).countP (returns k addr) = f.log.countP (returns k addr) :=
    List.countP_cons_of_neg Bool.false_ne_true
  cases h with
  | mergeWrite _ _ _ _ hd | forward _ _ _ _ hd =>
    refine ⟨fun k addr => ?_, hf.reads, hf.lanes⟩
    have hb := hf.balance k addr
    simp only [acceptedCount, returnedCount, countP_accepts, hret, List.countP_append,
      List.countP_singleton, matchesTrans_congr hd] at hb ⊢
    omega
  | @newWrite t _ _ _ _ _ hd =>
    refine ⟨fun k addr => ?_, hf.reads, lanes_enqueue t hf.lanes⟩
    have hb := hf.balance k addr
    simp only [acceptedCount, returnedCount, Flow.enqueue, countP_accepts, hret, List.countP_append,
      List.countP_singleton, matchesTrans_congr hd] at hb ⊢
    omega
  | mergeRead _ _ hw =>
    refine ⟨fun k addr => ?_, happend hw, hf.lanes⟩
    have hb := hf.balance k addr
    simp only [acceptedCount, returnedCount, countP_accepts, hret, List.countP_append,
      List.countP_singleton] at hb ⊢
    omega
  | @newRead t _ _ hw =>
    refine ⟨fun k addr => ?_, happend hw, lanes_enqueue t hf.lanes⟩
    have hb := hf.balance k addr
    simp only [acceptedCount, returnedCount, Flow.enqueue, countP_accepts, hret, List.countP_append,
      List.countP_singleton] at hb ⊢
    omega
  | @handBack t _ _ _ hq =>
    refine ⟨fun k addr => ?_, hf.reads, hf.lanes⟩
    have hb := hf.balance k addr
    rw [hq, List.countP_append, List.countP_cons] at hb
    have hacc : (.returned t.addr t.isWrite :: f.log).countP (accepts k addr) =
        f.log.countP (accepts k addr) := List.countP_cons_of_neg Bool.false_ne_true
    simp only [acceptedCount, returnedCount, countP_returns, hacc, List.countP_append] at hb ⊢
    omega
  | @schedule lane pre t post _ _ _ hq =>
    refine ⟨hf.balance, hf.reads, ?_⟩
    have hsub (t' : Transaction) (ht' : t' ∈ pre ++ post) : t' ∈ f.waiting lane := by
      rw [hq]
      simp only [List.mem_append, List.mem_cons] at ht' ⊢
      tauto
    cases lane with
    | unified => exact hf.lanes
    | write => exact ⟨fun t' ht' => hf.lanes.1 t' (hsub t' ht'), hf.lanes.2⟩
    | read => exact ⟨hf.lanes.1, fun t' ht' => hf.lanes.2 t' (hsub t' ht')⟩
  | @serveRead cmd n =>
    refine ⟨fun k addr => ?_, fun t ht => hf.reads t (List.mem_of_mem_filter ht), hf.lanes⟩
    have hb := hf.balance k addr
    have hsplit := List.countP_eq_countP_filter_add f.pendingRd (matchesTrans k addr)
      fun t => t.addr = cmd.hexAddr
    have hmap : ((f.pendingRd.filter fun t => t.addr = cmd.hexAddr).map fun t =>
        { t with completeCycle := n }).countP (matchesTrans k addr) =
          (f.pendingRd.filter fun t => t.addr = cmd.hexAddr).countP (matchesTrans k addr) := by
      rw [List.countP_map]
      rfl
    simp only [acceptedCount, returnedCount, List.countP_cons, List.countP_append, hmap, accepts,
      returns, ne_eq, decide_not, Bool.false_eq_true, if_false] at hb ⊢
    omega
  | serveWrite | serveNone | issueOther | lose | dropOther =>
    refine ⟨fun k addr => ?_, hf.reads, hf.lanes⟩
    have hb := hf.balance k addr
    simpa [acceptedCount, returnedCount, accepts, returns] using hb
  | take | endTick => exact ⟨hf.balance, hf.reads, hf.lanes⟩

end Flow

namespace Micro
variable {cfg : Config} {π : Policy} {m : Micro}

theorem Reached.tracked (hmode : cfg.hydraMode ≠ 1) (h : Reached cfg π m) :
    m.flow.Tracked cfg := by
  refine h.flow_induct hmode ⟨fun k addr => ?_, fun k addr _ _ h => ?_, fun _ => Nat.zero_le _,
    fun _ h => (nomatch h)⟩ fun _ _ _ hf hs => hf.step hs
  · simp [Flow.inFlight, Flow.waitCount, Flow.queueCount, Flow.ticketCount]
  · cases k <;> cases h

theorem Reached.conserved (hmode : cfg.hydraMode ≠ 1) (h : Reached cfg π m) : m.flow.Conserved :=
  h.flow_induct hmode ⟨fun _ _ => rfl, fun _ h => (nomatch h), fun _ h => (nomatch h),
    fun _ h => nomatch h⟩ fun _ _ _ hf hs => hf.step hs

/-- With spaced columns nothing is left out. -/
theorem Reached.not_lost (hcfg : cfg.ColumnSpaced) (hmode : cfg.hydraMode ≠ 1)
    (h : Reached cfg π m) (k : Bool) (addr : HexAddr) : m.flow.lost k addr = false := by
  refine h.flow_induct (P := fun f => f.lost k addr = false) hmode rfl fun m f' hm hf hs => ?_
  have hskip {e : TransEvent} (he : ∀ p, e = .dropped p → p.cmd.isReadWrite = false) :
      { m.flow with log := e :: m.flow.log }.lost k addr = false := by
    simp only [Flow.lost, List.any_cons, Bool.or_eq_false_iff]
    refine ⟨?_, hf⟩
    cases e with
    | dropped p => simp [he p rfl]
    | _ => rfl
  cases hs with
  | mergeWrite | newWrite | forward | mergeRead | newRead | handBack | serveRead | serveWrite
  | serveNone | issueOther => exact hskip fun p hp => nomatch hp
  | schedule | take | endTick => exact hf
  | dropOther _ hrw => exact hskip fun p hp => by cases hp; exact hrw
  | lose ht hissued hfirst =>
    rw [hm.first_not_column hcfg hmode ht hissued] at hfirst
    cases hfirst

theorem Reached.allowed (hmode : cfg.hydraMode ≠ 1) (h : Reached cfg π m) (k : Bool) :
    ∀ t ∈ m.flow.pending k, π.allowed t.addr := by
  have hboth : (∀ t ∈ m.flow.pendingRd, π.allowed t.addr) ∧
      ∀ t ∈ m.flow.pendingWr, π.allowed t.addr := by
    refine h.flow_induct (P := fun f => (∀ t ∈ f.pendingRd, π.allowed t.addr) ∧
      ∀ t ∈ f.pendingWr, π.allowed t.addr) hmode ⟨fun _ h => (nomatch h), fun _ h => nomatch h⟩
      fun m f' _ hf hs => ?_
    have happend {q : List Transaction} {t : Transaction} (hq : ∀ t ∈ q, π.allowed t.addr)
        (ht : π.allowed t.addr) (t' : Transaction) (ht' : t' ∈ q ++ [t]) : π.allowed t'.addr := by
      rcases List.mem_append.mp ht' with h | h
      · exact hq t' h
      · rw [List.mem_singleton.mp h]
        exact ht
    cases hs with
    | newWrite _ ha => exact ⟨hf.1, happend hf.2 ha⟩
    | mergeRead _ ha | newRead _ ha => exact ⟨happend hf.1 ha, hf.2⟩
    | serveRead => exact ⟨fun t ht => hf.1 t (List.mem_of_mem_filter ht), hf.2⟩
    | serveWrite => exact ⟨hf.1, fun t ht => hf.2 t (List.mem_of_mem_eraseP ht)⟩
    | mergeWrite | forward | handBack | schedule | take | serveNone | issueOther | lose | dropOther
    | endTick => exact hf
  cases k with
  | true => exact hboth.2
  | false => exact hboth.1

/-- A ticket has its transaction. -/
theorem Reached.ticket_pending (hmode : cfg.hydraMode ≠ 1) (h : Reached cfg π m) {p : Pick}
    (hp : m.ticket = some p) (hrw : p.cmd.isReadWrite) :
    hasAddr (m.flow.pending p.cmd.isWrite) p.cmd.hexAddr := by
  have hup := (h.tracked hmode).upper p.cmd.isWrite p.cmd.hexAddr
  have hticket : m.flow.ticketCount p.cmd.isWrite p.cmd.hexAddr = 1 := by
    simp [Flow.ticketCount, Micro.flow, hp, Option.filter, hrw, Flow.matchesCmd]
  by_contra hno
  rw [if_neg hno, Flow.inFlight, hticket] at hup
  omega

/-- No step fails because a transaction or its request is missing. -/
theorem Fails.not_missing (hmode : cfg.hydraMode ≠ 1) (hm : Reached cfg π m) {e : Exit}
    (h : Fails cfg m e) : e ≠ .notInReadQueue ∧ e ≠ .notInWriteQueue ∧ e ≠ .cannotFindCmd := by
  have habrupt {e : Exit} (h : e.IsAbrupt) :
      e ≠ .notInReadQueue ∧ e ≠ .notInWriteQueue ∧ e ≠ .cannotFindCmd := by
    obtain ⟨site, rfl⟩ := h
    simp
  have hready := hm.ready
  have hwell := hm.wellQueued
  have hhydra {c : Controller} {ticket : Option Pick} {issued : List Command}
      (hr : Chan.Ready cfg (⟨c, ticket, issued⟩ : Micro).chan) :
      c.channelState.getReadyHydraCommand cfg c.clk = .ok (none, c.channelState) := by
    obtain ⟨h₁, h₂, h₃⟩ := hr.regular.hydraOff hmode
    exact ChannelState.getReadyHydraCommand_off h₃ h₁ h₂
  cases h with
  | noRefresh | noRFM => simp
  | start _ h =>
    unfold CommandQueue.maintenanceQIndices at h
    split at h
    · cases h
    · split at h
      · cases h
        simp
      · split at h <;> cases h
  | query _ h =>
    rcases ChannelState.getReadyCommand_error h with h | ⟨i, h⟩
    · exact habrupt h.1
    · exact habrupt ⟨_, BankState.requiredType_error h⟩
  | hydraQuery h =>
    rw [hhydra hready] at h
    cases h
  | erase hc hrw h =>
    cases hc with
    | hydra h' =>
      rw [hhydra hready] at h'
      cases h'
    | @demand before cmd after _ _ hqueue _ hanswer =>
      obtain rfl := (ChannelState.getReadyCommand_answer hanswer).eq_of_isReadWrite hrw
      rw [CommandQueue.eraseRWCommand, if_pos (hwell.any_same hqueue)] at h
      cases h
  | issue h =>
    rcases issueCommand_error h with ⟨hr, _, hno, _⟩ | ⟨hw, _, hno, _⟩ | ⟨_, rfl⟩ | h
    · have := hm.ticket_pending hmode rfl (by simp [Command.isReadWrite, hr])
      rw [isWrite_of_isRead hr, Flow.pending_false] at this
      simp [Micro.flow, hno] at this
    · have := hm.ticket_pending hmode rfl (by simp [Command.isReadWrite, hw])
      rw [hw, Flow.pending_true] at this
      simp [Micro.flow, hno] at this
    · exact habrupt ⟨_, rfl⟩
    · rcases ChannelState.updateTimingAndStates_error h with h | h | ⟨i, _, h⟩
      · exact habrupt h.1
      · exact habrupt h.2
      · exact habrupt (BankState.updateState_error h)

end Micro

namespace Controller
variable (cfg : Config) (c : Controller)

/-- The reads, or writes, among some transactions, as a multiset of addresses. -/
def addrsOf (k : Bool) (q : List Transaction) : Multiset HexAddr :=
  ((q.filter fun t => t.isWrite = k).map Transaction.addr : List HexAddr)

def acceptedAddrs (k : Bool) : Multiset HexAddr :=
  addrsOf k (c.log.filterMap fun
    | .accepted t _ => some t
    | _ => none)

def returnedAddrs (k : Bool) : Multiset HexAddr :=
  addrsOf k (c.log.filterMap fun
    | .returned addr isWrite => some { addr := addr, isWrite := isWrite }
    | _ => none)

/-- The reads of an address in the read queue, the unified queue and the command queues. -/
def readsOf (addr : HexAddr) : ℕ :=
  (c.readQueue ++ c.unifiedQueue).countP (fun t => t.addr = addr && !t.isWrite) +
    ∑ n ∈ Finset.range (CommandQueue.numQueues cfg),
      (c.cmdQueue.queues n).countP fun cmd => cmd.hexAddr = addr && cmd.isRead

/-- The writes of an address in the write buffer, the unified queue and the command queues. -/
def writesOf (addr : HexAddr) : ℕ :=
  (c.writeBuffer ++ c.unifiedQueue).countP (fun t => t.addr = addr && t.isWrite) +
    ∑ n ∈ Finset.range (CommandQueue.numQueues cfg),
      (c.cmdQueue.queues n).countP fun cmd => cmd.hexAddr = addr && cmd.isWrite

/-- Every accepted read has been returned, is being returned or is pending; every accepted write
has been returned or is being returned; a pending address has exactly one request on its way, any
other address none. -/
structure Complete : Prop where
  reads : c.acceptedAddrs false = c.returnedAddrs false + addrsOf false c.returnQueue +
    (c.pendingRdQ.map Transaction.addr : List HexAddr)
  writes : c.acceptedAddrs true = c.returnedAddrs true + addrsOf true c.returnQueue
  pendingRd : ∀ addr, c.readsOf cfg addr = if hasAddr c.pendingRdQ addr then 1 else 0
  pendingWr : ∀ addr, c.writesOf cfg addr = if hasAddr c.pendingWrQ addr then 1 else 0

variable {cfg c}

theorem count_addrsOf (k : Bool) (q : List Transaction) (addr : HexAddr) :
    (addrsOf k q).count addr = q.countP (Flow.matchesTrans k addr) := by
  rw [addrsOf, Multiset.coe_count, List.count, List.countP_map, List.countP_filter]
  congr 1

theorem count_acceptedAddrs (k : Bool) (addr : HexAddr) :
    (c.acceptedAddrs k).count addr = c.log.countP (Flow.accepts k addr) := by
  rw [acceptedAddrs, count_addrsOf, List.countP_filterMap]
  congr 1
  funext e
  cases e <;> rfl

theorem count_returnedAddrs (k : Bool) (addr : HexAddr) :
    (c.returnedAddrs k).count addr = c.log.countP (Flow.returns k addr) := by
  rw [returnedAddrs, count_addrsOf, List.countP_filterMap]
  congr 1
  funext e
  cases e <;> rfl

/-- Only the queue of an address holds requests of it. -/
theorem sum_queues (hwell : c.cmdQueue.WellQueued cfg) {p : Command → Bool} (k : Bool) (addr : HexAddr)
    (hp : ∀ cmd, cmd.isReadWrite → p cmd = Flow.matchesCmd k addr cmd) :
    ∑ n ∈ Finset.range (CommandQueue.numQueues cfg), (c.cmdQueue.queues n).countP p =
      (c.cmdQueue.queues (cfg.queueOf addr)).countP (Flow.matchesCmd k addr) := by
  obtain ⟨n, hn, hidx⟩ := CommandQueue.getQueueIndex_lt cfg addr
  rw [Finset.sum_eq_single n, Config.queueOf, hidx]
  · refine List.countP_congr fun cmd hcmd => ?_
    rw [hp cmd (hwell _ cmd hcmd).2.1]
  · intro n' _ hne
    rw [List.countP_eq_zero]
    intro cmd hcmd hmatch
    obtain ⟨hown, hrw, haddr⟩ := hwell _ cmd hcmd
    rw [hp cmd hrw] at hmatch
    refine hne ?_
    rw [Command.bankId, haddr, (Flow.matchesCmd_iff.mp hmatch).1, hidx] at hown
    exact_mod_cast hown
  · exact fun h => absurd (Finset.mem_range.mpr hn) h

theorem readsOf_eq (hwell : c.cmdQueue.WellQueued cfg) (hcons : (Micro.rest c).flow.Conserved)
    (addr : HexAddr) : c.readsOf cfg addr = (Micro.rest c).flow.inFlight cfg false addr := by
  have hother : c.writeBuffer.countP (Flow.matchesTrans false addr) = 0 := by
    rw [List.countP_eq_zero]
    intro t ht
    have : t.isWrite := hcons.lanes.1 t ht
    simp [Flow.matchesTrans, this]
  have hsame : (fun t : Transaction => decide (t.addr = addr) && !t.isWrite) =
      Flow.matchesTrans false addr := by
    funext t
    simp [Flow.matchesTrans]
  have hwait : (Micro.rest c).flow.waitCount false addr =
      c.unifiedQueue.countP (Flow.matchesTrans false addr) +
        c.writeBuffer.countP (Flow.matchesTrans false addr) +
        c.readQueue.countP (Flow.matchesTrans false addr) := rfl
  rw [readsOf, sum_queues hwell false addr, hsame, List.countP_append, Flow.inFlight,
    hwait, hother, Flow.queueCount, Flow.ticketCount]
  · simp only [Micro.flow, Micro.rest, Option.map_none, Option.filter_none, Option.toList_none,
      List.countP_nil]
    omega
  · intro cmd hrw
    cases hr : cmd.isRead with
    | true => simp [Flow.matchesCmd, isWrite_of_isRead hr]
    | false =>
      rw [Command.isReadWrite, hr, Bool.false_or] at hrw
      simp [Flow.matchesCmd, hrw]

theorem writesOf_eq (hwell : c.cmdQueue.WellQueued cfg) (hcons : (Micro.rest c).flow.Conserved)
    (addr : HexAddr) : c.writesOf cfg addr = (Micro.rest c).flow.inFlight cfg true addr := by
  have hother : c.readQueue.countP (Flow.matchesTrans true addr) = 0 := by
    rw [List.countP_eq_zero]
    intro t ht
    have : t.isWrite = false := hcons.lanes.2 t ht
    simp [Flow.matchesTrans, this]
  have hsame : (fun t : Transaction => decide (t.addr = addr) && t.isWrite) =
      Flow.matchesTrans true addr := by
    funext t
    simp [Flow.matchesTrans]
  have hwait : (Micro.rest c).flow.waitCount true addr =
      c.unifiedQueue.countP (Flow.matchesTrans true addr) +
        c.writeBuffer.countP (Flow.matchesTrans true addr) +
        c.readQueue.countP (Flow.matchesTrans true addr) := rfl
  rw [writesOf, sum_queues hwell true addr, hsame, List.countP_append, Flow.inFlight,
    hwait, hother, Flow.queueCount, Flow.ticketCount]
  · simp only [Micro.flow, Micro.rest, Option.map_none, Option.filter_none, Option.toList_none,
      List.countP_nil]
    omega
  · intro cmd _
    simp [Flow.matchesCmd]

end Controller

namespace Micro
variable {cfg : Config} {π : Policy} {c : Controller}

theorem Reached.complete (hmode : cfg.hydraMode ≠ 1) (hcfg : cfg.ColumnSpaced)
    (hπ : ∀ addr, π.allowed addr → addr ≠ noAddr) (h : Reached cfg π (rest c)) : c.Complete cfg := by
  have hcons := h.conserved hmode
  have htrack := h.tracked hmode
  have hin (k : Bool) (addr : HexAddr) : (rest c).flow.inFlight cfg k addr =
      if hasAddr ((rest c).flow.pending k) addr then 1 else 0 := by
    refine le_antisymm (htrack.upper k addr) ?_
    split_ifs with hp
    · obtain ⟨t, ht, rfl⟩ := Flow.hasAddr_iff.mp hp
      exact htrack.lower k _ (hπ _ (h.allowed hmode k t ht)) (h.not_lost hcfg hmode k _) hp
    · exact Nat.zero_le _
  refine ⟨Multiset.ext.mpr fun addr => ?_, Multiset.ext.mpr fun addr => ?_, fun addr => ?_, fun addr => ?_⟩
  · have hb := hcons.balance false addr
    have hrd : (c.pendingRdQ.map Transaction.addr).count addr =
        c.pendingRdQ.countP (Flow.matchesTrans false addr) := by
      rw [List.count, List.countP_map]
      refine List.countP_congr fun t ht => ?_
      simp [Flow.matchesTrans, hcons.reads t ht]
    rw [Multiset.count_add, Multiset.count_add, count_acceptedAddrs, count_returnedAddrs,
      count_addrsOf, Multiset.coe_count, hrd]
    exact hb
  · have hb := hcons.balance true addr
    have hrd : c.pendingRdQ.countP (Flow.matchesTrans true addr) = 0 := by
      rw [List.countP_eq_zero]
      intro t ht
      simp [Flow.matchesTrans, hcons.reads t ht]
    rw [Multiset.count_add, count_acceptedAddrs, count_returnedAddrs, count_addrsOf]
    exact hb.trans (by rw [show (rest c).flow.pendingRd = c.pendingRdQ from rfl, hrd]; rfl)
  · rw [readsOf_eq (c := c) h.wellQueued hcons]
    exact hin false addr
  · rw [writesOf_eq (c := c) h.wellQueued hcons]
    exact hin true addr

end Micro

/-- No transaction is lost, duplicated or answered twice, and no request misses its entry. -/
theorem no_transaction_lost (cfg : Config) (hmode : cfg.hydraMode = 0) (hcfg : cfg.ColumnSpaced)
    (boot : Boot cfg) (inputs : List Input)
    (haddr : ∀ addr isWrite, Input.addTransaction addr isWrite ∈ inputs → addr ≠ noAddr) :
    (∀ c, boot.controller.run cfg inputs = .ok c → c.Complete cfg) ∧
      ∀ e, boot.controller.run cfg inputs = .error e →
        e ≠ .notInReadQueue ∧ e ≠ .notInWriteQueue ∧ e ≠ .cannotFindCmd := by
  have hoff : cfg.hydraMode ≠ 1 := by omega
  have hmeets : Micro.Meets cfg (.addresses (· ≠ noAddr)) boot.controller inputs :=
    Micro.meets_addresses haddr _
  refine ⟨fun c hc => ?_, fun e he => ?_⟩
  · exact (Micro.reached_of_run hmeets hc).complete hoff hcfg fun _ h => h
  · obtain ⟨m, hm, hfail⟩ := Micro.fails_of_run hmeets he
    exact hfail.not_missing hoff hm

def hbmConfig : Config := { smallConfig with protocol := .hbm2, tRCDRD := 1, tRCDWR := 1 }

/-- Two reads of one address that are merged, a write of it and a read that is forwarded. -/
def mixedInputs : List Input :=
  [.addTransaction 0 false, .addTransaction 0 false, .addTransaction 0 true] ++
    Input.request 0 false 12 ++ [.returnDoneTrans 12, .returnDoneTrans 12]

theorem columnSpaced_hbmConfig : hbmConfig.ColumnSpaced := by
  intro table htable ty hty d hd hcol
  simp only [List.mem_cons, List.not_mem_nil, or_false] at htable
  rcases htable with rfl | rfl | rfl | rfl <;> cases ty <;> first
    | exact absurd hty (by decide)
    | exact (by decide +kernel : ∀ d ∈ _, CommandType.isColumn d.1 → (1 : ℤ) ≤ d.2) d hd hcol

theorem mixedInputs_addr (addr : HexAddr) (isWrite : Bool)
    (h : .addTransaction addr isWrite ∈ mixedInputs) : addr ≠ noAddr := by
  have : addr = 0 := by
    simp [mixedInputs, Input.request] at h
    rcases h with h | h | h <;> exact h.1
  rw [this]
  decide

theorem no_transaction_lost_hbm : hbmConfig.ColumnSpaced ∧ ∃ c,
    ({} : Boot hbmConfig).controller.run hbmConfig mixedInputs = .ok c ∧
      c.returnQueue.length = 2 ∧ c.Complete hbmConfig := by
  obtain ⟨c, hrun, hc⟩ := exists_ok_of_any
    (x := ({} : Boot hbmConfig).controller.run hbmConfig mixedInputs)
    (p := fun c => c.returnQueue.length = 2) (by decide +kernel)
  refine ⟨columnSpaced_hbmConfig, c, hrun, by simpa using hc, ?_⟩
  exact (no_transaction_lost hbmConfig rfl columnSpaced_hbmConfig {} mixedInputs mixedInputs_addr).1 c hrun

end CactusDram
