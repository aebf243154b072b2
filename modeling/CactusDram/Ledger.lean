import CactusDram.Transactions
import CactusDram.System

/-! What a controller owes: the transactions that it holds until they are handed back, and those that it
has handed back. A tick changes neither. -/
namespace CactusDram
open Foundations

def Transaction.callback (t : Transaction) : Callback := ⟨t.addr, t.isWrite⟩

namespace Controller
variable {cfg : Config} {c c' : Controller} {x : Callback}

/-- The transactions of a kind that wait to be handed back, or for the data of a READ. -/
def held (c : Controller) (x : Callback) : ℕ :=
  c.returnQueue.countP (Flow.matchesTrans x.isWrite x.addr) +
    c.pendingRdQ.countP (Flow.matchesTrans x.isWrite x.addr)

def completed (c : Controller) (x : Callback) : ℕ := c.log.countP (Flow.returns x.isWrite x.addr)

def ledger (c : Controller) (x : Callback) : ℕ × ℕ := (c.held x, c.completed x)

theorem matchesTrans_iff {t : Transaction} : Flow.matchesTrans x.isWrite x.addr t ↔ t.callback = x := by
  obtain ⟨addr, isWrite⟩ := x
  simp [Flow.matchesTrans, Transaction.callback]

theorem enqueue_ledger (cfg : Config) (c : Controller) (t : Transaction) :
    (c.enqueue cfg t).ledger = c.ledger := by
  obtain ⟨u, r, w, heq⟩ := c.enqueue_eq cfg t
  rw [heq]
  rfl

/-- An accepted transaction is held. -/
theorem addTransaction_ledger (addr : HexAddr) (isWrite : Bool) :
    (c.addTransaction cfg addr isWrite).ledger x =
      (c.held x + if (⟨addr, isWrite⟩ : Callback) = x then 1 else 0, c.completed x) := by
  have haccepted : Accepted cfg c { addr := addr, addedCycle := c.clk, isWrite := isWrite }
      (c.addTransaction cfg addr isWrite) := addTransaction_accepted addr isWrite
  generalize htrans : ({ addr := addr, addedCycle := c.clk, isWrite := isWrite } : Transaction) = t
    at haccepted
  generalize c.addTransaction cfg addr isWrite = c' at haccepted
  have ht : t.callback = ⟨addr, isWrite⟩ := by
    rw [← htrans]
    rfl
  have hone : (if Flow.matchesTrans x.isWrite x.addr t then 1 else 0 : ℕ) =
      if (⟨addr, isWrite⟩ : Callback) = x then 1 else 0 := by
    rw [← ht]
    exact if_congr matchesTrans_iff rfl rfl
  have hdone (n : ℕ) : Flow.matchesTrans x.isWrite x.addr { t with completeCycle := n } =
      Flow.matchesTrans x.isWrite x.addr t := rfl
  have hlog (fwd : Bool) : (TransEvent.accepted t fwd :: c.log).countP (Flow.returns x.isWrite x.addr) =
      c.log.countP (Flow.returns x.isWrite x.addr) := List.countP_cons_of_neg Bool.false_ne_true
  cases haccepted with
  | mergeWrite | forward | mergeRead =>
    simp only [ledger, held, completed, List.countP_append, List.countP_singleton, hdone, hone, hlog,
      Prod.mk.injEq, and_true]
    omega
  | newWrite | newRead =>
    rw [enqueue_ledger]
    simp only [ledger, held, completed, List.countP_append, List.countP_singleton, hdone, hone, hlog,
      Prod.mk.injEq, and_true]
    omega

theorem returnDoneTrans_ledger {clk : ℕ} {t : Transaction}
    (h : c.returnQueue.find? (fun t => t.completeCycle ≤ clk) = some t) :
    (c.returnDoneTrans clk).held x + (if t.callback = x then 1 else 0) = c.held x ∧
      (c.returnDoneTrans clk).completed x = c.completed x + if t.callback = x then 1 else 0 := by
  obtain ⟨ht, pre, post, hq, hpre⟩ := List.find?_eq_some_iff_append.mp h
  have herase : c.returnQueue.eraseP (fun t => t.completeCycle ≤ clk) = pre ++ post := by
    rw [hq, List.eraseP_append_right _ fun t' ht' => by simpa using hpre t' ht',
      List.eraseP_cons_of_pos (p := fun t : Transaction => t.completeCycle ≤ clk) ht]
  have hone : (if Flow.matchesTrans x.isWrite x.addr t then 1 else 0 : ℕ) = if t.callback = x then 1 else 0 :=
    if_congr matchesTrans_iff rfl rfl
  unfold returnDoneTrans
  rw [h]
  dsimp only [record]
  constructor
  · simp only [held]
    rw [herase, hq]
    simp only [List.countP_append, List.countP_cons, hone]
    omega
  · rw [completed, Flow.countP_returns, hone]
    rfl

theorem issueCommand_ledger {p : Pick} (h : c.issueCommand cfg p = .ok c') : c'.ledger = c.ledger := by
  obtain ⟨c₁, cs', hserved, -, rfl⟩ := issueCommand_ok h
  funext x
  cases hserved with
  | read =>
    have hsplit := List.countP_eq_countP_filter_add c.pendingRdQ (Flow.matchesTrans x.isWrite x.addr)
      fun t => t.addr = p.cmd.hexAddr
    have hmap (q : List Transaction) (n : ℕ) : (q.map fun t => { t with completeCycle := n }).countP
        (Flow.matchesTrans x.isWrite x.addr) = q.countP (Flow.matchesTrans x.isWrite x.addr) := by
      rw [List.countP_map]
      rfl
    simp only [ledger, held, completed, record, List.countP_append, hmap, List.countP_cons, Flow.returns,
      ne_eq, decide_not, Bool.false_eq_true, if_false, add_zero, Prod.mk.injEq, and_true] at hsplit ⊢
    omega
  | write | other => simp [ledger, held, completed, record, Flow.returns]

theorem ledger_issueInvariant (cfg : Config) : IssueInvariant cfg ledger where
  choose _ _ _ := rfl
  issue _ _ _ h := issueCommand_ledger h
  leave c p := by
    funext x
    simp [ledger, held, completed, record, Flow.returns]

theorem clockTick_ledger (h : c.clockTick cfg = .ok c') : c'.ledger = c.ledger := by
  obtain ⟨c₁, hledger, rfl⟩ := (ledger_issueInvariant cfg).clockTick h
  obtain ⟨_, _, _, _, _, _, hsched⟩ := c₁.scheduleTransaction_frame cfg
  have hend : (c₁.scheduleTransaction cfg).endTick.ledger = c₁.ledger := by
    rw [hsched]
    rfl
  exact hend.trans hledger

end Controller

namespace JedecDRAMSystem
variable {c : Controller} {clk n : ℕ} {x : Callback}

theorem filter_eq_find?_cons {α : Type*} {p : α → Bool} {l : List α} {a : α} (h : l.find? p = some a) :
    l.filter p = a :: (l.eraseP p).filter p := by
  obtain ⟨ha, pre, post, rfl, hpre⟩ := List.find?_eq_some_iff_append.mp h
  have hnone : pre.filter p = [] := List.filter_eq_nil_iff.mpr fun b hb => by simpa using hpre b hb
  rw [List.eraseP_append_right _ fun b hb => by simpa using hpre b hb, List.eraseP_cons_of_pos ha,
    List.filter_append, List.filter_append, hnone, List.filter_cons_of_pos ha, List.nil_append,
    List.nil_append]

/-- What is due is handed back in the order of the return queue. -/
theorem returnLoop_eq (h : (c.returnQueue.filter fun t => t.completeCycle ≤ clk).length ≤ n) :
    (returnLoop clk n c).1 =
      (c.returnQueue.filter fun t => t.completeCycle ≤ clk).map Transaction.callback := by
  induction n generalizing c with
  | zero =>
    rw [List.length_eq_zero_iff.mp (Nat.le_zero.mp h)]
    rfl
  | succ n ih =>
    unfold returnLoop
    split
    · next t hfind =>
      have hcons := filter_eq_find?_cons hfind
      have hqueue : (c.returnDoneTrans clk).returnQueue =
          c.returnQueue.eraseP fun t => t.completeCycle ≤ clk := by
        unfold Controller.returnDoneTrans
        rw [hfind]
        rfl
      rw [hcons, List.length_cons, ← hqueue] at h
      rw [hcons, List.map_cons, ← hqueue, ← ih (by omega)]
      rfl
    · next hnone =>
      have hnil : (c.returnQueue.filter fun t => t.completeCycle ≤ clk) = [] :=
        List.filter_eq_nil_iff.mpr fun t ht => List.find?_eq_none.mp hnone t ht
      rw [hnil]
      rfl

theorem returnLoop_ledger (clk n : ℕ) (c : Controller) (x : Callback) :
    (returnLoop clk n c).2.held x + (returnLoop clk n c).1.count x = c.held x ∧
      (returnLoop clk n c).2.completed x = c.completed x + (returnLoop clk n c).1.count x := by
  induction n generalizing c with
  | zero => exact ⟨rfl, rfl⟩
  | succ n ih =>
    unfold returnLoop
    split
    · next t hfind =>
      obtain ⟨hheld, hcompleted⟩ := Controller.returnDoneTrans_ledger (x := x) hfind
      obtain ⟨hheld', hcompleted'⟩ := ih (c.returnDoneTrans clk)
      have hcount : (⟨t.addr, t.isWrite⟩ :: (returnLoop clk n (c.returnDoneTrans clk)).1).count x =
          (returnLoop clk n (c.returnDoneTrans clk)).1.count x + if t.callback = x then 1 else 0 :=
        List.count_cons.trans (congrArg _ (if_congr beq_iff_eq rfl rfl))
      dsimp only
      omega
    · exact ⟨rfl, rfl⟩

end JedecDRAMSystem
end CactusDram
