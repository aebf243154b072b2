import CactusDram.CPU
import CactusDram.Foundations.Pacing

/-! The covert channel over refresh management: how much sender and receiver add in each refresh window,
and when. The sender codes one bit per window in its number of requests. -/
namespace CactusDram
open Foundations

namespace CovChCPU
variable {M : Type} {mem : MemorySystem M} {cfg : Config} {gen : ℕ → HexAddr} {c₀ c c' : CovChCPU M}

/-- The first window in which the sender modulates. -/
def firstBit : ℕ := warmupIdx + sendInitReqs.length

/-- The bit of a window, as it is drawn. -/
def bit (gen : ℕ → HexAddr) (w : ℕ) : Bool := (gen (w + 1 - firstBit)).toNat % 2 = 1

/-- The requests that the sender may add in a window, after an initialisation. -/
def windowLimit (gen : ℕ → HexAddr) (c₀ : CovChCPU M) (w : ℕ) : ℕ :=
  if w < firstBit then sendInitReqs.getD (w - warmupIdx) 0
  else if bit gen w then c₀.send1Limit else c₀.send0Limit

/-- The distance between its requests. -/
def windowDist (gen : ℕ → HexAddr) (c₀ : CovChCPU M) (w : ℕ) : ℕ :=
  if w < firstBit then 0 else if bit gen w then c₀.send1ReqDist else c₀.send0ReqDist

/-- When the sender may add. -/
def MaySend (cfg : Config) (t : ℕ) : Prop :=
  warmupIdx * u64 cfg.tREFI ≤ t ∧ (firstBit * u64 cfg.tREFI ≤ t → spilled cfg ≤ t % u64 cfg.tREFI)

/-- When the receiver may add. -/
def MayRecv (cfg : Config) (t : ℕ) : Prop :=
  firstBit * u64 cfg.tREFI ≤ t ∧ spilled cfg ≤ t % u64 cfg.tREFI

/-- What is set once. -/
structure SamePlan (c₀ c : CovChCPU M) : Prop where
  send0Limit : c.send0Limit = c₀.send0Limit
  send0ReqDist : c.send0ReqDist = c₀.send0ReqDist
  send1Limit : c.send1Limit = c₀.send1Limit
  send1ReqDist : c.send1ReqDist = c₀.send1ReqDist
  recvReqDist : c.recvReqDist = c₀.recvReqDist

/-- The sender before the tick at `k`, when `w` is the last window it has looked at. -/
structure Sender (cfg : Config) (gen : ℕ → HexAddr) (c₀ c : CovChCPU M) (k w : ℕ) : Prop where
  init : c.sendInit = decide (firstBit * u64 cfg.tREFI < k)
  drawn : c.drawn = 1 + if firstBit * u64 cfg.tREFI < k then w + 1 - firstBit else 0
  limit : firstBit * u64 cfg.tREFI < k →
    c.sendLimit = windowLimit gen c₀ w ∧ c.sendReqDist = windowDist gen c₀ w
  reqs : c.sendWindowReqs = c.sends.countP fun t => t / u64 cfg.tREFI = w
  last : c.lastSendReqClk = c.sends.headD 0
  paced : Paced (u64 cfg.tREFI) (windowLimit gen c₀) (windowDist gen c₀) (MaySend cfg) c.sends k

structure Receiver (cfg : Config) (c₀ c : CovChCPU M) (k w : ℕ) : Prop where
  reqs : c.recvWindowReqs = c.recvs.countP fun t => t / u64 cfg.tREFI = w
  last : c.lastRecvReqClk = c.recvs.headD 0
  paced : Paced (u64 cfg.tREFI) (fun _ => u64 cfg.refRaaDecrement) (fun _ => c₀.recvReqDist) (MayRecv cfg)
    c.recvs k

structure Kept (cfg : Config) (gen : ℕ → HexAddr) (c₀ c : CovChCPU M) : Prop where
  plan : SamePlan c₀ c
  prev : 0 < c.clk → c.prevWindowIdx = (c.clk - 1) / u64 cfg.tREFI
  sender : Sender cfg gen c₀ c c.clk ((c.clk - 1) / u64 cfg.tREFI)
  receiver : Receiver cfg c₀ c c.clk ((c.clk - 1) / u64 cfg.tREFI)

/-- A tick of the sender, from the windows that it compares. -/
structure Looks (cfg : Config) (c : CovChCPU M) (k : ℕ) : Prop where
  clk : c.clk = k
  prev : c.prevWindowIdx = (k - 1) / u64 cfg.tREFI
  window : c.refWindow = k % u64 cfg.tREFI
  idx : c.refWindowIdx = k / u64 cfg.tREFI

theorem send_cases (mem : MemorySystem M) (c : CovChCPU M) : c.send mem = c ∨ ∃ cpu row, cpu.clk = c.clk ∧ c.send mem = { c with
    toCPU := cpu
    sendRowIdx := row
    sendWindowReqs := c.sendWindowReqs + 1
    lastSendReqClk := c.clk
    sends := c.clk :: c.sends } := by
  unfold send
  generalize c.sendAddr + BitVec.ofNat 64 (c.sendRowIdx * rowOffset) = addr
  rcases c.toCPU.offer_cases mem addr false with heq | ⟨_, heq⟩ <;> rw [heq]
  · exact .inl rfl
  · exact .inr ⟨⟨mem.addTransaction c.memorySystem addr false, c.clk, c.handed ++ [⟨c.clk, addr, false⟩]⟩,
      (c.sendRowIdx + 1) % maxRows, rfl, rfl⟩

theorem recv_cases (mem : MemorySystem M) (c : CovChCPU M) : c.recv mem = c ∨ ∃ cpu row, cpu.clk = c.clk ∧ c.recv mem = { c with
    toCPU := cpu
    recvRowIdx := row
    recvWindowReqs := c.recvWindowReqs + 1
    lastRecvReqClk := c.clk
    recvs := c.clk :: c.recvs } := by
  unfold recv
  generalize c.recvAddr + BitVec.ofNat 64 (c.recvRowIdx * rowOffset) = addr
  rcases c.toCPU.offer_cases mem addr false with heq | ⟨_, heq⟩ <;> rw [heq]
  · exact .inl rfl
  · exact .inr ⟨⟨mem.addTransaction c.memorySystem addr false, c.clk, c.handed ++ [⟨c.clk, addr, false⟩]⟩,
      (c.recvRowIdx + 1) % maxRows, rfl, rfl⟩

/-- The count of a window starts with it. -/
theorem count_of_window {k n : ℕ} {limit dist : ℕ → ℕ} {ok : ℕ → Prop} {times : List ℕ}
    (hpaced : Paced (u64 cfg.tREFI) limit dist ok times k)
    (hn : n = times.countP fun t => t / u64 cfg.tREFI = (k - 1) / u64 cfg.tREFI) :
    (if (k - 1) / u64 cfg.tREFI ≠ k / u64 cfg.tREFI then 0 else n) =
      times.countP fun t => t / u64 cfg.tREFI = k / u64 cfg.tREFI := by
  split_ifs with hnew
  · exact (hpaced.countP_new_window hnew).symm
  · rw [hn, not_not.mp hnew]

theorem Receiver.recv {k : ℕ} (hlast : c.lastRecvReqClk = c.recvs.headD 0)
    (hreqs : c.recvWindowReqs = c.recvs.countP fun t => t / u64 cfg.tREFI = k / u64 cfg.tREFI)
    (hpaced : Paced (u64 cfg.tREFI) (fun _ => u64 cfg.refRaaDecrement) (fun _ => c₀.recvReqDist)
      (MayRecv cfg) c.recvs k) (hclk : c.clk = k) (hroom : c.recvWindowReqs < u64 cfg.refRaaDecrement)
    (hdist : c₀.recvReqDist ≤ k - c.lastRecvReqClk) (hok : MayRecv cfg k) :
    Receiver cfg c₀ (c.recv mem) (k + 1) (k / u64 cfg.tREFI) := by
  rcases c.recv_cases mem with heq | ⟨cpu, row, _, heq⟩ <;> rw [heq]
  · exact ⟨hreqs, hlast, hpaced.wait⟩
  · rw [hreqs] at hroom
    rw [hlast] at hdist
    refine ⟨?_, ?_, ?_⟩
    · simp [hclk, hreqs]
    · rw [hclk]
      rfl
    · rw [hclk]
      exact hpaced.push hroom hdist hok

theorem Receiver.tickRecv (mem : MemorySystem M) {k : ℕ} (h : Receiver cfg c₀ c k ((k - 1) / u64 cfg.tREFI))
    (hlook : Looks cfg c k) (hplan : SamePlan c₀ c)
    (hinit : c.sendInit = decide (firstBit * u64 cfg.tREFI < k + 1)) :
    Receiver cfg c₀ (c.tickRecv mem cfg) (k + 1) (k / u64 cfg.tREFI) := by
  have hcount : (if c.prevWindowIdx ≠ c.refWindowIdx then 0 else c.recvWindowReqs) =
      c.recvs.countP fun t => t / u64 cfg.tREFI = k / u64 cfg.tREFI := by
    rw [hlook.prev, hlook.idx]
    exact count_of_window h.paced h.reqs
  have hstart : (if c.prevWindowIdx ≠ c.refWindowIdx then { c with recvWindowReqs := 0 } else c) =
      { c with recvWindowReqs := if c.prevWindowIdx ≠ c.refWindowIdx then 0 else c.recvWindowReqs } := by
    split_ifs <;> rfl
  unfold CovChCPU.tickRecv
  rw [hstart, hcount]
  have hwait : Receiver cfg c₀ { c with
      recvWindowReqs := c.recvs.countP fun t => t / u64 cfg.tREFI = k / u64 cfg.tREFI } (k + 1)
      (k / u64 cfg.tREFI) := ⟨rfl, h.last, h.paced.wait⟩
  dsimp only
  split_ifs with hoff hspill hdist hfull
  · exact hwait
  · exact hwait
  · exact hwait
  · exact hwait
  · rw [hinit] at hoff
    rw [hlook.window] at hspill
    rw [hlook.clk, hplan.recvReqDist] at hdist
    simp only [Bool.not_eq_true', decide_eq_false_iff_not, not_not] at hoff
    refine Receiver.recv h.last rfl h.paced hlook.clk (not_le.mp hfull) (not_lt.mp hdist) ⟨?_, ?_⟩
    · exact Nat.le_of_lt_succ hoff
    · exact not_lt.mp hspill

/-- The receiver leaves the sender alone. -/
theorem tickRecv_frame (mem : MemorySystem M) (cfg : Config) (c : CovChCPU M) : ∃ cpu row reqs last recvs, cpu.clk = c.clk ∧
    c.tickRecv mem cfg = { c with
      toCPU := cpu, recvRowIdx := row, recvWindowReqs := reqs, lastRecvReqClk := last, recvs := recvs } := by
  have hrecv (c : CovChCPU M) : ∃ cpu row reqs last recvs, cpu.clk = c.clk ∧ c.recv mem = { c with
      toCPU := cpu, recvRowIdx := row, recvWindowReqs := reqs, lastRecvReqClk := last, recvs := recvs } := by
    rcases c.recv_cases mem with heq | ⟨cpu, row, hclk, heq⟩ <;> rw [heq]
    · exact ⟨_, _, _, _, _, rfl, rfl⟩
    · exact ⟨cpu, row, _, _, _, hclk, rfl⟩
  unfold CovChCPU.tickRecv
  dsimp only
  split_ifs
  any_goals exact ⟨_, _, _, _, _, rfl, rfl⟩
  · obtain ⟨cpu, row, reqs, last, recvs, hclk, heq⟩ := hrecv { c with recvWindowReqs := 0 }
    exact ⟨cpu, row, reqs, last, recvs, hclk, heq⟩
  · exact hrecv c

/-- A sender that has looked at the window of the tick at `k`. -/
structure Looked (cfg : Config) (gen : ℕ → HexAddr) (c₀ c : CovChCPU M) (k : ℕ) : Prop where
  init : c.sendInit = decide (firstBit * u64 cfg.tREFI < k + 1)
  drawn : c.drawn = 1 + if firstBit * u64 cfg.tREFI < k + 1 then k / u64 cfg.tREFI + 1 - firstBit else 0
  limit : firstBit * u64 cfg.tREFI < k + 1 → c.sendLimit = windowLimit gen c₀ (k / u64 cfg.tREFI) ∧
    c.sendReqDist = windowDist gen c₀ (k / u64 cfg.tREFI)
  reqs : c.sendWindowReqs = c.sends.countP fun t => t / u64 cfg.tREFI = k / u64 cfg.tREFI
  last : c.lastSendReqClk = c.sends.headD 0
  paced : Paced (u64 cfg.tREFI) (windowLimit gen c₀) (windowDist gen c₀) (MaySend cfg) c.sends k

theorem Looked.wait {k : ℕ} (h : Looked cfg gen c₀ c k) :
    Sender cfg gen c₀ c (k + 1) (k / u64 cfg.tREFI) :=
  ⟨h.init, h.drawn, h.limit, h.reqs, h.last, h.paced.wait⟩

theorem Looked.send {k : ℕ} (h : Looked cfg gen c₀ c k) (hclk : c.clk = k)
    (hroom : c.sendWindowReqs < windowLimit gen c₀ (k / u64 cfg.tREFI))
    (hdist : windowDist gen c₀ (k / u64 cfg.tREFI) ≤ k - c.lastSendReqClk) (hok : MaySend cfg k) :
    Sender cfg gen c₀ (c.send mem) (k + 1) (k / u64 cfg.tREFI) := by
  rcases c.send_cases mem with heq | ⟨cpu, row, _, heq⟩ <;> rw [heq]
  · exact h.wait
  · rw [h.reqs] at hroom
    rw [h.last] at hdist
    refine ⟨h.init, h.drawn, h.limit, ?_, ?_, ?_⟩
    · simp [hclk, h.reqs]
    · rw [hclk]
      rfl
    · rw [hclk]
      exact h.paced.push hroom hdist hok

/-- The window in which the sender looks up its limit. -/
theorem firstBit_le_iff {k : ℕ} (hW : 0 < u64 cfg.tREFI) :
    sendInitReqs.length ≤ k / u64 cfg.tREFI - warmupIdx ↔ firstBit * u64 cfg.tREFI < k + 1 := by
  have hlength : 0 < sendInitReqs.length := by decide
  rw [Nat.lt_succ_iff, ← Nat.le_div_iff_mul_le hW]
  unfold firstBit
  omega

/-- Looking at the window: the count restarts with it, and the table of the initialisation may be at its
end. -/
theorem Sender.checkInit {k : ℕ} (h : Sender cfg gen c₀ c k ((k - 1) / u64 cfg.tREFI))
    (hlook : Looks cfg c k) (hW : 0 < u64 cfg.tREFI) {d : CovChCPU M}
    (hd : d = (if c.prevWindowIdx ≠ c.refWindowIdx then { c with sendWindowReqs := 0 } else c).checkInit) :
    d = { c with
      sendWindowReqs := c.sends.countP fun t => t / u64 cfg.tREFI = k / u64 cfg.tREFI
      sendInit := decide (firstBit * u64 cfg.tREFI < k + 1) } := by
  have hcount : (if c.prevWindowIdx ≠ c.refWindowIdx then 0 else c.sendWindowReqs) =
      c.sends.countP fun t => t / u64 cfg.tREFI = k / u64 cfg.tREFI := by
    rw [hlook.prev, hlook.idx]
    exact count_of_window h.paced h.reqs
  have hstart : (if c.prevWindowIdx ≠ c.refWindowIdx then { c with sendWindowReqs := 0 } else c) =
      { c with sendWindowReqs := if c.prevWindowIdx ≠ c.refWindowIdx then 0 else c.sendWindowReqs } := by
    split_ifs <;> rfl
  rw [hd, hstart, hcount]
  unfold CovChCPU.checkInit
  dsimp only
  have hpast : sendInitReqs.length ≤ c.refWindowIdx - warmupIdx ↔ firstBit * u64 cfg.tREFI < k + 1 := by
    rw [hlook.idx]
    exact firstBit_le_iff hW
  split_ifs with hfirst
  · rw [decide_eq_true (hpast.mp hfirst.2)]
  · have hsame : c.sendInit = decide (firstBit * u64 cfg.tREFI < k + 1) := by
      rw [h.init]
      by_cases hlt : firstBit * u64 cfg.tREFI < k
      · rw [decide_eq_true hlt, decide_eq_true (by omega)]
      · rw [decide_eq_false hlt, decide_eq_false]
        intro hle
        exact hfirst ⟨by simp [h.init, hlt], hpast.mpr hle⟩
    rw [← hsame]

/-- At the beginning of a window the sender draws the bit of the window. -/
theorem Sender.chooseBit {k : ℕ} (h : Sender cfg gen c₀ c k ((k - 1) / u64 cfg.tREFI))
    (hlook : Looks cfg c k) (hplan : SamePlan c₀ c) (hW : 0 < u64 cfg.tREFI)
    (hfirst : firstBit * u64 cfg.tREFI < k + 1) {d : CovChCPU M} (hd : d = { c with
      sendWindowReqs := c.sends.countP fun t => t / u64 cfg.tREFI = k / u64 cfg.tREFI
      sendInit := true }) :
    Looked cfg gen c₀ (d.chooseBit gen) k ∧ ∃ n l r,
      d.chooseBit gen = { d with drawn := n, sendLimit := l, sendReqDist := r } := by
  have hw : firstBit ≤ k / u64 cfg.tREFI := by
    rw [Nat.le_div_iff_mul_le hW]
    omega
  have hlimits : windowLimit gen c₀ (k / u64 cfg.tREFI) =
        (if bit gen (k / u64 cfg.tREFI) then c₀.send1Limit else c₀.send0Limit) ∧
      windowDist gen c₀ (k / u64 cfg.tREFI) =
        if bit gen (k / u64 cfg.tREFI) then c₀.send1ReqDist else c₀.send0ReqDist :=
    ⟨if_neg (by omega), if_neg (by omega)⟩
  have hmono : (k - 1) / u64 cfg.tREFI ≤ k / u64 cfg.tREFI := Nat.div_le_div_right (Nat.sub_le k 1)
  have hstep : k / u64 cfg.tREFI ≤ (k - 1) / u64 cfg.tREFI + 1 := by
    rw [← Nat.add_div_right _ hW]
    exact Nat.div_le_div_right (by omega)
  unfold CovChCPU.chooseBit
  by_cases hnew : c.prevWindowIdx = c.refWindowIdx
  · -- the bit of this window is drawn already
    have hsame : (k - 1) / u64 cfg.tREFI = k / u64 cfg.tREFI := by
      rw [← hlook.prev, ← hlook.idx, hnew]
    have hold : firstBit * u64 cfg.tREFI < k := by
      rcases Nat.lt_or_ge (firstBit * u64 cfg.tREFI) k with hlt | hge
      · exact hlt
      · exfalso
        have hk : k = firstBit * u64 cfg.tREFI := by omega
        have hbefore : (k - 1) / u64 cfg.tREFI < firstBit := by
          rw [Nat.div_lt_iff_lt_mul hW, hk]
          have : 0 < firstBit * u64 cfg.tREFI := Nat.mul_pos (by decide) hW
          omega
        omega
    obtain ⟨hlimit, hdist⟩ := h.limit hold
    have hdrawn := h.drawn
    rw [if_pos hold] at hdrawn
    rw [if_neg (by rw [hd]; exact not_not.mpr hnew)]
    refine ⟨?_, d.drawn, d.sendLimit, d.sendReqDist, rfl⟩
    rw [hd]
    refine ⟨(decide_eq_true hfirst).symm, ?_, fun _ => ?_, rfl, h.last, h.paced⟩
    · rw [if_pos hfirst, ← hsame]
      exact hdrawn
    · rw [← hsame]
      exact ⟨hlimit, hdist⟩
  · have hnext : k / u64 cfg.tREFI = (k - 1) / u64 cfg.tREFI + 1 := by
      have hne : (k - 1) / u64 cfg.tREFI ≠ k / u64 cfg.tREFI := by
        rw [← hlook.prev, ← hlook.idx]
        exact hnew
      omega
    have hdrawn : c.drawn = k / u64 cfg.tREFI + 1 - firstBit := by
      rw [h.drawn]
      split_ifs with hold
      · omega
      · have hk : k = firstBit * u64 cfg.tREFI := by omega
        rw [hk, Nat.mul_div_cancel _ hW]
        omega
    have hbit : bit gen (k / u64 cfg.tREFI) = decide ((gen c.drawn).toNat % 2 = 1) := by
      rw [hdrawn]
      rfl
    rw [if_pos (by rw [hd]; exact hnew)]
    have hresult : Looked cfg gen c₀ { d with
        drawn := d.drawn + 1
        sendLimit := windowLimit gen c₀ (k / u64 cfg.tREFI)
        sendReqDist := windowDist gen c₀ (k / u64 cfg.tREFI) } k := by
      rw [hd]
      refine ⟨(decide_eq_true hfirst).symm, ?_, fun _ => ⟨rfl, rfl⟩, rfl, h.last, h.paced⟩
      rw [if_pos hfirst]
      change c.drawn + 1 = _
      omega
    rw [hlimits.1, hlimits.2] at hresult
    have hkept : d.drawn = c.drawn ∧ d.send0Limit = c₀.send0Limit ∧ d.send0ReqDist = c₀.send0ReqDist ∧
        d.send1Limit = c₀.send1Limit ∧ d.send1ReqDist = c₀.send1ReqDist := by
      rw [hd]
      exact ⟨rfl, hplan.send0Limit, hplan.send0ReqDist, hplan.send1Limit, hplan.send1ReqDist⟩
    obtain ⟨hdraw, hlimit0, hdist0, hlimit1, hdist1⟩ := hkept
    rw [hdraw] at hresult ⊢
    split_ifs with hzero
    · rw [hbit, decide_eq_false (by omega), ← hlimit0, ← hdist0] at hresult
      exact ⟨hresult, _, _, _, rfl⟩
    · rw [hbit, decide_eq_true (by omega), ← hlimit1, ← hdist1] at hresult
      exact ⟨hresult, _, _, _, rfl⟩

theorem Sender.tickSend (mem : MemorySystem M) {k : ℕ} (h : Sender cfg gen c₀ c k ((k - 1) / u64 cfg.tREFI))
    (hlook : Looks cfg c k) (hplan : SamePlan c₀ c) (hW : 0 < u64 cfg.tREFI)
    (hwarm : warmupIdx * u64 cfg.tREFI ≤ k) :
    Sender cfg gen c₀ (c.tickSend mem cfg gen) (k + 1) (k / u64 cfg.tREFI) := by
  unfold CovChCPU.tickSend
  dsimp only
  generalize hd : (if c.prevWindowIdx ≠ c.refWindowIdx then { c with sendWindowReqs := 0 } else c).checkInit = d
  replace hd := h.checkInit hlook hW hd.symm
  by_cases hfirst : firstBit * u64 cfg.tREFI < k + 1
  · rw [decide_eq_true hfirst] at hd
    obtain ⟨hlooked, n, l, r, heq⟩ := h.chooseBit hlook hplan hW hfirst hd
    generalize d.chooseBit gen = e at hlooked heq
    have hinit : d.sendInit = true := by rw [hd]
    have hclk : e.clk = k := by rw [heq, hd]; exact hlook.clk
    have hwindow : e.refWindow = k % u64 cfg.tREFI := by rw [heq, hd]; exact hlook.window
    obtain ⟨hlimit, hdist⟩ := hlooked.limit hfirst
    simp only [hinit, Bool.not_true, Bool.false_eq_true, if_false]
    split_ifs with hfull hspill hnear
    · exact hlooked.wait
    · exact hlooked.wait
    · exact hlooked.wait
    · rw [hlimit] at hfull
      rw [hwindow] at hspill
      rw [hclk, hdist] at hnear
      exact hlooked.send hclk (not_le.mp hfull) (not_lt.mp hnear) ⟨hwarm, fun _ => not_lt.mp hspill⟩
  · rw [decide_eq_false hfirst] at hd
    have hinit : d.sendInit = false := by rw [hd]
    have hnot : ¬firstBit * u64 cfg.tREFI < k := by omega
    have hlooked : Looked cfg gen c₀ d k := by
      rw [hd]
      refine ⟨(decide_eq_false hfirst).symm, ?_, fun h => absurd h hfirst, rfl, h.last, h.paced⟩
      have hdrawn := h.drawn
      rw [if_neg hnot] at hdrawn
      rw [if_neg hfirst]
      exact hdrawn
    have hclk : d.clk = k := by rw [hd]; exact hlook.clk
    have hidx : d.refWindowIdx = k / u64 cfg.tREFI := by rw [hd]; exact hlook.idx
    have hwindow : k / u64 cfg.tREFI < firstBit := by
      rw [Nat.div_lt_iff_lt_mul hW]
      omega
    simp only [hinit, Bool.not_false, if_true, hidx]
    split_ifs with hfull
    · exact hlooked.wait
    · refine hlooked.send hclk ?_ ?_ ⟨hwarm, fun h => absurd h (by omega)⟩
      · rw [windowLimit, if_pos hwindow]
        exact not_le.mp hfull
      · rw [windowDist, if_pos hwindow]
        exact Nat.zero_le _

/-- What a step of the sender leaves alone. -/
structure SenderOnly (c d : CovChCPU M) : Prop where
  clk : d.clk = c.clk
  prevWindowIdx : d.prevWindowIdx = c.prevWindowIdx
  refWindow : d.refWindow = c.refWindow
  refWindowIdx : d.refWindowIdx = c.refWindowIdx
  plan : SamePlan c d
  recvWindowReqs : d.recvWindowReqs = c.recvWindowReqs
  lastRecvReqClk : d.lastRecvReqClk = c.lastRecvReqClk
  recvs : d.recvs = c.recvs

theorem SamePlan.trans {d : CovChCPU M} (h : SamePlan c₀ c) (h' : SamePlan c d) : SamePlan c₀ d where
  send0Limit := h'.send0Limit.trans h.send0Limit
  send0ReqDist := h'.send0ReqDist.trans h.send0ReqDist
  send1Limit := h'.send1Limit.trans h.send1Limit
  send1ReqDist := h'.send1ReqDist.trans h.send1ReqDist
  recvReqDist := h'.recvReqDist.trans h.recvReqDist

namespace SenderOnly
variable {d e : CovChCPU M}

theorem refl (c : CovChCPU M) : SenderOnly c c := ⟨rfl, rfl, rfl, rfl, ⟨rfl, rfl, rfl, rfl, rfl⟩, rfl, rfl, rfl⟩

theorem trans (h : SenderOnly c d) (h' : SenderOnly d e) : SenderOnly c e where
  clk := h'.clk.trans h.clk
  prevWindowIdx := h'.prevWindowIdx.trans h.prevWindowIdx
  refWindow := h'.refWindow.trans h.refWindow
  refWindowIdx := h'.refWindowIdx.trans h.refWindowIdx
  plan := h.plan.trans h'.plan
  recvWindowReqs := h'.recvWindowReqs.trans h.recvWindowReqs
  lastRecvReqClk := h'.lastRecvReqClk.trans h.lastRecvReqClk
  recvs := h'.recvs.trans h.recvs

theorem checkInit (c : CovChCPU M) : SenderOnly c c.checkInit := by
  unfold CovChCPU.checkInit
  split_ifs <;> exact ⟨rfl, rfl, rfl, rfl, ⟨rfl, rfl, rfl, rfl, rfl⟩, rfl, rfl, rfl⟩

theorem chooseBit (c : CovChCPU M) : SenderOnly c (c.chooseBit gen) := by
  unfold CovChCPU.chooseBit
  split_ifs <;> exact ⟨rfl, rfl, rfl, rfl, ⟨rfl, rfl, rfl, rfl, rfl⟩, rfl, rfl, rfl⟩

theorem send (c : CovChCPU M) : SenderOnly c (c.send mem) := by
  rcases c.send_cases mem with heq | ⟨cpu, row, hclk, heq⟩ <;> rw [heq]
  · exact refl c
  · exact ⟨hclk, rfl, rfl, rfl, ⟨rfl, rfl, rfl, rfl, rfl⟩, rfl, rfl, rfl⟩

theorem tickSend (c : CovChCPU M) : SenderOnly c (c.tickSend mem cfg gen) := by
  have hstart : SenderOnly c
      (if c.prevWindowIdx ≠ c.refWindowIdx then { c with sendWindowReqs := 0 } else c).checkInit := by
    refine trans ?_ (checkInit _)
    split_ifs <;> exact ⟨rfl, rfl, rfl, rfl, ⟨rfl, rfl, rfl, rfl, rfl⟩, rfl, rfl, rfl⟩
  unfold CovChCPU.tickSend
  dsimp only
  generalize (if c.prevWindowIdx ≠ c.refWindowIdx then { c with sendWindowReqs := 0 } else c).checkInit = d
    at hstart
  have hbit : SenderOnly d (d.chooseBit gen) := chooseBit d
  split_ifs
  · exact hstart
  · exact hstart.trans (send d)
  all_goals refine hstart.trans (hbit.trans ?_)
  · exact refl _
  · exact refl _
  · exact refl _
  · exact send _

end SenderOnly

theorem Receiver.of_senderOnly {d : CovChCPU M} {k w : ℕ} (h : Receiver cfg c₀ c k w)
    (hkeep : SenderOnly c d) : Receiver cfg c₀ d k w where
  reqs := by rw [hkeep.recvWindowReqs, hkeep.recvs, h.reqs]
  last := by rw [hkeep.lastRecvReqClk, hkeep.recvs, h.last]
  paced := by
    rw [hkeep.recvs]
    exact h.paced

/-- Both windows of the warmup pass without a request. -/
theorem Sender.warmup {k w v : ℕ} (h : Sender cfg gen c₀ c k w) (hk : k < warmupIdx * u64 cfg.tREFI) :
    Sender cfg gen c₀ c (k + 1) v := by
  have hnone : c.sends = [] := by
    refine List.eq_nil_iff_forall_not_mem.mpr fun t ht => ?_
    have hpast := h.paced.past t ht
    have hmay := (h.paced.admissible t ht).1
    omega
  have hfirst : warmupIdx * u64 cfg.tREFI ≤ firstBit * u64 cfg.tREFI :=
    Nat.mul_le_mul_right _ (by decide)
  have hnot : ¬firstBit * u64 cfg.tREFI < k := by omega
  have hnext : ¬firstBit * u64 cfg.tREFI < k + 1 := by omega
  refine ⟨?_, ?_, fun hlt => absurd hlt hnext, ?_, h.last, h.paced.wait⟩
  · rw [h.init, decide_eq_false hnot, decide_eq_false hnext]
  · rw [h.drawn, if_neg hnot, if_neg hnext]
  · rw [h.reqs, hnone]
    rfl

theorem Receiver.warmup {k w v : ℕ} (h : Receiver cfg c₀ c k w) (hk : k < warmupIdx * u64 cfg.tREFI) :
    Receiver cfg c₀ c (k + 1) v := by
  have hfirst : warmupIdx * u64 cfg.tREFI ≤ firstBit * u64 cfg.tREFI :=
    Nat.mul_le_mul_right _ (by decide)
  have hnone : c.recvs = [] := by
    refine List.eq_nil_iff_forall_not_mem.mpr fun t ht => ?_
    have hpast := h.paced.past t ht
    have hmay := (h.paced.admissible t ht).1
    omega
  refine ⟨?_, h.last, h.paced.wait⟩
  rw [h.reqs, hnone]
  rfl

/-- The end of the warmup is not beyond 64 bits. -/
theorem u64_warmup (hpos : 0 < cfg.tREFI) (hlt : cfg.tREFI < 2 ^ 31) :
    u64 (cfg.tREFI * warmupIdx) = warmupIdx * u64 cfg.tREFI ∧ 0 < u64 cfg.tREFI := by
  unfold u64 warmupIdx
  omega

/-- A tick keeps both parties to their plan. -/
theorem Kept.clockTick (hpos : 0 < cfg.tREFI) (hlt : cfg.tREFI < 2 ^ 31) (h : Kept cfg gen c₀ c)
    (htick : c.clockTick mem cfg gen = .ok c') : Kept cfg gen c₀ c' ∧ c'.clk = c.clk + 1 := by
  obtain ⟨hend, hW⟩ := u64_warmup hpos hlt
  obtain ⟨m, -, hrest⟩ := bind_ok_iff.mp htick
  obtain rfl := Except.ok.inj hrest
  clear htick hrest
  rw [hend]
  by_cases hwarm : c.clk < warmupIdx * u64 cfg.tREFI
  · simp only [hwarm, if_true]
    refine ⟨⟨?_, fun _ => rfl, ?_, ?_⟩, trivial⟩
    · obtain ⟨hlimit0, hdist0, hlimit1, hdist1, hdist⟩ := h.plan
      exact ⟨hlimit0, hdist0, hlimit1, hdist1, hdist⟩
    · obtain ⟨hinit, hdrawn, hlimit, hreqs, hlast, hpaced⟩ :=
        h.sender.warmup (v := c.clk / u64 cfg.tREFI) hwarm
      exact ⟨hinit, hdrawn, hlimit, hreqs, hlast, hpaced⟩
    · obtain ⟨hreqs, hlast, hpaced⟩ := h.receiver.warmup (v := c.clk / u64 cfg.tREFI) hwarm
      exact ⟨hreqs, hlast, hpaced⟩
  · simp only [hwarm, if_false]
    have hk : warmupIdx * u64 cfg.tREFI ≤ c.clk := not_lt.mp hwarm
    have hstarted : 0 < c.clk := lt_of_lt_of_le (Nat.mul_pos (by decide) hW) hk
    generalize hd : { c with
      memorySystem := m
      refWindow := c.clk % u64 cfg.tREFI
      refWindowIdx := c.clk / u64 cfg.tREFI } = d
    have hplan : SamePlan c₀ d := by
      obtain ⟨hlimit0, hdist0, hlimit1, hdist1, hdist⟩ := h.plan
      rw [← hd]
      exact ⟨hlimit0, hdist0, hlimit1, hdist1, hdist⟩
    have hlook : Looks cfg d c.clk := by rw [← hd]; exact ⟨rfl, h.prev hstarted, rfl, rfl⟩
    have hsender : Sender cfg gen c₀ d c.clk ((c.clk - 1) / u64 cfg.tREFI) := by
      obtain ⟨hinit, hdrawn, hlimit, hreqs, hlast, hpaced⟩ := h.sender
      rw [← hd]
      exact ⟨hinit, hdrawn, hlimit, hreqs, hlast, hpaced⟩
    have hreceiver : Receiver cfg c₀ d c.clk ((c.clk - 1) / u64 cfg.tREFI) := by
      obtain ⟨hreqs, hlast, hpaced⟩ := h.receiver
      rw [← hd]
      exact ⟨hreqs, hlast, hpaced⟩
    have hsent := hsender.tickSend mem hlook hplan hW hk
    have honly : SenderOnly d (d.tickSend mem cfg gen) := .tickSend d
    generalize d.tickSend mem cfg gen = e at hsent honly
    have hlook' : Looks cfg e c.clk :=
      ⟨honly.clk.trans hlook.clk, honly.prevWindowIdx.trans hlook.prev, honly.refWindow.trans hlook.window,
        honly.refWindowIdx.trans hlook.idx⟩
    have hreceived := (hreceiver.of_senderOnly honly).tickRecv mem hlook' (hplan.trans honly.plan)
      hsent.init
    obtain ⟨cpu, row, reqs, last, recvs, hclk, heq⟩ := e.tickRecv_frame mem cfg
    rw [heq] at hreceived ⊢
    have hnow : cpu.clk = c.clk := hclk.trans hlook'.clk
    refine ⟨⟨?_, fun _ => ?_, ?_, ?_⟩, ?_⟩
    · obtain ⟨hlimit0, hdist0, hlimit1, hdist1, hdist⟩ := hplan.trans honly.plan
      exact ⟨hlimit0, hdist0, hlimit1, hdist1, hdist⟩
    · change e.refWindowIdx = (cpu.clk + 1 - 1) / _
      rw [hlook'.idx, hnow]
      rfl
    · change Sender cfg gen c₀ _ (cpu.clk + 1) ((cpu.clk + 1 - 1) / _)
      rw [hnow]
      obtain ⟨hinit, hdrawn, hlimit, hreqs, hlast, hpaced⟩ := hsent
      exact ⟨hinit, hdrawn, hlimit, hreqs, hlast, hpaced⟩
    · change Receiver cfg c₀ _ (cpu.clk + 1) ((cpu.clk + 1 - 1) / _)
      rw [hnow]
      obtain ⟨hreqs, hlast, hpaced⟩ := hreceived
      exact ⟨hreqs, hlast, hpaced⟩
    · change cpu.clk + 1 = _
      rw [hnow]

/-- A CPU as it is constructed. -/
def start (m : M) : CovChCPU M where
  memorySystem := m
  sendAddr := 0
  recvAddr := 0

theorem kept_start (m : M) : Kept cfg gen ((start m).init cfg gen) ((start m).init cfg gen) where
  plan := ⟨rfl, rfl, rfl, rfl, rfl⟩
  prev h := absurd h (Nat.lt_irrefl 0)
  sender := ⟨rfl, rfl, fun h => absurd h (Nat.not_lt_zero _), rfl, rfl, paced_nil _ _ _ _ _⟩
  receiver := ⟨rfl, rfl, paced_nil _ _ _ _ _⟩

end CovChCPU

open CovChCPU in
/-- The channel keeps to its schedule, whatever the memory does. Nothing is sent in the warmup; then a
window carries at most the requests of the table, and from its end on at most those of the bit that was
drawn for the window. Both parties leave the cycles alone that are reserved for what spills over, and keep
their distances. -/
theorem covert_channel_paced {M : Type} (mem : MemorySystem M) (cfg : Config) (gen : ℕ → HexAddr) (m : M)
    (hpos : 0 < cfg.tREFI) (hlt : cfg.tREFI < 2 ^ 31) (n : ℕ) (c : CovChCPU M)
    (hrun : CPU.cycles (CovChCPU.clockTick mem cfg gen) n ((start m).init cfg gen) = .ok c) :
    Paced (u64 cfg.tREFI) (windowLimit gen ((start m).init cfg gen)) (windowDist gen ((start m).init cfg gen))
        (MaySend cfg) c.sends c.clk ∧
      Paced (u64 cfg.tREFI) (fun _ => u64 cfg.refRaaDecrement) (fun _ => ((start m).init cfg gen).recvReqDist)
        (MayRecv cfg) c.recvs c.clk := by
  have hkept : Kept cfg gen ((start m).init cfg gen) c :=
    CPU.cycles_induct (fun _ _ h htick => (h.clockTick hpos hlt htick).1) hrun (kept_start m)
  exact ⟨hkept.sender.paced, hkept.receiver.paced⟩

/-- A memory that takes everything at once. -/
def openMemory : MemorySystem Unit where
  willAcceptTransaction _ _ _ := true
  addTransaction _ _ _ := ()
  clockTick := .ok

/-- Windows of which the parties use 49 cycles. -/
def shortWindows : Config := { smallConfig with tREFI := 500, refRaaDecrement := 2, rfmRaaDecrement := 3 }

deriving instance DecidableEq for CPU, CovChCPU

def shortTick (c : CovChCPU Unit) : Except Exit (CovChCPU Unit) :=
  c.clockTick openMemory shortWindows (BitVec.ofNat 64)

open CovChCPU in
/-- The channel as a window of the table or of the warmup begins. -/
def beforeWindow (w : ℕ) : CovChCPU Unit :=
  let c := (start ()).init shortWindows (BitVec.ofNat 64)
  let sent w := if w < warmupIdx then 0 else sendInitReqs.getD (w - warmupIdx) 0
  let sends := ((List.range w).flatMap fun w => List.range' (500 * w) (sent w)).reverse
  { c with
    clk := 500 * w
    handed := sends.reverse.zipIdx.map fun x =>
      ⟨x.1, c.sendAddr + BitVec.ofNat 64 (x.2 % maxRows * rowOffset), false⟩
    refWindow := if w = 0 then 0 else 499
    refWindowIdx := w - 1
    prevWindowIdx := if w = 0 then u64 (-1) else w - 1
    sendRowIdx := sends.length % maxRows
    sendWindowReqs := if w = 0 then 0 else sent (w - 1)
    lastSendReqClk := sends.headD 0
    sends }

theorem cycles_beforeWindow {w : ℕ} (hw : w ≤ 7) :
    CPU.cycles shortTick (500 * w) (beforeWindow 0) = .ok (beforeWindow w) := by
  have hwindow : ∀ w < 7,
      (CPU.cycles shortTick 500 (beforeWindow w)).toOption = some (beforeWindow (w + 1)) := by
    decide +kernel
  induction w with
  | zero => rfl
  | succ w ih =>
    refine (CPU.cycles_add (ih (by omega)) 500).trans ?_
    have hnext := hwindow w (by omega)
    generalize CPU.cycles shortTick 500 (beforeWindow w) = x at hnext ⊢
    cases x with
    | error e => cases hnext
    | ok c => exact congrArg Except.ok (Option.some.inj hnext)

/-- Behind the table, the bit 1 is drawn for the window that begins at 3500. -/
theorem covert_channel_paced_small : ∃ c : CovChCPU Unit,
    CPU.cycles shortTick (500 * 7 + 450) ((CovChCPU.start ()).init shortWindows (BitVec.ofNat 64)) =
      .ok c ∧
    c.sends.take 5 = [3805, 3804, 3803, 3802, 3801] ∧ c.recvs = [3825, 3801] ∧
    c.sends.countP (fun t => t / 500 = 7) ≤ 5 ∧ c.recvs.countP (fun t => t / 500 = 7) ≤ 2 := by
  obtain ⟨c, hrest, hc⟩ := exists_ok_of_any (x := CPU.cycles shortTick 450 (beforeWindow 7))
    (p := fun c => c.sends.take 5 = [3805, 3804, 3803, 3802, 3801] ∧ c.recvs = [3825, 3801])
    (by decide +kernel)
  obtain ⟨hsent, hreceived⟩ := of_decide_eq_true hc
  have hstart : beforeWindow 0 = (CovChCPU.start ()).init shortWindows (BitVec.ofNat 64) := by
    decide +kernel
  have hrun := (CPU.cycles_add (cycles_beforeWindow le_rfl) 450).trans hrest
  rw [hstart] at hrun
  obtain ⟨hsends, hrecvs⟩ := covert_channel_paced _ _ _ _ (by decide) (by decide) _ c hrun
  exact ⟨c, hrun, hsent, hreceived, hsends.limited 7, hrecvs.limited 7⟩

end CactusDram
