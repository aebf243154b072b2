import CactusDram.HMC.MemorySystem
import CactusDram.Foundations.Ensures
import CactusDram.Foundations.Queues
import CactusDram.Ledger
import Mathlib.Data.List.Induction

/-! Responses and requests of the HMC. A response is created with its request and waits in the lookup
table until its vault hands back a transaction of its address, which need not be its own. -/
namespace CactusDram.HMC
open Foundations

/-- The callback that a request asks for. -/
def HMCRequest.callback (req : HMCRequest) : Callback := ⟨req.memOperand, req.type.isWrite⟩

def HMCResponse.callback (resp : HMCResponse) : Callback := ⟨resp.respId, decide (resp.type ≠ .rdRs)⟩

theorem response_callback (req : HMCRequest) (link : ℕ) : (req.response link).callback = req.callback := by
  obtain ⟨type, _, _, _, _, _⟩ := req
  cases type <;> rfl

theorem ofBlockSize_isWrite {isWrite : Bool} {blockSize : ℕ} {type : HMCReqType}
    (h : HMCReqType.ofBlockSize isWrite blockSize = some type) : type.isWrite = isWrite := by
  unfold HMCReqType.ofBlockSize at h
  cases isWrite <;> split at h <;> cases h <;> rfl

/-- Storing a controller leaves the books of the others alone. -/
theorem store_ledger (s : JedecDRAMSystem) (i j : ℕ) (c : Controller) :
    ((s.store i c).ctrls j).ledger = if j = i then c.ledger else (s.ctrls j).ledger := by
  unfold JedecDRAMSystem.store
  dsimp only
  split_ifs <;> rfl

namespace HMCMemorySystem
variable (cfg : HMCConfig) (s : HMCMemorySystem) (x : Callback)

/-- The callbacks made. -/
def called : ℕ := s.base.callbacks.count x

/-- The responses on their way to the CPU. -/
def answering : ℕ :=
  total 4 s.quadRespQueues (fun r => r.callback = x) +
    total cfg.numLinks s.linkRespQueues (fun r => r.callback = x)

/-- The responses in the lookup table. -/
def waiting : ℕ := s.respLookupTable.countP fun r => r.callback = x

/-- The requests on their way to the vaults. -/
def requested : ℕ :=
  total cfg.numLinks s.linkReqQueues (fun r => r.callback = x) +
    total 4 s.quadReqQueues (fun r => r.callback = x)

/-- The transactions in the vault. -/
def held : ℕ := (s.base.ctrls (cfg.getChannel x.addr)).held x

/-- The transactions that the vault has handed back. -/
def completed : ℕ := (s.base.ctrls (cfg.getChannel x.addr)).completed x

/-- What a vault hands back in a DRAM cycle. -/
def vaultDue (i : ℕ) : List Callback :=
  ((s.base.ctrls i).returnQueue.filter fun t => t.completeCycle ≤ s.base.clk).map Transaction.callback

/-- Of every address, the first responses in the table are those of `done`, in its order. -/
def Claims (done : List Callback) (s : HMCMemorySystem) : Prop :=
  ∀ addr, done.filter (fun x => x.addr = addr) <+:
    (s.respLookupTable.map HMCResponse.callback).filter fun x => x.addr = addr

/-- What of a system decides which responses are claimed. -/
def claimView : List HMCResponse × (ℕ → Controller) × ℕ := (s.respLookupTable, s.base.ctrls, s.base.clk)

/-- All that is handed back in the DRAM cycle finds its own responses. -/
def InOrder : Prop := Claims ((List.range cfg.channels).flatMap s.vaultDue) s

theorem claims_iff {done : List Callback} {s : HMCMemorySystem} : Claims done s ↔
    ∀ y ∈ done, done.filter (fun x => x.addr = y.addr) <+:
      (s.respLookupTable.map HMCResponse.callback).filter fun x => x.addr = y.addr := by
  refine ⟨fun h y _ => h y.addr, fun h addr => ?_⟩
  by_cases hmem : ∃ y ∈ done, y.addr = addr
  · obtain ⟨y, hy, rfl⟩ := hmem
    exact h y hy
  · have hnone : done.filter (fun x => x.addr = addr) = [] := by
      rw [List.filter_eq_nil_iff]
      exact fun x hx hdec => hmem ⟨x, hx, of_decide_eq_true hdec⟩
    rw [hnone]
    exact List.nil_prefix

instance : Decidable (s.InOrder cfg) := decidable_of_iff _ claims_iff.symm

end HMCMemorySystem

/-- A run so far, with the transactions that were accepted. -/
structure History where
  sys : HMCMemorySystem
  accepted : List Callback := []

namespace History

def step (cfg : HMCConfig) (h : History) : JedecDRAMSystem.Call → Except Fail History
  | .addTransaction hexAddr isWrite => do
    let (inserted, sys) ← h.sys.addTransaction cfg hexAddr isWrite
    .ok { sys, accepted := if inserted then h.accepted ++ [⟨hexAddr, isWrite⟩] else h.accepted }
  | .clockTick => do
    let sys ← h.sys.clockTick cfg
    .ok { h with sys }

def run (cfg : HMCConfig) (boot : SystemBoot cfg.toConfig) (calls : List JedecDRAMSystem.Call) :
    Except Fail History :=
  calls.foldlM (step cfg) { sys := system boot }

/-- Every transaction accepted has one response, which is delivered, on its way or in the table; and the
responses of an address in the table are as many as its transactions that are not handed back. -/
structure AnsweredOnce (cfg : HMCConfig) (h : History) : Prop where
  once : ∀ x, h.accepted.count x = h.sys.called x + h.sys.answering cfg x + h.sys.waiting x
  backed : ∀ addr, h.sys.waiting ⟨addr, false⟩ + h.sys.waiting ⟨addr, true⟩ =
    h.sys.requested cfg ⟨addr, false⟩ + h.sys.requested cfg ⟨addr, true⟩ +
      (h.sys.held cfg ⟨addr, false⟩ + h.sys.held cfg ⟨addr, true⟩)

/-- No callback of a read is made before the vault has handed back as many reads of the address. -/
def NotEarly (cfg : HMCConfig) (h : History) : Prop :=
  ∀ addr, h.sys.called ⟨addr, false⟩ ≤ h.sys.completed cfg ⟨addr, false⟩

/-- Every tick of the run finds the responses in the order of what is handed back. -/
def InOrder (cfg : HMCConfig) (boot : SystemBoot cfg.toConfig) (calls : List JedecDRAMSystem.Call) : Prop :=
  ∀ before, before ++ [.clockTick] <+: calls → ∀ h, run cfg boot before = .ok h → h.sys.InOrder cfg

end History

/-- Requests go to the vault of their address, which holds no others, and responses to a link and a quad
that exist. -/
structure Routed (cfg : HMCConfig) (s : HMCMemorySystem) : Prop where
  next : s.nextLink < cfg.numLinks
  linkReq : ∀ l, ∀ r ∈ s.linkReqQueues l, r.vault = cfg.getChannel r.memOperand ∧ r.quad < 4
  quadReq : ∀ q, ∀ r ∈ s.quadReqQueues q, r.vault = cfg.getChannel r.memOperand
  table : ∀ r ∈ s.respLookupTable, r.link < cfg.numLinks ∧ r.quad < 4
  quadResp : ∀ q, ∀ r ∈ s.quadRespQueues q, r.link < cfg.numLinks
  own : ∀ i x, cfg.getChannel x.addr ≠ i → (s.base.ctrls i).held x = 0

/-- The books of a run. Transactions of `done` are handed back and their responses not yet claimed; the
kinds are those of the transactions handed back as long as the run was in order. -/
structure Matched (cfg : HMCConfig) (accepted : List Callback) (inOrder : Prop) (done : List Callback)
    (s : HMCMemorySystem) : Prop where
  routed : Routed cfg s
  once : ∀ x, accepted.count x = s.called x + s.answering cfg x + s.waiting x
  requests : ∀ x, accepted.count x = s.requested cfg x + s.held cfg x + s.completed cfg x
  claimed : ∀ addr, s.called ⟨addr, false⟩ + s.answering cfg ⟨addr, false⟩ + done.count ⟨addr, false⟩ +
    (s.called ⟨addr, true⟩ + s.answering cfg ⟨addr, true⟩ + done.count ⟨addr, true⟩) =
    s.completed cfg ⟨addr, false⟩ + s.completed cfg ⟨addr, true⟩
  kinds : inOrder → ∀ x, s.called x + s.answering cfg x + done.count x = s.completed cfg x

/-- The failures other than an unknown response. -/
def Fail.Known (e : Fail) : Prop := e ≠ .unknownResponse

namespace Routed
variable {cfg : HMCConfig} {s s' : HMCMemorySystem}

theorem congr (h : Routed cfg s) (hnext : s'.nextLink = s.nextLink) (hlink : s'.linkReqQueues = s.linkReqQueues)
    (hquad : s'.quadReqQueues = s.quadReqQueues) (htable : s'.respLookupTable = s.respLookupTable)
    (hresp : s'.quadRespQueues = s.quadRespQueues) (hctrls : s'.base.ctrls = s.base.ctrls) :
    Routed cfg s' := by
  obtain ⟨h₁, h₂, h₃, h₄, h₅, h₆⟩ := h
  constructor
  · rwa [hnext]
  · rwa [hlink]
  · rwa [hquad]
  · rwa [htable]
  · rwa [hresp]
  · rwa [hctrls]

end Routed

namespace Matched
variable {cfg : HMCConfig} {accepted done rest : List Callback} {inOrder : Prop} {s s' : HMCMemorySystem}

theorem mono {inOrder' : Prop} (h : Matched cfg accepted inOrder done s) (himp : inOrder' → inOrder) :
    Matched cfg accepted inOrder' done s :=
  ⟨h.routed, h.once, h.requests, h.claimed, fun ho => h.kinds (himp ho)⟩

/-- What keeps the counts keeps the books. -/
theorem congr (h : Matched cfg accepted inOrder done s) (hrouted : Routed cfg s')
    (hcalled : ∀ x, s'.called x + s'.answering cfg x = s.called x + s.answering cfg x)
    (hwaiting : ∀ x, s'.waiting x = s.waiting x)
    (hrequests : ∀ x, s'.requested cfg x + s'.held cfg x = s.requested cfg x + s.held cfg x)
    (hcompleted : ∀ x, s'.completed cfg x = s.completed cfg x) : Matched cfg accepted inOrder done s' := by
  constructor
  · exact hrouted
  · intro x
    rw [h.once x, hcalled, hwaiting]
  · intro x
    rw [h.requests x, hrequests, hcompleted]
  · intro addr
    rw [hcalled, hcalled, hcompleted, hcompleted]
    exact h.claimed addr
  · intro ho x
    rw [hcalled, hcompleted]
    exact h.kinds ho x

end Matched

namespace Matched
variable {cfg : HMCConfig} {accepted done rest : List Callback} {inOrder : Prop} {s : HMCMemorySystem}

theorem iterateNextLink (h : Matched cfg accepted inOrder done s) :
    Matched cfg accepted inOrder done (s.iterateNextLink cfg) := by
  refine h.congr ⟨Nat.mod_lt _ cfg.numLinks_pos, h.routed.linkReq, h.routed.quadReq, h.routed.table,
    h.routed.quadResp, h.routed.own⟩ ?_ ?_ ?_ ?_ <;> exact fun _ => rfl

theorem insertReqToLink (h : Matched cfg accepted inOrder done s) {req : HMCRequest}
    (hvault : req.vault = cfg.getChannel req.memOperand) (hquad : req.quad < 4) {link : ℕ}
    (hlink : link < cfg.numLinks) :
    Matched cfg (if (s.insertReqToLink cfg req link).1 then accepted ++ [req.callback] else accepted) inOrder
      done (s.insertReqToLink cfg req link).2 := by
  unfold HMCMemorySystem.insertReqToLink
  by_cases hroom : (s.linkReqQueues link).length < cfg.xbarQueueDepth
  · rw [if_pos hroom]
    change Matched cfg (accepted ++ [req.callback]) inOrder done _
    have hone (x : Callback) : [req.callback].count x = if decide (req.callback = x) then 1 else 0 :=
      List.count_singleton.trans (if_congr (by simp) rfl rfl)
    refine ⟨⟨h.routed.next, forall_push h.routed.linkReq ⟨hvault, hquad⟩, h.routed.quadReq, ?_,
      h.routed.quadResp, h.routed.own⟩, ?_, ?_, h.claimed, h.kinds⟩
    · intro r hr
      rcases List.mem_append.mp hr with hr | hr
      · exact h.routed.table r hr
      · rw [List.mem_singleton.mp hr]
        exact ⟨hlink, hquad⟩
    · intro x
      have hwait : (s.respLookupTable ++ [req.response link]).countP (fun r => r.callback = x) =
          s.waiting x + if decide (req.callback = x) then 1 else 0 := by
        rw [List.countP_append, List.countP_singleton, response_callback]
        rfl
      rw [List.count_append, h.once x, hone]
      unfold HMCMemorySystem.waiting at hwait ⊢
      rw [hwait]
      exact add_assoc _ _ _
    · intro x
      have hpush : total cfg.numLinks (Function.update s.linkReqQueues link
          (s.linkReqQueues link ++ [{ req with link }])) (fun r => r.callback = x) =
          total cfg.numLinks s.linkReqQueues (fun r => r.callback = x) +
            if decide (req.callback = x) then 1 else 0 := total_push hlink _
      have hrequested : s.requested cfg x + (if decide (req.callback = x) then 1 else 0) =
          total cfg.numLinks (Function.update s.linkReqQueues link
            (s.linkReqQueues link ++ [{ req with link }])) (fun r => r.callback = x) +
            total 4 s.quadReqQueues (fun r => r.callback = x) := by
        rw [hpush, HMCMemorySystem.requested]
        omega
      rw [List.count_append, h.requests x, hone, add_right_comm, add_right_comm (s.requested cfg x), hrequested]
      rfl
  · rw [if_neg hroom]
    exact h

theorem insertLoop (h : Matched cfg accepted inOrder done s) {req : HMCRequest}
    (hvault : req.vault = cfg.getChannel req.memOperand) (hquad : req.quad < 4) (startLink n : ℕ) :
    Matched cfg (if (HMCMemorySystem.insertLoop cfg req startLink n s).1 then accepted ++ [req.callback]
      else accepted) inOrder done (HMCMemorySystem.insertLoop cfg req startLink n s).2 := by
  induction n generalizing s with
  | zero => exact h
  | succ n ih =>
    unfold HMCMemorySystem.insertLoop
    by_cases hstart : s.nextLink = startLink
    · rw [if_pos hstart]
      exact h
    · rw [if_neg hstart]
      have hfirst := h.insertReqToLink hvault hquad h.routed.next
      generalize s.insertReqToLink cfg req s.nextLink = first at hfirst
      obtain ⟨_ | _, t⟩ := first
      · exact ih (iterateNextLink hfirst)
      · exact iterateNextLink hfirst

theorem insertHMCReq (h : Matched cfg accepted inOrder done s) (req : HMCRequest)
    (hvault : req.vault = cfg.getChannel req.memOperand) (hquad : req.quad < 4) :
    Matched cfg (if (s.insertHMCReq cfg req).1 then accepted ++ [req.callback] else accepted) inOrder done
      (s.insertHMCReq cfg req).2 := by
  unfold HMCMemorySystem.insertHMCReq
  have hfirst := h.insertReqToLink hvault hquad h.routed.next
  generalize s.insertReqToLink cfg req s.nextLink = first at hfirst
  obtain ⟨_ | _, t⟩ := first
  · exact insertLoop (iterateNextLink hfirst) hvault hquad _ _
  · exact iterateNextLink hfirst

theorem addTransaction (h : Matched cfg accepted inOrder done s) (hexAddr : HexAddr) (isWrite : Bool) :
    Ensures (fun r : Bool × HMCMemorySystem =>
      Matched cfg (if r.1 then accepted ++ [⟨hexAddr, isWrite⟩] else accepted) inOrder done r.2) Fail.Known
      (s.addTransaction cfg hexAddr isWrite) := by
  unfold HMCMemorySystem.addTransaction
  split
  · exact Fail.noConfusion
  · next type htype =>
    obtain rfl := ofBlockSize_isWrite htype
    exact h.insertHMCReq (.new type hexAddr (cfg.getChannel hexAddr)) rfl (Nat.mod_lt _ (by decide))

/-- The vault of a request holds it, and no other does. -/
theorem vault_ledger (cfg : HMCConfig) (s : HMCMemorySystem) (req : HMCRequest) (j : ℕ) (x : Callback) :
    ((s.base.store req.vault ((s.base.ctrls req.vault).addTransaction cfg.toConfig req.memOperand
      req.type.isWrite)).ctrls j).ledger x =
      ((s.base.ctrls j).held x + if j = req.vault ∧ req.callback = x then 1 else 0,
        (s.base.ctrls j).completed x) := by
  rw [store_ledger]
  by_cases hj : j = req.vault
  · subst hj
    rw [if_pos rfl, Controller.addTransaction_ledger]
    simp only [true_and]
    rfl
  · rw [if_neg hj, if_neg fun h => hj h.1]
    rfl

theorem drainQuad (h : Matched cfg accepted inOrder done s) {i : ℕ} (hi : i < 4) :
    Matched cfg accepted inOrder done (s.drainQuad cfg i) := by
  unfold HMCMemorySystem.drainQuad
  split
  · exact h
  · next req rest hq =>
    split_ifs
    · have hvault := h.routed.quadReq i req (hq ▸ List.mem_cons_self)
      have hledger := vault_ledger cfg s req
      have hnew (x : Callback) : cfg.getChannel x.addr = req.vault ∧ req.callback = x ↔ req.callback = x := by
        refine and_iff_right_of_imp ?_
        rintro rfl
        exact hvault.symm
      refine h.congr ⟨h.routed.next, h.routed.linkReq, forall_pop h.routed.quadReq hq, h.routed.table,
        h.routed.quadResp, fun j x hj => ?_⟩ (fun _ => rfl) (fun _ => rfl) (fun x => ?_)
        fun x => congrArg Prod.snd (hledger _ x)
      · refine (congrArg Prod.fst (hledger j x)).trans ?_
        have hforeign : ¬ (j = req.vault ∧ req.callback = x) := by
          rintro ⟨rfl, rfl⟩
          exact hj hvault.symm
        rw [if_neg hforeign]
        exact h.routed.own j x hj
      · have hpop := total_pop hi hq fun r => decide (r.callback = x)
        have hheld := congrArg Prod.fst (hledger (cfg.getChannel x.addr) x)
        simp only [decide_eq_true_eq] at hpop
        simp only [hnew] at hheld
        unfold HMCMemorySystem.requested
        rw [← hpop]
        unfold HMCMemorySystem.held
        dsimp only [Controller.ledger] at hheld ⊢
        rw [hheld]
        omega
    · exact h

theorem routeRequest (h : Matched cfg accepted inOrder done s) {srcLink : ℕ} (hsrc : srcLink < cfg.numLinks) :
    Ensures (Matched cfg accepted inOrder done) Fail.Known (s.routeRequest cfg srcLink) := by
  unfold HMCMemorySystem.routeRequest
  split
  · exact Fail.noConfusion
  · next req rest hq =>
    obtain ⟨hvault, hquad⟩ := h.routed.linkReq srcLink req (hq ▸ List.mem_cons_self)
    split
    · refine h.congr ⟨h.routed.next, forall_pop h.routed.linkReq hq, forall_push h.routed.quadReq hvault,
        h.routed.table, h.routed.quadResp, h.routed.own⟩ (fun _ => rfl) (fun _ => rfl) (fun x => ?_)
        fun _ => rfl
      have hpop := total_pop hsrc hq fun r => decide (r.callback = x)
      have hpush : total 4 (Function.update s.quadReqQueues req.quad (s.quadReqQueues req.quad ++
          [{ req with exitTime := s.logicClk + req.type.flits }])) (fun r => r.callback = x) =
          total 4 s.quadReqQueues (fun r => r.callback = x) +
            if decide (req.callback = x) then 1 else 0 := total_push hquad _
      have hrequested : total cfg.numLinks (Function.update s.linkReqQueues srcLink rest)
          (fun r => r.callback = x) + total 4 (Function.update s.quadReqQueues req.quad
            (s.quadReqQueues req.quad ++ [{ req with exitTime := s.logicClk + req.type.flits }]))
            (fun r => r.callback = x) = s.requested cfg x := by
        rw [hpush, HMCMemorySystem.requested, ← hpop]
        omega
      exact congrArg (· + s.held cfg x) hrequested
    · refine h.congr (h.routed.congr ?_ ?_ ?_ ?_ ?_ ?_) ?_ ?_ ?_ ?_ <;> first | rfl | exact fun _ => rfl

theorem drainRequests (h : Matched cfg accepted inOrder done s) :
    Ensures (Matched cfg accepted inOrder done) Fail.Known (s.drainRequests cfg) := by
  have hdrained : Matched cfg accepted inOrder done ((List.range 4).foldl (HMCMemorySystem.drainQuad cfg) s) :=
    List.foldlRecOn _ _ h fun s hs i hi => drainQuad hs (List.mem_range.mp hi)
  unfold HMCMemorySystem.drainRequests
  generalize (List.range 4).foldl (HMCMemorySystem.drainQuad cfg) s = t at hdrained
  have hready : Matched cfg accepted inOrder done
      { t with quadBusy := HMCMemorySystem.drainBusy t.quadBusy } := by
    refine hdrained.congr (hdrained.routed.congr ?_ ?_ ?_ ?_ ?_ ?_) ?_ ?_ ?_ ?_ <;>
      first | rfl | exact fun _ => rfl
  refine Ensures.foldlM (fun s src hsrc hs => hs.routeRequest ?_) hready
  simpa using (mem_buildAgeQueue.mp hsrc).1

theorem deliver (h : Matched cfg accepted inOrder done s) {i : ℕ} (hi : i < cfg.numLinks) :
    Matched cfg accepted inOrder done (s.deliver i) := by
  unfold HMCMemorySystem.deliver
  split
  · exact h
  · next resp rest hq =>
    split_ifs
    · refine h.congr (h.routed.congr rfl rfl rfl rfl rfl rfl) (fun x => ?_) (fun _ => rfl) (fun _ => rfl)
        fun _ => rfl
      have hpop := total_pop hi hq fun r => decide (r.callback = x)
      have hcalled : (s.base.callbacks ++ [resp.callback]).count x =
          s.called x + if decide (resp.callback = x) then 1 else 0 := by
        rw [List.count_append, List.count_singleton, HMCMemorySystem.called]
        exact congrArg _ (if_congr (by simp) rfl rfl)
      have hmoved : (s.base.callbacks ++ [resp.callback]).count x +
          (total 4 s.quadRespQueues (fun r => r.callback = x) +
            total cfg.numLinks (Function.update s.linkRespQueues i rest) (fun r => r.callback = x)) =
          s.called x + s.answering cfg x := by
        rw [hcalled, HMCMemorySystem.answering, ← hpop]
        omega
      exact hmoved
    · exact h

theorem routeResponse (h : Matched cfg accepted inOrder done s) {srcQuad : ℕ} (hsrc : srcQuad < 4) :
    Ensures (Matched cfg accepted inOrder done) Fail.Known (s.routeResponse cfg srcQuad) := by
  unfold HMCMemorySystem.routeResponse
  split
  · exact Fail.noConfusion
  · next resp rest hq =>
    have hlink := h.routed.quadResp srcQuad resp (hq ▸ List.mem_cons_self)
    split
    · refine h.congr ⟨h.routed.next, h.routed.linkReq, h.routed.quadReq, h.routed.table,
        forall_pop h.routed.quadResp hq, h.routed.own⟩ (fun x => ?_) (fun _ => rfl) (fun _ => rfl) fun _ => rfl
      have hpop := total_pop hsrc hq fun r => decide (r.callback = x)
      have hpush : total cfg.numLinks (Function.update s.linkRespQueues resp.link
          (s.linkRespQueues resp.link ++ [{ resp with exitTime := s.logicClk + resp.flits }]))
          (fun r => r.callback = x) = total cfg.numLinks s.linkRespQueues (fun r => r.callback = x) +
            if decide (resp.callback = x) then 1 else 0 := total_push hlink _
      have hanswering : total 4 (Function.update s.quadRespQueues srcQuad rest) (fun r => r.callback = x) +
          total cfg.numLinks (Function.update s.linkRespQueues resp.link (s.linkRespQueues resp.link ++
            [{ resp with exitTime := s.logicClk + resp.flits }])) (fun r => r.callback = x) =
          s.answering cfg x := by
        rw [hpush, HMCMemorySystem.answering, ← hpop]
        omega
      exact congrArg (s.called x + ·) hanswering
    · refine h.congr (h.routed.congr ?_ ?_ ?_ ?_ ?_ ?_) ?_ ?_ ?_ ?_ <;> first | rfl | exact fun _ => rfl

theorem drainResponses (h : Matched cfg accepted inOrder done s) :
    Ensures (Matched cfg accepted inOrder done) Fail.Known (s.drainResponses cfg) := by
  have hdelivered : Matched cfg accepted inOrder done
      ((List.range cfg.numLinks).foldl HMCMemorySystem.deliver s) :=
    List.foldlRecOn _ _ h fun s hs i hi => deliver hs (List.mem_range.mp hi)
  unfold HMCMemorySystem.drainResponses
  generalize (List.range cfg.numLinks).foldl HMCMemorySystem.deliver s = t at hdelivered
  have hready : Matched cfg accepted inOrder done
      { t with linkBusy := HMCMemorySystem.drainBusy t.linkBusy } := by
    refine hdelivered.congr (hdelivered.routed.congr ?_ ?_ ?_ ?_ ?_ ?_) ?_ ?_ ?_ ?_ <;>
      first | rfl | exact fun _ => rfl
  refine Ensures.foldlM (fun s src hsrc hs => hs.routeResponse ?_) hready
  simpa using (mem_buildAgeQueue.mp hsrc).1

/-- A response waits for every transaction that is handed back. -/
theorem exists_waiting {x : Callback} (h : Matched cfg accepted inOrder (x :: done) s) :
    ∃ r ∈ s.respLookupTable, r.respId = x.addr := by
  have hclaimed := h.claimed x.addr
  have hread := h.requests ⟨x.addr, false⟩
  have hwrite := h.requests ⟨x.addr, true⟩
  have honce := h.once ⟨x.addr, false⟩
  have honce' := h.once ⟨x.addr, true⟩
  have hpos : 0 < (x :: done).count ⟨x.addr, false⟩ + (x :: done).count ⟨x.addr, true⟩ := by
    obtain ⟨addr, _ | _⟩ := x <;> simp
  have hwaiting : 0 < s.waiting ⟨x.addr, false⟩ + s.waiting ⟨x.addr, true⟩ := by omega
  have hsome (isWrite : Bool) (hw : 0 < s.waiting ⟨x.addr, isWrite⟩) :
      ∃ r ∈ s.respLookupTable, r.respId = x.addr := by
    obtain ⟨r, hr, hcallback⟩ := List.countP_pos_iff.mp hw
    exact ⟨r, hr, congrArg Callback.addr (of_decide_eq_true hcallback)⟩
  rcases Nat.eq_zero_or_pos (s.waiting ⟨x.addr, false⟩) with hzero | hw
  · exact hsome true (by omega)
  · exact hsome false hw

/-- The first response of the address is that of the transaction, if the table is in order. -/
theorem claims_tail {pre post : List HMCResponse} {resp : HMCResponse} {x : Callback}
    (htable : s.respLookupTable = pre ++ resp :: post) (hpre : ∀ r ∈ pre, r.respId ≠ x.addr)
    (hresp : resp.respId = x.addr) (h : HMCMemorySystem.Claims (x :: rest) s) :
    resp.callback = x ∧ ∀ addr, rest.filter (fun x => x.addr = addr) <+:
      ((pre ++ post).map HMCResponse.callback).filter fun x => x.addr = addr := by
  have hnone : (pre.map HMCResponse.callback).filter (fun y => y.addr = x.addr) = [] := by
    simpa [HMCResponse.callback] using hpre
  have hmatch : resp.callback.addr = x.addr := hresp
  have hself := h x.addr
  rw [htable, List.map_append, List.map_cons, List.filter_append, hnone, List.nil_append,
    List.filter_cons_of_pos (by simp), List.filter_cons_of_pos (by simpa using hmatch)] at hself
  obtain ⟨hx, hrest⟩ := List.cons_prefix_cons.mp hself
  refine ⟨hx.symm, fun addr => ?_⟩
  by_cases haddr : x.addr = addr
  · subst haddr
    rwa [List.map_append, List.filter_append, hnone, List.nil_append]
  · have hother := h addr
    rwa [htable, List.map_append, List.map_cons, List.filter_append,
      List.filter_cons_of_neg (by simpa using haddr),
      List.filter_cons_of_neg (by simpa [← hx] using haddr), ← List.filter_append, ← List.map_append] at hother

/-- A callback of the address is a read or a write. -/
theorem kinds_of_addr (x : Callback) (addr : HexAddr) :
    ((if x = ⟨addr, false⟩ then 1 else 0) + if x = ⟨addr, true⟩ then 1 else 0 : ℕ) =
      if x.addr = addr then 1 else 0 := by
  obtain ⟨a, _ | _⟩ := x <;> simp

theorem vaultCallback {x : Callback} (h : Matched cfg accepted inOrder (x :: done) s)
    (hclaims : inOrder → HMCMemorySystem.Claims (x :: rest) s) :
    Ensures (fun s' => Matched cfg accepted inOrder done s' ∧ (inOrder → HMCMemorySystem.Claims rest s') ∧
      s'.base = s.base) Fail.Known (s.vaultCallback x.addr) := by
  unfold HMCMemorySystem.vaultCallback
  split
  · next hnone =>
    obtain ⟨r, hr, haddr⟩ := h.exists_waiting
    exact absurd (decide_eq_true haddr) (List.find?_eq_none.mp hnone r hr)
  · next resp hfind =>
    obtain ⟨hresp, pre, post, htable, hpre⟩ := List.find?_eq_some_iff_append.mp hfind
    have hresp : resp.respId = x.addr := of_decide_eq_true hresp
    have hpre : ∀ r ∈ pre, r.respId ≠ x.addr := fun r hr => by simpa using hpre r hr
    have herase : s.respLookupTable.eraseP (fun r => r.respId = x.addr) = pre ++ post := by
      rw [htable, List.eraseP_append_right _ fun r hr => by simpa using hpre r hr,
        List.eraseP_cons_of_pos (by simpa using hresp)]
    obtain ⟨hlink, hquad⟩ := h.routed.table resp (by simp [htable])
    have htail (ho : inOrder) := claims_tail htable hpre hresp (hclaims ho)
    have hpush (y : Callback) : total 4 (Function.update s.quadRespQueues resp.quad
        (s.quadRespQueues resp.quad ++ [resp])) (fun r => r.callback = y) =
        total 4 s.quadRespQueues (fun r => r.callback = y) + if resp.callback = y then 1 else 0 := by
      rw [total_push hquad]
      simp only [decide_eq_true_eq]
    have hanswering (y : Callback) : total 4 (Function.update s.quadRespQueues resp.quad
        (s.quadRespQueues resp.quad ++ [resp])) (fun r => r.callback = y) +
        total cfg.numLinks s.linkRespQueues (fun r => r.callback = y) =
        s.answering cfg y + if resp.callback = y then 1 else 0 := by
      rw [hpush, HMCMemorySystem.answering]
      omega
    have hwaiting (y : Callback) : s.waiting y =
        (pre ++ post).countP (fun r => r.callback = y) + if resp.callback = y then 1 else 0 := by
      rw [HMCMemorySystem.waiting, htable, List.countP_append, List.countP_cons, List.countP_append]
      simp only [decide_eq_true_eq]
      omega
    have hcount (y : Callback) : (x :: done).count y = done.count y + if x = y then 1 else 0 :=
      List.count_cons.trans (congrArg _ (if_congr beq_iff_eq rfl rfl))
    refine ⟨⟨⟨h.routed.next, h.routed.linkReq, h.routed.quadReq, fun r hr => h.routed.table r
      (List.mem_of_mem_eraseP hr), forall_push h.routed.quadResp hlink, h.routed.own⟩, fun y => ?_, h.requests,
      fun addr => ?_, fun ho y => ?_⟩, fun ho => ?_, rfl⟩
    · have honce := h.once y
      rw [hwaiting] at honce
      unfold HMCMemorySystem.answering HMCMemorySystem.waiting
      dsimp only
      rw [hanswering, herase, honce]
      simp only [HMCMemorySystem.called]
      omega
    · have hclaimed := h.claimed addr
      have hkind := kinds_of_addr resp.callback addr
      have hmatch : resp.callback.addr = x.addr := hresp
      rw [hmatch, ← kinds_of_addr x addr] at hkind
      simp only [hcount] at hclaimed
      unfold HMCMemorySystem.answering
      dsimp only
      rw [hanswering, hanswering]
      simp only [HMCMemorySystem.called, HMCMemorySystem.completed] at hclaimed ⊢
      omega
    · have hkinds := h.kinds ho y
      rw [hcount, ← (htail ho).1] at hkinds
      unfold HMCMemorySystem.answering
      dsimp only
      rw [hanswering]
      simp only [HMCMemorySystem.called, HMCMemorySystem.completed] at hkinds ⊢
      omega
    · unfold HMCMemorySystem.Claims
      dsimp only
      rw [herase]
      exact (htail ho).2

/-- Every transaction that is handed back claims a response. -/
theorem claimLoop (h : Matched cfg accepted inOrder done s)
    (hclaims : inOrder → HMCMemorySystem.Claims (done ++ rest) s) :
    Ensures (fun s' => Matched cfg accepted inOrder [] s' ∧ (inOrder → HMCMemorySystem.Claims rest s') ∧
      s'.base = s.base) Fail.Known
      (done.foldlM (fun s (x : Callback) => HMCMemorySystem.vaultCallback s x.addr) s) := by
  induction done generalizing s with
  | nil => exact ⟨h, hclaims, rfl⟩
  | cons x done ih =>
    rw [List.foldlM_cons]
    refine (h.vaultCallback hclaims).bind fun s' ⟨hs', hclaims', hbase⟩ => ?_
    refine (ih hs' hclaims').mono fun s'' ⟨hs'', hrest, hbase'⟩ => ⟨hs'', hrest, hbase'.trans hbase⟩

theorem returnVault (h : Matched cfg accepted inOrder [] s) {i : ℕ}
    (hclaims : inOrder → HMCMemorySystem.Claims (s.vaultDue i ++ rest) s) :
    Ensures (fun s' => Matched cfg accepted inOrder [] s' ∧ (inOrder → HMCMemorySystem.Claims rest s') ∧
      ∀ j, j ≠ i → s'.vaultDue j = s.vaultDue j) Fail.Known (s.returnVault i) := by
  have hdue : (JedecDRAMSystem.returnLoop s.base.clk (s.base.ctrls i).returnQueue.length (s.base.ctrls i)).1 =
      s.vaultDue i := JedecDRAMSystem.returnLoop_eq (List.length_filter_le _ _)
  have hreturned := JedecDRAMSystem.returnLoop_ledger s.base.clk (s.base.ctrls i).returnQueue.length
    (s.base.ctrls i)
  unfold HMCMemorySystem.returnVault
  generalize JedecDRAMSystem.returnLoop s.base.clk (s.base.ctrls i).returnQueue.length (s.base.ctrls i) = r
    at hdue hreturned
  obtain ⟨done, c⟩ := r
  obtain rfl : done = s.vaultDue i := hdue
  have hheld (j : ℕ) (x : Callback) : ((s.base.store i c).ctrls j).held x +
      (if j = i then (s.vaultDue i).count x else 0) = (s.base.ctrls j).held x := by
    have hledger := congrArg Prod.fst (congrFun (store_ledger s.base i j c) x)
    by_cases hj : j = i
    · subst hj
      rw [if_pos rfl] at hledger ⊢
      rw [← (hreturned x).1]
      exact congrArg (· + _) hledger
    · rw [if_neg hj] at hledger ⊢
      exact hledger
  have hcompleted (j : ℕ) (x : Callback) : ((s.base.store i c).ctrls j).completed x =
      (s.base.ctrls j).completed x + if j = i then (s.vaultDue i).count x else 0 := by
    have hledger := congrArg Prod.snd (congrFun (store_ledger s.base i j c) x)
    by_cases hj : j = i
    · subst hj
      rw [if_pos rfl] at hledger ⊢
      rw [← (hreturned x).2]
      exact hledger
    · rw [if_neg hj] at hledger ⊢
      exact hledger
  have hown (x : Callback) : (if cfg.getChannel x.addr = i then (s.vaultDue i).count x else 0) =
      (s.vaultDue i).count x := by
    split_ifs with hchannel
    · rfl
    · have hnone := h.routed.own i x hchannel
      have hle : c.held x + (s.vaultDue i).count x = (s.base.ctrls i).held x := (hreturned x).1
      omega
  have hbooked : Matched cfg accepted inOrder (s.vaultDue i) { s with base := s.base.store i c } := by
    refine ⟨⟨h.routed.next, h.routed.linkReq, h.routed.quadReq, h.routed.table, h.routed.quadResp, ?_⟩,
      h.once, ?_, ?_, ?_⟩
    · intro j x hj
      have hzero := h.routed.own j x hj
      have hle := hheld j x
      change ((s.base.store i c).ctrls j).held x = 0
      omega
    · intro x
      have hrequests := h.requests x
      have hheld := hheld (cfg.getChannel x.addr) x
      have hcompleted := hcompleted (cfg.getChannel x.addr) x
      unfold HMCMemorySystem.held HMCMemorySystem.completed at hrequests ⊢
      dsimp only
      rw [hcompleted]
      rw [← hheld] at hrequests
      simp only [HMCMemorySystem.requested] at hrequests ⊢
      omega
    · intro addr
      have hclaimed := h.claimed addr
      have hread := hcompleted (cfg.getChannel addr) ⟨addr, false⟩
      have hwrite := hcompleted (cfg.getChannel addr) ⟨addr, true⟩
      rw [hown ⟨addr, false⟩] at hread
      rw [hown ⟨addr, true⟩] at hwrite
      unfold HMCMemorySystem.completed at hclaimed ⊢
      dsimp only at hclaimed ⊢
      rw [hread, hwrite]
      simp only [HMCMemorySystem.called, HMCMemorySystem.answering, JedecDRAMSystem.store, List.count_nil]
        at hclaimed ⊢
      omega
    · intro ho x
      have hkinds := h.kinds ho x
      have hcompleted := hcompleted (cfg.getChannel x.addr) x
      rw [hown] at hcompleted
      unfold HMCMemorySystem.completed at hkinds ⊢
      dsimp only
      rw [hcompleted, ← hkinds]
      rfl
  refine (hbooked.claimLoop hclaims).mono fun s' ⟨hs', hrest, hbase⟩ => ⟨hs', hrest, fun j hj => ?_⟩
  unfold HMCMemorySystem.vaultDue
  rw [hbase]
  unfold JedecDRAMSystem.store
  dsimp only
  rw [if_neg hj]
  rfl

theorem returnVaults {vaults : List ℕ} (hvaults : vaults.Nodup) (h : Matched cfg accepted inOrder [] s)
    (hclaims : inOrder → HMCMemorySystem.Claims (vaults.flatMap s.vaultDue) s) :
    Ensures (Matched cfg accepted inOrder []) Fail.Known (vaults.foldlM HMCMemorySystem.returnVault s) := by
  induction vaults generalizing s with
  | nil => exact h
  | cons i vaults ih =>
    obtain ⟨hi, hvaults⟩ := List.nodup_cons.mp hvaults
    rw [List.foldlM_cons]
    refine (h.returnVault hclaims).bind fun s' ⟨hs', hrest, hother⟩ => ih hvaults hs' ?_
    have hsame : vaults.flatMap s'.vaultDue = vaults.flatMap s.vaultDue :=
      List.flatMap_congr fun j hj => hother j fun heq => hi (heq ▸ hj)
    rwa [hsame]

theorem tickVault (h : Matched cfg accepted inOrder done s) (i : ℕ) :
    Ensures (Matched cfg accepted inOrder done) Fail.Known (s.tickVault cfg i) := by
  unfold HMCMemorySystem.tickVault JedecDRAMSystem.tickChannel
  cases htick : (s.base.ctrls i).clockTick cfg.toConfig with
  | error e => exact Fail.noConfusion
  | ok c =>
    have hledger (j : ℕ) : ((s.base.store i c).ctrls j).ledger = (s.base.ctrls j).ledger := by
      rw [store_ledger]
      split_ifs with hj
      · rw [Controller.clockTick_ledger htick, hj]
      · rfl
    have hheld (j : ℕ) (x : Callback) := congrArg Prod.fst (congrFun (hledger j) x)
    refine h.congr ⟨h.routed.next, h.routed.linkReq, h.routed.quadReq, h.routed.table, h.routed.quadResp,
      fun j x hj => (hheld j x).trans (h.routed.own j x hj)⟩ (fun _ => rfl) (fun _ => rfl)
      (fun x => congrArg (_ + ·) (hheld _ x)) fun x => congrArg Prod.snd (congrFun (hledger _) x)

theorem dramClockTick (h : Matched cfg accepted inOrder [] s) (hin : inOrder → s.InOrder cfg) :
    Ensures (Matched cfg accepted inOrder []) Fail.Known (s.dramClockTick cfg) := by
  refine Ensures.bind (h.returnVaults List.nodup_range hin) fun s hs => ?_
  refine Ensures.bind (Ensures.foldlM (fun _ i _ hs => hs.tickVault i) hs) fun s hs => ?_
  refine hs.congr (hs.routed.congr ?_ ?_ ?_ ?_ ?_ ?_) ?_ ?_ ?_ ?_ <;> first | rfl | exact fun _ => rfl

/-- Delivering and routing responses claims none. -/
theorem drainResponses_claimView (s : HMCMemorySystem) : Ensures
    (fun s' : HMCMemorySystem => s'.claimView = s.claimView) Fail.Known (s.drainResponses cfg) := by
  have hdelivered : ((List.range cfg.numLinks).foldl HMCMemorySystem.deliver s).claimView = s.claimView := by
    refine List.foldlRecOn (motive := fun t : HMCMemorySystem => t.claimView = s.claimView) _ _ rfl
      fun t ht i _ => ?_
    rw [← ht]
    unfold HMCMemorySystem.deliver
    split
    · rfl
    · split_ifs <;> rfl
  unfold HMCMemorySystem.drainResponses
  generalize (List.range cfg.numLinks).foldl HMCMemorySystem.deliver s = t at hdelivered
  refine Ensures.foldlM (fun u i _ hu => ?_) hdelivered
  unfold HMCMemorySystem.routeResponse
  split
  · exact Fail.noConfusion
  · split <;> exact hu

theorem inOrder_of_claimView {s' : HMCMemorySystem} (hview : s'.claimView = s.claimView)
    (h : s.InOrder cfg) : s'.InOrder cfg := by
  obtain ⟨htable, hctrls, hclk⟩ : s'.respLookupTable = s.respLookupTable ∧ s'.base.ctrls = s.base.ctrls ∧
      s'.base.clk = s.base.clk := by
    simpa only [HMCMemorySystem.claimView, Prod.mk.injEq] using hview
  unfold HMCMemorySystem.InOrder HMCMemorySystem.Claims HMCMemorySystem.vaultDue at h ⊢
  rw [htable, hctrls, hclk]
  exact h

theorem logicTick (h : Matched cfg accepted inOrder done s) :
    Matched cfg accepted inOrder done (s.logicTick cfg) := by
  refine h.congr (h.routed.congr ?_ ?_ ?_ ?_ ?_ ?_) ?_ ?_ ?_ ?_ <;> first | rfl | exact fun _ => rfl

theorem dramCycle (h : Matched cfg accepted inOrder [] s) (hin : inOrder → s.InOrder cfg) :
    Ensures (Matched cfg accepted inOrder []) Fail.Known (s.dramCycle cfg) := by
  unfold HMCMemorySystem.dramCycle
  split_ifs
  · refine Ensures.bind (h.drainResponses.and (drainResponses_claimView s)) fun s₁ ⟨hs₁, hview⟩ => ?_
    refine Ensures.bind (hs₁.dramClockTick fun ho => inOrder_of_claimView hview (hin ho)) fun s₂ hs₂ => ?_
    exact Ensures.bind hs₂.drainRequests fun s₃ hs₃ => hs₃.logicTick
  · exact h.dramClockTick hin

theorem logicLoop (h : Matched cfg accepted inOrder done s) (n : ℕ) :
    Ensures (Matched cfg accepted inOrder done) Fail.Known (HMCMemorySystem.logicLoop cfg n s) := by
  induction n generalizing s with
  | zero =>
    unfold HMCMemorySystem.logicLoop
    split_ifs
    · exact Fail.noConfusion
    · exact h
  | succ n ih =>
    unfold HMCMemorySystem.logicLoop
    split_ifs
    · exact Ensures.bind h.drainResponses fun s hs => Ensures.bind hs.drainRequests fun s hs =>
        ih hs.logicTick
    · exact h

theorem clockTick (h : Matched cfg accepted inOrder [] s) (hin : inOrder → s.InOrder cfg) :
    Ensures (Matched cfg accepted inOrder []) Fail.Known (s.clockTick cfg) := by
  refine Ensures.bind (h.dramCycle hin) fun s₁ hs₁ => Ensures.bind (hs₁.logicLoop _) fun s₂ hs₂ => ?_
  refine hs₂.congr (hs₂.routed.congr ?_ ?_ ?_ ?_ ?_ ?_) ?_ ?_ ?_ ?_ <;> first | rfl | exact fun _ => rfl

theorem system (boot : SystemBoot cfg.toConfig) : Matched cfg [] inOrder [] (HMC.system boot) where
  routed := ⟨cfg.numLinks_pos, fun _ _ h => absurd h List.not_mem_nil, fun _ _ h => absurd h List.not_mem_nil,
    fun _ h => absurd h List.not_mem_nil, fun _ _ h => absurd h List.not_mem_nil, fun _ _ _ => rfl⟩
  once x := by simp [HMCMemorySystem.called, HMCMemorySystem.answering, HMCMemorySystem.waiting, HMC.system,
    SystemBoot.system, total]
  requests x := by
    have hheld : (HMC.system boot).held cfg x = 0 := rfl
    have hcompleted : (HMC.system boot).completed cfg x = 0 := rfl
    rw [hheld, hcompleted]
    simp [HMCMemorySystem.requested, HMC.system, total]
  claimed addr := by
    have hcompleted (x : Callback) : (HMC.system boot).completed cfg x = 0 := rfl
    rw [hcompleted, hcompleted]
    simp [HMCMemorySystem.called, HMCMemorySystem.answering, HMC.system, SystemBoot.system, total]
  kinds _ x := by
    have hcompleted : (HMC.system boot).completed cfg x = 0 := rfl
    rw [hcompleted]
    simp [HMCMemorySystem.called, HMCMemorySystem.answering, HMC.system, SystemBoot.system, total]

end Matched

namespace History
variable {cfg : HMCConfig} {boot : SystemBoot cfg.toConfig}

theorem run_append (calls : List JedecDRAMSystem.Call) (call : JedecDRAMSystem.Call) :
    run cfg boot (calls ++ [call]) = run cfg boot calls >>= fun h => step cfg h call := by
  unfold run
  rw [List.foldlM_append]
  simp only [List.foldlM_cons, List.foldlM_nil, bind_pure]

theorem run_matched (calls : List JedecDRAMSystem.Call) :
    Ensures (fun h : History => Matched cfg h.accepted (InOrder cfg boot calls) [] h.sys) Fail.Known
      (run cfg boot calls) := by
  induction calls using List.reverseRecOn with
  | nil => exact Matched.system boot
  | append_singleton calls call ih =>
    rw [run_append]
    cases hrun : run cfg boot calls with
    | error e => exact ih.of_error hrun
    | ok h =>
      have hbefore (ho : InOrder cfg boot (calls ++ [call])) : InOrder cfg boot calls :=
        fun before hb => ho before (hb.trans (List.prefix_append calls [call]))
      have hmatched := (ih.of_ok hrun).mono hbefore
      cases call with
      | addTransaction hexAddr isWrite =>
        change Ensures _ _ (step cfg h (.addTransaction hexAddr isWrite))
        exact Ensures.bind (hmatched.addTransaction hexAddr isWrite) fun r hr => hr
      | clockTick =>
        have hin (ho : InOrder cfg boot (calls ++ [.clockTick])) : h.sys.InOrder cfg :=
          ho calls List.prefix_rfl h hrun
        change Ensures _ _ (step cfg h .clockTick)
        exact Ensures.bind (hmatched.clockTick hin) fun s hs => hs

theorem answeredOnce_of_matched {h : History} {inOrder : Prop}
    (hm : Matched cfg h.accepted inOrder [] h.sys) : AnsweredOnce cfg h where
  once := hm.once
  backed addr := by
    have hclaimed := hm.claimed addr
    have honce := hm.once ⟨addr, false⟩
    have honce' := hm.once ⟨addr, true⟩
    have hrequests := hm.requests ⟨addr, false⟩
    have hrequests' := hm.requests ⟨addr, true⟩
    simp only [List.count_nil] at hclaimed
    omega

theorem notEarly_of_matched {h : History} {inOrder : Prop} (hm : Matched cfg h.accepted inOrder [] h.sys)
    (ho : inOrder) : NotEarly cfg h := by
  intro addr
  have hkinds := hm.kinds ho ⟨addr, false⟩
  rw [List.count_nil] at hkinds
  omega

/-- Every accepted transaction is answered once, and reads are not answered early in a run that is in
order. -/
theorem hmc_responses_matched (cfg : HMCConfig) (boot : SystemBoot cfg.toConfig)
    (calls : List JedecDRAMSystem.Call) : run cfg boot calls ≠ .error .unknownResponse ∧
    ∀ h, run cfg boot calls = .ok h →
      AnsweredOnce cfg h ∧ (InOrder cfg boot calls → NotEarly cfg h) :=
  ⟨fun he => (run_matched calls).of_error he rfl, fun _ hrun =>
    have hm := (run_matched calls).of_ok hrun
    ⟨answeredOnce_of_matched hm, notEarly_of_matched hm⟩⟩

/-- A vault whose banks open slowly. -/
def slowConfig : HMCConfig where
  toConfig := { smallConfig with protocol := .hmc, tRCD := 20 }
  numLinks_pos := Nat.succ_pos (nat_lit 3)
  isHMC := rfl

/-- A read and a write of two addresses. -/
def orderedCalls : List JedecDRAMSystem.Call :=
  [.addTransaction 0 false, .clockTick, .addTransaction 2 true] ++ List.replicate 45 .clockTick

theorem inOrder_orderedCalls : InOrder slowConfig {} orderedCalls := by
  have hall : orderedCalls.inits.all fun before => (run slowConfig {} before).toOption.all fun h =>
      decide (h.sys.InOrder slowConfig) := by decide +kernel
  intro before hbefore h hrun
  have hmem : before ∈ orderedCalls.inits :=
    (List.mem_inits _ _).mpr ((List.prefix_append before [.clockTick]).trans hbefore)
  have hone := List.all_eq_true.mp hall before hmem
  rw [hrun] at hone
  exact of_decide_eq_true hone

/-- Both are answered, and every tick is in order. -/
theorem hmc_responses_matched_small : ∃ h, run slowConfig {} orderedCalls = .ok h ∧
    h.sys.called ⟨0, false⟩ = 1 ∧ h.sys.called ⟨2, true⟩ = 1 ∧ NotEarly slowConfig h := by
  obtain ⟨h, hrun, hh⟩ := exists_ok_of_any (x := run slowConfig {} orderedCalls)
    (p := fun h => h.sys.called ⟨0, false⟩ = 1 ∧ h.sys.called ⟨2, true⟩ = 1) (by decide +kernel)
  obtain ⟨hread, hwrite⟩ := of_decide_eq_true hh
  exact ⟨h, hrun, hread, hwrite,
    ((hmc_responses_matched slowConfig {} orderedCalls).2 h hrun).2 inOrder_orderedCalls⟩

/-- A write completes while a read of its address waits for its data, and claims the response of the
read. -/
theorem hmc_read_answered_early :
    ∃ h, run slowConfig {} ([.addTransaction 0 false, .clockTick, .addTransaction 0 true] ++
      List.replicate 9 .clockTick) = .ok h ∧ ¬ NotEarly slowConfig h := by
  have hany : (run slowConfig {} ([.addTransaction 0 false, .clockTick, .addTransaction 0 true] ++
      List.replicate 9 .clockTick)).toOption.any fun h =>
        decide (h.sys.completed slowConfig ⟨0, false⟩ < h.sys.called ⟨0, false⟩) := by decide +kernel
  obtain ⟨h, hrun, hlt⟩ := exists_ok_of_any hany
  exact ⟨h, hrun, fun hearly => absurd (hearly 0) (Nat.not_le.mpr (of_decide_eq_true hlt))⟩

end History
end CactusDram.HMC
