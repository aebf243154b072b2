import CactusDram.HMC.MemorySystem
import CactusDram.Foundations.Ensures
import CactusDram.Foundations.Queues

/-! The age counters of the crossbar are positive for the queues that hold something, and only for
them, so that arbitration never takes the front of an empty queue. -/
namespace CactusDram.HMC
open Foundations

/-- The ages tell which queues hold something, and the queues that are checked for room keep to the
queue depth. -/
structure Mirrored (cfg : HMCConfig) (s : HMCMemorySystem) : Prop where
  link : ∀ l, 0 < s.linkAgeCounter l ↔ s.linkReqQueues l ≠ []
  quad : ∀ q, 0 < s.quadAgeCounter q ↔ s.quadRespQueues q ≠ []
  linkReq : ∀ l, (s.linkReqQueues l).length ≤ cfg.xbarQueueDepth
  quadReq : ∀ q, (s.quadReqQueues q).length ≤ cfg.xbarQueueDepth
  linkResp : ∀ l, (s.linkRespQueues l).length ≤ cfg.xbarQueueDepth

/-- The failures other than the front of an empty queue. -/
def Fail.Orderly (e : Fail) : Prop := e ≠ .emptyFront

section Queues
variable {α : Type*} {queues : ℕ → List α} {ages : ℕ → ℤ} {i : ℕ} {x : α} {rest : List α}

/-- A queue that receives something becomes one year old. -/
theorem mirror_push (h : ∀ j, 0 < ages j ↔ queues j ≠ []) (j : ℕ) :
    0 < Function.update ages i 1 j ↔ Function.update queues i (queues i ++ [x]) j ≠ [] := by
  by_cases hj : j = i
  · subst hj
    simp
  · rw [Function.update_of_ne hj, Function.update_of_ne hj]
    exact h j

/-- A queue that is served starts anew, or is young no longer. -/
theorem mirror_pop (h : ∀ j, 0 < ages j ↔ queues j ≠ []) [Decidable (rest = [])] (j : ℕ) :
    0 < Function.update ages i (if rest = [] then 0 else 1) j ↔ Function.update queues i rest j ≠ [] := by
  by_cases hj : j = i
  · subst hj
    rw [Function.update_self, Function.update_self]
    split_ifs with hrest <;> simp [hrest]
  · rw [Function.update_of_ne hj, Function.update_of_ne hj]
    exact h j

/-- A queue that is stalled holds something and gets older. -/
theorem mirror_stall (h : ∀ j, 0 < ages j ↔ queues j ≠ []) (hi : queues i ≠ []) (j : ℕ) :
    0 < Function.update ages i (ages i + 1) j ↔ queues j ≠ [] := by
  by_cases hj : j = i
  · subst hj
    have hpos := (h j).mpr hi
    rw [Function.update_self]
    exact ⟨fun _ => hi, fun _ => by omega⟩
  · rw [Function.update_of_ne hj]
    exact h j

theorem age_map_range {n p : ℕ} (hp : p < n) (ages : ℕ → ℤ) : age ((List.range n).map ages) p = ages p := by
  simp [age, hp]

/-- The loop over an age queue finds every queue that it serves filled. -/
theorem arbitrate {S : Type*} {I : S → Prop} {queue : S → ℕ → List α} {f : S → ℕ → Except Fail S} {s : S}
    {n logicClk : ℕ}
    (step : ∀ s src, I s → queue s src ≠ [] →
      Ensures (fun s' => I s' ∧ ∀ c, c ≠ src → queue s c ≠ [] → queue s' c ≠ []) Fail.Orderly (f s src))
    (hs : I s) (hages : ∀ j, 0 < ages j ↔ queue s j ≠ []) :
    Ensures I Fail.Orderly ((buildAgeQueue ((List.range n).map ages) logicClk).foldlM f s) := by
  refine Ensures.foldlM_nodup (buildAgeQueue_nodup _ _) step hs ?_
  intro src hsrc
  obtain ⟨hlt, hpos⟩ := mem_buildAgeQueue.mp hsrc
  rw [List.length_map, List.length_range] at hlt
  rw [age_map_range hlt] at hpos
  exact (hages src).mp hpos

end Queues

namespace Mirrored
variable {cfg : HMCConfig} {s s' : HMCMemorySystem}

/-- Controllers and clocks are not mirrored. -/
theorem congr (h : Mirrored cfg s) (hlink : s'.linkAgeCounter = s.linkAgeCounter)
    (hquad : s'.quadAgeCounter = s.quadAgeCounter) (hlinkReq : s'.linkReqQueues = s.linkReqQueues)
    (hquadReq : s'.quadReqQueues = s.quadReqQueues) (hlinkResp : s'.linkRespQueues = s.linkRespQueues)
    (hquadResp : s'.quadRespQueues = s.quadRespQueues) : Mirrored cfg s' := by
  constructor
  · rw [hlink, hlinkReq]
    exact h.link
  · rw [hquad, hquadResp]
    exact h.quad
  · rw [hlinkReq]
    exact h.linkReq
  · rw [hquadReq]
    exact h.quadReq
  · rw [hlinkResp]
    exact h.linkResp

theorem iterateNextLink (h : Mirrored cfg s) : Mirrored cfg (s.iterateNextLink cfg) :=
  h.congr rfl rfl rfl rfl rfl rfl

theorem insertReqToLink (h : Mirrored cfg s) (req : HMCRequest) (link : ℕ) :
    Mirrored cfg (s.insertReqToLink cfg req link).2 := by
  unfold HMCMemorySystem.insertReqToLink
  split_ifs with hroom
  · exact ⟨mirror_push h.link, h.quad, length_push_le h.linkReq hroom, h.quadReq, h.linkResp⟩
  · exact h

theorem insertLoop (h : Mirrored cfg s) (req : HMCRequest) (startLink n : ℕ) :
    Mirrored cfg (HMCMemorySystem.insertLoop cfg req startLink n s).2 := by
  induction n generalizing s with
  | zero => exact h
  | succ n ih =>
    have hnext := (h.insertReqToLink req s.nextLink).iterateNextLink
    unfold HMCMemorySystem.insertLoop
    split_ifs
    · exact h
    · dsimp only
      split_ifs
      · exact hnext
      · exact ih hnext

theorem insertHMCReq (h : Mirrored cfg s) (req : HMCRequest) : Mirrored cfg (s.insertHMCReq cfg req).2 := by
  have hnext := (h.insertReqToLink req s.nextLink).iterateNextLink
  unfold HMCMemorySystem.insertHMCReq
  dsimp only
  split_ifs
  · exact hnext
  · exact hnext.insertLoop req _ _

theorem addTransaction (h : Mirrored cfg s) (hexAddr : HexAddr) (isWrite : Bool) :
    Ensures (Mirrored cfg) Fail.Orderly ((s.addTransaction cfg hexAddr isWrite).map Prod.snd) := by
  unfold HMCMemorySystem.addTransaction
  split
  · exact Fail.noConfusion
  · exact h.insertHMCReq _

theorem drainQuad (h : Mirrored cfg s) (i : ℕ) : Mirrored cfg (s.drainQuad cfg i) := by
  unfold HMCMemorySystem.drainQuad
  split
  · exact h
  · next req rest hq =>
    split_ifs
    · exact ⟨h.link, h.quad, h.linkReq, length_pop_le h.quadReq hq, h.linkResp⟩
    · exact h

theorem routeRequest (h : Mirrored cfg s) {src : ℕ} (hsrc : s.linkReqQueues src ≠ []) :
    Ensures (fun s' => Mirrored cfg s' ∧
      ∀ c, c ≠ src → s.linkReqQueues c ≠ [] → s'.linkReqQueues c ≠ []) Fail.Orderly
      (s.routeRequest cfg src) := by
  unfold HMCMemorySystem.routeRequest
  split
  · next hq => exact absurd hq hsrc
  · next req rest hq =>
    split
    · next hroom =>
      refine ⟨⟨mirror_pop h.link, h.quad, length_pop_le h.linkReq hq, length_push_le h.quadReq hroom.1,
        h.linkResp⟩, fun c hc hne => ?_⟩
      exact (Function.update_of_ne hc _ _).trans_ne hne
    · exact ⟨⟨mirror_stall h.link hsrc, h.quad, h.linkReq, h.quadReq, h.linkResp⟩, fun c _ hne => hne⟩

theorem drainRequests (h : Mirrored cfg s) :
    Ensures (Mirrored cfg) Fail.Orderly (s.drainRequests cfg) := by
  have hdrained : Mirrored cfg ((List.range 4).foldl (HMCMemorySystem.drainQuad cfg) s) :=
    List.foldlRecOn _ _ h fun s hs i _ => hs.drainQuad i
  unfold HMCMemorySystem.drainRequests
  generalize (List.range 4).foldl (HMCMemorySystem.drainQuad cfg) s = t at hdrained
  have hready : Mirrored cfg { t with quadBusy := HMCMemorySystem.drainBusy t.quadBusy } :=
    ⟨hdrained.link, hdrained.quad, hdrained.linkReq, hdrained.quadReq, hdrained.linkResp⟩
  exact arbitrate (fun _ _ hs hsrc => hs.routeRequest hsrc) hready hready.link

theorem deliver (h : Mirrored cfg s) (i : ℕ) : Mirrored cfg (s.deliver i) := by
  unfold HMCMemorySystem.deliver
  split
  · exact h
  · next resp rest hq =>
    split_ifs
    · exact ⟨h.link, h.quad, h.linkReq, h.quadReq, length_pop_le h.linkResp hq⟩
    · exact h

theorem routeResponse (h : Mirrored cfg s) {src : ℕ} (hsrc : s.quadRespQueues src ≠ []) :
    Ensures (fun s' => Mirrored cfg s' ∧
      ∀ c, c ≠ src → s.quadRespQueues c ≠ [] → s'.quadRespQueues c ≠ []) Fail.Orderly
      (s.routeResponse cfg src) := by
  unfold HMCMemorySystem.routeResponse
  split
  · next hq => exact absurd hq hsrc
  · next resp rest hq =>
    split
    · next hroom =>
      refine ⟨⟨h.link, mirror_pop h.quad, h.linkReq, h.quadReq, length_push_le h.linkResp hroom.1⟩,
        fun c hc hne => ?_⟩
      exact (Function.update_of_ne hc _ _).trans_ne hne
    · exact ⟨⟨h.link, mirror_stall h.quad hsrc, h.linkReq, h.quadReq, h.linkResp⟩, fun c _ hne => hne⟩

theorem drainResponses (h : Mirrored cfg s) :
    Ensures (Mirrored cfg) Fail.Orderly (s.drainResponses cfg) := by
  have hdelivered : Mirrored cfg ((List.range cfg.numLinks).foldl HMCMemorySystem.deliver s) :=
    List.foldlRecOn _ _ h fun s hs i _ => hs.deliver i
  unfold HMCMemorySystem.drainResponses
  generalize (List.range cfg.numLinks).foldl HMCMemorySystem.deliver s = t at hdelivered
  have hready : Mirrored cfg { t with linkBusy := HMCMemorySystem.drainBusy t.linkBusy } :=
    ⟨hdelivered.link, hdelivered.quad, hdelivered.linkReq, hdelivered.quadReq, hdelivered.linkResp⟩
  exact arbitrate (fun _ _ hs hsrc => hs.routeResponse hsrc) hready hready.quad

theorem vaultCallback (h : Mirrored cfg s) (reqId : HexAddr) :
    Ensures (Mirrored cfg) Fail.Orderly (s.vaultCallback reqId) := by
  unfold HMCMemorySystem.vaultCallback
  split
  · exact Fail.noConfusion
  · exact ⟨h.link, mirror_push h.quad, h.linkReq, h.quadReq, h.linkResp⟩

theorem returnVault (h : Mirrored cfg s) (i : ℕ) :
    Ensures (Mirrored cfg) Fail.Orderly (s.returnVault i) :=
  Ensures.foldlM (fun _ t _ hs => hs.vaultCallback t.addr) (h.congr rfl rfl rfl rfl rfl rfl)

theorem tickVault (h : Mirrored cfg s) (i : ℕ) :
    Ensures (Mirrored cfg) Fail.Orderly (s.tickVault cfg i) := by
  unfold HMCMemorySystem.tickVault
  cases s.base.tickChannel cfg.toConfig i with
  | ok base => exact h.congr rfl rfl rfl rfl rfl rfl
  | error e => exact Fail.noConfusion

theorem dramClockTick (h : Mirrored cfg s) :
    Ensures (Mirrored cfg) Fail.Orderly (s.dramClockTick cfg) := by
  refine Ensures.bind (Ensures.foldlM (fun _ i _ hs => hs.returnVault i) h) fun s hs => ?_
  refine Ensures.bind (Ensures.foldlM (fun _ i _ hs => hs.tickVault i) hs) fun s hs => ?_
  exact hs.congr rfl rfl rfl rfl rfl rfl

theorem logicTick (h : Mirrored cfg s) : Mirrored cfg (s.logicTick cfg) :=
  h.congr rfl rfl rfl rfl rfl rfl

theorem logicLoop (h : Mirrored cfg s) (n : ℕ) :
    Ensures (Mirrored cfg) Fail.Orderly (HMCMemorySystem.logicLoop cfg n s) := by
  induction n generalizing s with
  | zero =>
    unfold HMCMemorySystem.logicLoop
    split_ifs
    · exact Fail.noConfusion
    · exact h
  | succ n ih =>
    unfold HMCMemorySystem.logicLoop
    split_ifs
    · exact Ensures.bind h.drainResponses fun s hs => Ensures.bind hs.drainRequests fun s hs =>
        ih hs.logicTick
    · exact h

theorem dramCycle (h : Mirrored cfg s) : Ensures (Mirrored cfg) Fail.Orderly (s.dramCycle cfg) := by
  unfold HMCMemorySystem.dramCycle
  split_ifs
  · exact Ensures.bind h.drainResponses fun s hs => Ensures.bind hs.dramClockTick fun s hs =>
      Ensures.bind hs.drainRequests fun s hs => hs.logicTick
  · exact h.dramClockTick

theorem clockTick (h : Mirrored cfg s) : Ensures (Mirrored cfg) Fail.Orderly (s.clockTick cfg) :=
  Ensures.bind h.dramCycle fun _ hs => Ensures.bind (hs.logicLoop _) fun _ hs =>
    hs.congr rfl rfl rfl rfl rfl rfl

theorem run (h : Mirrored cfg s) (calls : List JedecDRAMSystem.Call) :
    Ensures (Mirrored cfg) Fail.Orderly (s.run cfg calls) := by
  refine Ensures.foldlM (fun s call _ hs => ?_) h
  cases call with
  | addTransaction hexAddr isWrite => exact hs.addTransaction hexAddr isWrite
  | clockTick => exact hs.clockTick

theorem system (boot : SystemBoot cfg.toConfig) : Mirrored cfg (HMC.system boot) :=
  ⟨fun _ => by simp [HMC.system], fun _ => by simp [HMC.system], fun _ => Nat.zero_le _,
    fun _ => Nat.zero_le _, fun _ => Nat.zero_le _⟩

end Mirrored

theorem hmc_queues_mirrored (cfg : HMCConfig) (boot : SystemBoot cfg.toConfig)
    (calls : List JedecDRAMSystem.Call) :
    (∀ s, (system boot).run cfg calls = .ok s → Mirrored cfg s) ∧
      (system boot).run cfg calls ≠ .error .emptyFront :=
  ⟨fun _ hs => ((Mirrored.system boot).run calls).of_ok hs,
    fun he => ((Mirrored.system boot).run calls).of_error he rfl⟩

end CactusDram.HMC
