import CactusDram.Handshake

/-! The queue of RFM and DRFM requests when several mechanisms use it: who waits for a request, and
which uses of the queue lose one. -/
namespace CactusDram
open Foundations ChannelState

/-- A use of the queue that loses no request: a new request is found in the queue only if it would
serve the same purpose, and what is removed is of the type that was meant, or an RFMsb, which no rank
and no bank waits for. -/
def RfmCall.clear (cfg : Config) : RfmCall → Bool
  | .cactus _ found => found.isEmpty || found.any fun r => r.cmdType = .rfmAb
  | .launch bank found => found.isEmpty || found.any fun r => r.isDRFM && bank ∈ covered cfg r
  | .drop req found => found.all fun r => r.cmdType = req.cmdType || r.cmdType = .rfmSb

namespace Desk
variable {cfg : Config} {d d' : Desk} {b b' : BankId → Bool} {k : ℤ}

/-- Every rank and every bank that waits for a request has one in the queue. -/
structure Attended (cfg : Config) (s : Desk × (BankId → Bool)) : Prop where
  ranks : ∀ k, s.1.inflight k = true → ∃ r ∈ s.1.rfmQ, r.cmdType = .rfmAb ∧ r.rank = k
  banks : ∀ i, s.2 i = true → ∃ r ∈ s.1.rfmQ, r.isDRFM ∧ i ∈ covered cfg r

/-- A longer queue serves the same ranks and banks. -/
theorem Attended.mono (h : Attended cfg (d, b)) (hin : ∀ k, d'.inflight k = true → d.inflight k = true)
    (hq : ∀ r ∈ d.rfmQ, r ∈ d'.rfmQ) : Attended cfg (d', b) := by
  constructor
  · intro k hk
    obtain ⟨r, hr, hrank⟩ := h.ranks k (hin k hk)
    exact ⟨r, hq r hr, hrank⟩
  · intro i hi
    obtain ⟨r, hr, hcover⟩ := h.banks i hi
    exact ⟨r, hq r hr, hcover⟩

theorem mem_ask {req r : Command} (hr : r ∈ d.rfmQ) : r ∈ (d.ask req).rfmQ := by
  unfold ask
  split_ifs
  · exact hr
  · exact List.mem_append_left _ hr

/-- A request for the target is in the queue afterwards: the new one, or one that was there. -/
theorem exists_ask (d : Desk) (req : Command) : req ∈ (d.ask req).rfmQ ∨
    d.rfmQ.filter (rfmTarget req) ≠ [] ∧ (d.ask req).rfmQ = d.rfmQ := by
  unfold ask
  split_ifs with hany
  · refine .inr ⟨?_, rfl⟩
    obtain ⟨r, hr, htarget⟩ := List.any_eq_true.mp hany
    exact List.ne_nil_of_mem (List.mem_filter.mpr ⟨hr, htarget⟩)
  · exact .inl (by simp)

/-- Only the removed request is missing afterwards. -/
theorem mem_drop {req r : Command} (hclear : (RfmCall.drop req (d.rfmQ.find? (rfmTarget req))).clear cfg)
    (hr : r ∈ d.rfmQ) (hsb : r.cmdType ≠ .rfmSb)
    (hother : ¬(r.cmdType = req.cmdType ∧ rfmTarget req r)) : r ∈ (d.drop req).rfmQ := by
  apply mem_eraseP_of_find hr
  intro hfound
  rw [hfound] at hclear
  have htype : r.cmdType = req.cmdType ∨ r.cmdType = .rfmSb := by simpa [RfmCall.clear] using hclear
  exact hother ⟨htype.resolve_right hsb, List.find?_some hfound⟩

theorem covered_eq_of_rfmTarget {req r : Command} (hty : r.cmdType = req.cmdType)
    (h : rfmTarget req r) : covered cfg r = covered cfg req := by
  have hrank : r.isRankCMD = req.isRankCMD := by simp only [Command.isRankCMD, hty]
  have hsb : r.isSbCMD = req.isSbCMD := by simp only [Command.isSbCMD, hty]
  unfold rfmTarget at h
  unfold covered
  rw [hrank, hsb]
  split_ifs at h ⊢ with hr hs
  · rw [of_decide_eq_true h]
  · simp only [Bool.and_eq_true, decide_eq_true_eq] at h
    rw [h.1, h.2]
  · simp only [Bool.and_eq_true, decide_eq_true_eq] at h
    have hid : r.bankId = req.bankId := by
      rw [Command.bankId, Command.bankId, Address.bankId, Address.bankId, BankId.mk.injEq]
      exact ⟨h.1.1, h.1.2, h.2⟩
    rw [hid]

theorem mem_covered_drfmRequest {cmd : Command} (hbank : cmd.bankId ∈ cfg.allBanks) :
    cmd.bankId ∈ covered cfg (drfmRequest cfg cmd) := by
  obtain ⟨_, hgroup, hindex⟩ := cfg.mem_allBanks.mp hbank
  unfold drfmRequest
  split_ifs
  · exact List.mem_singleton_self _
  · exact (cfg.mem_banksetBanks).mpr ⟨rfl, hgroup, rfl⟩
  · exact (cfg.mem_rankBanks).mpr ⟨rfl, hgroup, hindex⟩

theorem isDRFM_drfmRequest (cmd : Command) : (drfmRequest cfg cmd).isDRFM := by
  unfold drfmRequest
  split_ifs <;> rfl

theorem Attended.promote (h : Attended cfg (d, b))
    (hclear : (RfmCall.cactus k (d.rfmQ.filter fun c => c.rank = k)).clear cfg) :
    Attended cfg (d.promote k, b) := by
  constructor
  · intro j hj
    by_cases hjk : j = k
    · subst hjk
      rcases d.exists_ask (request .rfmAb j (-1) (-1)) with hnew | ⟨hfound, _⟩
      · exact ⟨_, hnew, rfl, rfl⟩
      · have hany := hclear
        rw [RfmCall.clear, Bool.or_eq_true, List.isEmpty_iff] at hany
        obtain ⟨r, hr, hty⟩ := List.any_eq_true.mp (hany.resolve_left hfound)
        obtain ⟨hr, hrank⟩ := List.mem_filter.mp hr
        exact ⟨r, mem_ask hr, of_decide_eq_true hty, of_decide_eq_true hrank⟩
    · have hin : d.inflight j = true := by simpa [Desk.promote, hjk] using hj
      obtain ⟨r, hr, hrank⟩ := h.ranks j hin
      exact ⟨r, mem_ask hr, hrank⟩
  · intro i hi
    obtain ⟨r, hr, hcover⟩ := h.banks i hi
    exact ⟨r, mem_ask hr, hcover⟩

theorem Attended.launch {cmd : Command} (h : Attended cfg (d, b)) (hbank : cmd.bankId ∈ cfg.allBanks)
    (hclear : (RfmCall.launch cmd.bankId
      (d.rfmQ.filter (rfmTarget (drfmRequest cfg cmd)))).clear cfg) :
    Attended cfg (d.launch cfg cmd, Function.update b cmd.bankId true) := by
  constructor
  · intro k hk
    obtain ⟨r, hr, hrank⟩ := h.ranks k hk
    exact ⟨r, mem_ask hr, hrank⟩
  · intro i hi
    by_cases hic : i = cmd.bankId
    · subst hic
      rcases d.exists_ask (drfmRequest cfg cmd) with hnew | ⟨hfound, _⟩
      · exact ⟨_, hnew, isDRFM_drfmRequest cmd, mem_covered_drfmRequest hbank⟩
      · have hany := hclear
        rw [RfmCall.clear, Bool.or_eq_true, List.isEmpty_iff] at hany
        obtain ⟨r, hr, hcover⟩ := List.any_eq_true.mp (hany.resolve_left hfound)
        rw [Bool.and_eq_true, decide_eq_true_eq] at hcover
        exact ⟨r, mem_ask (List.mem_filter.mp hr).1, hcover⟩
    · obtain ⟨r, hr, hcover⟩ := h.banks i (by simpa [hic] using hi)
      exact ⟨r, mem_ask hr, hcover⟩

/-- What waits for the removed request is served by the move that removes it. -/
theorem Attended.dropped {req : Command} (h : Attended cfg (d, b))
    (hclear : (RfmCall.drop req (d.rfmQ.find? (rfmTarget req))).clear cfg)
    (hq : d'.rfmQ = (d.drop req).rfmQ) (hin : ∀ k, d'.inflight k = true → d.inflight k = true ∧
      ¬(req.cmdType = .rfmAb ∧ req.rank = k))
    (hb : ∀ i, b' i = true → b i = true ∧ ¬(req.isDRFM ∧ i ∈ covered cfg req)) :
    Attended cfg (d', b') := by
  constructor
  · intro k hk
    obtain ⟨hold, hnot⟩ := hin k hk
    obtain ⟨r, hr, hty, hrank⟩ := h.ranks k hold
    refine ⟨r, hq ▸ mem_drop hclear hr (by simp [hty]) ?_, hty, hrank⟩
    rintro ⟨hsame, htarget⟩
    have hreq : req.cmdType = .rfmAb := hsame.symm.trans hty
    have hrank' : r.rank = req.rank := by
      simpa [rfmTarget, Command.isRankCMD, hreq] using htarget
    exact hnot ⟨hreq, hrank'.symm.trans hrank⟩
  · intro i hi
    obtain ⟨hold, hnot⟩ := hb i hi
    obtain ⟨r, hr, hdrfm, hcover⟩ := h.banks i hold
    have hsb : r.cmdType ≠ .rfmSb := fun hsb => by simp [Command.isDRFM, hsb] at hdrfm
    refine ⟨r, hq ▸ mem_drop hclear hr hsb ?_, hdrfm, hcover⟩
    rintro ⟨hsame, htarget⟩
    have hreq : req.isDRFM := by
      simp only [Command.isDRFM, ← hsame] at hdrfm ⊢
      exact hdrfm
    exact hnot ⟨hreq, covered_eq_of_rfmTarget hsame htarget ▸ hcover⟩

theorem requestOf_cmdType (cmd : Command) : (requestOf cmd).cmdType = cmd.cmdType := by
  unfold requestOf
  split_ifs <;> rfl

theorem requestOf_rank (cmd : Command) : (requestOf cmd).rank = cmd.rank := by
  unfold requestOf
  split_ifs <;> rfl

theorem requestOf_isDRFM (cmd : Command) : (requestOf cmd).isDRFM = cmd.isDRFM := by
  simp only [Command.isDRFM, requestOf_cmdType]

theorem covered_requestOf (cmd : Command) : covered cfg (requestOf cmd) = covered cfg cmd := by
  obtain ⟨ty, addr, hex⟩ := cmd
  cases ty <;> rfl

theorem serve_rfmQ (cmd : Command) : (d.serve cfg cmd).rfmQ = (d.drop (requestOf cmd)).rfmQ := by
  unfold serve
  dsimp only
  split_ifs <;> rfl

theorem serve_calls (cmd : Command) : (d.serve cfg cmd).calls = (d.drop (requestOf cmd)).calls := by
  unfold serve
  dsimp only
  split_ifs <;> rfl

theorem serve_inflight {cmd : Command} (h : (d.serve cfg cmd).inflight k = true) :
    d.inflight k = true ∧ ¬(cmd.cmdType = .rfmAb ∧ cmd.rank = k) := by
  unfold serve at h
  dsimp only at h
  split_ifs at h with hrfm hpend
  · by_cases hk : k = cmd.rank
    · simp [release, hk] at h
    · exact ⟨by simpa [release, mitigate, drop, hk] using h, fun hno => hk hno.2.symm⟩
  · by_cases hk : k = cmd.rank
    · simp [release, hk] at h
    · exact ⟨by simpa [release, mitigate, drop, hk] using h, fun hno => hk hno.2.symm⟩
  · refine ⟨h, fun hno => hrfm ⟨hno.1, ?_⟩⟩
    rw [hno.2]
    exact h

theorem Attended.serve {cmd : Command} (h : Attended cfg (d, b))
    (hclear : (RfmCall.drop (requestOf cmd) (d.rfmQ.find? (rfmTarget (requestOf cmd)))).clear cfg) :
    Attended cfg (d.serve cfg cmd,
      fun i => if cmd.isDRFM ∧ i ∈ covered cfg cmd then false else b i) := by
  apply h.dropped hclear (serve_rfmQ cmd)
  · intro k hk
    rw [requestOf_cmdType, requestOf_rank]
    exact serve_inflight hk
  · intro i hi
    rw [requestOf_isDRFM, covered_requestOf]
    split_ifs at hi with hserved
    exact ⟨hi, hserved⟩

theorem Attended.absorb (h : Attended cfg (d, b))
    (hclear : (RfmCall.drop (request .rfmAb k (-1) (-1))
      (d.rfmQ.find? (rfmTarget (request .rfmAb k (-1) (-1))))).clear cfg) :
    Attended cfg (d.absorb k, b) := by
  refine h.dropped hclear (by rfl) ?_ ?_
  · intro j hj
    by_cases hjk : j = k
    · simp [Desk.absorb, release, drop, hjk] at hj
    · exact ⟨by simpa [Desk.absorb, mitigate, release, drop, hjk] using hj, fun hno => hjk hno.2.symm⟩
  · exact fun i hi => ⟨hi, fun hno => nomatch hno.1⟩

/-- A move whose use of the queue loses nothing leaves every rank and bank attended. -/
theorem Attended.move {s s' : Desk × (BankId → Bool)} (hm : Move cfg s s')
    (h : (∀ call ∈ s.1.calls, call.clear cfg) → Attended cfg s)
    (hclear : ∀ call ∈ s'.1.calls, call.clear cfg) : Attended cfg s' := by
  cases hm with
  | raise => exact (h hclear).mono (fun _ => id) fun _ => id
  | ask => exact (h hclear).mono (fun _ => id) fun _ => mem_ask
  | activate => exact (h hclear).mono (fun _ => id) fun _ => id
  | promote =>
    obtain ⟨hcall, hold⟩ := List.forall_mem_cons.mp hclear
    exact (h hold).promote hcall
  | launch _ hbank =>
    obtain ⟨hcall, hold⟩ := List.forall_mem_cons.mp hclear
    exact (h hold).launch hbank hcall
  | serve =>
    dsimp only at hclear
    rw [serve_calls] at hclear
    obtain ⟨hcall, hold⟩ := List.forall_mem_cons.mp hclear
    exact (h hold).serve hcall
  | absorb =>
    obtain ⟨hcall, hold⟩ := List.forall_mem_cons.mp hclear
    exact (h hold).absorb hcall

end Desk

/-- In a run that never takes a request of another kind for the one it asks for or removes, every rank
that waits for an RFMab and every bank that waits for a DRFM has it in the queue. -/
theorem mitigation_requests_survive (cfg : Config) (c : Controller) (hc : Reachable cfg c)
    (hclear : ∀ call ∈ c.channelState.rfmCalls, call.clear cfg) :
    (∀ k, c.channelState.cactusRfmInflight k →
      ∃ r ∈ c.channelState.rfmQ, r.cmdType = .rfmAb ∧ r.rank = k) ∧
    ∀ i, (c.channelState.bankStates i).drfmIssued →
      ∃ r ∈ c.channelState.rfmQ, r.isDRFM ∧ i ∈ covered cfg r := by
  have hattended := (Micro.reached_of_reachable hc).hand_induct
    (P := fun s => (∀ call ∈ s.1.calls, call.clear cfg) → Desk.Attended cfg s)
    (fun _ _ => ⟨fun _ h => (nomatch h), fun _ h => (nomatch h)⟩)
    (fun _ _ hs hm => Desk.Attended.move hm hs) hclear
  exact ⟨hattended.ranks, hattended.banks⟩

/-- CACTUS with an alert at every activation, and MINT with a DRFM of the bank after every one. -/
def sharedConfig : Config :=
  { smallConfig with
    cactusMode := 1, cactusTh := 1, aboDelayActs := 0, drfmMode := 1, mintMode := 1, mintWindow := 1
    tABOAct := 1 }

theorem mitigation_requests_survive_small : ∃ c,
    Controller.run sharedConfig ({} : Boot sharedConfig).controller (Input.request 0 false 3) = .ok c ∧
      c.channelState.cactusRfmInflight 0 ∧
      ∃ r ∈ c.channelState.rfmQ, r.cmdType = .rfmAb ∧ r.rank = 0 := by
  obtain ⟨c, hrun, hc⟩ := exists_ok_of_any (p := fun c : Controller =>
    c.channelState.cactusRfmInflight 0 && c.channelState.rfmCalls.all (RfmCall.clear sharedConfig))
    (x := Controller.run sharedConfig ({} : Boot sharedConfig).controller (Input.request 0 false 3))
    (by decide +kernel)
  rw [Bool.and_eq_true, List.all_eq_true] at hc
  obtain ⟨hranks, _⟩ := mitigation_requests_survive sharedConfig c ⟨{}, _, hrun⟩ hc.2
  exact ⟨c, hrun, hc.1, hranks 0 hc.1⟩

/-- The alert of rank 0 becomes a request while a DRFM of bank 0 is in the queue: the RFMab is not
queued, and the rank waits although the queue is empty. -/
theorem alert_request_lost :
    let cfg := { sharedConfig with tABOAct := 5 }
    ∃ c, Controller.run cfg ({} : Boot cfg).controller
        (Input.request 0 false 3 ++ Input.request 2 false 8) = .ok c ∧
      c.channelState.cactusRfmInflight 0 ∧ c.channelState.rfmQ = [] := by
  intro cfg
  obtain ⟨c, hrun, hc⟩ := exists_ok_of_any (p := fun c : Controller =>
    c.channelState.cactusRfmInflight 0 && c.channelState.rfmQ.isEmpty)
    (x := Controller.run cfg ({} : Boot cfg).controller
      (Input.request 0 false 3 ++ Input.request 2 false 8)) (by decide +kernel)
  rw [Bool.and_eq_true, List.isEmpty_iff] at hc
  exact ⟨c, hrun, hc⟩

end CactusDram
