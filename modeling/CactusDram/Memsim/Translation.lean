import CactusDram.Memsim.Writebacks
import Mathlib.Data.Finset.Card

/-! Translation gives every line of every thread a place of its own, and never moves it. -/
namespace CactusDram.Memsim
open Foundations

namespace OS
variable {os os' : OS} {rand rand' : Stream' ℕ} {pfn vpn tid lineaddr line : ℕ}

/-- Calls of `v2pLineaddr` one after another, each for a thread and a line of it. -/
def v2pLines (os : OS) (rand : Stream' ℕ) :
    List (ℕ × ℕ) → Except Abort (List ℕ × OS × Stream' ℕ)
  | [] => .ok ([], os, rand)
  | (tid, lineaddr) :: calls => do
    let (line, os, rand) ← os.v2pLineaddr rand lineaddr tid
    let (lines, os, rand) ← v2pLines os rand calls
    .ok (line :: lines, os, rand)

/-- The frames that some page has been given. -/
def allocated (os : OS) : Finset ℕ :=
  (Finset.range os.numPages).filter fun pfn => pfn ≠ 0 ∧ os.ipt pfn = true

/-- The page table, the frames in use and the miss counter agree: a mapped frame is marked, no two
pages share one, and every miss has allocated one. -/
structure Paged (os : OS) : Prop extends os.Reserved where
  marked : ∀ {k pfn}, os.pt k = some pfn → pfn < os.numPages ∧ os.ipt pfn = true
  apart : ∀ {k k' pfn}, os.pt k = some pfn → os.pt k' = some pfn → k = k'
  count : os.allocated.card = os.sMissCount

/-- What was mapped stays mapped where it was. -/
structure Keeps (os os' : OS) : Prop where
  pt : ∀ {k pfn}, os.pt k = some pfn → os'.pt k = some pfn
  numPages : os'.numPages = os.numPages
  linesInPage : os'.linesInPage = os.linesInPage

theorem Keeps.refl (os : OS) : os.Keeps os := ⟨id, rfl, rfl⟩

theorem Keeps.trans {os₁ os₂ os₃ : OS} (h : os₁.Keeps os₂) (h' : os₂.Keeps os₃) : os₁.Keeps os₃ :=
  ⟨fun hk => h'.pt (h.pt hk), h'.numPages.trans h.numPages, h'.linesInPage.trans h.linesInPage⟩

theorem Paged.new (p : Params) (numPages : ℕ) : (OS.new p numPages).Paged where
  toReserved := .new p numPages
  marked h := nomatch h
  apart h := nomatch h
  count := by
    refine Finset.card_eq_zero.mpr (Finset.filter_eq_empty_iff.mpr fun pfn _ => ?_)
    rintro ⟨hne, hipt⟩
    exact hne (of_decide_eq_true hipt)

theorem tryVictims_lt {tries : ℕ} (hpos : 0 < os.numPages)
    (h : os.tryVictims tries rand = .ok (pfn, rand')) : pfn < os.numPages := by
  induction tries generalizing rand with
  | zero => cases h
  | succ tries ih =>
    unfold tryVictims at h
    dsimp only at h
    split_ifs at h
    · cases h
      exact Nat.mod_lt _ hpos
    · exact ih h

/-- A frame that was free is marked, and nothing else changes. -/
theorem getVictimFromIpt_ok (h : os.getVictimFromIpt rand = .ok (pfn, os', rand')) :
    pfn < os.numPages ∧ os.ipt pfn = false ∧
      os' = { os with ipt := Function.update os.ipt pfn true } := by
  unfold OS.getVictimFromIpt at h
  split_ifs at h with hroom
  obtain ⟨⟨victim, rand₁⟩, htry, h⟩ := bind_ok_iff.mp h
  cases h
  exact ⟨tryVictims_lt (by omega) htry, tryVictims_free htry, rfl⟩

theorem allocated_update (hlt : pfn < os.numPages) (hne : pfn ≠ 0) (pt : ℕ → Option ℕ) (misses : ℕ) :
    ({ os with ipt := Function.update os.ipt pfn true, pt, sMissCount := misses } : OS).allocated =
      insert pfn os.allocated := by
  ext q
  simp only [allocated, Finset.mem_filter, Finset.mem_range, Finset.mem_insert]
  by_cases hq : q = pfn
  · subst hq
    simp [hlt, hne]
  · simp [hq]

namespace Paged

/-- A page that misses is given a frame that no other page has. -/
theorem miss (h : os.Paged) {key : ℕ} (hmiss : os.pt key = none) (hlt : pfn < os.numPages)
    (hfree : os.ipt pfn = false) :
    ({ os with
      ipt := Function.update os.ipt pfn true
      pt := Function.update os.pt key (some pfn)
      sMissCount := os.sMissCount + 1 } : OS).Paged := by
  have hne : pfn ≠ 0 := by
    rintro rfl
    simp [h.ipt] at hfree
  have hold {k q : ℕ} (hk : os.pt k = some q) : q ≠ pfn := by
    rintro rfl
    simp [(h.marked hk).2] at hfree
  have hcases {k q : ℕ} (hk : Function.update os.pt key (some pfn) k = some q) :
      k = key ∧ q = pfn ∨ os.pt k = some q := by
    by_cases hkey : k = key
    · subst hkey
      rw [Function.update_self] at hk
      exact .inl ⟨rfl, (Option.some.inj hk).symm⟩
    · rw [Function.update_of_ne hkey] at hk
      exact .inr hk
  refine ⟨⟨?_, ?_, h.lines⟩, ?_, ?_, ?_⟩
  · exact (Function.update_of_ne hne.symm _ _).trans h.ipt
  · intro k q hk
    rcases hcases hk with ⟨_, rfl⟩ | hk
    · exact hne
    · exact h.pt k q hk
  · intro k q hk
    rcases hcases hk with ⟨_, rfl⟩ | hk
    · exact ⟨hlt, Function.update_self _ _ _⟩
    · exact ⟨(h.marked hk).1, (Function.update_of_ne (hold hk) _ _).trans (h.marked hk).2⟩
  · intro k k' q hk hk'
    rcases hcases hk with ⟨hkey, hq⟩ | hkept <;> rcases hcases hk' with ⟨hkey', hq'⟩ | hkept'
    · exact hkey.trans hkey'.symm
    · exact absurd hq (hold hkept')
    · exact absurd hq' (hold hkept)
    · exact h.apart hkept hkept'
  · rw [allocated_update hlt hne, Finset.card_insert_of_notMem, h.count]
    simp [allocated, hfree]

/-- The page is mapped afterwards, to the frame returned. -/
theorem vpnToPfn (h : os.Paged) (hv : os.vpnToPfn rand vpn tid = .ok (pfn, os', rand')) :
    os'.Paged ∧ os.Keeps os' ∧ vpn < 2 ^ 36 ∧ os'.pt (tid * 2 ^ 36 + vpn) = some pfn := by
  unfold OS.vpnToPfn at hv
  split_ifs at hv with hwide
  dsimp only at hv
  have hvpn : vpn < 2 ^ 36 := by omega
  split at hv
  next pfn' hpt =>
    cases hv
    exact ⟨h, .refl os, hvpn, hpt⟩
  next hmiss =>
    obtain ⟨⟨victim, os₁, rand₁⟩, hvictim, hv⟩ := bind_ok_iff.mp hv
    cases hv
    obtain ⟨hlt, hfree, rfl⟩ := getVictimFromIpt_ok hvictim
    refine ⟨h.miss hmiss hlt hfree, ⟨fun {k q} hk => ?_, rfl, rfl⟩, hvpn, Function.update_self _ _ _⟩
    refine (Function.update_of_ne ?_ _ _).trans hk
    rintro rfl
    rw [hmiss] at hk
    cases hk

end Paged

/-- The line of a frame at which a call's line is placed. -/
def Places (os : OS) (call : ℕ × ℕ) (line : ℕ) : Prop :=
  call.2 / os.linesInPage < 2 ^ 36 ∧ ∃ pfn,
    os.pt (call.1 * 2 ^ 36 + call.2 / os.linesInPage) = some pfn ∧
      line = pfn * os.linesInPage + call.2 % os.linesInPage

theorem Keeps.places (h : os.Keeps os') {call : ℕ × ℕ} (hp : os.Places call line) :
    os'.Places call line := by
  obtain ⟨hvpn, pfn, hpt, hline⟩ := hp
  rw [Places, h.linesInPage]
  exact ⟨hvpn, pfn, h.pt hpt, hline⟩

theorem Paged.v2pLineaddr (h : os.Paged)
    (hv : os.v2pLineaddr rand lineaddr tid = .ok (line, os', rand')) :
    os'.Paged ∧ os.Keeps os' ∧ os'.Places (tid, lineaddr) line := by
  obtain ⟨⟨pfn, os₁, rand₁⟩, hpfn, hv⟩ := bind_ok_iff.mp hv
  cases hv
  obtain ⟨hos', hkeeps, hvpn, hpt⟩ := h.vpnToPfn hpfn
  refine ⟨hos', hkeeps, ?_⟩
  rw [Places, hkeeps.linesInPage]
  exact ⟨hvpn, pfn, hpt, rfl⟩

/-- After any calls each of them is placed by the page table as it is in the end. -/
theorem Paged.v2pLines (h : os.Paged) {calls : List (ℕ × ℕ)} {lines : List ℕ}
    (hv : os.v2pLines rand calls = .ok (lines, os', rand')) :
    os'.Paged ∧ os.Keeps os' ∧ List.Forall₂ os'.Places calls lines := by
  induction calls generalizing os rand lines with
  | nil =>
    cases hv
    exact ⟨h, .refl _, .nil⟩
  | cons call calls ih =>
    obtain ⟨⟨line, os₁, rand₁⟩, hline, hv⟩ := bind_ok_iff.mp hv
    obtain ⟨⟨rest, os₂, rand₂⟩, hrest, hv⟩ := bind_ok_iff.mp hv
    cases hv
    obtain ⟨hos₁, hkeeps₁, hplace⟩ := h.v2pLineaddr hline
    obtain ⟨hos', hkeeps, hplaces⟩ := ih hos₁ hrest
    exact ⟨hos', hkeeps₁.trans hkeeps, .cons (hkeeps.places hplace) hplaces⟩

/-- A thread number sits above the 36 bits of a page number. -/
theorem tidVpn_injective {tid' vpn' : ℕ} (hvpn : vpn < 2 ^ 36) (hvpn' : vpn' < 2 ^ 36)
    (h : tid * 2 ^ 36 + vpn = tid' * 2 ^ 36 + vpn') : tid = tid' ∧ vpn = vpn' := by
  omega

namespace Places
variable {call call' : ℕ × ℕ} {line' : ℕ}

theorem stable (h : os.Places call line) (h' : os.Places call line') : line = line' := by
  obtain ⟨_, pfn, hpt, rfl⟩ := h
  obtain ⟨_, pfn', hpt', rfl⟩ := h'
  cases hpt.symm.trans hpt'
  rfl

/-- The quotient and the remainder by the lines of a page, and of the key by the pages of a thread,
give the call back. -/
theorem injective (hos : os.Paged) (h : os.Places call line) (h' : os.Places call' line) :
    call = call' := by
  obtain ⟨hvpn, pfn, hpt, hline⟩ := h
  obtain ⟨hvpn', pfn', hpt', hline'⟩ := h'
  have hmod := Nat.mod_lt call.2 hos.lines
  have hmod' := Nat.mod_lt call'.2 hos.lines
  have hdiv (f r : ℕ) (hr : r < os.linesInPage) : (f * os.linesInPage + r) / os.linesInPage = f := by
    rw [Nat.mul_comm, Nat.mul_add_div hos.lines, Nat.div_eq_of_lt hr, Nat.add_zero]
  have hpfn : pfn = pfn' := by
    rw [← hdiv pfn _ hmod, ← hline, hline', hdiv pfn' _ hmod']
  subst hpfn
  obtain ⟨htid, hpage⟩ := tidVpn_injective hvpn hvpn' (hos.apart hpt hpt')
  have hoffset := Nat.add_left_cancel (hline.symm.trans hline')
  refine Prod.ext htid ?_
  rw [← Nat.div_add_mod call.2 os.linesInPage, hpage, hoffset, Nat.div_add_mod]

theorem bounds (hos : os.Paged) (h : os.Places call line) :
    os.linesInPage ≤ line ∧ line < os.numPages * os.linesInPage := by
  obtain ⟨_, pfn, hpt, rfl⟩ := h
  have hmod := Nat.mod_lt call.2 hos.lines
  have hne := hos.pt _ _ hpt
  have hlt := (hos.marked hpt).1
  have hlow : os.linesInPage ≤ pfn * os.linesInPage :=
    Nat.le_mul_of_pos_left _ (Nat.pos_of_ne_zero hne)
  have hhigh : (pfn + 1) * os.linesInPage ≤ os.numPages * os.linesInPage :=
    Nat.mul_le_mul_right _ hlt
  rw [Nat.add_mul] at hhigh
  omega

end Places

/-- What the calls returned: one line each, equal for equal calls only, in the frames from 1 on,
and as many frames in use as there were misses. -/
structure Translated (os : OS) (calls : List (ℕ × ℕ)) (lines : List ℕ) : Prop where
  length : lines.length = calls.length
  apart : ∀ x ∈ calls.zip lines, ∀ y ∈ calls.zip lines, x.1 = y.1 ↔ x.2 = y.2
  bounds : ∀ line ∈ lines, os.linesInPage ≤ line ∧ line < os.numPages * os.linesInPage
  count : os.allocated.card = os.sMissCount

theorem v2pLines_translated {p : Params} {numPages : ℕ} {calls : List (ℕ × ℕ)} {lines : List ℕ}
    (hv : (OS.new p numPages).v2pLines rand calls = .ok (lines, os, rand')) :
    os.numPages = numPages ∧ os.linesInPage = p.osPagesize / lineSize ∧
      os.Translated calls lines := by
  obtain ⟨hos, hkeeps, hplaces⟩ := (Paged.new p numPages).v2pLines hv
  have hzip : ∀ x ∈ calls.zip lines, os.Places x.1 x.2 := fun x hx => (List.forall₂_zip hplaces) hx
  refine ⟨hkeeps.numPages, hkeeps.linesInPage, hplaces.length_eq.symm, ?_, ?_, hos.count⟩
  · intro x hx y hy
    constructor
    · intro heq
      exact (hzip x hx).stable (heq ▸ hzip y hy)
    · intro heq
      exact (hzip x hx).injective hos (heq ▸ hzip y hy)
  · intro line hline
    rw [← List.map_snd_zip hplaces.length_eq.ge] at hline
    obtain ⟨x, hx, rfl⟩ := List.mem_map.mp hline
    exact (hzip x hx).bounds hos

/-- Two threads use the same page of theirs, and the first one twice. -/
theorem v2pLines_translated_two_threads :
    ((OS.new {} 100).v2pLines (Stream'.cons 1 (Stream'.const 2)) [(0, 5), (1, 5), (0, 5)]).map
      (fun r => r.1) = .ok [69, 133, 69] ∧
    ∃ os, OS.Translated os [(0, 5), (1, 5), (0, 5)] [69, 133, 69] :=
  ⟨rfl, _, (@v2pLines_translated _ (Stream'.cons 1 (Stream'.const 2)) _ {} 100
    [(0, 5), (1, 5), (0, 5)] [69, 133, 69] rfl).2.2⟩

end OS
end CactusDram.Memsim
