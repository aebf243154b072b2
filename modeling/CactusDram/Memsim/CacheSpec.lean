import CactusDram.Memsim.MCache
import CactusDram.Foundations.Outcome

/-! Which lines the cache holds, and the one that leaves when another is installed. -/
namespace CactusDram.Memsim

/-- Two entries that hold the same line in the same state. -/
def MCacheEntry.Same (e e' : MCacheEntry) : Prop :=
  e'.valid = e.valid ∧ e'.dirty = e.dirty ∧ e'.tag = e.tag

namespace MCache
variable {c c' : MCache} {rand rand' : Stream' ℕ} {addr a set : ℕ}

theorem probe_iff : c.probe a = true ↔
    ∃ i ∈ c.ways (c.getIndex a), (c.entries i).valid = true ∧ (c.entries i).tag = a := by
  unfold probe lookup
  rw [List.find?_isSome]
  simp

theorem start_mem_ways (h : 0 < c.assocs) (set : ℕ) : set * c.assocs ∈ c.ways set := by
  rw [ways, List.mem_range'_1]
  omega

theorem probe_congr (hsets : c'.sets = c.sets) (hassocs : c'.assocs = c.assocs)
    (hentries : ∀ i, (c'.entries i).valid = (c.entries i).valid ∧ (c'.entries i).tag = (c.entries i).tag)
    (a : ℕ) : c'.probe a = c.probe a := by
  unfold probe lookup getIndex ways
  simp only [hsets, hassocs, fun i => (hentries i).1, fun i => (hentries i).2]

theorem access_fst : (c.access a).1 = c.probe a := by
  unfold access probe
  cases c.lookup a <;> rfl

theorem access_geometry (c : MCache) (a : ℕ) :
    (c.access a).2.sets = c.sets ∧ (c.access a).2.assocs = c.assocs ∧
      (c.access a).2.replPolicy = c.replPolicy := by
  unfold access
  cases c.lookup a <;> exact ⟨rfl, rfl, rfl⟩

theorem access_same (c : MCache) (a i : ℕ) : (c.entries i).Same ((c.access a).2.entries i) := by
  unfold access
  cases c.lookup a with
  | none => exact ⟨rfl, rfl, rfl⟩
  | some k =>
    dsimp only
    by_cases hi : i = k
    · subst hi
      rw [Function.update_self]
      exact ⟨rfl, rfl, rfl⟩
    · rw [Function.update_of_ne hi]
      exact ⟨rfl, rfl, rfl⟩

theorem probe_access (c : MCache) (a b : ℕ) : (c.access a).2.probe b = c.probe b :=
  probe_congr (access_geometry c a).1 (access_geometry c a).2.1
    (fun i => ⟨(access_same c a i).1, (access_same c a i).2.2⟩) b

theorem markDirty_lines (c : MCache) (a i : ℕ) :
    ((c.markDirty a).entries i).valid = (c.entries i).valid ∧
      ((c.markDirty a).entries i).tag = (c.entries i).tag := by
  unfold markDirty
  cases c.lookup a with
  | none => exact ⟨rfl, rfl⟩
  | some k =>
    dsimp only
    by_cases hi : i = k
    · subst hi
      rw [Function.update_self]
      exact ⟨rfl, rfl⟩
    · rw [Function.update_of_ne hi]
      exact ⟨rfl, rfl⟩

theorem markDirty_geometry (c : MCache) (a : ℕ) :
    (c.markDirty a).sets = c.sets ∧ (c.markDirty a).assocs = c.assocs := by
  unfold markDirty
  cases c.lookup a <;> exact ⟨rfl, rfl⟩

theorem probe_markDirty (c : MCache) (a b : ℕ) : (c.markDirty a).probe b = c.probe b :=
  probe_congr (markDirty_geometry c a).1 (markDirty_geometry c a).2 (markDirty_lines c a) b

theorem findVictimLru_mem (h : 0 < c.assocs) (set : ℕ) : c.findVictimLru set ∈ c.ways set := by
  unfold findVictimLru
  have hfold : ∀ (l : List ℕ) (lowest : ℕ), lowest ∈ c.ways set → (∀ i ∈ l, i ∈ c.ways set) →
      l.foldl (fun lowest i =>
        if (c.entries i).lastAccess < (c.entries lowest).lastAccess then i else lowest) lowest ∈
          c.ways set := by
    intro l
    induction l with
    | nil => exact fun lowest hlowest _ => hlowest
    | cons i l ih =>
      intro lowest hlowest hl
      rw [List.foldl_cons]
      refine ih _ ?_ fun j hj => hl j (List.mem_cons_of_mem i hj)
      split_ifs
      · exact hl i List.mem_cons_self
      · exact hlowest
  exact hfold _ _ (start_mem_ways h set) fun i hi => hi

/-- Aging leaves the lines alone and stops at a way of the set. -/
theorem srripLoop_spec (h : 0 < c.assocs) (set rounds : ℕ) (entries : ℕ → MCacheEntry) :
    (c.srripLoop set rounds entries).1 ∈ c.ways set ∧
      ∀ i, (entries i).Same ((c.srripLoop set rounds entries).2 i) := by
  induction rounds generalizing entries with
  | zero => exact ⟨start_mem_ways h set, fun i => ⟨rfl, rfl, rfl⟩⟩
  | succ rounds ih =>
    unfold srripLoop
    split
    next i hfind => exact ⟨List.mem_of_find?_eq_some hfind, fun i => ⟨rfl, rfl, rfl⟩⟩
    next =>
      obtain ⟨hmem, hsame⟩ := ih _
      refine ⟨hmem, fun i => ?_⟩
      have hi := hsame i
      split_ifs at hi <;> exact hi

/-- The victim is a way of the set, and looking for it leaves the lines alone. -/
theorem findVictim_spec (h : 0 < c.assocs) (rand : Stream' ℕ) (set : ℕ) :
    (c.findVictim rand set).1 ∈ c.ways set ∧ (c.findVictim rand set).2.1.sets = c.sets ∧
      (c.findVictim rand set).2.1.assocs = c.assocs ∧
      ∀ i, (c.entries i).Same ((c.findVictim rand set).2.1.entries i) := by
  unfold findVictim
  split
  next i hfind => exact ⟨List.mem_of_find?_eq_some hfind, rfl, rfl, fun i => ⟨rfl, rfl, rfl⟩⟩
  next =>
    cases c.replPolicy with
    | lru => exact ⟨findVictimLru_mem h set, rfl, rfl, fun i => ⟨rfl, rfl, rfl⟩⟩
    | rnd =>
      refine ⟨?_, rfl, rfl, fun i => ⟨rfl, rfl, rfl⟩⟩
      have hlt := Nat.mod_lt rand.head h
      dsimp only [findVictimRnd]
      rw [ways, List.mem_range'_1]
      omega
    | srrip =>
      obtain ⟨hmem, hsame⟩ := srripLoop_spec h set ((c.entries (set * c.assocs)).ripctr + 1) c.entries
      exact ⟨hmem, rfl, rfl, hsame⟩

/-- The entry whose place a line takes. -/
def victim (c : MCache) (rand : Stream' ℕ) (addr : ℕ) : MCacheEntry :=
  c.entries (c.findVictim rand (c.getIndex addr)).1

/-- After an installation the cache holds the new line and all others but the victim, which it
reports when it is dirty. -/
structure Installed (c : MCache) (rand : Stream' ℕ) (addr : ℕ) (c' : MCache) : Prop where
  held : c'.probe addr = true
  kept : ∀ b, c.probe b = true →
    ((c.victim rand addr).valid = true → (c.victim rand addr).tag ≠ b) → c'.probe b = true
  assocs : c'.assocs = c.assocs
  dirty : c'.evictedDirtyLine = ((c.victim rand addr).valid && (c.victim rand addr).dirty)
  line : c'.evictedDirtyLine = true → c'.evictedLineAddr = (c.victim rand addr).tag
  tags : ∀ i, (c'.entries i).valid = true → (c'.entries i).tag = addr ∨
    (c.entries i).valid = true ∧ (c'.entries i).tag = (c.entries i).tag

theorem install_spec (h : 0 < c.assocs) (hi : c.install rand addr = .ok (c', rand')) :
    Installed c rand addr c' := by
  unfold install at hi
  split_ifs at hi
  simp only [Except.ok.injEq, Prod.mk.injEq] at hi
  obtain ⟨rfl, _⟩ := hi
  obtain ⟨hmem, hsets, hassocs, hsame⟩ := findVictim_spec h rand (c.getIndex addr)
  have hvictim : c.victim rand addr = c.entries (c.findVictim rand (c.getIndex addr)).1 := rfl
  generalize (c.findVictim rand (c.getIndex addr)).1 = v at hmem hvictim ⊢
  generalize (c.findVictim rand (c.getIndex addr)).2.1 = d at hsets hassocs hsame ⊢
  have hways (set : ℕ) : (d.replace addr v).ways set = c.ways set := by
    simp only [ways, replace, hassocs]
  have hindex (b : ℕ) : (d.replace addr v).getIndex b = c.getIndex b := by
    simp only [getIndex, replace, hsets]
  have hnew : (d.replace addr v).entries v = ⟨true, false, addr, srripInit, d.sCount⟩ :=
    Function.update_self _ _ _
  have hold (i : ℕ) (hi : i ≠ v) : (d.replace addr v).entries i = d.entries i :=
    Function.update_of_ne hi _ _
  constructor
  case held =>
    refine probe_iff.mpr ⟨v, ?_, ?_⟩
    · rw [hways, hindex]
      exact hmem
    · rw [hnew]
      exact ⟨rfl, rfl⟩
  case kept =>
    intro b hb hother
    obtain ⟨i, hi, hvalid, htag⟩ := probe_iff.mp hb
    have hiv : i ≠ v := by
      rintro rfl
      rw [hvictim] at hother
      exact hother hvalid htag
    refine probe_iff.mpr ⟨i, ?_, ?_⟩
    · rw [hways, hindex]
      exact hi
    · rw [hold i hiv, (hsame i).1, (hsame i).2.2]
      exact ⟨hvalid, htag⟩
  case assocs => exact hassocs
  case dirty =>
    dsimp only [replace]
    rw [hvictim, (hsame v).1, (hsame v).2.1]
  case line =>
    intro hdirty
    dsimp only [replace] at hdirty ⊢
    rw [if_pos hdirty, hvictim]
    exact (hsame v).2.2
  case tags =>
    intro i hvalid
    by_cases hiv : i = v
    · subst hiv
      exact .inl (by rw [hnew])
    · rw [hold i hiv] at hvalid ⊢
      exact .inr ⟨(hsame i).1 ▸ hvalid, (hsame i).2.2⟩

end MCache
end CactusDram.Memsim
