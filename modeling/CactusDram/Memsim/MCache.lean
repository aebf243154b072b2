import CactusDram.Memsim.OS

/-! The shared last-level cache. A line is installed when it misses, long before memory answers. -/
namespace CactusDram.Memsim

inductive ReplPolicy
  | lru
  | rnd
  | srrip
  deriving DecidableEq, Repr

structure MCacheEntry where
  valid : Bool := false
  dirty : Bool := false
  tag : ℕ := 0
  ripctr : ℕ := 0
  lastAccess : ℕ := 0
  deriving DecidableEq, Repr

/-- `index_policy` is 0 throughout, so a set is chosen by the address modulo the sets. -/
structure MCache where
  sets : ℕ
  assocs : ℕ
  replPolicy : ReplPolicy
  entries : ℕ → MCacheEntry := fun _ => {}
  evictedDirtyLine : Bool := false
  evictedLineAddr : ℕ := 0
  sCount : ℕ := 0

def srripMax : ℕ := 7
def srripInit : ℕ := 1

namespace MCache
variable (c : MCache)

def getIndex (addr : ℕ) : ℕ := addr % c.sets

/-- The positions `start..end` of a set. -/
def ways (set : ℕ) : List ℕ := List.range' (set * c.assocs) c.assocs

/-- The first position of its set that holds a valid copy of the line. -/
def lookup (addr : ℕ) : Option ℕ :=
  (c.ways (c.getIndex addr)).find? fun i => (c.entries i).valid && (c.entries i).tag = addr

def probe (addr : ℕ) : Bool := (c.lookup addr).isSome

/-- A hit makes the line the most recent one. -/
def access (addr : ℕ) : Bool × MCache :=
  let sCount := c.sCount + 1
  match c.lookup addr with
  | some i => (true, { c with
      sCount := sCount
      entries := Function.update c.entries i
        { c.entries i with lastAccess := sCount, ripctr := srripMax } })
  | none => (false, { c with sCount := sCount })

def markDirty (addr : ℕ) : MCache :=
  match c.lookup addr with
  | some i => { c with entries := Function.update c.entries i { c.entries i with dirty := true } }
  | none => c

/-- The first position of least access time. -/
def findVictimLru (set : ℕ) : ℕ :=
  (c.ways set).foldl (fun lowest i =>
    if (c.entries i).lastAccess < (c.entries lowest).lastAccess then i else lowest) (set * c.assocs)

def findVictimRnd (rand : Stream' ℕ) (set : ℕ) : ℕ := set * c.assocs + rand.head % c.assocs

/-- One round of the while loop after another: the first counter at zero, or else all counters
of the set count down. -/
def srripLoop (set : ℕ) : ℕ → (ℕ → MCacheEntry) → ℕ × (ℕ → MCacheEntry)
  | 0, entries => (set * c.assocs, entries)
  | rounds + 1, entries =>
    match (c.ways set).find? fun i => (entries i).ripctr = 0 with
    | some i => (i, entries)
    | none => srripLoop set rounds fun i =>
      if i ∈ c.ways set then { entries i with ripctr := (entries i).ripctr - 1 } else entries i

/-- The counter of the first way reaches zero after as many rounds. -/
def findVictimSrrip (set : ℕ) : ℕ × (ℕ → MCacheEntry) :=
  c.srripLoop set ((c.entries (set * c.assocs)).ripctr + 1) c.entries

/-- An invalid position if there is one. -/
def findVictim (rand : Stream' ℕ) (set : ℕ) : ℕ × MCache × Stream' ℕ :=
  match (c.ways set).find? fun i => !(c.entries i).valid with
  | some i => (i, c, rand)
  | none =>
    match c.replPolicy with
    | .lru => (c.findVictimLru set, c, rand)
    | .rnd => (c.findVictimRnd rand set, c, rand.tail)
    | .srrip => ((c.findVictimSrrip set).1, { c with entries := (c.findVictimSrrip set).2 }, rand)

/-- The new line takes the place of the victim. -/
def replace (addr victim : ℕ) : MCache :=
  { c with
    evictedDirtyLine := (c.entries victim).valid && (c.entries victim).dirty
    evictedLineAddr := if (c.entries victim).valid && (c.entries victim).dirty then
      (c.entries victim).tag else c.evictedLineAddr
    entries := Function.update c.entries victim ⟨true, false, addr, srripInit, c.sCount⟩ }

def install (rand : Stream' ℕ) (addr : ℕ) : Except Abort (MCache × Stream' ℕ) :=
  if c.probe addr then .error .alreadyInstalled
  else
    let (victim, c, rand) := c.findVictim rand (c.getIndex addr)
    .ok (c.replace addr victim, rand)

end MCache
end CactusDram.Memsim
