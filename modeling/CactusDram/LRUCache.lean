import CactusDram.Config

/-! The set-associative LRU cache that holds Hydra row counts. It belongs to the
configuration object, so every channel of a system shares one instance. -/
namespace CactusDram

structure CacheEntry where
  addr : HexAddr := 0
  lastAccess : ℕ := 0
  valid : Bool := false
  dirty : Bool := false
  deriving DecidableEq, Repr

structure LRUCache where
  sets : ℕ
  ways : ℕ
  cache : ℕ → CacheEntry
  accessCount : ℕ

namespace LRUCache

def updateSize (sets ways : ℕ) : LRUCache := ⟨sets, ways, fun _ => {}, 0⟩

def getIndex (c : LRUCache) (addr : ℕ) : ℕ := addr % c.sets

/-- The way of a set that holds a valid copy of the tag. -/
def lookup (c : LRUCache) (addr : HexAddr) (set : ℕ) : Option ℕ :=
  (List.range c.ways).find? fun i =>
    (c.cache (set * c.ways + i)).addr = addr && (c.cache (set * c.ways + i)).valid

/-- The first way of least access time, given the best way so far. -/
def leastRecent (c : LRUCache) (set : ℕ) : ℕ → List ℕ → ℕ
  | best, [] => best
  | best, i :: rest =>
    if (c.cache (set * c.ways + i)).lastAccess < (c.cache (set * c.ways + best)).lastAccess then
      leastRecent c set i rest
    else leastRecent c set best rest

/-- The first invalid way, or else the least recently used one. -/
def findVictim (c : LRUCache) (set : ℕ) : ℕ :=
  match (List.range c.ways).find? fun i => !(c.cache (set * c.ways + i)).valid with
  | some i => i
  | none => leastRecent c set 0 ((List.range c.ways).drop 1)

/-- Replace the victim of a set; the result is `-1` or the address of a dirty victim. -/
def fill (c : LRUCache) (addr : HexAddr) (set : ℕ) (dirty : Bool) : HexAddr × LRUCache :=
  let slot := set * c.ways + c.findVictim set
  let victim := c.cache slot
  let writebackAddr := if victim.valid && victim.dirty then victim.addr else noAddr
  (writebackAddr,
    { c with
      cache := Function.update c.cache slot ⟨addr, c.accessCount, true, dirty⟩
      accessCount := c.accessCount + 1 })

def read (c : LRUCache) (addr : HexAddr) (set : ℕ) : HexAddr × LRUCache :=
  let set := c.getIndex set
  match c.lookup addr set with
  | some i =>
    let slot := set * c.ways + i
    (0, { c with
          cache := Function.update c.cache slot { c.cache slot with lastAccess := c.accessCount }
          accessCount := c.accessCount + 1 })
  | none => c.fill addr set false

def write (c : LRUCache) (addr : HexAddr) (set : ℕ) : HexAddr × LRUCache :=
  let set := c.getIndex set
  match c.lookup addr set with
  | some i =>
    let slot := set * c.ways + i
    (0, { c with
          cache := Function.update c.cache slot
            { c.cache slot with lastAccess := c.accessCount, dirty := true }
          accessCount := c.accessCount + 1 })
  | none => c.fill addr set true

end LRUCache
end CactusDram
