import LogSearch.Cache.Fetch

/-!
# The cache of fetches

The cache holds all fetches that were ever started, by number, and an index from keys to the fetches
that can be shared. A fetch to which no task refers any more leaves the index and is cancelled.

* `Cache.add`, `Cache.reference`, `Cache.referenceOrAdd`: ways for a task to get a fetch.
* `Cache.removeByKey`, `Cache.release`: ways for a task to let go of one.
* `Cache.forceRemove`: takes a fetch out of the index whatever refers to it.
-/

namespace LogSearch

/-- Fetches by number, and the numbers of those that can be shared by key. -/
structure Cache where
  fetches : List Fetch
  index : Dict Nat

/-- Misuse of the cache. -/
inductive CacheFault
  | duplicateKey (key : String)
  | missingKey (key : String)
deriving DecidableEq, Repr

/-- The wording of a fault. -/
def CacheFault.message : CacheFault → String
  | duplicateKey key => "cache key " ++ key ++ " already exists"
  | missingKey key => "cache key " ++ key ++ " does not exist"

namespace Cache

/-- No fetches. -/
def empty : Cache := ⟨[], []⟩

/-- How many fetches can be shared. -/
def size (c : Cache) : Nat := c.index.length

/-- The fetch with a number. -/
def fetch? (c : Cache) (id : Nat) : Option Fetch := c.fetches[id]?

/-- The number of the fetch under a key. -/
def find? (c : Cache) (key : String) : Option Nat := Dict.get? key c.index

/-- Whether there is a fetch for an identity. -/
def contains (c : Cache) (identity : CacheIdentity) : Bool := Dict.contains identity.key c.index

/-- Changes the fetch with a number. -/
def modify (c : Cache) (id : Nat) (f : Fetch → Fetch) : Cache :=
  { c with fetches := c.fetches.modify id f }

/-- Starts a fetch and enters it into the index. -/
def insert (c : Cache) (identity : CacheIdentity) (task : String) (response : Response) :
    Nat × Cache :=
  let id := c.fetches.length
  let f := Fetch.start identity task response
  (id, ⟨c.fetches ++ [f], Dict.insert f.key id c.index⟩)

/-- Starts a fetch that is not there yet. -/
def add (c : Cache) (identity : CacheIdentity) (task : String) (response : Response) :
    Except CacheFault (Nat × Cache) :=
  if c.contains identity then .error (.duplicateKey identity.key)
  else .ok (c.insert identity task response)

/-- Refers to a fetch that is there. -/
def reference (c : Cache) (identity : CacheIdentity) (task : String) :
    Except CacheFault (Nat × Cache) :=
  match c.find? identity.key with
  | none => .error (.missingKey identity.key)
  | some id => .ok (id, c.modify id fun f => f.addTask task)

/-- The number of the fetch for an identity, unless it has failed. -/
def usable? (c : Cache) (identity : CacheIdentity) : Option Nat :=
  (c.find? identity.key).filter fun id => !(c.fetch? id).any fun f => f.status.isFailed

/-- Refers to the fetch for an identity; if there is none, or it has failed, a new one is started. The
answer says whether it was. -/
def referenceOrAdd (c : Cache) (identity : CacheIdentity) (task : String) (response : Response) :
    Nat × Bool × Cache :=
  match c.usable? identity with
  | some id => (id, false, c.modify id fun f => f.addTask task)
  | none =>
    let (id, c) := c.insert identity task response
    (id, true, c)

/-- Takes the reference of a task from a fetch; without any, the fetch is cancelled. The answer says
whether it was. -/
def dropReference (c : Cache) (id : Nat) (task : String) : Bool × Cache :=
  let c := c.modify id fun f => f.removeTask task
  if (c.fetch? id).any fun f => f.tasks.isEmpty then (true, c.modify id Fetch.cancel) else (false, c)

/-- Takes a fetch out of the index, if it is the one under its key. -/
def unindex (c : Cache) (id : Nat) : Cache := { c with index := c.index.filter fun e => e.2 ≠ id }

/-- Lets go of the fetch under a key. The answer says whether it was cancelled. -/
def removeByKey (c : Cache) (key task : String) : Except CacheFault (Bool × Cache) :=
  match c.find? key with
  | none => .error (.missingKey key)
  | some id =>
    let (orphaned, c) := c.dropReference id task
    .ok (orphaned, if orphaned then c.unindex id else c)

/-- Lets go of a fetch, which need not be in the index. The answer says whether it was cancelled. -/
def release (c : Cache) (id : Nat) (task : String) : Bool × Cache :=
  let (orphaned, c) := c.dropReference id task
  (orphaned, if orphaned then c.unindex id else c)

/-- Takes the fetch for an identity out of the index. The answer is its number. -/
def forceRemove (c : Cache) (identity : CacheIdentity) : Option Nat × Cache :=
  (c.find? identity.key, { c with index := Dict.erase identity.key c.index })

/-- Lets every source take a turn. -/
def turn (c : Cache) : Cache := { c with fetches := c.fetches.map Fetch.turn }

/-- Whether a turn has an effect. -/
def canTurn (c : Cache) : Bool := c.fetches.any Fetch.canTurn

end Cache

end LogSearch
