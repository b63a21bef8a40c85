import Xref.Manager.Flight

/-!
# Managers

A manager knows for each document its cache or the flight that is to build it. It does not own
caches: a cache is pinned in its document, one for each manager, and lives as long as it is pinned
there or somebody holds it. Requests ask for the cache of a document; they get it at once, join the
flight that builds it, or start one.

A manager that is cleared or dropped releases the caches it has pinned in documents that have an
entry. Its entries go when the clear ends, or when what it had is freed, and builds go on meanwhile.

Documents, flights and requests go by numbers; flights and requests are numbered in the order in
which they begin, and a cache goes by the number of the flight that built it.
-/

namespace Xref

/-- What a manager has for a document. -/
inductive Entry
  /-- A flight is to build the cache. -/
  | building (flight : Nat)
  /-- The cache that a flight has built; it may be gone by now. -/
  | built (flight : Nat)
  deriving DecidableEq

/-- What a request gets. -/
inductive Answer
  | cache (flight : Nat) (a : Artifacts)
  | failure (f : Failure)
  | unsupported (languageName : String)

/-- A request for the cache of a document. -/
inductive Request
  | waiting (flight : Nat)
  | answered (a : Answer)

/-- What a manager counts. -/
structure Manager.Counts where
  /-- Requests answered by a cache that was there. -/
  hits : Nat := 0
  /-- Requests that joined a flight or started one. -/
  misses : Nat := 0
  /-- Flights started. -/
  builds : Nat := 0
  /-- Builds that failed, other than by being cancelled. -/
  failedBuilds : Nat := 0
  /-- Entries removed because their documents were gone. -/
  swept : Nat := 0
  deriving DecidableEq

/-- The state of a manager and of everything that goes on with it. -/
structure Manager where
  /-- Every so many insertions, entries of documents that are gone are removed. -/
  interval : Nat
  interval_pos : 0 < interval
  insertions : Nat := 0
  entries : List (Nat × Entry) := []
  flights : List Flight := []
  requests : List Request := []
  /-- The caches pinned in documents by this manager. -/
  pins : List (Nat × Nat) := []
  /-- The documents that are gone. -/
  gone : List Nat := []
  /-- The caches that somebody else holds. -/
  held : List Nat := []
  counts : Manager.Counts := {}
  /-- The clears that are under way. -/
  clearing : Nat := 0
  isDropped : Bool := false
  isFreed : Bool := false

namespace Manager

/-- The usual interval. -/
def defaultInterval : Nat := 32

/-- A new manager. An interval of zero stands for one. -/
def new (interval : Nat) : Manager :=
  { interval := max interval 1, interval_pos := by omega }

/-! ## Views -/

/-- What the manager has for a document. -/
def entry? (m : Manager) (document : Nat) : Option Entry :=
  m.entries.lookup document

/-- The cache that a document holds for this manager. -/
def pin? (m : Manager) (document : Nat) : Option Nat :=
  m.pins.lookup document

/-- The cache that a flight has built. -/
def artifacts? (m : Manager) (flight : Nat) : Option Artifacts :=
  m.flights[flight]?.bind Flight.artifacts?

/-- A document has not gone. -/
def isLive (m : Manager) (document : Nat) : Bool :=
  !m.gone.contains document

/-- Somebody keeps a cache from disappearing. -/
def keeps (m : Manager) (cache : Nat) : Bool :=
  m.pins.any (fun p => p.2 == cache) || m.held.contains cache ||
    (m.flights[cache]?.map Flight.carriesCache).getD false

/-- A cache that has not disappeared. -/
def alive? (m : Manager) (cache : Nat) : Option Artifacts :=
  if m.keeps cache then m.artifacts? cache else none

/-- There is a cache for a document. -/
def contains (m : Manager) (document : Nat) : Bool :=
  match m.entry? document with
  | some (.built c) => m.isLive document && (m.alive? c).isSome
  | _ => false

/-- The number of entries, those of documents that are gone included. -/
def size (m : Manager) : Nat :=
  m.entries.length

/-- A request of the manager waits for a flight for the document, or a build holds the document. -/
def uses (m : Manager) (document : Nat) : Bool :=
  m.flights.any fun f => f.document == document && (0 < f.waiters || f.phase.holdsDocument)

/-- Some request has no answer yet. -/
def hasWaiting (m : Manager) : Bool :=
  m.requests.any fun r => match r with
    | .waiting _ => true
    | .answered _ => false

/-- Some build has its outcome and is still to bring it to the waiters. -/
def hasEnding (m : Manager) : Bool :=
  m.flights.any fun f => f.phase.holdsOutcome

/-! ## Changes -/

/-- Sets what the manager has for a document. -/
def setEntry (m : Manager) (document : Nat) (e : Entry) : Manager :=
  { m with entries := (document, e) :: m.entries.filter fun p => p.1 != document }

/-- Removes what the manager has for a document. -/
def removeEntry (m : Manager) (document : Nat) : Manager :=
  { m with entries := m.entries.filter fun p => p.1 != document }

/-- Changes a flight. -/
def onFlight (m : Manager) (flight : Nat) (f : Flight → Flight) : Manager :=
  { m with flights := m.flights.modify flight f }

/-- Brings a flight to a phase. -/
def setPhase (m : Manager) (flight : Nat) (p : Phase) : Manager :=
  m.onFlight flight fun f => { f with phase := p }

/-- Changes the counts. -/
def count (m : Manager) (f : Counts → Counts) : Manager :=
  { m with counts := f m.counts }

/-- Takes up a request. -/
def addRequest (m : Manager) (r : Request) : Manager :=
  { m with requests := m.requests ++ [r] }

/-- Settles a request. -/
def setRequest (m : Manager) (request : Nat) (r : Request) : Manager :=
  { m with requests := m.requests.set request r }

/-- Removes the entries of documents that are gone. -/
def purge (m : Manager) : Manager :=
  let (kept, swept) := m.entries.partition fun p => m.isLive p.1
  { m with entries := kept, counts.swept := m.counts.swept + swept.length }

/-- Releases the caches pinned in the documents that have an entry. -/
def unpinAll (m : Manager) : Manager :=
  { m with pins := m.pins.filter fun p => (m.entry? p.1).isNone }

/-! A manager is cleared in two steps, and other things may happen between them. -/

/-- Begins a clear: releases the caches pinned in documents that have an entry. -/
def beginClear (m : Manager) : Manager :=
  { m.unpinAll with clearing := m.clearing + 1 }

/-- Ends a clear that has begun: removes every entry. -/
def endClear (m : Manager) : Manager :=
  if m.clearing = 0 then m else { m with entries := [], clearing := m.clearing - 1 }

/-! ## Requests -/

/-- Starts a flight for a document. -/
def startFlight (m : Manager) (document : Nat) (name : String) : Manager :=
  let n := m.flights.length
  { m.setEntry document (.building n) with
    flights := m.flights ++ [.start document name]
    requests := m.requests ++ [.waiting n]
    counts := { m.counts with misses := m.counts.misses + 1, builds := m.counts.builds + 1 } }

/-- Counts an insertion, and purges when it is time to. -/
def countInsertion (m : Manager) : Manager :=
  let m := { m with insertions := m.insertions + 1 }
  if m.insertions % m.interval = 0 then m.purge else m

/-- Takes up a request that gets a cache at once. -/
def hit (m : Manager) (flight : Nat) (a : Artifacts) : Manager :=
  (m.addRequest (.answered (.cache flight a))).count fun n => { n with hits := n.hits + 1 }

/-- Lets a request join a flight. -/
def joinFlight (m : Manager) (flight : Nat) (f : Flight) : Manager :=
  ((m.onFlight flight fun _ => f).addRequest (.waiting flight)).count
    fun n => { n with misses := n.misses + 1 }

/-- Takes up a request for the cache of a document. -/
def get (m : Manager) (document : Nat) (name : String) (isCancelled : Bool) : Manager :=
  if isCancelled then m.addRequest (.answered (.failure .cancelled))
  else
    match m.entry? document with
    | some (.built c) =>
      match m.alive? c with
      | some a => m.hit c a
      | none => m.startFlight document name
    | some (.building n) =>
      match m.flights[n]?.bind Flight.join? with
      | some f => m.joinFlight n f
      | none => m.startFlight document name
    | none => (m.startFlight document name).countInsertion

/-- A request stops waiting. -/
def leave (m : Manager) (request : Nat) : Manager :=
  match m.requests[request]? with
  | some (.waiting n) =>
    (m.onFlight n Flight.leave).setRequest request (.answered (.failure .cancelled))
  | _ => m

/-- What the waiters of a flight get, once there is something to get. -/
def answer? (n : Nat) (f : Flight) : Option Answer :=
  match f.phase with
  | .published (.built a) => some (.cache n a)
  | .published (.failed e) => some (.failure e)
  | .published (.unsupported l) => some (.unsupported l)
  | .lost => some (.failure (.abandoned f.name))
  | _ => none

/-- A request takes what its flight has for it, and leaves. -/
def receive (m : Manager) (request : Nat) : Manager :=
  match m.requests[request]? with
  | some (.waiting n) =>
    match m.flights[n]?.bind (answer? n) with
    | some a => (m.onFlight n Flight.leave).setRequest request (.answered a)
    | none => m
  | _ => m

/-! ## Builds -/

/-- A build comes to its end. -/
def finish (m : Manager) (flight : Nat) (x : Except Failure Fetched) : Manager :=
  match m.flights[flight]?.map Flight.phase with
  | some .running => m.setPhase flight (.finished (.ofFetched x) !m.isFreed)
  | _ => m

/-- Pins the cache of a flight in the document, in place of another of this manager. -/
def pinCache (m : Manager) (flight document : Nat) : Manager :=
  { m with pins := (document, flight) :: m.pins.filter fun p => p.1 != document }

/-- A build that has built a cache pins it, unless the manager was freed before. -/
def pin (m : Manager) (flight : Nat) : Manager :=
  match m.flights[flight]? with
  | some f =>
    match f.phase with
    | .finished o attached =>
      let m := m.setPhase flight (.pinned o attached)
      match o with
      | .built _ => if attached then m.pinCache flight f.document else m
      | _ => m
    | _ => m
  | none => m

/-- Counts an outcome. -/
def countOutcome : Outcome → Counts → Counts
  | .built _, n => n
  | .failed .cancelled, n => n
  | .failed _, n => { n with failedBuilds := n.failedBuilds + 1 }
  | .unsupported _, n => n

/-- Enters an outcome for a document, if the entry still belongs to the flight: a cache takes its
place, and otherwise nothing does. -/
def enterOutcome (m : Manager) (flight document : Nat) (o : Outcome) : Manager :=
  if m.entry? document = some (.building flight) then
    match o with
    | .built _ => m.setEntry document (.built flight)
    | _ => m.removeEntry document
  else m

/-- The manager takes notice of an outcome. -/
def record (m : Manager) (flight : Nat) : Manager :=
  match m.flights[flight]? with
  | some f =>
    match f.phase with
    | .pinned o attached =>
      let m := m.setPhase flight (.recorded o)
      if attached then (m.enterOutcome flight f.document o).count (countOutcome o) else m
    | _ => m
  | none => m

/-- The outcome of a build becomes visible to its waiters. -/
def publish (m : Manager) (flight : Nat) : Manager :=
  match m.flights[flight]?.map Flight.phase with
  | some (.recorded o) => m.setPhase flight (.published o)
  | _ => m

/-- A build is destroyed before it begins. -/
def lose (m : Manager) (flight : Nat) : Manager :=
  match m.flights[flight]?.map Flight.phase with
  | some .running => m.setPhase flight .lost
  | _ => m

/-! ## Documents and caches -/

/-- A document goes, and with it what is pinned in it; one that is in use stays. -/
def forget (m : Manager) (document : Nat) : Manager :=
  if m.uses document then m
  else { m with gone := document :: m.gone, pins := m.pins.filter fun p => p.1 != document }

/-- Somebody holds a cache that has not disappeared. -/
def hold (m : Manager) (cache : Nat) : Manager :=
  if (m.alive? cache).isSome then { m with held := cache :: m.held } else m

/-- A cache is no longer held. -/
def release (m : Manager) (cache : Nat) : Manager :=
  { m with held := m.held.filter fun c => c != cache }

/-- The manager is dropped, which takes that nobody waits for it or is clearing it. It releases the
caches pinned in documents that have an entry. The entries stay, and builds still find them. -/
def drop (m : Manager) : Manager :=
  if m.isDropped || m.hasWaiting || 0 < m.clearing then m
  else { m.unpinAll with isDropped := true }

/-- What a dropped manager had is freed, which takes that no build is about to bring its outcome to
the entries. -/
def free (m : Manager) : Manager :=
  if m.isDropped && !m.hasEnding then { m with entries := [], isFreed := true } else m

end Manager

end Xref
