import Xref.Diagnostics
import Xref.Session.Basic

/-!
# Steps of a session

What a session can be told. Managers, documents, requests and caches go by the numbers that they
were given in order. A step that names a manager or document that the session does not have says
so and changes nothing.
-/

namespace Xref.Session

/-- A step of a session. -/
abbrev Step (α : Type) := StateM Session α

/-! ## Managers and documents -/

/-- Takes a new manager, with the usual interval unless another is given. -/
def newManager (interval : Option Nat) : Step Nat := do
  let s ← get
  let h : Host := { manager := .new (interval.getD Manager.defaultInterval) }
  set { s with hosts := s.hosts ++ [h] }
  return s.hosts.length

/-- Takes a new document. -/
def newDocument (d : Document) : Step Nat := do
  let s ← get
  set { s with documents := s.documents ++ [d] }
  return s.documents.length

/-- Does something with a manager that the session has. -/
def withManager {α : Type} (m : Nat) (f : Manager → Step α) : Step (Option α) := do
  match (← get).manager? m with
  | some x => return some (← f x)
  | none => return none

/-- Does something with a document that the session has. -/
def withDocument {α : Type} (d : Nat) (f : Document → Step α) : Step (Option α) := do
  match (← get).document? d with
  | some x => return some (← f x)
  | none => return none

/-- Does something with a manager and a document that the session has. -/
def withBoth {α : Type} (m d : Nat) (f : Manager → Document → Step α) : Step (Option α) := do
  let s ← get
  match s.manager? m, s.document? d with
  | some x, some y => return some (← f x y)
  | _, _ => return none

/-- Lets a manager go; tells whether the session had it. -/
def dropManager (m : Nat) : Step Bool := do
  let s ← get
  set ({ s with hosts := s.hosts.modify m fun h => { h with isHeld := false } }).reap
  return (s.manager? m).isSome

/-- Lets a document go; tells whether the session had it. -/
def dropDocument (d : Nat) : Step Bool := do
  let s ← get
  set (s.onDocument d fun x => { x with isHeld := false }).reap
  return (s.document? d).isSome

/-! ## Requests -/

/-- Requests the cache of a document. -/
def request (m d : Nat) (isCancelled : Bool) : Step (Option Nat) :=
  withBoth m d fun _ _ => do
    let s ← get
    let w : Waiter := { manager := m, document := d, isCancelled }
    set ({ s with waiters := s.waiters ++ [w] }.addTask (.ask s.waiters.length))
    return s.waiters.length

/-- Changes a request that is pending, and tells whether it was. -/
def interrupt (w : Nat) (f : Waiter → Waiter) : Step Bool := do
  let s ← get
  match s.waiters[w]? with
  | some x =>
    if s.isPending x then
      set ((s.onWaiter w f).addTask (.wake w))
      return true
    else return false
  | none => return false

/-- Cancels a request. -/
def cancel (w : Nat) : Step Bool :=
  interrupt w fun x => { x with isCancelled := true }

/-- Destroys a request. -/
def abort (w : Nat) : Step Bool :=
  interrupt w fun x => { x with isAborted := true }

/-- What the latest request of a manager got from it. -/
def lastAnswer? (s : Session) (m : Nat) : Option Answer :=
  match s.hosts[m]?.bind fun h => h.manager.requests.getLast? with
  | some (.answered a) => some a
  | _ => none

/-- Requests the cache of a document, and destroys the build that this starts before it begins.
Gives the number of the cache if there is one, and else fails. -/
def requestAbandoned (m d : Nat) : Step (Option (Except Failure Nat)) :=
  withBoth m d fun x y => do
    let r := x.requests.length
    let happens : List Manager.Event :=
      [.get d y.name false, .lose x.flights.length, .receive r, .leave r]
    modify fun s => (happens.foldl (fun s e => s.event m e) s).reap
    match lastAnswer? (← get) m with
    | some (.cache f _) =>
      modify fun s => s.see m f
      return .ok (((← get).cacheNumber? m f).getD 0)
    | _ => return .error (.abandoned y.name)

/-! ## Documents -/

/-- Opens or closes the gate of a document. Whoever waits for it looks, even if it stays as it was. -/
def moveGate (d : Nat) (isOpen : Bool) : Step (Option Unit) :=
  withDocument d fun _ =>
    modify fun s => (s.onDocument d fun x => { x with isOpen }).addTask (.poll d)

/-- Opens the gate of a document. -/
def openGate (d : Nat) : Step (Option Unit) := moveGate d true

/-- Closes the gate of a document. -/
def closeGate (d : Nat) : Step (Option Unit) := moveGate d false

/-- Lets the next fetch of an artifact fail. -/
def failNext (d : Nat) (stage : Stage) : Step (Option Unit) :=
  withDocument d fun _ =>
    modify fun s => s.onDocument d fun x => { x with failing := stage :: x.failing }

/-- Fetches an artifact, whether the gate is open or not. -/
def fetch {α : Type} (d : Nat) (f : Document.Fetch α) : Step (Option (Except Failure α)) :=
  withDocument d fun x => do
    let (r, x) := f.run x
    modify fun s => s.onDocument d fun _ => x
    return r

/-- The number of caches pinned in a document. -/
def slot (d : Nat) : Step (Option Nat) :=
  withDocument d fun _ => return (← get).pinned d

/-! ## Managers -/

/-- A manager has a cache for a document. -/
def contains (m d : Nat) : Step (Option Bool) :=
  withBoth m d fun x _ => return x.contains d

/-- Purges a manager, and gives the number of entries removed. -/
def purge (m : Nat) : Step (Option Nat) :=
  withManager m fun x => do
    modify fun s => s.event m .purge
    return x.size - x.purge.size

/-- Clears a manager, and gives the number of entries left. -/
def clear (m : Nat) : Step (Option Nat) :=
  withManager m fun x => do
    modify fun s => (s.event m .beginClear).event m .endClear
    return x.beginClear.endClear.size

/-- One line about a manager. -/
def describe (m : Nat) : Step (Option String) :=
  withManager m fun x => return Diagnostics.manager x.size x.interval

/-! ## Caches -/

/-- A cache has not disappeared. -/
def isAlive (c : Nat) : Step Bool :=
  return ((← get).alive? c).isSome

/-- Holds a cache, if it has not disappeared. -/
def hold (c : Nat) : Step Bool := do
  let s ← get
  match s.caches[c]?, s.alive? c with
  | some (m, f), some _ =>
    set (s.event m (.hold f))
    return true
  | _, _ => return false

/-- Lets all caches go. -/
def releaseAll : Step Unit :=
  modify fun s => s.caches.foldl (fun s (m, f) => s.event m (.release f)) s

/-- Asks a cache that has not disappeared. -/
def query {α : Type} (c : Nat) (q : Artifacts → Query α) :
    Step (Option (Except Failure α × Artifacts × Memo)) := do
  let s ← get
  match s.caches[c]?, s.alive? c with
  | some k, some a =>
    let (r, memo) := (q a).run ((s.memos.lookup k).getD {})
    set { s with memos := (k, memo) :: s.memos.filter fun x => x.1 != k }
    return some (r, a, memo)
  | _, _ => return none

end Xref.Session
