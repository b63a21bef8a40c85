import Xref.Cache.Query
import Xref.Manager.Event
import Xref.Session.Document

/-!
# Sessions

A session holds managers and documents, and the requests that have been made of them. What it is
told takes effect at once as far as nobody else is concerned. The rest is done by tasks, in the
order in which they were called for, and after them by builds and by requests whose answers are
ready, until nothing is left that could go on by itself (`Session.settle`). So of all the orders in
which the events of a manager can happen, a session takes one.

A build looks at the gate of its document when it is started, when the gate is opened or closed, and
when it is cancelled. If the gate is open its fetches begin, even if it has been cancelled; a closed
gate keeps it waiting, unless it has been cancelled. Where an artifact has to be made the build stops
until all tasks are done. If it is cancelled meanwhile, it notices only when it has waited for the
tree and has to make something from it; what another build has made by then it is given.
-/

namespace Xref

namespace Session

/-- A manager, and whether the session has it; otherwise only requests have. -/
structure Host where
  manager : Manager
  isHeld : Bool := true

/-- How far a request has come. -/
inductive Place
  /-- It has not begun. -/
  | queued
  /-- It is the manager's request of this number. -/
  | asked (request : Nat)
  /-- It has been destroyed. -/
  | aborted
  deriving DecidableEq

/-- A request of the session. -/
structure Waiter where
  manager : Nat
  document : Nat
  place : Place := .queued
  isCancelled : Bool
  isAborted : Bool := false

/-- How far the build of a flight has come. -/
inductive Progress
  /-- It has not begun. -/
  | fresh
  /-- It waits for the gate, which it has found closed as many times. -/
  | waiting (looks : Nat)
  /-- It waits for artifacts to be made. -/
  | working (hadTree : Bool)
  deriving DecidableEq

/-- How many times a build has found the gate closed. -/
def Progress.looks : Progress → Nat
  | .waiting n => n
  | _ => 0

/-- A build waits for the gate. -/
def Progress.isWaiting : Progress → Bool
  | .waiting _ => true
  | _ => false

/-- A build waits for artifacts to be made. -/
def Progress.isWorking : Progress → Bool
  | .working _ => true
  | _ => false

/-- A build that has not come to its end. -/
structure Build where
  manager : Nat
  flight : Nat
  document : Nat
  progress : Progress := .fresh

/-- Something to be done when the session goes on. -/
inductive Task
  /-- A request begins. -/
  | ask (waiter : Nat)
  /-- A request looks whether it has been cancelled or destroyed. -/
  | wake (waiter : Nat)
  /-- The builds that wait for the gate of a document look at it. -/
  | poll (document : Nat)
  deriving DecidableEq

end Session

open Session

/-- The state of a session. -/
structure Session where
  hosts : List Host := []
  documents : List Session.Document := []
  waiters : List Waiter := []
  /-- In the order in which they were started. -/
  builds : List Build := []
  tasks : List Task := []
  /-- The caches that have been seen, each by its manager and the flight that built it. -/
  caches : List (Nat × Nat) := []
  /-- What has been asked of caches. -/
  memos : List ((Nat × Nat) × Memo) := []

namespace Session

/-! ## Views -/

/-- A manager that the session has. -/
def manager? (s : Session) (m : Nat) : Option Manager :=
  s.hosts[m]?.bind fun h => if h.isHeld then some h.manager else none

/-- A document that the session has. -/
def document? (s : Session) (d : Nat) : Option Document :=
  s.documents[d]?.bind fun d => if d.isHeld then some d else none

/-- The request of a manager that stands for a waiter. -/
def request? (s : Session) (w : Waiter) : Option Request :=
  match w.place with
  | .asked r => s.hosts[w.manager]?.bind fun h => h.manager.requests[r]?
  | _ => none

/-- A request has no answer yet. -/
def isPending (s : Session) (w : Waiter) : Bool :=
  match w.place, s.request? w with
  | .queued, _ => true
  | _, some (.waiting _) => true
  | _, _ => false

/-- The answer to a request. -/
def answer? (s : Session) (w : Waiter) : Option Answer :=
  match s.request? w with
  | some (.answered a) => some a
  | _ => none

/-- The number of a cache that has been seen. -/
def cacheNumber? (s : Session) (manager flight : Nat) : Option Nat :=
  s.caches.findIdx? fun c => c == (manager, flight)

/-- What a cache is made over, if it has not disappeared. -/
def alive? (s : Session) (c : Nat) : Option Artifacts :=
  s.caches[c]?.bind fun (m, f) => s.hosts[m]?.bind fun h => h.manager.alive? f

/-- The number of caches pinned in a document. -/
def pinned (s : Session) (d : Nat) : Nat :=
  (s.hosts.filter fun h => (h.manager.pin? d).isSome).length

/-! ## Changes -/

/-- Changes a document. -/
def onDocument (s : Session) (d : Nat) (f : Document → Document) : Session :=
  { s with documents := s.documents.modify d f }

/-- Changes a request. -/
def onWaiter (s : Session) (w : Nat) (f : Waiter → Waiter) : Session :=
  { s with waiters := s.waiters.modify w f }

/-- Something happens to a manager. -/
def event (s : Session) (m : Nat) (e : Manager.Event) : Session :=
  { s with hosts := s.hosts.modify m fun h => { h with manager := h.manager.step e } }

/-- Calls for a task, unless it has been called for. -/
def addTask (s : Session) (t : Task) : Session :=
  if s.tasks.contains t then s else { s with tasks := s.tasks ++ [t] }

/-- Gives a cache a number, unless it has one. -/
def see (s : Session) (manager flight : Nat) : Session :=
  if (s.cacheNumber? manager flight).isSome then s
  else { s with caches := s.caches ++ [(manager, flight)] }

/-- Gives numbers to the caches that requests have got, in the order of the requests. -/
def seeAll (s : Session) : Session :=
  s.waiters.foldl
    (fun s w => match s.answer? w with
      | some (.cache f _) => s.see w.manager f
      | _ => s) s

/-! ## What nobody has any more -/

/-- Drops a manager that neither the session nor a request has. -/
def reapManager (s : Session) (m : Nat) : Session :=
  match s.hosts[m]? with
  | some h =>
    if h.isHeld || s.waiters.any fun w => w.manager == m && s.isPending w then s
    else (s.event m .drop).event m .free
  | none => s

/-- Forgets a document that neither the session nor a request nor a build has. -/
def reapDocument (s : Session) (d : Nat) : Session :=
  match s.documents[d]? with
  | some x =>
    if x.isHeld || x.isGone || (s.waiters.any fun w => w.document == d && s.isPending w) ||
        s.hosts.any fun h => h.manager.uses d then s
    else
      (List.range s.hosts.length).foldl (fun s m => s.event m (.forget d))
        (s.onDocument d fun x => { x with isGone := true })
  | none => s

/-- Drops and forgets what nobody has. -/
def reap (s : Session) : Session :=
  let s := (List.range s.hosts.length).foldl reapManager s
  (List.range s.documents.length).foldl reapDocument s

/-! ## Builds -/

/-- Brings a build to its end, and its outcome to where the waiters can see it. -/
def finishBuild (s : Session) (b : Build) (x : Except Failure Fetched) : Session :=
  let s := { s with builds := s.builds.filter fun c => (c.manager, c.flight) != (b.manager, b.flight) }
  [.finish b.flight x, .pin b.flight, .record b.flight, .publish b.flight].foldl
    (fun s e => s.event b.manager e) s

/-- Notes how far a build has come. -/
def setProgress (s : Session) (b : Build) (p : Progress) : Session :=
  { s with builds := s.builds.map fun c =>
      if (c.manager, c.flight) = (b.manager, b.flight) then { c with progress := p } else c }

/-- The flight of a build has been cancelled. -/
def isCancelled (s : Session) (b : Build) : Bool :=
  ((s.hosts[b.manager]?.bind fun h => h.manager.flights[b.flight]?).map Flight.isCancelled).getD false

/-- Another build is making the artifacts of a document. -/
def isMaking (s : Session) (d : Nat) : Bool :=
  s.builds.any fun b => b.document == d && b.progress.isWorking

/-- Begins the fetches of a build. -/
def beginFetches (s : Session) (b : Build) (d : Document) : Session :=
  let (r, d) :=
    (Document.beginAll b.progress.looks (s.isCancelled b) (s.isMaking b.document)).run d
  let s := s.onDocument b.document fun _ => d
  match r with
  | .error e => s.finishBuild b (.error e)
  | .ok () =>
    if d.isReady then s.finishBuild b (.ok d.fetched)
    else s.setProgress b (.working d.made.tree)

/-- Lets a build look at the gate and, if it is open, go on until artifacts have to be made. -/
def pollBuild (s : Session) (b : Build) : Session :=
  match s.documents[b.document]? with
  | some d =>
    if d.isOpen then s.beginFetches b d
    else if s.isCancelled b then s.finishBuild b (.error .cancelled)
    else s.setProgress b (.waiting (b.progress.looks + 1))
  | none => s

/-- A build looks at the gate without being told that the gate has been moved: for the first time,
or for the last time because it has been cancelled. -/
def isDue (s : Session) (b : Build) : Bool :=
  match b.progress with
  | .fresh => true
  | .waiting _ => s.isCancelled b
  | .working _ => false

/-- Lets a build go on once artifacts can be made. -/
def resumeBuild (s : Session) (b : Build) : Session :=
  match b.progress, s.documents[b.document]? with
  | .working hadTree, some d =>
    if s.isCancelled b && !hadTree && !d.isReady then
      (s.onDocument b.document fun d => { d with made.tree := true }).finishBuild b
        (.error .cancelled)
    else (s.onDocument b.document Document.makeAll).finishBuild b (.ok d.fetched)
  | _, _ => s

/-! ## Tasks -/

/-- Begins a request: the manager takes it up, and a flight started for it begins to build. -/
def ask (s : Session) (w : Nat) (x : Waiter) : Session :=
  match s.hosts[x.manager]?, s.documents[x.document]? with
  | some h, some d =>
    let s := s.event x.manager (.get x.document d.name x.isCancelled)
    let s := s.onWaiter w fun x => { x with place := .asked h.manager.requests.length }
    let flights := (s.hosts[x.manager]?.map fun h => h.manager.flights.length).getD 0
    if h.manager.flights.length < flights then
      { s with builds := s.builds ++
          [{ manager := x.manager, flight := h.manager.flights.length, document := x.document }] }
    else s
  | _, _ => s

/-- Does a task. -/
def perform (s : Session) (t : Task) : Session :=
  match t with
  | .ask w =>
    match s.waiters[w]? with
    | some x => if x.isAborted then s.onWaiter w fun x => { x with place := .aborted } else s.ask w x
    | none => s
  | .wake w =>
    match s.waiters[w]? with
    | some x =>
      match x.place, s.isPending x with
      | .asked r, true =>
        let s := s.event x.manager (.leave r)
        if x.isAborted then s.onWaiter w fun x => { x with place := .aborted } else s
      | _, _ => s
    | none => s
  | .poll d =>
    (s.builds.filter fun b => b.document == d && b.progress.isWaiting).foldl pollBuild s

/-- Gives a request its answer, if there is one. -/
def deliver (s : Session) (w : Waiter) : Session :=
  match w.place with
  | .asked r => s.event w.manager (.receive r)
  | _ => s

/-- Goes on until nothing is left that could go on by itself. -/
def settle (s : Session) : Session :=
  let s := s.tasks.foldl (fun s t => (s.perform t).reap) { s with tasks := [] }
  let s := (s.builds.filter s.isDue).foldl pollBuild s
  let s := s.builds.foldl resumeBuild s
  let s := s.waiters.foldl deliver s
  s.reap.seeAll

end Session

end Xref
