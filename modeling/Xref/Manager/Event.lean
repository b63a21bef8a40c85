import Xref.Manager.Basic

/-!
# Runs of a manager

Everything that happens to a manager is one of the events below, and a run is a list of events in
the order in which they happen. Any order can happen: an event that is not possible where it
stands changes nothing. In particular a flight goes through its phases at its own pace, whatever
becomes of its waiters and of the entry for its document.
-/

namespace Xref.Manager

/-- Something that happens to a manager. -/
inductive Event
  /-- A request for the cache of a document that has not gone. -/
  | get (document : Nat) (name : String) (isCancelled : Bool)
  /-- A waiting request is cancelled or destroyed. -/
  | leave (request : Nat)
  /-- A waiting request takes the outcome of its flight. -/
  | receive (request : Nat)
  /-- A build has fetched what it needs, or cannot. -/
  | finish (flight : Nat) (x : Except Failure Fetched)
  | pin (flight : Nat)
  | record (flight : Nat)
  | publish (flight : Nat)
  | lose (flight : Nat)
  | purge
  | beginClear
  | endClear
  /-- The manager is dropped. -/
  | drop
  /-- What a dropped manager had is freed. -/
  | free
  /-- A document goes. -/
  | forget (document : Nat)
  | hold (cache : Nat)
  | release (cache : Nat)

/-- The manager after an event. One that has been dropped takes no requests. -/
def step (m : Manager) : Event → Manager
  | .get d name c => if m.isDropped || !m.isLive d then m else m.get d name c
  | .leave r => m.leave r
  | .receive r => m.receive r
  | .finish f x => m.finish f x
  | .pin f => m.pin f
  | .record f => m.record f
  | .publish f => m.publish f
  | .lose f => m.lose f
  | .purge => if m.isDropped then m else m.purge
  | .beginClear => if m.isDropped then m else m.beginClear
  | .endClear => m.endClear
  | .drop => m.drop
  | .free => m.free
  | .forget d => m.forget d
  | .hold c => m.hold c
  | .release c => m.release c

/-- The manager after a run. -/
def run (m : Manager) (es : List Event) : Manager :=
  es.foldl step m

@[simp] theorem run_nil (m : Manager) : m.run [] = m := rfl

@[simp] theorem run_cons (m : Manager) (e : Event) (es : List Event) :
    m.run (e :: es) = (m.step e).run es := rfl

@[simp] theorem run_append (m : Manager) (es fs : List Event) :
    m.run (es ++ fs) = (m.run es).run fs :=
  List.foldl_append

/-- What every event keeps holds after every run. -/
theorem run_induction {p : Manager → Prop} {m : Manager} (h : p m)
    (hs : ∀ m e, p m → p (m.step e)) (es : List Event) : p (m.run es) := by
  induction es generalizing m with
  | nil => exact h
  | cons e es ih => exact ih (hs m e h)

end Xref.Manager
