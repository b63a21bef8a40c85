import Xref.Cache.Artifacts

/-!
# Flights

A flight is one attempt to build the cache of a document, shared by every request that waits for
it. It counts its waiters. When the last one leaves, the flight is cancelled and nobody can join
it any more; the build itself may notice that, or may still come to its end.

When the outcome is known, four steps bring it to the waiters, and other things may happen between
any two of them: a cache is pinned in the document, the manager records the outcome in its entry
for the document, and the outcome is published. Only recording asks whether the entry still
belongs to the flight.
-/

namespace Xref

/-- How a build ends. -/
inductive Outcome
  | built (a : Artifacts)
  | failed (f : Failure)
  /-- The semantic model reports a language whose names cannot be compared. -/
  | unsupported (languageName : String)

namespace Outcome

/-- The outcome for what has been fetched: a cache, if all of it is of one version and the names
of the reported language can be compared. -/
def ofFetched : Except Failure Fetched → Outcome
  | .error f => failed f
  | .ok x =>
    if x.versions.agree then
      match Artifacts.make? x with
      | some a => built a
      | none => unsupported x.languageName
    else failed (.versionSkew x.name x.versions)

/-- What a cache is made over is of one version. -/
theorem agree_of_built {x : Except Failure Fetched} {a : Artifacts} (h : ofFetched x = built a) :
    a.versions.agree = true := by
  unfold ofFetched at h
  split at h
  · simp at h
  · split at h
    · next hx =>
      split at h
      · next ha =>
        injection h with h
        unfold Artifacts.make? at ha
        split at ha
        · simp at ha
        · simp only [Option.some.injEq] at ha
          rw [← h, ← ha]
          exact hx
      · simp at h
    · simp at h

end Outcome

/-- How far a build has come. -/
inductive Phase
  /-- Artifacts are being fetched. -/
  | running
  /-- The outcome is known. The manager was there at that moment, or had been freed. -/
  | finished (o : Outcome) (isAttached : Bool)
  /-- A cache has been pinned in the document, and the document let go. -/
  | pinned (o : Outcome) (isAttached : Bool)
  /-- The manager has taken notice. -/
  | recorded (o : Outcome)
  /-- The waiters can see the outcome. -/
  | published (o : Outcome)
  /-- The build has been destroyed before it began, and will have no outcome. -/
  | lost

namespace Phase

/-- The outcome, once it is known. -/
def outcome? : Phase → Option Outcome
  | running => none
  | finished o _ => some o
  | pinned o _ => some o
  | recorded o => some o
  | published o => some o
  | lost => none

/-- The build still holds the document. -/
def holdsDocument : Phase → Bool
  | running => true
  | finished .. => true
  | _ => false

/-- The build itself still holds its outcome. -/
def holdsOutcome : Phase → Bool
  | finished .. => true
  | pinned .. => true
  | recorded _ => true
  | _ => false

end Phase

/-- One attempt to build the cache of a document. -/
structure Flight where
  document : Nat
  /-- The name of the document. -/
  name : String
  waiters : Nat
  isCancelled : Bool
  phase : Phase

namespace Flight

/-- A flight as the first request starts it. -/
def start (document : Nat) (name : String) : Flight :=
  { document, name, waiters := 1, isCancelled := false, phase := .running }

/-- With one more waiter; a cancelled flight cannot be joined. -/
def join? (f : Flight) : Option Flight :=
  if f.isCancelled then none else some { f with waiters := f.waiters + 1 }

/-- With one waiter less; without waiters the flight is cancelled. -/
def leave (f : Flight) : Flight :=
  { f with waiters := f.waiters - 1, isCancelled := f.isCancelled || f.waiters - 1 == 0 }

/-- The cache that the flight has built. -/
def artifacts? (f : Flight) : Option Artifacts :=
  match f.phase.outcome? with
  | some (.built a) => some a
  | _ => none

/-- The cache is on its way to the waiters: the build holds it, or it waits for them. -/
def carriesCache (f : Flight) : Bool :=
  f.artifacts?.isSome && (f.phase.holdsOutcome || 0 < f.waiters)

end Flight

end Xref
