import Xref.Proofs.Manager.Waiters

/-!
# What a request gets

A request that has joined a flight looks at nothing but the flight: it takes what the flight has for
it, and that is decided by the build alone. `fate` says what becomes of the request from the events
that concern the two of them, and `run_requests` that nothing else matters. So whoever else waits,
comes or goes makes no difference, as long as the flight is not cancelled, which it is not while the
request waits.

All who stay with a flight get the same (`Served.agree`), and they do get it when the build goes to
its end (`run_requests_of_build`).
-/

namespace Xref

namespace Manager.Event

/-- The flight whose build takes the event. -/
def build? : Event → Option Nat
  | finish n _ => some n
  | pin n => some n
  | record n => some n
  | publish n => some n
  | lose n => some n
  | _ => none

def request? : Event → Option Nat
  | leave r => some r
  | receive r => some r
  | _ => none

/-- The event is one of the flight's build, or of the request. -/
def concerns (n r : Nat) (e : Event) : Bool :=
  e.build? == some n || e.request? == some r

/-- A build that goes to its end. -/
def ofBuild (n : Nat) (x : Except Failure Fetched) : List Manager.Event :=
  [finish n x, pin n, record n, publish n]

end Manager.Event

def Outcome.answer (n : Nat) : Outcome → Answer
  | built a => .cache n a
  | failed e => .failure e
  | unsupported l => .unsupported l

namespace Phase

/-- Where an event takes a build, if its manager is there. -/
def after (p : Phase) (e : Manager.Event) : Phase :=
  match e, p with
  | .finish _ x, running => finished (.ofFetched x) true
  | .pin _, finished o isAttached => pinned o isAttached
  | .record _, pinned o _ => recorded o
  | .publish _, recorded o => published o
  | .lose _, running => lost
  | _, p => p

theorem Next.build? {n : Nat} {e : Manager.Event} {p q : Phase} (h : Next n e p q) :
    e.build? = some n := by
  cases h <;> rfl

theorem Goes.eq {n : Nat} {isHere : Bool} {e : Manager.Event} {p q : Phase}
    (h : Goes n isHere e p q) (hne : e.build? ≠ some n) : q = p := by
  cases h with
  | same => rfl
  | next next => exact (hne next.build?).elim
  | _ => exact (hne rfl).elim

/-- What a build has for the waiters of its flight. -/
def answer? (n : Nat) (name : String) : Phase → Option Answer
  | published o => some (o.answer n)
  | lost => some (.failure (.abandoned name))
  | _ => none

/-- What there is for a request that waits for a flight, when it leaves or asks. -/
def offer? (n : Nat) (name : String) (p : Phase) : Manager.Event → Option Answer
  | .leave _ => some (.failure .cancelled)
  | .receive _ => p.answer? n name
  | _ => none

/-- What a build that goes to its end has for the waiters of its flight, where the outcome is that
of what has been fetched unless it is known already. -/
def verdict (n : Nat) (name : String) (x : Except Failure Fetched) (p : Phase) : Answer :=
  match p with
  | lost => .failure (.abandoned name)
  | p => (p.outcome?.getD (.ofFetched x)).answer n

end Phase

namespace Manager

variable {m m' : Manager} {e : Event} {n k r : Nat} {f : Flight} {q : Request} {es es' : List Event}

theorem answer?_eq (n : Nat) (f : Flight) : answer? n f = f.phase.answer? n f.name := by
  unfold answer?
  rcases f.phase with _ | _ | _ | _ | (_ | _ | _) | _ <;> rfl

/-! ## One event -/

theorem Move.requests (h : Move m e m') (he : e.request? = none)
    (hg : ∀ d name b, e ≠ .get d name b) : m'.requests = m.requests := by
  cases h with
  | turnAway | hit | join | start => exact (hg _ _ _ rfl).elim
  | leave | receive => cases he
  | sweep swept =>
      cases swept
      rfl
  | _ => rfl

/-- Only its own events change a request. -/
theorem Move.request (h : Move m e m') (hr : m.requests[r]? = some q) (hne : e.request? ≠ some r) :
    m'.requests[r]? = some q := by
  have appended (x : Request) : (m.requests ++ [x])[r]? = some q :=
    (List.getElem?_append_left (List.getElem?_eq_some_iff.1 hr).1).trans hr
  have settled {s : Nat} (hs : some s ≠ some r) (x : Request) :
      (m.requests.set s x)[r]? = some q := by
    rw [List.getElem?_set_ne fun h => hs (congrArg some h)]
    exact hr
  cases h with
  | turnAway | hit | join => exact appended _
  | start here live gone cancelled swept =>
      cases swept
      exact appended _
  | leave waits => exact settled hne _
  | receive waits flight has => exact settled hne _
  | sweep swept =>
      cases swept
      exact hr
  | _ => exact hr

theorem depart_requests (hr : m.requests[r]? = some q) (n : Nat) (a : Answer) :
    (m.depart n r a).requests[r]? = some (.answered a) :=
  List.getElem?_set_self (List.getElem?_eq_some_iff.1 hr).1

theorem depart_flights (hf : m.flights[n]? = some f) (r : Nat) (a : Answer) :
    (m.depart n r a).flights[n]? = some f.leave :=
  (getElem?_modify_of_eq hf _ n).trans (by rw [if_pos rfl])

theorem step_of_waiting (he : e.request? = some r) (hr : m.requests[r]? = some (.waiting n))
    (hf : m.flights[n]? = some f) :
    m.step e = match f.phase.offer? n f.name e with
      | some a => m.depart n r a
      | none => m := by
  cases e with
  | leave s =>
      cases he
      rw [step, Manager.leave, hr]
      rfl
  | receive s =>
      cases he
      rw [step, Manager.receive, hr, Phase.offer?, ← answer?_eq]
      simp only [hf, Option.bind_some]
      rfl
  | _ => cases he

theorem step_of_settled (he : e.request? = some r)
    (hr : ∀ n, m.requests[r]? ≠ some (.waiting n)) : m.step e = m := by
  cases e with
  | leave s =>
      cases he
      rw [step, Manager.leave]
      split
      · next n hn => exact (hr n hn).elim
      · rfl
  | receive s =>
      cases he
      rw [step, Manager.receive]
      split
      · next n hn => exact (hr n hn).elim
      · rfl
  | _ => cases he

theorem run_answered {a : Answer} (h : m.requests[r]? = some (.answered a)) (es : List Event) :
    (m.run es).requests[r]? = some (.answered a) := by
  refine run_induction (p := fun m => m.requests[r]? = some (.answered a)) h (fun m e h => ?_) es
  by_cases he : e.request? = some r
  · rw [step_of_settled he fun n hn => by cases h.symm.trans hn]
    exact h
  · exact (move_step m e).request h he

theorem Move.phase (h : Move m e m') (hf : m.flights[n]? = some f) (hne : e.build? ≠ some n) :
    ∃ f', m'.flights[n]? = some f' ∧ f'.name = f.name ∧ f'.phase = f.phase := by
  obtain ⟨f', hf', hl⟩ := h.later hf
  exact ⟨f', hf', hl.name, (h.goes hf hf').eq hne⟩

theorem setPhase_flights (hf : m.flights[n]? = some f) (p : Phase) :
    (m.setPhase n p).flights[n]? = some { f with phase := p } :=
  (getElem?_modify_of_eq hf _ n).trans (by rw [if_pos rfl])

/-- Its own build takes a flight from phase to phase, until the manager is freed. -/
theorem build_phase (here : m.isFreed = false) (hf : m.flights[n]? = some f)
    (he : e.build? = some n) :
    (m.step e).flights[n]? = some { f with phase := f.phase.after e } := by
  obtain ⟨d, name, w, c, p⟩ := f
  cases e with
  | finish k x =>
      cases he
      rw [step, finish, hf]
      cases p with
      | running =>
          refine (setPhase_flights hf _).trans ?_
          rw [here]
          rfl
      | _ => exact hf
  | pin k =>
      cases he
      rw [step, Manager.pin]
      simp only [hf]
      cases p with
      | finished o isAttached =>
          refine Eq.trans ?_ (setPhase_flights hf (.pinned o isAttached))
          cases o with
          | built a => cases isAttached <;> rfl
          | _ => rfl
      | _ => exact hf
  | record k =>
      cases he
      rw [step, Manager.record]
      simp only [hf]
      cases p with
      | pinned o isAttached =>
          refine Eq.trans ?_ (setPhase_flights hf (.recorded o))
          cases isAttached with
          | false => rfl
          | true =>
              dsimp only
              rw [enterOutcome_eq]
              rfl
      | _ => exact hf
  | publish k =>
      cases he
      rw [step, publish, hf]
      cases p with
      | recorded o => exact setPhase_flights hf _
      | _ => exact hf
  | lose k =>
      cases he
      rw [step, lose, hf]
      cases p with
      | running => exact setPhase_flights hf _
      | _ => exact hf
  | _ => cases he

/-! ## The fate of a request -/

/-- What becomes of a request that waits for a flight whose build stands at a phase. -/
def fate (n r : Nat) (name : String) : List Event → Phase → Request
  | [], _ => .waiting n
  | .leave s :: es, p => if s = r then .answered (.failure .cancelled) else fate n r name es p
  | .receive s :: es, p =>
    if s = r then
      match p.answer? n name with
      | some a => .answered a
      | none => fate n r name es p
    else fate n r name es p
  | e :: es, p => fate n r name es (if e.build? = some n then p.after e else p)

theorem fate_of_request? (he : e.request? = some r) (name : String) (es : List Event) (p : Phase) :
    fate n r name (e :: es) p = match p.offer? n name e with
      | some a => .answered a
      | none => fate n r name es p := by
  cases e with
  | leave s =>
      cases he
      exact if_pos rfl
  | receive s =>
      cases he
      exact if_pos rfl
  | _ => cases he

theorem fate_of_request?_ne (he : e.request? ≠ some r) (name : String) (es : List Event)
    (p : Phase) :
    fate n r name (e :: es) p =
      fate n r name es (if e.build? = some n then p.after e else p) := by
  cases e with
  | leave s =>
      rw [fate, if_neg fun h => he (congrArg some h)]
      rfl
  | receive s =>
      rw [fate, if_neg fun h => he (congrArg some h)]
      rfl
  | _ => rfl

theorem fate_filter (n r : Nat) (name : String) (es : List Event) (p : Phase) :
    fate n r name (es.filter (Event.concerns n r)) p = fate n r name es p := by
  induction es generalizing p with
  | nil => rfl
  | cons e es ih =>
      by_cases he : e.concerns n r = true
      · rw [List.filter_cons_of_pos he]
        by_cases hr : e.request? = some r
        · rw [fate_of_request? hr, fate_of_request? hr, ih]
        · rw [fate_of_request?_ne hr, fate_of_request?_ne hr, ih]
      · rw [List.filter_cons_of_neg he, ih]
        simp only [Event.concerns, Bool.or_eq_true, beq_iff_eq, not_or] at he
        rw [fate_of_request?_ne he.2, if_neg he.1]

theorem run_requests (h : m.Accounted) (hr : m.requests[r]? = some (.waiting n))
    (hf : m.flights[n]? = some f) (es : List Event) :
    (m.run es).requests[r]? = some (fate n r f.name es f.phase) := by
  -- While the request waits the manager is there, so `after` is what its build does; once it does
  -- not wait any more, the flight does not matter.
  induction es generalizing m f with
  | nil => exact hr
  | cons e es ih =>
      have hm := move_step m e
      have hs := h.move hm
      rw [run_cons]
      by_cases he : e.request? = some r
      · rw [step_of_waiting he hr hf, fate_of_request? he]
        cases f.phase.offer? n f.name e with
        | some a => exact run_answered (depart_requests hr n a) es
        | none => exact ih h hr hf
      · have hq := hm.request hr he
        rw [fate_of_request?_ne he]
        by_cases hb : e.build? = some n
        · rw [if_pos hb]
          exact ih hs hq (build_phase (h.not_freed (h.not_dropped hr)) hf hb)
        · rw [if_neg hb]
          obtain ⟨f', hf', hname, hphase⟩ := hm.phase hf hb
          rw [ih hs hq hf', hname, hphase]

/-- Two requests that wait for the same flight get the same, wherever they are, if its build and
they themselves go through the same events. -/
theorem run_requests_congr (h : m.Accounted) (h' : m'.Accounted)
    (hr : m.requests[r]? = some (.waiting n)) (hr' : m'.requests[r]? = some (.waiting n))
    {f' : Flight} (hf : m.flights[n]? = some f) (hf' : m'.flights[n]? = some f')
    (hname : f'.name = f.name) (hphase : f'.phase = f.phase)
    (hes : es.filter (Event.concerns n r) = es'.filter (Event.concerns n r)) :
    (m.run es).requests[r]? = (m'.run es').requests[r]? := by
  rw [run_requests h hr hf, run_requests h' hr' hf', ← fate_filter n r f.name es, hes, fate_filter,
    hname, hphase]

/-- A request whose flight's build goes to its end gets what comes of it, whatever else happens. -/
theorem run_requests_of_build (h : m.Accounted) (hr : m.requests[r]? = some (.waiting n))
    (hf : m.flights[n]? = some f) {x : Except Failure Fetched}
    (hes : es.filter (Event.concerns n r) = Event.ofBuild n x ++ [.receive r]) :
    (m.run es).requests[r]? = some (.answered (f.phase.verdict n f.name x)) := by
  rw [run_requests h hr hf, ← fate_filter, hes]
  cases f.phase <;> simp [Event.ofBuild, fate, Event.build?, Phase.after, Phase.answer?,
    Phase.verdict, Phase.outcome?]

/-! ## Agreement -/

/-- The request has joined the flight and has not been cancelled: it waits, or it has what the
flight has for it. -/
inductive Served (m : Manager) (r n : Nat) : Prop
  | waiting (waits : m.requests[r]? = some (.waiting n))
  | answered {f : Flight} {a : Answer} (flight : m.flights[n]? = some f)
      (has : answer? n f = some a) (got : m.requests[r]? = some (.answered a))

namespace Served

theorem step (h : m.Served r n) (ha : m.Accounted) (he : e ≠ .leave r) : (m.step e).Served r n := by
  have hm := move_step m e
  cases h with
  | waiting hr =>
      by_cases hq : e.request? = some r
      · obtain ⟨f, hf, -⟩ := ha.exists_flight hr
        cases e with
        | leave s =>
            cases hq
            exact (he rfl).elim
        | receive s =>
            cases hq
            rw [step_of_waiting rfl hr hf, Phase.offer?, ← answer?_eq]
            cases hx : answer? n f with
            | none => exact .waiting hr
            | some a => exact .answered (depart_flights hf r a) hx (depart_requests hr n a)
        | _ => cases hq
      · exact .waiting (hm.request hr hq)
  | answered hf has got =>
      obtain ⟨f', hf', hl⟩ := hm.later hf
      exact .answered hf' (answer?_later hl has) (run_answered got [e])

theorem run (h : m.Served r n) (ha : m.Accounted) (he : .leave r ∉ es) : (m.run es).Served r n := by
  induction es generalizing m with
  | nil => exact h
  | cons e es ih =>
      have hne : e ≠ .leave r := fun h => he (h ▸ List.mem_cons_self)
      exact ih (h.step ha hne) (ha.move (move_step m e)) fun h => he (List.mem_cons_of_mem e h)

theorem agree {s : Nat} {a b : Answer} (hr : m.Served r n) (hs : m.Served s n)
    (ha : m.requests[r]? = some (.answered a)) (hb : m.requests[s]? = some (.answered b)) :
    a = b := by
  have got {r : Nat} {a : Answer} (h : m.Served r n) (ha : m.requests[r]? = some (.answered a)) :
      m.flights[n]?.bind (answer? n) = some a := by
    cases h with
    | waiting waits =>
        rw [waits] at ha
        cases ha
    | answered flight has got =>
        rw [got] at ha
        cases ha
        rw [flight]
        exact has
  exact Option.some.inj ((got hr ha).symm.trans (got hs hb))

end Served

end Manager

end Xref
