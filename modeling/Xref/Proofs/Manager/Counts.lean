import Xref.Proofs.Manager.Handed

/-!
# What a manager counts

The counts are kept apart from what they count: requests and flights are counted when a request is
taken up, and failures when the manager takes notice of an outcome. They agree all the same, along
every run in which the manager is not dropped (`counts_balance`). A request whose token is live is a
hit or a miss, and a miss starts a flight or joins one. Of the flights that have been started, each
is under way until notice is taken of its outcome, and then stands where that outcome puts it.

Only failures count as failed builds. A build that ends because the names of its language cannot be
compared leaves neither a cache nor a failure: it is counted when it starts and never again.
-/

namespace Xref

/-- How a flight stands: it is under way until the manager takes notice of its outcome. -/
inductive Standing
  | underWay
  | built
  | cancelled
  | failed
  | unsupported
  | lost
  deriving DecidableEq

/-- How a flight with the outcome stands in the end. -/
def Outcome.standing : Outcome → Standing
  | built _ => .built
  | failed .cancelled => .cancelled
  | failed _ => .failed
  | unsupported _ => .unsupported

/-- The request waits for one of the first so many flights. -/
def Request.waitsBelow (k : Nat) : Request → Bool
  | .waiting n => n < k
  | .answered _ => false

namespace Phase

def standing : Phase → Standing
  | recorded o => o.standing
  | published o => o.standing
  | lost => .lost
  | _ => .underWay

/-- A flight stands as before unless its build is lost or notice is taken of its outcome. -/
theorem Goes.standing {n : Nat} {isHere : Bool} {e : Manager.Event} {p q : Phase}
    (h : Goes n isHere e p q) : q.standing = p.standing ∨ (e = .lose n ∧ p = running ∧ q = lost) ∨
      ∃ o isAttached, e = .record n ∧ p = pinned o isAttached ∧ q = recorded o := by
  cases h with
  | same | finish | pin => exact .inl rfl
  | next next =>
      cases next with
      | pass h => exact .inl rfl
      | ignore => exact .inr (.inr ⟨_, _, rfl, rfl, rfl⟩)
      | publish => exact .inl rfl
      | lose => exact .inr (.inl ⟨rfl, rfl, rfl⟩)
  | record => exact .inr (.inr ⟨_, _, rfl, rfl, rfl⟩)

end Phase

theorem Phase.eq_lost {p : Phase} (h : p.standing = .lost) : p = lost := by
  have outcome (o : Outcome) : o.standing ≠ .lost := by
    rcases o with _ | (_ | _ | _ | _) | _ <;> exact nofun
  cases p with
  | recorded o | published o => exact (outcome o h).elim
  | lost => rfl
  | _ => cases h

theorem countP_modify {α : Type} {l : List α} {a : α} {n : Nat} (h : l[n]? = some a) (g : α → α)
    (p : α → Bool) :
    (l.modify n g).countP p + (p a).toNat = l.countP p + (p (g a)).toNat := by
  induction l generalizing n with
  | nil => cases h
  | cons b l ih =>
      cases n with
      | zero =>
          cases h
          rw [List.modify_zero_cons, List.countP_cons, List.countP_cons]
          cases p a <;> cases p (g a) <;> simp
      | succ n =>
          rw [List.modify_succ_cons, List.countP_cons, List.countP_cons]
          have := ih h
          omega

namespace Manager

variable {m m' : Manager} {e : Event} {d n : Nat} {name : String} {f : Flight} {es : List Event}

/-- The number of flights that stand in a way. -/
def standing (m : Manager) (s : Standing) : Nat :=
  m.flights.countP fun f => f.phase.standing == s

/-- Every flight stands in one way. -/
theorem length_flights (m : Manager) :
    m.flights.length = m.standing .underWay + m.standing .built + m.standing .cancelled +
      m.standing .failed + m.standing .unsupported + m.standing .lost := by
  unfold standing
  induction m.flights with
  | nil => rfl
  | cons f fs ih =>
      simp only [List.countP_cons, List.length_cons]
      cases f.phase.standing <;> simp <;> omega

theorem standing_setPhase (hf : m.flights[n]? = some f) (p : Phase) (s : Standing) :
    (m.setPhase n p).standing s + (f.phase.standing == s).toNat =
      m.standing s + (p.standing == s).toNat :=
  countP_modify hf _ _

/-! ## Requests that are taken up -/

/-- The event is a request that is taken up and has not been cancelled. -/
def asks (m : Manager) : Event → Bool
  | .get d _ c => !m.isDropped && m.isLive d && !c
  | _ => false

/-- The event is such a request, and it goes on to wait for a flight that was there before. -/
def joins (m : Manager) (e : Event) : Bool :=
  m.asks e && (m.step e).requests.getLast?.any (Request.waitsBelow m.flights.length)

/-- How often in a run an event is of a kind. -/
def tally (p : Manager → Event → Bool) : Manager → List Event → Nat
  | _, [] => 0
  | m, e :: es => (p m e).toNat + tally p (m.step e) es

/-- How a request is taken up: with a cache at once, with a flight that is there, or with one that
it starts. -/
inductive Taken (m : Manager) (d : Nat) (name : String) : Manager → Prop
  | hit {c : Nat} {a : Artifacts} : Taken m d name (m.hit c a)
  | join {n : Nat} {f : Flight} (flight : m.flights[n]? = some f) :
      Taken m d name (m.joinFlight n { f with waiters := f.waiters + 1 })
  | start {insertions swept : Nat} {entries : List (Nat × Entry)} :
      Taken m d name { m.startFlight d name with
        insertions, entries, counts := { (m.startFlight d name).counts with swept } }

theorem taken_countInsertion (m : Manager) (d : Nat) (name : String) :
    Taken m d name (m.startFlight d name).countInsertion := by
  unfold countInsertion
  dsimp only
  split
  · exact .start
  · exact .start

theorem taken_get (m : Manager) (d : Nat) (name : String) :
    Taken m d name (m.get d name false) := by
  have start : Taken m d name (m.startFlight d name) := .start
  unfold get
  rw [if_neg Bool.false_ne_true]
  split
  · split
    · exact .hit
    · exact start
  · next n hn =>
      cases hf : m.flights[n]? with
      | none => exact start
      | some f =>
          rw [Option.bind_some, Flight.join?]
          split
          · next g hg =>
              split at hg
              · cases hg
              · cases hg
                exact .join hf
          · exact start
  · exact taken_countInsertion m d name

theorem step_get (h : m.asks e = true) : ∃ d name, e = .get d name false ∧
    Taken m d name (m.step e) := by
  cases e with
  | get d name c =>
      simp only [asks, Bool.and_eq_true, Bool.not_eq_true'] at h
      obtain ⟨⟨here, live⟩, rfl⟩ := h
      refine ⟨d, name, rfl, ?_⟩
      rw [step, here, live]
      exact taken_get m d name
  | _ => cases h

/-! ## One event -/

theorem Move.length_flights (h : Move m e m') (ha : m.asks e = false) :
    m'.flights.length = m.flights.length := by
  cases h with
  | start here live gone cancelled swept => simp [asks, here, live] at ha
  | join | leave | receive | finish | advance | pin | record => exact List.length_modify _ _ _
  | sweep swept =>
      cases swept
      rfl
  | _ => rfl

/-- Where no notice is taken of an outcome, an event that asks for nothing counts sweeps alone. -/
theorem step_counts (ha : m.asks e = false) (hr : ∀ n, e ≠ .record n) :
    ∃ swept, (m.step e).counts = { m.counts with swept } := by
  have same : ∃ swept, m.counts = { m.counts with swept } := ⟨_, rfl⟩
  cases e with
  | get d name c =>
      rw [step]
      split
      · exact same
      · next h =>
          simp only [Bool.or_eq_true, not_or, Bool.not_eq_true, Bool.not_eq_false'] at h
          obtain rfl : c = true := by simpa [asks, h.1, h.2] using ha
          exact same
  | leave r =>
      rw [step, Manager.leave]
      split <;> exact same
  | receive r =>
      rw [step, Manager.receive]
      repeat' split
      all_goals exact same
  | finish n x =>
      rw [step, finish]
      split <;> exact same
  | pin n =>
      rw [step, Manager.pin]
      repeat' split
      all_goals exact same
  | record n => exact (hr n rfl).elim
  | publish n =>
      rw [step, publish]
      split <;> exact same
  | lose n =>
      rw [step, lose]
      split <;> exact same
  | purge =>
      rw [step]
      split
      · exact same
      · exact ⟨_, rfl⟩
  | beginClear =>
      rw [step]
      split <;> exact same
  | endClear =>
      rw [step, endClear]
      split <;> exact same
  | drop =>
      rw [step, Manager.drop]
      split <;> exact same
  | free =>
      rw [step, free]
      split <;> exact same
  | forget d =>
      rw [step, Manager.forget]
      split <;> exact same
  | hold c =>
      rw [step, Manager.hold]
      split <;> exact same
  | release c => exact same

theorem countOutcome_eq (o : Outcome) (c : Counts) : countOutcome o c =
    { c with failedBuilds := c.failedBuilds + (o.standing == .failed).toNat } := by
  rcases o with _ | (_ | _ | _ | _) | _ <;> rfl

/-- When notice is taken of an outcome it is counted, unless the manager was not there any more when
the outcome became known. -/
theorem record_counts (m : Manager) (n : Nat) : m.record n = m ∨
    ∃ f o isAttached, m.flights[n]? = some f ∧ f.phase = .pinned o isAttached ∧
      (m.record n).flights = (m.setPhase n (.recorded o)).flights ∧
      (m.record n).counts = if isAttached then countOutcome o m.counts else m.counts := by
  unfold record
  split
  · next f hf =>
      split
      · next o attached hp =>
          refine .inr ⟨f, o, attached, hf, hp, ?_⟩
          dsimp only
          split
          · rw [enterOutcome_eq]
            exact ⟨rfl, rfl⟩
          · exact ⟨rfl, rfl⟩
      · exact .inl rfl
  · exact .inl rfl

/-- An event that asks for nothing counts failures and sweeps alone. -/
theorem step_counts_of_not_asks (ha : m.asks e = false) :
    ∃ failedBuilds swept, (m.step e).counts = { m.counts with failedBuilds, swept } := by
  by_cases hr : ∃ n, e = .record n
  · obtain ⟨n, rfl⟩ := hr
    rcases record_counts m n with same | ⟨f, o, isAttached, -, -, -, counts⟩
    · exact ⟨_, _, by rw [step, same]⟩
    · rw [step, counts, countOutcome_eq]
      split
      · exact ⟨_, _, rfl⟩
      · exact ⟨_, _, rfl⟩
  · obtain ⟨swept, counts⟩ := step_counts ha fun n hn => hr ⟨n, hn⟩
    exact ⟨_, swept, counts⟩

theorem joins_eq_false (ha : m.asks e = false) : m.joins e = false := by
  rw [joins, ha, Bool.false_and]

theorem joins_eq (ha : m.asks e = true) {r : Request}
    (hr : (m.step e).requests = m.requests ++ [r]) :
    m.joins e = r.waitsBelow m.flights.length := by
  rw [joins, ha, hr, Bool.true_and, List.getLast?_concat]
  rfl

/-- A request is a hit or a miss, and a miss starts a flight or joins one. -/
theorem step_balance (m : Manager) (e : Event) :
    let m' := m.step e
    m'.counts.hits + m'.counts.misses = m.counts.hits + m.counts.misses + (m.asks e).toNat ∧
      m'.counts.misses + m.counts.builds =
        m.counts.misses + m'.counts.builds + (m.joins e).toNat ∧
      m'.counts.builds + m.flights.length = m.counts.builds + m'.flights.length := by
  dsimp only
  cases ha : m.asks e with
  | false =>
      obtain ⟨_, _, counts⟩ := step_counts_of_not_asks ha
      rw [counts, (move_step m e).length_flights ha, joins_eq_false ha]
      exact ⟨rfl, rfl, rfl⟩
  | true =>
      obtain ⟨d, name, rfl, taken⟩ := step_get ha
      have hj {r : Request} (hr : (m.step (.get d name false)).requests = m.requests ++ [r]) :=
        joins_eq ha hr
      generalize m.step (.get d name false) = m' at taken hj
      cases taken with
      | hit =>
          rw [hj rfl]
          exact ⟨Nat.add_right_comm _ _ _, rfl, rfl⟩
      | @join n f flight =>
          have there : Request.waitsBelow m.flights.length (.waiting n) = true :=
            decide_eq_true (List.getElem?_eq_some_iff.1 flight).1
          rw [hj rfl, there]
          exact ⟨rfl, Nat.add_right_comm _ _ _,
            congrArg (m.counts.builds + ·) (List.length_modify _ _ _).symm⟩
      | start =>
          have new : Request.waitsBelow m.flights.length (.waiting m.flights.length) = false :=
            decide_eq_false (Nat.lt_irrefl _)
          rw [hj rfl, new]
          refine ⟨rfl, Nat.add_right_comm _ _ _, ?_⟩
          simp only [startFlight, List.length_append, List.length_singleton]
          omega

/-! ## Failures -/

/-- Unless notice is taken of an outcome, as many flights stand as failed as before. -/
theorem Move.standing_failed (h : Move m e m') (hr : ∀ n, e ≠ .record n) :
    m'.standing .failed = m.standing .failed := by
  have modified {n : Nat} {g : Flight → Flight}
      (hg : ∀ f, m.flights[n]? = some f →
        ((g f).phase.standing == .failed) = (f.phase.standing == .failed)) :
      (m.flights.modify n g).countP (fun f => f.phase.standing == .failed) =
        m.standing .failed := by
    cases hf : m.flights[n]? with
    | none => rw [List.modify_eq_self (List.getElem?_eq_none_iff.1 hf), standing]
    | some f =>
        have h := countP_modify hf g fun f => f.phase.standing == .failed
        rw [hg f hf] at h
        exact Nat.add_right_cancel h
  have moved {n : Nat} {f : Flight} {p : Phase} (hf : m.flights[n]? = some f)
      (hp : (p.standing == .failed) = (f.phase.standing == .failed)) :
      (m.setPhase n p).standing .failed = m.standing .failed := by
    refine modified fun g hg => ?_
    cases hf.symm.trans hg
    exact hp
  cases h with
  | join here entry flight going =>
      refine modified fun g hg => ?_
      cases flight.symm.trans hg
      rfl
  | start here live gone cancelled swept =>
      cases swept
      refine (List.countP_append).trans ?_
      simp [Flight.start, Phase.standing, standing]
  | leave | receive => exact modified fun _ _ => rfl
  | finish flight phase => exact moved flight (by rw [phase]; rfl)
  | @advance _ n f p flight next =>
      have goes : f.phase.Goes n true e p := .next next
      rcases goes.standing with same | ⟨-, hp, rfl⟩ | ⟨o, _, he, -⟩
      · exact moved flight (by rw [same])
      · exact moved flight (by rw [hp]; rfl)
      · exact (hr n he).elim
  | pin flight phase => exact moved flight (by rw [phase]; rfl)
  | record => exact (hr _ rfl).elim
  | sweep swept =>
      cases swept
      rfl
  | _ => rfl

theorem step_failedBuilds (hr : ∀ n, e ≠ .record n) :
    (m.step e).counts.failedBuilds = m.counts.failedBuilds := by
  cases ha : m.asks e with
  | false =>
      obtain ⟨_, counts⟩ := step_counts ha hr
      rw [counts]
  | true =>
      obtain ⟨d, name, -, taken⟩ := step_get ha
      generalize m.step e = m' at taken
      cases taken <;> rfl

/-- Until the manager is freed, a build is counted as failed when its flight comes to stand so. -/
theorem step_failed (h : m.Entered) (here : m.isFreed = false) (e : Event) :
    (m.step e).counts.failedBuilds + m.standing .failed =
      m.counts.failedBuilds + (m.step e).standing .failed := by
  by_cases hr : ∃ n, e = .record n
  · obtain ⟨n, rfl⟩ := hr
    rcases record_counts m n with same | ⟨f, o, isAttached, hf, hp, flights, counts⟩
    · rw [step, same]
    · -- An outcome that became known while the manager was there is counted.
      have attached : isAttached = true := by
        cases isAttached with
        | true => rfl
        | false => exact Bool.noConfusion (here.symm.trans (h.detached hf (by rw [hp]; rfl)))
      have hs : (m.record n).standing .failed =
          m.standing .failed + (o.standing == .failed).toNat := by
        have hs := standing_setPhase hf (.recorded o) .failed
        rw [hp] at hs
        rw [standing, flights]
        exact hs
      rw [step, counts, attached, if_pos rfl, countOutcome_eq, hs]
      exact (Nat.add_right_comm _ _ _).trans (Nat.add_assoc _ _ _)
  · have hr (n : Nat) (he : e = .record n) : False := hr ⟨n, he⟩
    rw [(move_step m e).standing_failed hr, step_failedBuilds hr]

/-! ## Runs -/

theorem run_balance (m : Manager) (es : List Event) :
    let m' := m.run es
    m'.counts.hits + m'.counts.misses = m.counts.hits + m.counts.misses + tally asks m es ∧
      m'.counts.misses + m.counts.builds =
        m.counts.misses + m'.counts.builds + tally joins m es ∧
      m'.counts.builds + m.flights.length = m.counts.builds + m'.flights.length := by
  induction es generalizing m with
  | nil => exact ⟨rfl, rfl, rfl⟩
  | cons e es ih =>
      have hs := step_balance m e
      have hi := ih (m.step e)
      simp only [run_cons, tally] at hs hi ⊢
      omega

theorem step_isDropped (he : e ≠ .drop) : (m.step e).isDropped = m.isDropped := by
  have hm := move_step m e
  generalize m.step e = m' at hm
  cases hm with
  | start here live gone cancelled swept =>
      cases swept
      rfl
  | sweep swept =>
      cases swept
      rfl
  | drop => exact (he rfl).elim
  | _ => rfl

theorem run_failed (h : m.Sound) (here : m.isDropped = false) (he : .drop ∉ es) :
    (m.run es).counts.failedBuilds + m.standing .failed =
      m.counts.failedBuilds + (m.run es).standing .failed := by
  induction es generalizing m with
  | nil => rfl
  | cons e es ih =>
      have hs := step_failed h.entered (h.accounted.not_freed here) e
      have hi := ih (h.step e)
        ((step_isDropped fun h => he (h ▸ List.mem_cons_self)).trans here)
        fun h => he (List.mem_cons_of_mem e h)
      rw [run_cons]
      omega

theorem Move.of_lost (h : Move m e m') {f' : Flight} (hf : m'.flights[n]? = some f')
    (hp : f'.phase = .lost) : (∃ f, m.flights[n]? = some f ∧ f.phase = .lost) ∨ e = .lose n := by
  rcases h.earlier hf with ⟨f, hm, -⟩ | ⟨d, name, -, -, rfl, -⟩
  · rcases (h.goes hm hf).standing with same | ⟨rfl, -⟩ | ⟨o, _, -, -, hq⟩
    · rw [hp] at same
      exact .inl ⟨f, hm, Phase.eq_lost same.symm⟩
    · exact .inr rfl
    · cases hp.symm.trans hq
  · cases hp

/-- Only a build that has been destroyed is lost. -/
theorem run_of_lost (hf : (m.run es).flights[n]? = some f) (hp : f.phase = .lost) :
    (∃ f, m.flights[n]? = some f ∧ f.phase = .lost) ∨ .lose n ∈ es := by
  induction es generalizing m with
  | nil => exact .inl ⟨f, hf, hp⟩
  | cons e es ih =>
      rcases ih hf with ⟨g, hg, hl⟩ | hmem
      · rcases (move_step m e).of_lost hg hl with hold | rfl
        · exact .inl hold
        · exact .inr List.mem_cons_self
      · exact .inr (List.mem_cons_of_mem e hmem)

/-- The counts of a manager agree with what has happened to it. -/
structure Balanced (m : Manager) (asked joined : Nat) : Prop where
  requests : m.counts.hits + m.counts.misses = asked
  misses : m.counts.misses = m.counts.builds + joined
  flights : m.counts.builds = m.flights.length
  failed : m.counts.failedBuilds = m.standing .failed
  builds : m.counts.builds = m.standing .underWay + m.standing .built + m.standing .cancelled +
    m.counts.failedBuilds + m.standing .unsupported + m.standing .lost
  /-- Every build that has ended has built a cache, been cancelled or been counted as failed, if and
  only if none has met a language that it cannot compare names of. -/
  ended : m.standing .lost = 0 → (m.counts.builds = m.standing .underWay + m.standing .built +
    m.standing .cancelled + m.counts.failedBuilds ↔ m.standing .unsupported = 0)

/-- The counts balance after every run in which the manager is not dropped. -/
theorem counts_balance (interval : Nat) (es : List Event) (he : .drop ∉ es) :
    let m := (new interval).run es
    m.Balanced (tally asks (new interval) es) (tally joins (new interval) es) ∧
      ((∀ n, .lose n ∉ es) → m.standing .lost = 0) := by
  intro m
  obtain ⟨requests, misses, flights⟩ := run_balance (new interval) es
  have flights : m.counts.builds = m.flights.length := flights.trans (Nat.zero_add _)
  have failed : m.counts.failedBuilds = m.standing .failed :=
    (run_failed (.new interval) rfl he).trans (Nat.zero_add _)
  have length := length_flights m
  constructor
  · exact {
      requests := requests.trans (Nat.zero_add _)
      misses := misses.trans (congrArg (· + _) (Nat.zero_add _))
      flights := flights
      failed := failed
      builds := by omega
      ended := fun hl => by omega }
  · intro hl
    refine List.countP_eq_zero.2 fun f hf hp => ?_
    obtain ⟨n, hn⟩ := List.mem_iff_getElem?.1 hf
    rcases run_of_lost hn (Phase.eq_lost (eq_of_beq hp)) with ⟨g, hg, -⟩ | hmem
    · cases hg
    · exact hl n hmem

/-- Two requests share a build that ends over a language whose names cannot be compared. -/
theorem counts_of_unsupported :
    let es := [Event.get 0 "a" false, .get 0 "a" false] ++ Event.ofBuild 0 (.ok .strange)
    let m := (new 32).run es
    .drop ∉ es ∧ m.counts = { misses := 2, builds := 1 } ∧ m.standing .unsupported = 1 ∧
      m.counts.builds ≠ m.standing .underWay + m.standing .built + m.standing .cancelled +
        m.counts.failedBuilds := by
  intro es m
  have he : .drop ∉ es := by simp [es, Event.ofBuild]
  have h : m.counts = { misses := 2, builds := 1 } ∧ m.standing .unsupported = 1 := by
    simp only [m, es, Event.ofBuild, List.cons_append, List.nil_append, run_cons, run_nil, step,
      finish, Outcome.ofFetched_strange]
    exact ⟨rfl, rfl⟩
  obtain ⟨balanced, lost⟩ := counts_balance 32 es he
  have hl : m.standing .lost = 0 := lost (by simp [es, Event.ofBuild])
  refine ⟨he, h.1, h.2, fun hb => ?_⟩
  exact Nat.one_ne_zero (h.2.symm.trans ((balanced.ended hl).1 hb))

end Manager

end Xref
