import Xref.Proofs.Manager.Alike
import Xref.Proofs.Manager.Fewer

/-!
# Without the request that starts a flight

The request that starts a flight is one of those who wait for it, and may be turned away like the
others: the next one finds what the first has found, and starts the flight instead
(`Beside.starts`). From then on the two managers differ in company only. `waiters_accounted` collects
what holds of the waiters of a flight, whoever they are.
-/

namespace Xref.Manager

variable {m : Manager} {d n v : Nat} {name : String} {f : Flight}

theorem run_turnAway (here : m.isDropped = false) (live : m.isLive d = true) (j : Nat) :
    m.run (.replicate j (.get d name true)) =
      { m with requests := m.requests ++ .replicate j (.answered (.failure .cancelled)) } := by
  induction j generalizing m with
  | zero =>
      rw [List.replicate_zero, List.replicate_zero, List.append_nil]
      rfl
  | succ j ih =>
      have hs : m.step (.get d name true) = m.addRequest (.answered (.failure .cancelled)) := by
        simp [step, Manager.get, here, live]
      have hrun := ih (m := m.addRequest (.answered (.failure .cancelled))) here live
      rw [List.replicate_succ, run_cons, hs, hrun, List.replicate_succ, List.append_cons]
      rfl

/-- What a request finds does not depend on the other requests. -/
theorem get_withRequests (m : Manager) (d : Nat) (name : String) (rs : List Request) :
    ∃ q, (m.get d name false).requests = m.requests ++ [q] ∧
      ({ m with requests := rs } : Manager).get d name false =
        { m.get d name false with requests := rs ++ [q] } := by
  have insertion (k : Manager) (rs : List Request) :
      k.countInsertion.requests = k.requests ∧
        ({ k with requests := rs } : Manager).countInsertion =
          { k.countInsertion with requests := rs } := by
    unfold countInsertion
    dsimp only
    split <;> exact ⟨rfl, rfl⟩
  unfold Manager.get
  rw [if_neg Bool.false_ne_true, if_neg Bool.false_ne_true]
  have hx : entry? { m with requests := rs } d = m.entry? d := rfl
  rw [hx]
  cases m.entry? d with
  | none =>
      obtain ⟨hr, hi⟩ := insertion (m.startFlight d name) (rs ++ [.waiting m.flights.length])
      exact ⟨_, hr, hi⟩
  | some x =>
      cases x with
      | built c =>
          have ha : alive? { m with requests := rs } c = m.alive? c := rfl
          dsimp only
          rw [ha]
          cases m.alive? c <;> exact ⟨_, rfl, rfl⟩
      | building k =>
          dsimp only
          cases m.flights[k]?.bind Flight.join? <;> exact ⟨_, rfl, rfl⟩

theorem withCompany_withCompany (m : Manager) (n k k' : Nat) (rs rs' : List Request)
    (c c' : Counts) :
    (m.withCompany n k rs c).withCompany n k' rs' c' = m.withCompany n k' rs' c' := by
  unfold withCompany
  dsimp only
  rw [List.modify_modify_eq]
  rfl

/-- Requests for the document of a flight that is not cancelled come into its company. -/
theorem run_join (hx : m.entry? d = some (.building n)) (hf : m.flights[n]? = some f)
    (hc : f.isCancelled = false) (here : m.isDropped = false) (live : m.isLive d = true)
    (name : String) (j : Nat) :
    ∃ c, m.run (.replicate j (.get d name false)) =
      m.withCompany n (f.waiters + j) (m.requests ++ .replicate j (.waiting n)) c := by
  induction j generalizing m f with
  | zero =>
      refine ⟨m.counts, ?_⟩
      rw [List.replicate_zero, List.replicate_zero, List.append_nil]
      exact (withCompany_self hf).symm
  | succ j ih =>
      have joined : m.joinFlight n { f with waiters := f.waiters + 1 } =
          m.withCompany n (f.waiters + 1) (m.requests ++ [.waiting n])
            { m.counts with misses := m.counts.misses + 1 } := by
        dsimp only [joinFlight, withCompany, onFlight, addRequest, count]
        congr 1
        exact modify_congr hf rfl
      have flight : (m.withCompany n (f.waiters + 1) (m.requests ++ [.waiting n])
          { m.counts with misses := m.counts.misses + 1 }).flights[n]? =
            some (f.withWaiters (f.waiters + 1)) := by
        rw [flights_withCompany, hf, Option.map_some, if_pos rfl]
      obtain ⟨c, hrun⟩ := ih (m := m.withCompany n (f.waiters + 1) _ _) hx flight hc here live
      refine ⟨c, ?_⟩
      have waiters : (f.withWaiters (f.waiters + 1)).waiters + j = f.waiters + (j + 1) :=
        Nat.add_right_comm f.waiters 1 j
      have requests : m.requests ++ [.waiting n] ++ .replicate j (.waiting n) =
          m.requests ++ .replicate (j + 1) (.waiting n) := (List.append_cons ..).symm
      rw [List.replicate_succ, run_cons, step_of_wanted hx hf hc here live, joined, hrun, waiters,
        withCompany_withCompany, ← requests]
      rfl

theorem Starts.here (h : m.Starts d name) : m.isDropped = false :=
  Bool.eq_false_iff.2 fun gone => by simp [Starts, step, gone] at h

theorem Starts.requests (h : m.Starts d name) :
    (m.step (.get d name false)).requests = m.requests ++ [.waiting m.flights.length] := by
  have hm := move_step m (.get d name false)
  unfold Starts at h
  generalize m.step (.get d name false) = m' at hm h ⊢
  cases hm with
  | start here live gone cancelled swept =>
      cases swept
      rfl
  | idle | hit | hold => exact absurd h (Nat.lt_irrefl _)
  | join | advance => exact absurd (List.length_modify .. ▸ h) (Nat.lt_irrefl _)

theorem Apart.replicate (n j : Nat) (qs : List Request) :
    Apart n (qs ++ .replicate j (.waiting n))
      (qs ++ .replicate j (.answered (.failure .cancelled))) := by
  induction j with
  | zero => exact .refl n _
  | succ j ih =>
      rw [List.replicate_succ', List.replicate_succ', ← List.append_assoc, ← List.append_assoc]
      exact ih.turnAway

/-- Requests that would start a flight and join it are turned away, and the next one starts it. -/
theorem Beside.starts (hs : m.Sound) (starts : m.Starts d name) (j : Nat) :
    Beside m.flights.length (m.requests.length + j)
      (m.run (.replicate (j + 1) (.get d name false)))
      (m.run (.replicate j (.get d name true) ++ [.get d name false])) := by
  obtain ⟨hf, live, hx⟩ := starts.started
  have sound := hs.step (.get d name false)
  have here := starts.here
  have here' := sound.accounted.here_of_wanted hf rfl
  have live' := sound.inUse.wanted sound.accounted hf rfl
  have taken (k : Manager) (here : k.isDropped = false) (live : k.isLive d = true) :
      k.step (.get d name false) = k.get d name false := by
    rw [Manager.step, here, live]
    rfl
  -- With all of them: the first starts the flight and the others join.
  obtain ⟨c, joined⟩ := run_join hx hf rfl here' live' name j
  -- Without: the last one finds what the first had found.
  obtain ⟨q, hq, found⟩ := get_withRequests m d name
    (m.requests ++ .replicate j (.answered (.failure .cancelled)))
  rw [← taken m here live] at hq found
  obtain rfl : q = .waiting m.flights.length := by
    simpa using hq.symm.trans starts.requests
  obtain ⟨rs, hrs⟩ : ∃ rs, rs = m.requests ++ .replicate j (.answered (.failure .cancelled)) ++
    [.waiting m.flights.length] := ⟨_, rfl⟩
  have started : m.run (.replicate j (.get d name true) ++ [.get d name false]) =
      { m.step (.get d name false) with requests := rs } := by
    rw [run_append, run_turnAway here live, run_cons, run_nil, hrs, ← found]
    exact taken _ here live
  have requests : (m.step (.get d name false)).requests ++ .replicate j (.waiting m.flights.length) =
      m.requests ++ .replicate j (.waiting m.flights.length) ++ [.waiting m.flights.length] := by
    rw [starts.requests, ← List.append_cons, ← List.replicate_succ, List.replicate_succ',
      List.append_assoc]
  have last (q : Request) :
      (m.requests ++ .replicate j q ++ [.waiting m.flights.length])[m.requests.length + j]? =
        some (.waiting m.flights.length) := by
    simp
  have all : m.run (.replicate (j + 1) (.get d name false)) =
      (m.step (.get d name false)).run (.replicate j (.get d name false)) := rfl
  refine ⟨?_, hs.run _, hs.run _, ?_, ?_⟩
  · have same : ({ m.step (.get d name false) with requests := rs } : Manager) =
        (m.step (.get d name false)).withCompany m.flights.length 1 rs
          (m.step (.get d name false)).counts :=
      congrArg (fun k : Manager => { k with requests := rs }) (withCompany_self hf).symm
    have apart := (Apart.replicate m.flights.length j m.requests).concat (.waiting m.flights.length)
    rw [all, joined, requests, started, same, ← withCompany_withCompany _ _ _ _ _ rs c]
    exact .mk (hrs ▸ apart)
  · rw [all, joined, requests]
    exact last _
  · rw [started]
    exact hrs ▸ last _

/-- Two runs that begin apart and have a request in common: it waits for the flight already, or it
starts the flight in the second run, where those are turned away that asked before it. -/
inductive Opening (n v : Nat) (m : Manager) : List Event → List Event → Prop
  | waits (waits : m.requests[v]? = some (.waiting n)) : Opening n v m [] []
  | starts {d : Nat} {name : String} {j : Nat} (starts : m.Starts d name)
      (flight : n = m.flights.length) (request : v = m.requests.length + j) :
      Opening n v m (.replicate (j + 1) (.get d name false))
        (.replicate j (.get d name true) ++ [.get d name false])

theorem Opening.beside {as as' : List Event} (h : Opening n v m as as') (hs : m.Sound) :
    Beside n v (m.run as) (m.run as') := by
  cases h with
  | waits waits => exact .refl hs waits
  | starts starts flight request =>
      subst flight request
      exact .starts hs starts _

/-! ## Waiters -/

/-- Flights know who waits for them. A flight counts the requests that wait for it and is cancelled
when there are none; then nobody comes any more. Whoever leaves has been counted. And what a request
gets does not depend on who else waits: it is decided by the build of its flight, and the same when
others are turned away at once, the one that starts the flight among them, provided somebody waits
for the flight all the time from then on to the request. It is the same wherever else a request
waits for a flight whose build goes through the same, whoever has started that one. -/
theorem waiters_accounted (interval : Nat) (es : List Event) :
    let m := (new interval).run es
    (∀ (n : Nat) (f : Flight), m.flights[n]? = some f →
      f.waiters = m.registered n ∧ (f.isCancelled = true ↔ m.registered n = 0)) ∧
    (∀ (n : Nat) (f : Flight), m.flights[n]? = some f → f.isCancelled = true →
      ∀ (gs : List Event) (r : Nat), (m.run gs).requests[r]? ≠ some (.waiting n)) ∧
    (∀ r n : Nat, m.requests[r]? = some (.waiting n) →
      ∃ f, m.flights[n]? = some f ∧ f.leave.waiters + 1 = f.waiters) ∧
    (∀ (n r : Nat) (f : Flight), m.requests[r]? = some (.waiting n) → m.flights[n]? = some f →
      ∀ gs : List Event, (m.run gs).requests[r]? =
        some (fate n r f.name (gs.filter (Event.concerns n r)) f.phase)) ∧
    (∀ (n v w : Nat) (as as' fs fs' gs gs' : List Event), Opening n v m as as' →
      Fewer n (m.run as) fs fs' → (m.run (as ++ fs)).requests[v]? = some (.waiting n) →
      (m.run (as' ++ fs')).requests[w]? = some (.waiting n) → Fewer n (m.run (as ++ fs)) gs gs' →
      (m.run (as ++ fs ++ gs)).requests[w]? = (m.run (as' ++ fs' ++ gs')).requests[w]?) ∧
    ∀ (interval' : Nat) (es' fs fs' gs gs' : List Event) (d d' r r' : Nat) (name : String),
      let m' := (new interval').run es'
      m.Starts d name → m'.Starts d' name →
      (m.run (.get d name false :: fs)).requests[r]? = some (.waiting m.flights.length) →
      (m'.run (.get d' name false :: fs')).requests[r']? = some (.waiting m'.flights.length) →
      Event.buildOf m.flights.length fs = Event.buildOf m'.flights.length fs' →
      Event.seenBy m.flights.length r gs = Event.seenBy m'.flights.length r' gs' →
      ((m.run (.get d name false :: fs ++ gs)).requests[r]?.bind Request.outcome?) =
        (m'.run (.get d' name false :: fs' ++ gs')).requests[r']?.bind Request.outcome? := by
  intro m
  have sound := (Sound.new interval).run es
  refine ⟨fun n f hf => ?_, fun n f hf hc gs r hr => ?_, fun r n hr => ?_, fun n r f hr hf gs => ?_,
    fun n v w as as' fs fs' gs gs' opening hfs hp hw hgs => ?_,
    fun interval' es' fs fs' gs gs' d d' r r' name => ?_⟩
  · have hw := sound.accounted.waiters hf
    exact ⟨hw, hw ▸ sound.accounted.cancelled hf⟩
  · obtain ⟨g, hg, hl⟩ := run_later hf gs
    obtain ⟨g', hg', -, hn⟩ := (sound.run gs).accounted.exists_flight hr
    cases hg.symm.trans hg'
    cases hn.symm.trans (hl.cancelled hc)
  · obtain ⟨f, hf, hw, -⟩ := sound.accounted.exists_flight hr
    exact ⟨f, hf, Nat.sub_add_cancel hw⟩
  · rw [fate_filter]
    exact run_requests sound.accounted hr hf gs
  · rw [run_append] at hp hw hgs
    have both := (opening.beside sound).run hfs hp
    have hw₁ : ((m.run as).run fs).requests[w]? = some (.waiting n) := by
      rcases both.apart w with same | ⟨away, -⟩
      · exact same.symm.trans hw
      · cases hw.symm.trans away
    rw [run_append, run_append, run_append, run_append]
    exact both.fate hw₁ hw gs gs' (hgs.filter w)
  · exact outcome?_congr sound.accounted ((Sound.new interval').run es').accounted

/-- The second of three requests that share a flight gets the same if the first, which starts the
flight, and the third are turned away. If the first is cancelled when the outcome is known already,
the second gets what a request gets that is alone in another manager. -/
theorem waiters_accounted_of_three :
    let m := new 32
    let asks := Event.get 0 "a" false
    let away := Event.get 0 "a" true
    let rest := [Event.leave 0, .leave 2] ++ Event.ofBuild 0 (.ok .blank) ++ [.receive 1]
    let late := [Event.leave 0, .pin 0, .record 0, .publish 0, .receive 1]
    let alone := [Event.pin 0, .record 0, .publish 0, .receive 0]
    (Opening 0 1 m [asks, asks] [away, asks] ∧ Fewer 0 (m.run [asks, asks]) [asks] [away] ∧
      (m.run ([asks, asks] ++ [asks] ++ rest)).requests[1]? =
        (m.run ([away, asks] ++ [away] ++ rest)).requests[1]?) ∧
      ((m.run (asks :: [.finish 0 (.ok .blank), asks] ++ late)).requests[1]?.bind
          Request.outcome?) =
        ((new 1).run (.get 5 "a" false :: [.finish 0 (.ok .blank)] ++ alone)).requests[0]?.bind
          Request.outcome? := by
  intro m asks away rest late alone
  have opening : Opening 0 1 m [asks, asks] [away, asks] := .starts (j := 1) Nat.one_pos rfl rfl
  have fewer : Fewer 0 (m.run [asks, asks]) [asks] [away] := .joins rfl .nil
  have accounted := waiters_accounted 32 []
  refine ⟨⟨opening, fewer, ?_⟩, ?_⟩
  · exact accounted.2.2.2.2.1 0 1 1 _ _ _ _ rest rest opening fewer rfl rfl (.refl _ _ rest)
  · exact accounted.2.2.2.2.2 1 [] _ _ late alone 0 5 1 0 "a" Nat.one_pos Nat.one_pos rfl rfl rfl rfl

end Xref.Manager
