import Xref.Proofs.Manager.Company
import Xref.Proofs.Manager.Handed

/-!
# Who else waits for a flight makes no difference

A manager without some of those who wait for a flight (`Without`) is the same manager in other
company. As long as a request waits for the flight in both (`Beside`), every event does the same to
the two of them, and a request that joins the flight in one may be turned away from the other. So
the requests that are in both fare alike.
-/

namespace Xref.Manager

variable {m m' : Manager} {e : Event} {n k j r v : Nat} {f : Flight} {q : Request}
  {qs rs : List Request} {es : List Event}

/-! ## Fewer requests -/

/-- The same requests, but for some that have been turned away and would be with the flight, or would
have been. -/
structure Apart (n : Nat) (qs rs : List Request) : Prop where
  length : rs.length = qs.length
  get : ∀ r : Nat, rs[r]? = qs[r]? ∨
    (rs[r]? = some (.answered (.failure .cancelled)) ∧
      ∃ q, qs[r]? = some q ∧ ∀ j, q = .waiting j → j = n)

namespace Apart

theorem refl (n : Nat) (qs : List Request) : Apart n qs qs :=
  ⟨rfl, fun _ => .inl rfl⟩

theorem concat (h : Apart n qs rs) (q : Request) : Apart n (qs ++ [q]) (rs ++ [q]) where
  length := by simp [h.length]
  get := fun r => by
    rcases Nat.lt_or_ge r qs.length with hr | hr
    · rw [List.getElem?_append_left hr, List.getElem?_append_left (h.length ▸ hr)]
      exact h.get r
    · rw [List.getElem?_append_right hr, List.getElem?_append_right (h.length ▸ hr), h.length]
      exact .inl rfl

theorem turnAway (h : Apart n qs rs) :
    Apart n (qs ++ [.waiting n]) (rs ++ [.answered (.failure .cancelled)]) where
  length := by simp [h.length]
  get := fun r => by
    rcases Nat.lt_trichotomy r qs.length with hr | rfl | hr
    · rw [List.getElem?_append_left hr, List.getElem?_append_left (h.length ▸ hr)]
      exact h.get r
    · refine .inr ⟨?_, .waiting n, List.getElem?_concat_length, fun j hj => ?_⟩
      · rw [← h.length]
        exact List.getElem?_concat_length
      · cases hj
        rfl
    · left
      rw [List.getElem?_eq_none (by simp [h.length]; omega),
        List.getElem?_eq_none (by simp; omega)]

theorem set (h : Apart n qs rs) (r : Nat) (q : Request) : Apart n (qs.set r q) (rs.set r q) where
  length := by simp [h.length]
  get := fun s => by
    rw [List.getElem?_set, List.getElem?_set, h.length]
    split
    · exact .inl rfl
    · exact h.get s

theorem set_left (h : Apart n qs rs) (hr : rs[r]? = some (.answered (.failure .cancelled)))
    (hq : qs[r]? = some q) (a : Answer) : Apart n (qs.set r (.answered a)) rs where
  length := by simp [h.length]
  get := fun s => by
    by_cases hs : r = s
    · subst hs
      refine .inr ⟨hr, _, List.getElem?_set_self (List.getElem?_eq_some_iff.1 hq).1, ?_⟩
      rintro j ⟨⟩
    · rw [List.getElem?_set_ne hs]
      exact h.get s

end Apart

/-- The second manager is the first without some of those who wait for a flight. -/
inductive Without (n : Nat) (m : Manager) : Manager → Prop
  | mk {k : Nat} {rs : List Request} {c : Counts} (apart : Apart n m.requests rs) :
      Without n m (m.withCompany n k rs c)

/-- Where somebody still waits for a flight that has been left, there were two at least. -/
theorem one_lt_waiters {a : Answer} (hf : m.flights[n]? = some f) (h : (m.depart n r a).Accounted)
    (hv : (m.depart n r a).requests[v]? = some (.waiting n)) : 1 < f.waiters := by
  obtain ⟨f', hf', hw, -⟩ := h.exists_flight hv
  cases (depart_flights hf r a).symm.trans hf'
  exact Nat.lt_of_sub_pos hw

/-! ## One event -/

/-- A request waits for the flight in both managers. -/
structure Beside (n v : Nat) (m m' : Manager) : Prop where
  without : Without n m m'
  sound : m.Sound
  sound' : m'.Sound
  waits : m.requests[v]? = some (.waiting n)
  waits' : m'.requests[v]? = some (.waiting n)

namespace Beside

theorem exists_flight (h : Beside n v m m') :
    ∃ f k, m.flights[n]? = some f ∧ m'.flights[n]? = some (f.withWaiters k) ∧ 0 < f.waiters ∧
      0 < k := by
  obtain ⟨f, hf, hw, -⟩ := h.sound.accounted.exists_flight h.waits
  obtain ⟨f', hf', hw', -⟩ := h.sound'.accounted.exists_flight h.waits'
  cases h.without with
  | @mk k rs c apart =>
      rw [flights_withCompany, hf, Option.map_some, if_pos rfl] at hf'
      cases hf'
      refine ⟨f, k, hf, ?_, hw, hw'⟩
      rw [flights_withCompany, hf, Option.map_some, if_pos rfl]

theorem apart (h : Beside n v m m') (r : Nat) : m'.requests[r]? = m.requests[r]? ∨
    (m'.requests[r]? = some (.answered (.failure .cancelled)) ∧
      ∃ q, m.requests[r]? = some q ∧ ∀ j, q = .waiting j → j = n) := by
  cases h.without with
  | mk apart => exact apart.get r

theorem exists_same (h : Beside n v m m') (hf : m.flights[j]? = some f) :
    ∃ f', m'.flights[j]? = some f' ∧ f'.name = f.name ∧ f'.phase = f.phase := by
  cases h.without with
  | mk apart =>
      refine ⟨_, by rw [flights_withCompany, hf, Option.map_some], ?_⟩
      split <;> exact ⟨rfl, rfl⟩

theorem fate (h : Beside n v m m') {w : Nat} (hw : m.requests[w]? = some (.waiting n))
    (hw' : m'.requests[w]? = some (.waiting n)) (es es' : List Event)
    (hes : es.filter (Event.concerns n w) = es'.filter (Event.concerns n w)) :
    (m.run es).requests[w]? = (m'.run es').requests[w]? := by
  obtain ⟨f, k, hf, hf', -, -⟩ := h.exists_flight
  exact run_requests_congr h.sound.accounted h.sound'.accounted hw hw' hf hf' rfl rfl hes

theorem depart (h : Beside n v m m') {a : Answer}
    (hs : (m.depart j r a).Accounted) (hp : (m.depart j r a).requests[v]? = some (.waiting n))
    (hs' : (m'.depart j r a).Accounted)
    (hp' : (m'.depart j r a).requests[v]? = some (.waiting n)) :
    Without n (m.depart j r a) (m'.depart j r a) := by
  obtain ⟨f, k, hf, hf', -, -⟩ := h.exists_flight
  have hw (hj : n = j) : 1 < f.waiters := by
    subst hj
    exact one_lt_waiters hf hs hp
  have hk (hj : n = j) : 1 < k := by
    subst hj
    exact one_lt_waiters hf' hs' hp'
  cases h.without with
  | @mk k' rs c apart =>
      rw [flights_withCompany, hf, Option.map_some, if_pos rfl] at hf'
      cases hf'
      rw [depart_withCompany hf hw hk]
      exact .mk (apart.set r _)

/-- A request that has been turned away leaves without being missed. -/
theorem depart_left (h : Beside n v m m') {a : Answer} (hr : m.requests[r]? = some (.waiting n))
    (hr' : m'.requests[r]? = some (.answered (.failure .cancelled)))
    (hs : (m.depart n r a).Accounted) (hp : (m.depart n r a).requests[v]? = some (.waiting n)) :
    Without n (m.depart n r a) m' := by
  obtain ⟨f, k, hf, hf', -, -⟩ := h.exists_flight
  cases h.without with
  | @mk k' rs c apart =>
      rw [depart_alone hf (one_lt_waiters hf hs hp)]
      exact .mk (apart.set_left hr' hr a)

/-- What concerns no request in particular does the same to both managers. -/
theorem step_of_request? (h : Beside n v m m') (he : e.request? = none) :
    Without n (m.step e) (m'.step e) := by
  obtain ⟨f, k, hf, hf', hw, hk⟩ := h.exists_flight
  -- Somebody waits in both managers, so neither can be dropped.
  have stays : m.hasWaiting = true :=
    List.any_eq_true.2 ⟨_, List.mem_of_getElem? h.waits, rfl⟩
  have stays' : m'.hasWaiting = true :=
    List.any_eq_true.2 ⟨_, List.mem_of_getElem? h.waits', rfl⟩
  have same := (move_step m e).requests he
  cases h.without with
  | @mk l rs c apart =>
      rw [flights_withCompany, hf, Option.map_some, if_pos rfl] at hf'
      obtain rfl : l = k := congrArg Flight.waiters (Option.some.inj hf')
      have done {m₁ m₂ : Manager} {c' : Counts} (h : m₁ = m₂.withCompany n l rs c')
          (hm : m₂.requests = m.requests) : Without n m₂ m₁ := by
        rw [h]
        exact .mk (hm ▸ apart)
      cases e with
      | get d name b =>
          obtain ⟨k', q, c', -, hq, hg⟩ := get_withCompany rs c hf hw hk d name b
          show Without n (if m.isDropped || !m.isLive d then m else m.get d name b)
            (if m.isDropped || !m.isLive d then m.withCompany n l rs c
              else (m.withCompany n l rs c).get d name b)
          split
          · exact .mk apart
          · rw [hg]
            exact .mk (hq ▸ apart.concat q)
      | leave | receive => cases he
      | finish j x => exact done (finish_withCompany ..) (same nofun)
      | pin j => exact done (pin_withCompany ..) (same nofun)
      | record j =>
          obtain ⟨c', hc⟩ := record_withCompany m n l rs c j
          exact done hc (same nofun)
      | publish j => exact done (publish_withCompany ..) (same nofun)
      | lose j => exact done (lose_withCompany ..) (same nofun)
      | purge =>
          show Without n (if m.isDropped then m else m.purge)
            (if m.isDropped then m.withCompany n l rs c else (m.withCompany n l rs c).purge)
          split <;> exact .mk apart
      | beginClear =>
          show Without n (if m.isDropped then m else m.beginClear)
            (if m.isDropped then m.withCompany n l rs c else (m.withCompany n l rs c).beginClear)
          split <;> exact .mk apart
      | endClear =>
          show Without n (if m.clearing = 0 then m else
              { m with entries := [], clearing := m.clearing - 1 })
            (if m.clearing = 0 then m.withCompany n l rs c else
              { m.withCompany n l rs c with entries := [], clearing := m.clearing - 1 })
          split <;> exact .mk apart
      | drop =>
          simp only [Manager.step, Manager.drop, stays, stays', Bool.or_true, Bool.true_or, if_true]
          exact .mk apart
      | free =>
          have here := h.sound.accounted.not_dropped h.waits
          have here' := h.sound'.accounted.not_dropped h.waits'
          simp only [Manager.step, Manager.free, here, here', Bool.false_and, Bool.false_eq_true,
            if_false]
          exact .mk apart
      | forget d =>
          rw [Manager.step, Manager.step, Manager.forget, Manager.forget,
            uses_withCompany rs c hf hw hk]
          split <;> exact .mk apart
      | hold j =>
          rw [Manager.step, Manager.step, Manager.hold, Manager.hold,
            alive?_withCompany rs c hf hw hk]
          split <;> exact .mk apart
      | release j => exact .mk apart

theorem step_of_request?_eq (h : Beside n v m m') (he : e.request? = some r)
    (hp : (m.step e).requests[v]? = some (.waiting n))
    (hp' : (m'.step e).requests[v]? = some (.waiting n)) :
    Without n (m.step e) (m'.step e) := by
  have acc := (h.sound.step e).accounted
  have acc' := (h.sound'.step e).accounted
  have apart := h.apart r
  by_cases hw : ∃ j, m.requests[r]? = some (.waiting j)
  · obtain ⟨j, hr⟩ := hw
    obtain ⟨f, hf, -⟩ := h.sound.accounted.exists_flight hr
    rw [step_of_waiting he hr hf] at acc hp ⊢
    rcases apart with hr' | ⟨hr', q, hq, hj⟩
    · obtain ⟨f', hf', hname, hphase⟩ := h.exists_same hf
      rw [step_of_waiting he (hr'.trans hr) hf', hname, hphase] at acc' hp' ⊢
      cases hoff : f.phase.offer? j f.name e with
      | none => exact h.without
      | some a =>
          rw [hoff] at acc acc' hp hp'
          exact h.depart acc hp acc' hp'
    · -- The second manager has turned the request away: there the event does nothing.
      rw [hr] at hq
      cases hq
      obtain rfl := hj j rfl
      rw [step_of_settled he fun k hk => by cases hr'.symm.trans hk]
      cases hoff : f.phase.offer? j f.name e with
      | none => exact h.without
      | some a =>
          rw [hoff] at acc hp
          exact h.depart_left hr hr' acc hp
  · rw [step_of_settled he fun j hj => hw ⟨j, hj⟩, step_of_settled he fun j hj => ?_]
    · exact h.without
    · rcases apart with hr' | ⟨hr', -⟩
      · exact hw ⟨j, hr'.symm.trans hj⟩
      · cases hr'.symm.trans hj

/-- One event does the same to both managers, as long as the request waits. -/
theorem step (h : Beside n v m m') (hp : (m.step e).requests[v]? = some (.waiting n)) :
    Beside n v (m.step e) (m'.step e) := by
  have hp' : (m'.step e).requests[v]? = some (.waiting n) :=
    (h.fate h.waits h.waits' [e] [e] rfl).symm.trans hp
  refine ⟨?_, h.sound.step e, h.sound'.step e, hp, hp'⟩
  cases he : e.request? with
  | none => exact h.step_of_request? he
  | some r => exact h.step_of_request?_eq he hp hp'

/-- Who joins is turned away from the second manager. -/
theorem turnAway (h : Beside n v m m') {d : Nat} {name : String}
    (joins : (m.step (.get d name false)).requests = m.requests ++ [.waiting n]) :
    Beside n v (m.step (.get d name false)) (m'.step (.get d name true)) := by
  have hp : (m.step (.get d name false)).requests[v]? = some (.waiting n) :=
    (move_step m _).request h.waits (Option.some_ne_none v).symm
  have hp' : (m'.step (.get d name true)).requests[v]? = some (.waiting n) :=
    (move_step m' _).request h.waits' (Option.some_ne_none v).symm
  refine ⟨?_, h.sound.step _, h.sound'.step _, hp, hp'⟩
  obtain ⟨f, k, hf, -, -, -⟩ := h.exists_flight
  have hn := (List.getElem?_eq_some_iff.1 hf).1
  have last {q : Request} (hq : m.requests ++ [q] = m.requests ++ [.waiting n]) :
      q = .waiting n := by
    simpa using hq
  have hm := move_step m (.get d name false)
  generalize m.step (.get d name false) = m₁ at hm joins ⊢
  cases hm with
  | idle | hold => simp at joins
  | hit => cases last joins
  | @join d name j g here entry flight going =>
      obtain rfl : j = n := by
        cases last joins
        rfl
      cases hf.symm.trans flight
      obtain ⟨f', hf', hd, -⟩ := h.sound.entered.building entry
      cases hf.symm.trans hf'
      have live := hd ▸ h.sound.inUse.wanted h.sound.accounted hf going
      cases h.without with
      | @mk k rs c apart =>
          -- The second manager has its own number of waiters, so who joins the first does not show.
          have hstep : (m.withCompany j k rs c).step (.get d name true) =
              (m.joinFlight j { f with waiters := f.waiters + 1 }).withCompany j k
                (rs ++ [.answered (.failure .cancelled)]) c := by
            have cond : ((m.withCompany j k rs c).isDropped ||
                !(m.withCompany j k rs c).isLive d) = false := by
              show (m.isDropped || !m.isLive d) = false
              rw [here, live]
              rfl
            rw [Manager.step, if_neg (cond ▸ Bool.false_ne_true), Manager.get, if_pos rfl]
            dsimp only [joinFlight, withCompany, onFlight, addRequest, count]
            congr 1
            rw [List.modify_modify_eq]
            exact modify_congr hf rfl
          rw [hstep]
          exact .mk apart.turnAway
  | start here live gone cancelled swept =>
      cases swept
      cases last joins
      exact (Nat.lt_irrefl _ hn).elim
  | advance flight next => cases next

end Beside

/-! ## Runs -/

/-- The same events, but for some requests that join a flight: these are cancelled when they ask. -/
inductive Fewer (n : Nat) : Manager → List Event → List Event → Prop
  | nil {m : Manager} : Fewer n m [] []
  | same {m : Manager} {e : Event} {es es' : List Event} (rest : Fewer n (m.step e) es es') :
      Fewer n m (e :: es) (e :: es')
  | joins {m : Manager} {d : Nat} {name : String} {es es' : List Event}
      (joins : (m.step (.get d name false)).requests = m.requests ++ [.waiting n])
      (rest : Fewer n (m.step (.get d name false)) es es') :
      Fewer n m (.get d name false :: es) (.get d name true :: es')

theorem Fewer.refl (n : Nat) (m : Manager) (es : List Event) : Fewer n m es es := by
  induction es generalizing m with
  | nil => exact .nil
  | cons e es ih => exact .same (ih _)

theorem Fewer.filter {es' : List Event} (h : Fewer n m es es') (w : Nat) :
    es.filter (Event.concerns n w) = es'.filter (Event.concerns n w) := by
  induction h with
  | nil => rfl
  | same rest ih => rw [List.filter_cons, List.filter_cons, ih]
  | joins joins rest ih => exact ih

theorem waiting_of_run (ha : m.Accounted) (hr : m.requests[v]? = some (.waiting n))
    (h : ((m.step e).run es).requests[v]? = some (.waiting n)) :
    (m.step e).requests[v]? = some (.waiting n) := by
  by_cases he : e.request? = some v
  · obtain ⟨f, hf, -⟩ := ha.exists_flight hr
    rw [step_of_waiting he hr hf] at h ⊢
    cases hoff : f.phase.offer? n f.name e with
    | none => exact hr
    | some a =>
        rw [hoff] at h
        cases h.symm.trans (run_answered (depart_requests hr n a) es)
  · exact (move_step m e).request hr he

/-- A run does the same to both managers, as long as the request waits. -/
theorem Beside.run {es' : List Event} (h : Beside n v m m') (hes : Fewer n m es es')
    (hp : (m.run es).requests[v]? = some (.waiting n)) : Beside n v (m.run es) (m'.run es') := by
  induction hes generalizing m' with
  | nil => exact h
  | same rest ih => exact ih (h.step (waiting_of_run h.sound.accounted h.waits hp)) hp
  | joins joins rest ih => exact ih (h.turnAway joins) hp

theorem withCompany_self (hf : m.flights[n]? = some f) :
    m.withCompany n f.waiters m.requests m.counts = m := by
  have hid : m.flights.modify n (Flight.withWaiters f.waiters) = m.flights.modify n id :=
    modify_congr hf rfl
  rw [withCompany, hid, List.modify_id]

theorem Beside.refl (hs : m.Sound) (hv : m.requests[v]? = some (.waiting n)) : Beside n v m m := by
  obtain ⟨f, hf, -⟩ := hs.accounted.exists_flight hv
  refine ⟨?_, hs, hs, hv, hv⟩
  exact Eq.subst (motive := Without n m) (withCompany_self hf) (.mk (.refl n m.requests))

end Xref.Manager
