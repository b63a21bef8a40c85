import Xref.Proofs.Manager.Entries

/-!
# Requests that fare alike

What becomes of a request is decided by the build of its flight, and neither by who started the
flight nor by who else waits for it. `outcome?_congr` says so of two requests anywhere, in one run or
in two: if the flights have been started for documents of the same name, the builds have gone through
the same since, and the requests themselves do the same, then they get the same. Numbers of flights
and requests do not matter, so the events are compared without them (`Event.unnumbered`).

One case of it is a flight whose first request is turned away instead: the next request to wait starts
a flight, and fares as it would have with the first.
-/

namespace Xref

/-- What a request gets, whatever flight it comes from. -/
def Answer.outcome : Answer → Outcome
  | cache _ a => .built a
  | failure e => .failed e
  | unsupported l => .unsupported l

/-- What a request has got. -/
def Request.outcome? : Request → Option Outcome
  | waiting _ => none
  | answered a => some a.outcome

theorem Outcome.outcome_answer (n : Nat) (o : Outcome) : (o.answer n).outcome = o := by
  cases o <;> rfl

namespace Manager.Event

/-- The event, whatever the numbers of its flight and its request. -/
def unnumbered : Event → Event
  | finish _ x => finish 0 x
  | pin _ => pin 0
  | record _ => record 0
  | publish _ => publish 0
  | lose _ => lose 0
  | leave _ => leave 0
  | receive _ => receive 0
  | e => e

/-- What the build of a flight goes through. -/
def buildOf (n : Nat) (es : List Event) : List Event :=
  (es.filter fun e => e.build? == some n).map unnumbered

/-- What a request that waits for a flight goes through. -/
def seenBy (n r : Nat) (es : List Event) : List Event :=
  (es.filter (concerns n r)).map unnumbered

theorem build?_unnumbered {n : Nat} {e : Event} (h : e.build? = some n) :
    e.unnumbered.build? = some 0 := by
  cases e with
  | finish | pin | record | publish | lose => rfl
  | _ => cases h

theorem request?_unnumbered_of_build? {n : Nat} {e : Event} (h : e.build? = some n) :
    e.unnumbered.request? = none := by
  cases e with
  | finish | pin | record | publish | lose => rfl
  | _ => cases h

theorem request?_unnumbered {r : Nat} {e : Event} (h : e.request? = some r) :
    e.unnumbered.request? = some 0 := by
  cases e with
  | leave | receive => rfl
  | _ => cases h

end Manager.Event

namespace Phase

theorem after_unnumbered (p : Phase) (e : Manager.Event) : p.after e.unnumbered = p.after e := by
  cases e <;> cases p <;> rfl

theorem outcome_answer? (n k : Nat) (name : String) (p : Phase) :
    (p.answer? n name).map Answer.outcome = (p.answer? k name).map Answer.outcome := by
  cases p with
  | published o => exact congrArg some ((o.outcome_answer n).trans (o.outcome_answer k).symm)
  | _ => rfl

theorem outcome_offer? (n k : Nat) (name : String) (p : Phase) (e : Manager.Event) :
    (p.offer? n name e).map Answer.outcome =
      (p.offer? k name e.unnumbered).map Answer.outcome := by
  cases e with
  | receive r => exact p.outcome_answer? n k name
  | _ => rfl

end Phase

namespace Manager

variable {m m' : Manager} {e : Event} {d d' n r r' : Nat} {name : String} {f : Flight}
  {es fs fs' gs gs' : List Event}

/-! ## Fates without numbers -/

/-- The numbers of its flight and of itself make no difference to what a request gets. -/
theorem outcome?_fate (n r : Nat) (name : String) (es : List Event) (p : Phase) :
    (fate n r name es p).outcome? = (fate 0 0 name (Event.seenBy n r es) p).outcome? := by
  induction es generalizing p with
  | nil => rfl
  | cons e es ih =>
      rw [Event.seenBy]
      by_cases hr : e.request? = some r
      · have hc : e.concerns n r = true := by simp [Event.concerns, hr]
        rw [List.filter_cons_of_pos hc, List.map_cons, fate_of_request? hr,
          fate_of_request? (Event.request?_unnumbered hr)]
        have offers := p.outcome_offer? n 0 name e
        cases ho : p.offer? n name e with
        | none =>
            rw [ho, Option.map_none, eq_comm, Option.map_eq_none_iff] at offers
            rw [offers]
            exact ih p
        | some a =>
            rw [ho, Option.map_some, eq_comm, Option.map_eq_some_iff] at offers
            obtain ⟨b, hb, hab⟩ := offers
            rw [hb]
            exact congrArg some hab.symm
      · rw [fate_of_request?_ne hr]
        by_cases hb : e.build? = some n
        · have hc : e.concerns n r = true := by simp [Event.concerns, hb]
          have hne : e.unnumbered.request? ≠ some 0 := by
            rw [Event.request?_unnumbered_of_build? hb]
            exact (Option.some_ne_none 0).symm
          rw [List.filter_cons_of_pos hc, List.map_cons, fate_of_request?_ne hne, if_pos hb,
            if_pos (Event.build?_unnumbered hb), Phase.after_unnumbered]
          exact ih _
        · have hc : ¬ e.concerns n r = true := by simp [Event.concerns, hr, hb]
          rw [List.filter_cons_of_neg hc, if_neg hb]
          exact ih p

/-! ## How far a build has come -/

theorem run_freed (h : m.isFreed = true) (es : List Event) : (m.run es).isFreed = true :=
  run_induction (p := fun m => m.isFreed = true) h (fun m e h => (move_step m e).freed h) es

/-- As long as the manager has not been freed, the build of a flight alone decides how far it has
come. -/
theorem run_phase (here : (m.run es).isFreed = false) (hf : m.flights[n]? = some f) :
    ∃ f', (m.run es).flights[n]? = some f' ∧ f'.name = f.name ∧
      f'.phase = (Event.buildOf n es).foldl Phase.after f.phase := by
  induction es generalizing m f with
  | nil => exact ⟨f, hf, rfl, rfl⟩
  | cons e es ih =>
      have freed : m.isFreed = false := Bool.eq_false_iff.2 fun h =>
        Bool.noConfusion (here.symm.trans (run_freed h (e :: es)))
      rw [Event.buildOf]
      by_cases hb : e.build? = some n
      · obtain ⟨f', hf', hname, hphase⟩ := ih here (build_phase freed hf hb)
        refine ⟨f', hf', hname, hphase.trans ?_⟩
        rw [List.filter_cons_of_pos (by simp [hb]), List.map_cons, List.foldl_cons,
          Phase.after_unnumbered]
        rfl
      · obtain ⟨g, hg, gname, gphase⟩ := (move_step m e).phase hf hb
        obtain ⟨f', hf', hname, hphase⟩ := ih here hg
        refine ⟨f', hf', hname.trans gname, hphase.trans ?_⟩
        rw [List.filter_cons_of_neg (by simp [hb]), gphase]
        rfl

/-! ## Two requests -/

/-- A request for the document would start a flight. -/
def Starts (m : Manager) (d : Nat) (name : String) : Prop :=
  m.flights.length < (m.step (.get d name false)).flights.length

theorem Starts.started (h : m.Starts d name) :
    (m.step (.get d name false)).flights[m.flights.length]? = some (.start d name) ∧
      m.isLive d = true ∧
      entry? (m.step (.get d name false)) d = some (.building m.flights.length) := by
  have hf := List.getElem?_eq_getElem h
  rcases (move_step m (.get d name false)).earlier hf with ⟨f, hold, -⟩ | ⟨c, x, he, -, hs, live, hx⟩
  · exact absurd (List.getElem?_eq_some_iff.1 hold).1 (Nat.lt_irrefl _)
  · cases he
    exact ⟨hf.trans (congrArg some hs), live, hx⟩

/-- Two requests that wait for flights of documents of the same name get the same, whatever else
happens, if the builds have gone through the same since their starts and the requests do the same. -/
theorem outcome?_congr (h : m.Accounted) (h' : m'.Accounted) (starts : m.Starts d name)
    (starts' : m'.Starts d' name)
    (hr : (m.run (.get d name false :: fs)).requests[r]? = some (.waiting m.flights.length))
    (hr' : (m'.run (.get d' name false :: fs')).requests[r']? =
      some (.waiting m'.flights.length))
    (hfs : Event.buildOf m.flights.length fs = Event.buildOf m'.flights.length fs')
    (hgs : Event.seenBy m.flights.length r gs = Event.seenBy m'.flights.length r' gs') :
    ((m.run (.get d name false :: fs ++ gs)).requests[r]?.bind Request.outcome?) =
      (m'.run (.get d' name false :: fs' ++ gs')).requests[r']?.bind Request.outcome? := by
  have ha := h.run (.get d name false :: fs)
  have ha' := h'.run (.get d' name false :: fs')
  rw [run_append, run_append]
  have freed : ((m.step (.get d name false)).run fs).isFreed = false :=
    ha.not_freed (ha.not_dropped hr)
  have freed' : ((m'.step (.get d' name false)).run fs').isFreed = false :=
    ha'.not_freed (ha'.not_dropped hr')
  obtain ⟨f, hf, hname, hphase⟩ := run_phase freed starts.started.1
  obtain ⟨f', hf', hname', hphase'⟩ := run_phase freed' starts'.started.1
  rw [run_requests ha hr hf, run_requests ha' hr' hf', Option.bind_some, Option.bind_some,
    outcome?_fate, outcome?_fate m'.flights.length, hgs, hname, hname', hphase, hphase', hfs]
  rfl

end Manager

end Xref
