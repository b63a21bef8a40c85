import Xref.Manager.Event

/-!
# Moves of a manager

An event does one thing to a manager, or nothing at all. `Move` lists the things that can be done,
each with what has to hold where it is done, and `move_step` says that an event does nothing else.
So whatever is shown of every move holds after every event, and nobody has to look into an event
again.

Four fields of a manager matter to what follows: its entries, its flights, its requests and what it
has pinned. Entries and pins are seen only by looking a document up, and a flight only grows older
(`Flight.Later`).
-/

namespace Xref

/-! ## Lookups -/

theorem lookup_filter_key {α : Type} (p : Nat → Bool) (l : List (Nat × α)) (d : Nat) :
    (l.filter fun x => p x.1).lookup d = if p d then l.lookup d else none := by
  induction l with
  | nil => simp
  | cons x l ih =>
      obtain ⟨k, v⟩ := x
      rw [List.lookup_cons, List.filter_cons]
      by_cases hk : d = k
      · subst hk
        by_cases hp : p d = true
        · simp [hp]
        · rw [if_neg hp, ih, if_neg hp, if_neg hp]
      · have hb : (d == k) = false := beq_false_of_ne hk
        by_cases hp : p k = true
        · simp only [hp, if_true, List.lookup_cons, hb]
          exact ih
        · simp only [hp, hb]
          exact ih

theorem lookup_set {α : Type} (l : List (Nat × α)) (k d : Nat) (v : α) :
    ((k, v) :: l.filter fun x => x.1 != k).lookup d = if d = k then some v else l.lookup d := by
  rw [List.lookup_cons, lookup_filter_key fun x => x != k]
  by_cases h : d = k
  · simp [h]
  · simp [h, beq_false_of_ne h]

theorem of_getElem?_modify {α : Type} {l : List α} {g : α → α} {n k : Nat} {b : α}
    (h : (l.modify n g)[k]? = some b) : ∃ a, l[k]? = some a ∧ b = if n = k then g a else a := by
  rw [List.getElem?_modify] at h
  obtain ⟨a, ha, rfl⟩ := Option.map_eq_some_iff.1 h
  exact ⟨a, ha, rfl⟩

theorem getElem?_modify_of_eq {α : Type} {l : List α} {a : α} {k : Nat} (h : l[k]? = some a)
    (g : α → α) (n : Nat) : (l.modify n g)[k]? = some (if n = k then g a else a) := by
  rw [List.getElem?_modify, h]
  rfl

theorem of_getElem?_concat {α : Type} {l : List α} {a b : α} {k : Nat}
    (h : (l ++ [a])[k]? = some b) : l[k]? = some b ∨ (k = l.length ∧ b = a) := by
  rcases Nat.lt_trichotomy k l.length with hk | rfl | hk
  · rw [List.getElem?_append_left hk] at h
    exact .inl h
  · rw [List.getElem?_concat_length] at h
    exact .inr ⟨rfl, (Option.some.inj h).symm⟩
  · have := (List.getElem?_eq_some_iff.1 h).1
    rw [List.length_append, List.length_singleton] at this
    omega

/-! ## Phases -/

namespace Phase

/-- The manager has taken notice of the outcome. -/
def isSettled : Phase → Bool
  | recorded _ => true
  | published _ => true
  | _ => false

theorem exists_outcome {p : Phase} (h : p.isSettled = true) : ∃ o, p.outcome? = some o := by
  cases p with
  | recorded o => exact ⟨o, rfl⟩
  | published o => exact ⟨o, rfl⟩
  | _ => cases h

def isOver : Phase → Bool
  | published _ => true
  | lost => true
  | _ => false

/-- The steps that the build of a flight takes without anybody else being concerned. -/
inductive Next (n : Nat) : Manager.Event → Phase → Phase → Prop
  /-- There is no cache to pin, or no manager to pin it for. -/
  | pass {o : Outcome} {isAttached : Bool} (h : ∀ a, o = .built a → isAttached = false) :
      Next n (.pin n) (finished o isAttached) (pinned o isAttached)
  | ignore {o : Outcome} : Next n (.record n) (pinned o false) (recorded o)
  | publish {o : Outcome} : Next n (.publish n) (recorded o) (published o)
  | lose : Next n (.lose n) running lost

inductive Goes (n : Nat) (isHere : Bool) : Manager.Event → Phase → Phase → Prop
  | same {e : Manager.Event} {p : Phase} : Goes n isHere e p p
  | finish {x : Except Failure Fetched} :
      Goes n isHere (.finish n x) running (finished (.ofFetched x) isHere)
  | next {e : Manager.Event} {p q : Phase} (next : Next n e p q) : Goes n isHere e p q
  | pin {a : Artifacts} :
      Goes n isHere (.pin n) (finished (.built a) true) (pinned (.built a) true)
  | record {o : Outcome} : Goes n isHere (.record n) (pinned o true) (recorded o)

namespace Goes

variable {n : Nat} {isHere : Bool} {e : Manager.Event} {p q : Phase}

theorem keeps_outcome (h : Goes n isHere e p q) {o : Outcome} (ho : p.outcome? = some o) :
    q.outcome? = some o := by
  cases h with
  | finish => cases ho
  | next next => cases next <;> exact ho
  | _ => exact ho

theorem isSettled (h : Goes n isHere e p q) (hp : p.isSettled = true) : q.isSettled = true := by
  cases h with
  | same => exact hp
  | next next =>
      cases next with
      | ignore | publish => rfl
      | pass | lose => cases hp
  | finish | pin => cases hp
  | record => rfl

theorem eq_of_isOver (h : Goes n isHere e p q) (hp : p.isOver = true) : q = p := by
  cases h with
  | same => rfl
  | next next => cases next <;> cases hp
  | _ => cases hp

end Goes

end Phase

def Entry.flight : Entry → Nat
  | building n => n
  | built n => n

/-- What takes the place of the flight in its entry when its outcome is entered. -/
def Outcome.entry? (n : Nat) : Outcome → Option Entry
  | built _ => some (.built n)
  | _ => none

theorem Flight.artifacts?_eq_some {f : Flight} {a : Artifacts} :
    f.artifacts? = some a ↔ f.phase.outcome? = some (.built a) := by
  unfold Flight.artifacts?
  split
  · next b hb =>
      rw [hb]
      exact ⟨fun h => by rw [Option.some.inj h], fun h => by cases h; rfl⟩
  · next h => exact ⟨fun ha => (Option.some_ne_none a ha.symm).elim, fun ha => (h a ha).elim⟩

/-- What an event can do to a flight, whatever it is about. -/
structure Flight.Steps (n : Nat) (isHere : Bool) (e : Manager.Event) (f f' : Flight) : Prop where
  document : f'.document = f.document
  name : f'.name = f.name
  cancelled : f.isCancelled = true → f'.isCancelled = true
  phase : f.phase.Goes n isHere e f'.phase

namespace Flight.Steps

variable {n : Nat} {isHere : Bool} {e : Manager.Event} {f : Flight}

theorem same : f.Steps n isHere e f :=
  ⟨rfl, rfl, id, .same⟩

theorem joined (k : Nat) : f.Steps n isHere e { f with waiters := k } :=
  ⟨rfl, rfl, id, .same⟩

theorem left : f.Steps n isHere e f.leave :=
  ⟨rfl, rfl, fun h => by simp [Flight.leave, h], .same⟩

theorem moved {p : Phase} (h : f.phase.Goes n isHere e p) :
    f.Steps n isHere e { f with phase := p } :=
  ⟨rfl, rfl, id, h⟩

end Flight.Steps

/-- The same flight at a later time. -/
structure Flight.Later (f f' : Flight) : Prop where
  document : f'.document = f.document
  name : f'.name = f.name
  cancelled : f.isCancelled = true → f'.isCancelled = true
  outcome : ∀ o, f.phase.outcome? = some o → f'.phase.outcome? = some o
  settled : f.phase.isSettled = true → f'.phase.isSettled = true
  ended : f.phase.isOver = true → f'.phase = f.phase

theorem Flight.Steps.later {n : Nat} {isHere : Bool} {e : Manager.Event} {f f' : Flight}
    (h : f.Steps n isHere e f') : f.Later f' :=
  ⟨h.document, h.name, h.cancelled, fun _ => h.phase.keeps_outcome, h.phase.isSettled,
    h.phase.eq_of_isOver⟩

namespace Flight.Later

theorem refl (f : Flight) : f.Later f :=
  ⟨rfl, rfl, id, fun _ h => h, id, fun _ => rfl⟩

theorem trans {f g h : Flight} (hf : f.Later g) (hg : g.Later h) : f.Later h where
  document := hg.document.trans hf.document
  name := hg.name.trans hf.name
  cancelled := hg.cancelled ∘ hf.cancelled
  outcome := fun o h => hg.outcome o (hf.outcome o h)
  settled := hg.settled ∘ hf.settled
  ended := fun h => (hg.ended (by rw [hf.ended h]; exact h)).trans (hf.ended h)

theorem artifacts {f f' : Flight} (h : f.Later f') {a : Artifacts} (ha : f.artifacts? = some a) :
    f'.artifacts? = some a :=
  artifacts?_eq_some.2 (h.outcome _ (artifacts?_eq_some.1 ha))

end Flight.Later

namespace Manager

/-! ## Looking up -/

theorem entry?_setEntry (m : Manager) (d k : Nat) (e : Entry) :
    entry? (m.setEntry d e) k = if k = d then some e else m.entry? k :=
  lookup_set m.entries d k e

theorem entry?_removeEntry (m : Manager) (d k : Nat) :
    entry? (m.removeEntry d) k = if k = d then none else m.entry? k := by
  refine (lookup_filter_key (fun x => x != d) m.entries k).trans ?_
  by_cases h : k = d
  · simp [h]
  · simp [h, entry?]

theorem pin?_pinCache (m : Manager) (n d k : Nat) :
    (m.pinCache n d).pin? k = if k = d then some n else m.pin? k :=
  lookup_set m.pins d k n

theorem pin?_forget (m : Manager) (d k : Nat) :
    (m.pins.filter fun p => p.1 != d).lookup k = if k = d then none else m.pin? k := by
  refine (lookup_filter_key (fun x => x != d) m.pins k).trans ?_
  by_cases h : k = d
  · simp [h]
  · simp [h, pin?]

theorem pin?_unpinAll (m : Manager) (d : Nat) :
    m.unpinAll.pin? d = if (m.entry? d).isNone then m.pin? d else none :=
  lookup_filter_key (fun x => (m.entry? x).isNone) m.pins d

theorem entry?_enterOutcome (m : Manager) (n d k : Nat) (o : Outcome) :
    entry? (m.enterOutcome n d o) k =
      if m.entry? d = some (.building n) ∧ k = d then o.entry? n else m.entry? k := by
  unfold enterOutcome
  by_cases h : m.entry? d = some (.building n)
  · rw [if_pos h]
    cases o with
    | built a => simp only [h, true_and, entry?_setEntry, Outcome.entry?]
    | failed e => simp only [h, true_and, entry?_removeEntry, Outcome.entry?]
    | unsupported l => simp only [h, true_and, entry?_removeEntry, Outcome.entry?]
  · rw [if_neg h, if_neg fun hk => h hk.1]

theorem enterOutcome_eq (m : Manager) (n d : Nat) (o : Outcome) :
    m.enterOutcome n d o = { m with entries := (m.enterOutcome n d o).entries } := by
  unfold enterOutcome
  split
  · cases o <;> rfl
  · rfl

/-! ## Moves -/

/-- Entries of documents that are gone may be removed. -/
inductive Swept (m : Manager) : Manager → Prop
  | mk {insertions : Nat} {entries : List (Nat × Entry)} {counts : Counts}
      (kept : ∀ d, m.isLive d = true → entries.lookup d = m.entry? d)
      (only : ∀ d e, entries.lookup d = some e → m.entry? d = some e) :
      Swept m { m with insertions, entries, counts }

theorem swept_purge (m : Manager) : Swept m m.purge := by
  unfold purge
  simp only [List.partition_eq_filter_filter]
  have hl (d : Nat) : (m.entries.filter fun p => m.isLive p.1).lookup d =
      if m.isLive d then m.entry? d else none :=
    lookup_filter_key m.isLive m.entries d
  refine .mk (fun d hd => ?_) fun d e he => ?_
  · rw [hl, if_pos hd]
  · rw [hl] at he
    split at he
    · exact he
    · cases he

theorem swept_countInsertion (m : Manager) : Swept m m.countInsertion := by
  unfold countInsertion
  dsimp only
  split
  · obtain ⟨kept, only⟩ := swept_purge { m with insertions := m.insertions + 1 }
    exact .mk kept only
  · exact .mk (fun _ _ => rfl) fun _ _ h => h

/-- A request takes an answer and leaves its flight. -/
def depart (m : Manager) (n r : Nat) (a : Answer) : Manager :=
  (m.onFlight n Flight.leave).setRequest r (.answered a)

/-- What an event can do to a manager. -/
inductive Move (m : Manager) : Event → Manager → Prop
  | idle (e : Event) : Move m e m
  | turnAway (d : Nat) (name : String) :
      Move m (.get d name true) (m.addRequest (.answered (.failure .cancelled)))
  | hit {d : Nat} {name : String} {c : Nat} {a : Artifacts}
      (entry : m.entry? d = some (.built c)) (alive : m.alive? c = some a) :
      Move m (.get d name false) (m.hit c a)
  | join {d : Nat} {name : String} {n : Nat} {f : Flight} (here : m.isDropped = false)
      (entry : m.entry? d = some (.building n)) (flight : m.flights[n]? = some f)
      (going : f.isCancelled = false) :
      Move m (.get d name false) (m.joinFlight n { f with waiters := f.waiters + 1 })
  /-- A request starts a flight if there is no entry, or its cache is gone, or its flight is
  cancelled. -/
  | start {d : Nat} {name : String} {m' : Manager} (here : m.isDropped = false)
      (live : m.isLive d = true) (gone : ∀ c, m.entry? d = some (.built c) → m.alive? c = none)
      (cancelled : ∀ n f, m.entry? d = some (.building n) → m.flights[n]? = some f →
        f.isCancelled = true)
      (swept : Swept (m.startFlight d name) m') :
      Move m (.get d name false) m'
  | leave {r n : Nat} (waits : m.requests[r]? = some (.waiting n)) :
      Move m (.leave r) (m.depart n r (.failure .cancelled))
  | receive {r n : Nat} {f : Flight} {a : Answer} (waits : m.requests[r]? = some (.waiting n))
      (flight : m.flights[n]? = some f) (has : answer? n f = some a) :
      Move m (.receive r) (m.depart n r a)
  | finish {n : Nat} {f : Flight} {x : Except Failure Fetched} (flight : m.flights[n]? = some f)
      (phase : f.phase = .running) :
      Move m (.finish n x) (m.setPhase n (.finished (.ofFetched x) !m.isFreed))
  | advance {e : Event} {n : Nat} {f : Flight} {p : Phase} (flight : m.flights[n]? = some f)
      (next : Phase.Next n e f.phase p) : Move m e (m.setPhase n p)
  | pin {n : Nat} {f : Flight} {a : Artifacts} (flight : m.flights[n]? = some f)
      (phase : f.phase = .finished (.built a) true) :
      Move m (.pin n) ((m.setPhase n (.pinned (.built a) true)).pinCache n f.document)
  | record {n : Nat} {f : Flight} {o : Outcome} {counts : Counts}
      (flight : m.flights[n]? = some f) (phase : f.phase = .pinned o true) :
      Move m (.record n)
        { m.setPhase n (.recorded o) with
          entries := ((m.setPhase n (.recorded o)).enterOutcome n f.document o).entries, counts }
  | sweep {m' : Manager} (swept : Swept m m') : Move m .purge m'
  | beginClear : Move m .beginClear m.beginClear
  | endClear (begun : 0 < m.clearing) :
      Move m .endClear { m with entries := [], clearing := m.clearing - 1 }
  | drop (left : m.hasWaiting = false) (calm : m.clearing = 0) :
      Move m .drop { m.unpinAll with isDropped := true }
  | free (dropped : m.isDropped = true) (calm : m.hasEnding = false) :
      Move m .free { m with entries := [], isFreed := true }
  | forget {d : Nat} (unused : m.uses d = false) :
      Move m (.forget d)
        { m with gone := d :: m.gone, pins := m.pins.filter fun p => p.1 != d }
  | hold (e : Event) (held : List Nat) : Move m e { m with held }

theorem move_get {m : Manager} {d : Nat} {name : String} {c : Bool} (here : m.isDropped = false)
    (live : m.isLive d = true) : Move m (.get d name c) (m.get d name c) := by
  unfold get
  split
  · next hc =>
      subst hc
      exact .turnAway d name
  · next hc =>
      obtain rfl : c = false := Bool.eq_false_iff.2 hc
      -- A flight is started in four places; only where there is no entry yet is it an insertion,
      -- which may sweep.
      have plain : Swept (m.startFlight d name) (m.startFlight d name) :=
        .mk (fun _ _ => rfl) fun _ _ h => h
      split
      · next n hn =>
          split
          · next a ha => exact .hit hn ha
          · next ha =>
              refine .start here live (fun k hk => ?_) (fun k f hk => ?_) plain
              · cases hn.symm.trans hk
                exact ha
              · cases hn.symm.trans hk
      · next n hn =>
          have gone (k : Nat) (hk : m.entry? d = some (.built k)) : m.alive? k = none := by
            cases hn.symm.trans hk
          cases hf : m.flights[n]? with
          | none =>
              refine .start here live gone (fun k f hk hkf => ?_) plain
              cases hn.symm.trans hk
              cases hf.symm.trans hkf
          | some f =>
              rw [Option.bind_some, Flight.join?]
              by_cases hc : f.isCancelled = true
              · rw [if_pos hc]
                refine .start here live gone (fun k g hk hkf => ?_) plain
                cases hn.symm.trans hk
                cases hf.symm.trans hkf
                exact hc
              · rw [if_neg hc]
                exact .join here hn hf (Bool.eq_false_iff.2 hc)
      · next hn =>
          refine .start here live (fun k hk => ?_) (fun k f hk => ?_) (swept_countInsertion _)
          · cases hn.symm.trans hk
          · cases hn.symm.trans hk

theorem move_pin (m : Manager) (n : Nat) : Move m (.pin n) (m.pin n) := by
  unfold pin
  split
  · next f hf =>
      split
      · next o attached hp =>
          dsimp only
          split
          · next a =>
              split
              · next ha =>
                  subst ha
                  exact .pin hf hp
              · next ha =>
                  exact .advance hf (hp ▸ .pass fun _ _ => Bool.eq_false_iff.2 ha)
          · next ho => exact .advance hf (hp ▸ .pass fun a h => (ho a h).elim)
      · exact .idle _
  · exact .idle _

theorem move_record (m : Manager) (n : Nat) : Move m (.record n) (m.record n) := by
  unfold record
  split
  · next f hf =>
      split
      · next o attached hp =>
          dsimp only
          split
          · next ha =>
              subst ha
              rw [enterOutcome_eq]
              exact .record hf hp
          · next ha =>
              obtain rfl : attached = false := Bool.eq_false_iff.2 ha
              exact .advance hf (hp ▸ .ignore)
      · exact .idle _
  · exact .idle _

theorem exists_flight {m : Manager} {n : Nat} {p : Phase}
    (h : m.flights[n]?.map Flight.phase = some p) : ∃ f, m.flights[n]? = some f ∧ f.phase = p :=
  Option.map_eq_some_iff.1 h

/-- An event does nothing that is not on the list. -/
theorem move_step (m : Manager) (e : Event) : Move m e (m.step e) := by
  cases e with
  | get d name c =>
      rw [step]
      split
      · exact .idle _
      · next h =>
          simp only [Bool.or_eq_true, not_or, Bool.not_eq_true, Bool.not_eq_false'] at h
          exact move_get h.1 h.2
  | leave r =>
      rw [step, Manager.leave]
      split
      · next n hr => exact .leave hr
      · exact .idle _
  | receive r =>
      rw [step, Manager.receive]
      split
      · next n hr =>
          split
          · next a ha =>
              obtain ⟨f, hf, ha⟩ := Option.bind_eq_some_iff.1 ha
              exact .receive hr hf ha
          · exact .idle _
      · exact .idle _
  | finish n x =>
      rw [step, finish]
      split
      · next hp =>
          obtain ⟨f, hf, hp⟩ := exists_flight hp
          exact .finish hf hp
      · exact .idle _
  | pin n => exact move_pin m n
  | record n => exact move_record m n
  | publish n =>
      rw [step, publish]
      split
      · next o hp =>
          obtain ⟨f, hf, hp⟩ := exists_flight hp
          exact .advance hf (hp ▸ .publish)
      · exact .idle _
  | lose n =>
      rw [step, lose]
      split
      · next hp =>
          obtain ⟨f, hf, hp⟩ := exists_flight hp
          exact .advance hf (hp ▸ .lose)
      · exact .idle _
  | purge =>
      rw [step]
      split
      · exact .idle _
      · exact .sweep (swept_purge m)
  | beginClear =>
      rw [step]
      split
      · exact .idle _
      · exact .beginClear
  | endClear =>
      rw [step, endClear]
      split
      · exact .idle _
      · next h => exact .endClear (Nat.pos_of_ne_zero h)
  | drop =>
      rw [step, Manager.drop]
      split
      · exact .idle _
      · next h =>
          simp only [Bool.or_eq_true, not_or, Bool.not_eq_true, decide_eq_true_iff] at h
          exact .drop h.1.2 (Nat.eq_zero_of_not_pos h.2)
  | free =>
      rw [step, free]
      split
      · next h =>
          simp only [Bool.and_eq_true, Bool.not_eq_true'] at h
          exact .free h.1 h.2
      · exact .idle _
  | forget d =>
      rw [step, Manager.forget]
      split
      · exact .idle _
      · next h => exact .forget (Bool.eq_false_iff.2 h)
  | hold c =>
      rw [step, Manager.hold]
      split
      · exact .hold _ _
      · exact .idle _
  | release c => exact .hold _ _

/-! ## Flights -/

section

variable {m m' : Manager} {e : Event} {n k : Nat} {f f' : Flight}

theorem of_flights_start {d : Nat} {name : String}
    (h : (m.startFlight d name).flights[k]? = some f) :
    m.flights[k]? = some f ∨ (k = m.flights.length ∧ f = .start d name) :=
  of_getElem?_concat h

theorem Move.steps (h : Move m e m') (hf : m.flights[n]? = some f) :
    ∃ f', m'.flights[n]? = some f' ∧ f.Steps n (!m.isFreed) e f' := by
  have modified {k : Nat} {c : Flight → Flight}
      (hc : k = n → f.Steps n (!m.isFreed) e (c f)) :
      ∃ f', (m.flights.modify k c)[n]? = some f' ∧ f.Steps n (!m.isFreed) e f' := by
    refine ⟨_, getElem?_modify_of_eq hf c k, ?_⟩
    split
    · next hk => exact hc hk
    · exact .same
  cases h with
  | join here entry flight going =>
      refine modified ?_
      rintro rfl
      cases hf.symm.trans flight
      exact .joined _
  | start here live gone cancelled swept =>
      cases swept
      refine ⟨f, ?_, .same⟩
      exact (List.getElem?_append_left (List.getElem?_eq_some_iff.1 hf).1).trans hf
  | leave | receive => exact modified fun _ => .left
  | finish flight phase =>
      refine modified ?_
      rintro rfl
      cases hf.symm.trans flight
      exact .moved (phase ▸ .finish)
  | advance flight next =>
      refine modified ?_
      rintro rfl
      cases hf.symm.trans flight
      exact .moved (.next next)
  | pin flight phase =>
      refine modified ?_
      rintro rfl
      cases hf.symm.trans flight
      exact .moved (phase ▸ .pin)
  | record flight phase =>
      refine modified ?_
      rintro rfl
      cases hf.symm.trans flight
      exact .moved (phase ▸ .record)
  | sweep swept =>
      cases swept
      exact ⟨f, hf, .same⟩
  | _ => exact ⟨f, hf, .same⟩

/-- A flight only grows older. -/
theorem Move.later (h : Move m e m') (hf : m.flights[n]? = some f) :
    ∃ f', m'.flights[n]? = some f' ∧ f.Later f' := by
  obtain ⟨f', hf', hs⟩ := h.steps hf
  exact ⟨f', hf', hs.later⟩

theorem Move.goes (h : Move m e m') (hf : m.flights[n]? = some f) (hf' : m'.flights[n]? = some f') :
    f.phase.Goes n (!m.isFreed) e f'.phase := by
  obtain ⟨g, hg, hs⟩ := h.steps hf
  cases hf'.symm.trans hg
  exact hs.phase

theorem Move.length_le (h : Move m e m') : m.flights.length ≤ m'.flights.length := by
  refine Nat.le_of_not_lt fun hlt => ?_
  obtain ⟨f', hf', -⟩ := h.later (List.getElem?_eq_getElem hlt)
  exact Nat.lt_irrefl _ (List.getElem?_eq_some_iff.1 hf').1

theorem run_later (hf : m.flights[n]? = some f) (es : List Event) :
    ∃ f', (m.run es).flights[n]? = some f' ∧ f.Later f' := by
  refine run_induction (p := fun m => ∃ f', m.flights[n]? = some f' ∧ f.Later f')
    ⟨f, hf, .refl f⟩ (fun m e h => ?_) es
  obtain ⟨g, hg, hl⟩ := h
  obtain ⟨g', hg', hl'⟩ := (move_step m e).later hg
  exact ⟨g', hg', hl.trans hl'⟩

/-- A flight that was not there before has just been started, and its entry made. -/
theorem Move.earlier (h : Move m e m') (hf : m'.flights[n]? = some f') :
    (∃ f, m.flights[n]? = some f ∧ f.Later f') ∨
      ∃ d name, e = .get d name false ∧ n = m.flights.length ∧ f' = .start d name ∧
        m.isLive d = true ∧ m'.entry? d = some (.building n) := by
  cases hn : m.flights[n]? with
  | some f =>
      obtain ⟨g, hg, hl⟩ := h.later hn
      exact .inl ⟨f, rfl, (Option.some.inj (hg.symm.trans hf)) ▸ hl⟩
  | none =>
      right
      have old {k : Nat} {g : Flight → Flight} (hk : (m.flights.modify k g)[n]? = some f') :
          False := by
        obtain ⟨a, ha, -⟩ := of_getElem?_modify hk
        exact Option.some_ne_none a (ha.symm.trans hn)
      cases h with
      | @start d name m' here live gone cancelled swept =>
          cases swept with
          | mk kept only =>
              rcases of_flights_start hf with hold | ⟨rfl, hnew⟩
              · exact (Option.some_ne_none f' (hold.symm.trans hn)).elim
              · refine ⟨d, name, rfl, rfl, hnew, live, (kept d live).trans ?_⟩
                exact (entry?_setEntry m d d _).trans (if_pos rfl)
      | sweep swept =>
          cases swept
          exact (Option.some_ne_none f' (hf.symm.trans hn)).elim
      | join | leave | receive | finish | advance | pin | record => exact (old hf).elim
      | _ => exact (Option.some_ne_none f' (hf.symm.trans hn)).elim

theorem answer?_later (h : f.Later f') {a : Answer} (ha : answer? n f = some a) :
    answer? n f' = some a := by
  have hp : f'.phase = f.phase := by
    refine h.ended ?_
    unfold answer? at ha
    split at ha
    case h_5 => cases ha
    all_goals
      next hp => rw [hp]; rfl
  unfold answer? at ha ⊢
  rw [hp, h.name]
  exact ha

end

end Manager

end Xref
