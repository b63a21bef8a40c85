import Xref.Proofs.Manager.Answer

/-!
# Who an entry belongs to

Two invariants. `Entered` holds after every run: an entry is about a flight of its document, one that
the manager has yet to take notice of, or one that has built a cache. `Owned` is the converse for
the flights that matter, and is lost only when a manager is cleared: a flight that has not been
cancelled, and of which no notice has been taken, has the entry of its document.

So there is at most one such flight for a document. A second one could be started only over the
entry of the first, and a request that finds the entry of a flight that is not cancelled joins.
-/

namespace Xref

/-- The outcome has become known when the manager had been freed. -/
def Phase.isDetached : Phase → Bool
  | finished _ isAttached => !isAttached
  | pinned _ isAttached => !isAttached
  | _ => false

theorem Phase.Goes.holdsDocument {n : Nat} {isHere : Bool} {e : Manager.Event} {p q : Phase}
    (h : Goes n isHere e p q) (hq : q.holdsDocument = true) : p.holdsDocument = true := by
  cases h with
  | same => exact hq
  | finish => rfl
  | next next => cases next <;> cases hq
  | pin | record => cases hq

/-- Somebody waits for the flight, or its build holds the document. -/
def Flight.usesDocument (f : Flight) : Bool :=
  0 < f.waiters || f.phase.holdsDocument

/-- A flight that is not cancelled is to bring an outcome to somebody; it goes on until notice is
taken of the outcome. -/
structure Flight.Going (f : Flight) : Prop where
  wanted : f.isCancelled = false
  unsettled : f.phase.isSettled = false

namespace Manager

variable {m m' : Manager} {e : Event} {d n k r : Nat} {f g : Flight} {x : Entry} {es : List Event}

/-! ## Where an entry comes from -/

/-- An entry that a move makes: for a flight that starts, or for the cache of one that has ended. -/
inductive Made (m : Manager) (d : Nat) : Event → Entry → Manager → Prop
  | start {name : String} {m' : Manager} (here : m.isDropped = false)
      (flight : m'.flights[m.flights.length]? = some (.start d name)) :
      Made m d (.get d name false) (.building m.flights.length) m'
  | record {n : Nat} {f : Flight} {a : Artifacts} {m' : Manager} (flight : m.flights[n]? = some f)
      (phase : f.phase = .pinned (.built a) true) (document : f.document = d)
      (own : m.entry? d = some (.building n))
      (after : m'.flights[n]? = some { f with phase := .recorded (.built a) }) :
      Made m d (.record n) (.built n) m'

theorem Move.entry (h : Move m e m') (hx : m'.entry? d = some x) :
    m.entry? d = some x ∨ Made m d e x m' := by
  cases h with
  | @start c name m' here live gone cancelled swept =>
      cases swept with
      | mk kept only =>
          have hs : entry? (m.startFlight c name) d =
              if d = c then some (.building m.flights.length) else m.entry? d :=
            entry?_setEntry m c d _
          have hold := hs.symm.trans (only d x hx)
          split at hold
          · next hd =>
              subst hd
              obtain rfl := Option.some.inj hold
              exact .inr (.start here List.getElem?_concat_length)
          · exact .inl hold
  | @record n f o counts flight phase =>
      have hold := (entry?_enterOutcome (m.setPhase n (.recorded o)) n f.document d o).symm.trans hx
      split at hold
      · next hd =>
          obtain ⟨own, rfl⟩ := hd
          cases o with
          | built a =>
              obtain rfl := Option.some.inj hold
              exact .inr (.record flight phase rfl own (setPhase_flights flight _))
          | _ => cases hold
      · exact .inl hold
  | sweep swept =>
      cases swept with
      | mk kept only => exact .inl (only d x hx)
  | endClear | free => cases hx
  | _ => exact .inl hx

/-- When notice is taken of an outcome, the entry changes if it still is the flight's own. -/
theorem Move.entry?_of_record (h : Move m (.record n) m') (hf : m.flights[n]? = some f)
    {o : Outcome} (hp : f.phase = .pinned o true) (hg : m'.flights[n]? = some g)
    (hq : g.phase = .recorded o) (d : Nat) :
    m'.entry? d =
      if m.entry? f.document = some (.building n) ∧ d = f.document then o.entry? n
      else m.entry? d := by
  have changed (h : m.flights[n]? = some g) : False := by
    cases hf.symm.trans h
    cases hp.symm.trans hq
  cases h with
  | idle | hold => exact (changed hg).elim
  | advance flight next =>
      obtain rfl := Option.some.inj (next.build?)
      cases hf.symm.trans flight
      rw [hp] at next
      cases next
  | @record _ _ o' _ flight phase =>
      cases hf.symm.trans flight
      cases hp.symm.trans phase
      exact entry?_enterOutcome (m.setPhase n (.recorded o)) n f.document d o

theorem Move.dropped (h : Move m e m') (hd : m.isDropped = true) : m'.isDropped = true := by
  cases h with
  | start here live gone cancelled swept => exact Bool.noConfusion (here.symm.trans hd)
  | sweep swept =>
      cases swept
      exact hd
  | drop => rfl
  | _ => exact hd

theorem Move.freed (h : Move m e m') (hd : m.isFreed = true) : m'.isFreed = true := by
  cases h with
  | start here live gone cancelled swept =>
      cases swept
      exact hd
  | sweep swept =>
      cases swept
      exact hd
  | free => rfl
  | _ => exact hd

theorem Move.of_freed (h : Move m e m') (hd : m'.isFreed = true) :
    m.isFreed = true ∨ ∀ d, m'.entry? d = none := by
  cases h with
  | start here live gone cancelled swept =>
      cases swept
      exact .inl hd
  | sweep swept =>
      cases swept
      exact .inl hd
  | free => exact .inr fun _ => rfl
  | _ => exact .inl hd

/-! ## Entries and their flights -/

structure Entered (m : Manager) : Prop where
  building : ∀ {d n}, m.entry? d = some (.building n) →
    ∃ f, m.flights[n]? = some f ∧ f.document = d ∧ f.phase.isSettled = false
  built : ∀ {d n}, m.entry? d = some (.built n) →
    ∃ f a, m.flights[n]? = some f ∧ f.document = d ∧ f.phase.isSettled = true ∧
      f.artifacts? = some a
  freed : m.isFreed = true → ∀ d, m.entry? d = none
  detached : ∀ {n : Nat} {f : Flight}, m.flights[n]? = some f → f.phase.isDetached = true →
    m.isFreed = true

namespace Entered

theorem new (interval : Nat) : Entered (.new interval) where
  building := fun h => by cases h
  built := fun h => by cases h
  freed := fun _ _ => rfl
  detached := fun h => by cases h

theorem not_freed (h : m.Entered) (hx : m.entry? d = some x) : m.isFreed = false :=
  Bool.eq_false_iff.2 fun hd => by
    rw [h.freed hd] at hx
    cases hx

theorem attached (h : m.Entered) (hx : m.entry? d = some x) (hf : m.flights[n]? = some f) :
    f.phase.isDetached = false :=
  Bool.eq_false_iff.2 fun hp => Bool.noConfusion ((h.not_freed hx).symm.trans (h.detached hf hp))

/-- As long as its entry is there no notice is taken of a flight. -/
theorem not_settled (h : m.Entered) (hm : Move m e m') (hx : m.entry? d = some (.building n))
    (hx' : m'.entry? d = some (.building n)) (hg : m'.flights[n]? = some g) :
    g.phase.isSettled = false := by
  -- Notice is taken in two ways: for a manager that is there, and then the entry goes or becomes one
  -- for a cache; or for one that was freed, and then there has been no entry.
  obtain ⟨f, hf, hd, hs⟩ := h.building hx
  have goes := hm.goes hf hg
  have ha := h.attached hx hf
  generalize hp : f.phase = p at goes ha hs
  generalize hq : g.phase = q at goes
  cases goes with
  | same => exact hs
  | finish | pin => rfl
  | next next =>
      cases next with
      | pass | lose => rfl
      | ignore => cases ha
      | publish => cases hs
  | record =>
      rw [hm.entry?_of_record hf hp hg hq, if_pos ⟨hd ▸ hx, hd.symm⟩] at hx'
      cases ‹Outcome› <;> cases hx'

theorem move (h : m.Entered) (ha : m.Accounted) (hm : Move m e m') : m'.Entered where
  building := fun {d n} hx => by
    rcases hm.entry hx with hold | made
    · obtain ⟨f, hf, hd, -⟩ := h.building hold
      obtain ⟨f', hf', hl⟩ := hm.later hf
      exact ⟨f', hf', hl.document.trans hd, h.not_settled hm hold hx hf'⟩
    · cases made with
      | start here flight => exact ⟨_, flight, rfl, rfl⟩
  built := fun {d n} hx => by
    rcases hm.entry hx with hold | made
    · obtain ⟨f, a, hf, hd, hs, ha⟩ := h.built hold
      obtain ⟨f', hf', hl⟩ := hm.later hf
      exact ⟨f', a, hf', hl.document.trans hd, hl.settled hs, hl.artifacts ha⟩
    · cases made with
      | record flight phase document own after => exact ⟨_, _, after, document, rfl, rfl⟩
  freed := fun hd d => by
    rcases hm.of_freed hd with hd | hnone
    · refine Option.eq_none_iff_forall_not_mem.2 fun x hx => ?_
      rcases hm.entry hx with hold | made
      · rw [h.freed hd] at hold
        cases hold
      · cases made with
        | start here flight => exact Bool.noConfusion (here.symm.trans (ha.freed hd))
        | record flight phase document own after =>
            rw [h.freed hd] at own
            cases own
    · exact hnone d
  detached := fun {n g} hg hp => by
    rcases hm.earlier hg with ⟨f, hf, -⟩ | ⟨d, name, -, -, rfl, -⟩
    · refine hm.freed ?_
      have goes := hm.goes hf hg
      have old (hp : f.phase.isDetached = true) : m.isFreed = true := h.detached hf hp
      generalize f.phase = p at goes old
      generalize g.phase = q at goes hp
      cases goes with
      | same => exact old hp
      | finish => exact (Bool.not_not _).symm.trans hp
      | next next =>
          cases next with
          | pass => exact old hp
          | _ => cases hp
      | pin | record => cases hp
    · cases hp

end Entered

/-! ## Documents in use -/

def InUse (m : Manager) : Prop :=
  ∀ (n : Nat) (f : Flight), m.flights[n]? = some f → f.usesDocument = true →
    m.isLive f.document = true

theorem Move.isLive (h : Move m e m') (hd : m.isLive d = true) :
    m'.isLive d = true ∨ (e = .forget d ∧ m.uses d = false) := by
  cases h with
  | @forget c unused =>
      by_cases hc : d = c
      · subst hc
        exact .inr ⟨rfl, unused⟩
      · left
        simp only [Manager.isLive, List.contains_cons, Bool.not_or, Bool.and_eq_true]
        exact ⟨by simpa using hc, hd⟩
  | start here live gone cancelled swept =>
      cases swept
      exact .inl hd
  | sweep swept =>
      cases swept
      exact .inl hd
  | _ => exact .inl hd

/-- A flight that uses its document has always done so: who joins is never the first to wait. -/
theorem Move.usesDocument (h : Move m e m') (ha : m.Accounted) (hf : m.flights[n]? = some f)
    (hg : m'.flights[n]? = some g) (hu : g.usesDocument = true) : f.usesDocument = true := by
  rw [Flight.usesDocument, Bool.or_eq_true, decide_eq_true_iff] at hu ⊢
  refine hu.imp (fun hw => Nat.pos_of_ne_zero fun hz => ?_) (h.goes hf hg).holdsDocument
  obtain ⟨g', hg', hl⟩ := h.later hf
  cases hg.symm.trans hg'
  have := ((ha.move h).cancelled hg).1 (hl.cancelled ((ha.cancelled hf).2 hz))
  rw [this] at hw
  cases hw

namespace InUse

theorem new (interval : Nat) : InUse (.new interval) := fun _ _ h => by cases h

theorem move (h : m.InUse) (ha : m.Accounted) (hm : Move m e m') : m'.InUse := by
  intro n g hg hu
  rcases hm.earlier hg with ⟨f, hf, hl⟩ | ⟨d, name, rfl, -, rfl, hd, -⟩
  · have hfu := hm.usesDocument ha hf hg hu
    rw [hl.document]
    rcases hm.isLive (h n f hf hfu) with hlive | ⟨-, unused⟩
    · exact hlive
    · have := List.any_eq_false.1 unused f (List.mem_of_getElem? hf)
      rw [Flight.usesDocument] at hfu
      rw [hfu, beq_self_eq_true] at this
      exact (this rfl).elim
  · exact (hm.isLive hd).resolve_right nofun

end InUse

/-! ## Entries that flights own -/

theorem wanted_of_later (h : f.Later g) (hg : g.isCancelled = false) : f.isCancelled = false :=
  Bool.eq_false_iff.2 fun hc => by
    rw [h.cancelled hc] at hg
    cases hg

theorem going_of_later (h : f.Later g) (hg : g.Going) : f.Going where
  wanted := wanted_of_later h hg.wanted
  unsettled := Bool.eq_false_iff.2 fun hs => by
    have := hg.unsettled
    rw [h.settled hs] at this
    cases this

theorem Accounted.wanted (h : m.Accounted) (hf : m.flights[n]? = some f)
    (hc : f.isCancelled = false) : 0 < f.waiters := by
  refine Nat.pos_of_ne_zero fun hw => ?_
  rw [(h.cancelled hf).2 hw] at hc
  cases hc

/-- A flight that is not cancelled keeps its manager from being dropped. -/
theorem Accounted.here_of_wanted (h : m.Accounted) (hf : m.flights[n]? = some f)
    (hc : f.isCancelled = false) : m.isDropped = false := by
  have hw := h.wanted hf hc
  rw [h.waiters hf] at hw
  obtain ⟨r, hr⟩ := exists_waiting hw
  exact h.not_dropped hr

theorem InUse.wanted (h : m.InUse) (ha : m.Accounted) (hf : m.flights[n]? = some f)
    (hc : f.isCancelled = false) : m.isLive f.document = true :=
  h n f hf (by simp [Flight.usesDocument, ha.wanted hf hc])

/-- A request for the document of a flight that is not cancelled joins it. -/
theorem step_of_wanted (hx : m.entry? d = some (.building n)) (hf : m.flights[n]? = some f)
    (hc : f.isCancelled = false) (here : m.isDropped = false) (live : m.isLive d = true)
    (name : String) :
    m.step (.get d name false) = m.joinFlight n { f with waiters := f.waiters + 1 } := by
  simp [step, Manager.get, here, live, hx, hf, Flight.join?, hc]

/-- Nothing but the end of a clear takes its entry from a flight that goes on. -/
theorem Move.entry_going (h : Move m e m') (ha : m.Accounted) (hu : m.InUse)
    (hx : m.entry? d = some (.building n)) (hf : m.flights[n]? = some f) (hd : f.document = d)
    (hg : m'.flights[n]? = some g) (going : g.Going) (hne : e ≠ .endClear) :
    m'.entry? d = some (.building n) := by
  obtain ⟨g', hg', hl⟩ := h.later hf
  obtain rfl := Option.some.inj (hg'.symm.trans hg)
  have hgoing := going_of_later hl going
  have hw := ha.wanted hf hgoing.wanted
  have live : m.isLive d = true := hd ▸ hu.wanted ha hf hgoing.wanted
  cases h with
  | @start c name m' here livec gone cancelled swept =>
      -- Over the entry of a flight that goes on no other is started.
      have hc : d ≠ c := by
        rintro rfl
        have := hgoing.wanted
        rw [cancelled n f hx hf] at this
        cases this
      cases swept with
      | mk kept only =>
          refine (kept d live).trans ?_
          rw [startFlight]
          exact (entry?_setEntry m c d _).trans ((if_neg hc).trans hx)
  | @record k f' o counts flight phase =>
      refine (entry?_enterOutcome (m.setPhase k (.recorded o)) k f'.document d o).trans ?_
      rw [if_neg, ← hx]
      · rfl
      · -- The entry changes with the flight that owns it, which then does not go on any more.
        rintro ⟨own, rfl⟩
        obtain rfl : k = n := by
          have := own.symm.trans hx
          cases this
          rfl
        cases (setPhase_flights hf _).symm.trans hg
        cases going.unsettled
  | sweep swept =>
      cases swept with
      | mk kept only => exact (kept d live).trans hx
  | endClear => exact (hne rfl).elim
  | free dropped calm =>
      rw [ha.waiters hf, ha.left dropped] at hw
      cases hw
  | _ => exact hx

def Owned (m : Manager) : Prop :=
  ∀ (n : Nat) (f : Flight), m.flights[n]? = some f → f.Going →
    m.entry? f.document = some (.building n)

namespace Owned

theorem new (interval : Nat) : Owned (.new interval) := fun _ _ h => by cases h

theorem move (h : m.Owned) (ha : m.Accounted) (hu : m.InUse) (hm : Move m e m')
    (he : e ≠ .endClear) : m'.Owned := by
  intro n g hg going
  rcases hm.earlier hg with ⟨f, hf, hl⟩ | ⟨d, name, -, -, rfl, -, hx⟩
  · have hx := h n f hf (going_of_later hl going)
    rw [hl.document]
    exact hm.entry_going ha hu hx hf rfl hg going he
  · exact hx

end Owned

end Manager

end Xref
