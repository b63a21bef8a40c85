import Xref.Proofs.Manager.Handed

/-!
# One flight at a time

What the requests for a document share, in every state that a manager can get into without being
cleared. `SingleFlight` collects it. The entry of the document is the hinge: a flight that goes on
owns it (`Owned`), so there is one such flight at most, and who asks for the document joins it. When
notice is taken of the outcome the entry is changed only if it is still the flight's own, so the
outcome of a flight that has been replaced comes too late to matter.

An outcome reaches the requests that have stayed, the same for all of them; a failed one leaves no
entry, and the next request starts again. And a cache that a request has got was made over artifacts
of one version, because no other has ever been built (`Handed`).
-/

namespace Xref.Manager

variable {m m' : Manager} {e : Event} {d n k r : Nat} {f g : Flight} {x : Entry} {q : Request}
  {a : Artifacts} {es : List Event}

/-! ## What a request does to a document -/

/-- A document without an entry stays so until somebody asks for it. -/
theorem Move.entry?_eq_none (h : Move m e m') (hx : m.entry? d = none)
    (he : ∀ name, e ≠ .get d name false) : m'.entry? d = none := by
  refine Option.eq_none_iff_forall_not_mem.2 fun x hx' => ?_
  rcases h.entry hx' with hold | made
  · cases hx.symm.trans hold
  · cases made with
    | start here flight => exact he _ rfl
    | record flight phase document own after => cases hx.symm.trans own

theorem run_entry?_eq_none (hx : m.entry? d = none) (he : ∀ name, .get d name false ∉ es) :
    entry? (m.run es) d = none := by
  induction es generalizing m with
  | nil => exact hx
  | cons e es ih =>
      refine ih ((move_step m e).entry?_eq_none hx fun name h => ?_) fun name h => ?_
      · exact he name (h ▸ List.mem_cons_self)
      · exact he name (List.mem_cons_of_mem e h)

/-- The first request for a document without an entry starts a flight. -/
theorem get_of_entry?_eq_none (hx : m.entry? d = none) (here : m.isDropped = false)
    (live : m.isLive d = true) (name : String) :
    (m.step (.get d name false)).flights = m.flights ++ [.start d name] ∧
      (m.step (.get d name false)).requests = m.requests ++ [.waiting m.flights.length] := by
  have hs : m.step (.get d name false) = (m.startFlight d name).countInsertion := by
    simp [step, Manager.get, here, live, hx]
  have swept := swept_countInsertion (m.startFlight d name)
  rw [← hs] at swept
  generalize m.step (.get d name false) = m' at swept ⊢
  cases swept
  exact ⟨rfl, rfl⟩

/-- A request for the document of a flight that goes on joins it. -/
theorem get_of_going (hx : m.entry? d = some (.building n)) (hf : m.flights[n]? = some f)
    (going : f.isCancelled = false) (here : m.isDropped = false) (live : m.isLive d = true)
    (name : String) :
    (m.step (.get d name false)).flights.length = m.flights.length ∧
      (m.step (.get d name false)).requests = m.requests ++ [.waiting n] := by
  rw [step_of_wanted hx hf going here live]
  exact ⟨List.length_modify .., rfl⟩

/-! ## Taking notice -/

/-- Taking notice of an outcome leaves every entry that is not the flight's own. -/
theorem record_entry?_of_ne (hx : m.entry? d ≠ some (.building n)) :
    entry? (m.step (.record n)) d = m.entry? d := by
  have other {o : Outcome} {c : Nat} :
      entry? ((m.setPhase n (.recorded o)).enterOutcome n c o) d = m.entry? d := by
    rw [entry?_enterOutcome, if_neg]
    · rfl
    · rintro ⟨own, rfl⟩
      exact hx own
  rw [step, Manager.record]
  split
  · next f hf =>
      split
      · dsimp only
        split
        · exact other
        · rfl
      · rfl
  · rfl

/-- An own entry goes with a flight that has failed. -/
theorem record_entry?_of_failed (h : m.Entered) (hx : m.entry? d = some (.building n))
    (hf : m.flights[n]? = some f) {o : Outcome} {isAttached : Bool}
    (hp : f.phase = .pinned o isAttached) (ho : ∀ a, o ≠ .built a) :
    entry? (m.step (.record n)) d = none := by
  obtain ⟨f', hf', rfl, -⟩ := h.building hx
  cases hf.symm.trans hf'
  have attached := h.attached hx hf
  rw [hp] at attached
  obtain rfl : isAttached = true := by simpa [Phase.isDetached] using attached
  have hg := build_phase (h.not_freed hx) hf (e := .record n) rfl
  rw [(move_step m (.record n)).entry?_of_record hf hp hg (by rw [hp]; rfl), if_pos ⟨hx, rfl⟩]
  cases o with
  | built a => exact (ho a rfl).elim
  | _ => rfl

/-! ## All together -/

/-- What the requests for a document share. -/
structure SingleFlight (m : Manager) : Prop where
  /-- The entry of a document refers to the flight that goes on. -/
  entry : ∀ (n : Nat) (f : Flight), m.flights[n]? = some f → f.Going →
    m.entry? f.document = some (.building n)
  /-- No two flights of a document go on. -/
  single : ∀ (n k : Nat) (f g : Flight), m.flights[n]? = some f → m.flights[k]? = some g →
    f.Going → g.Going → f.document = g.document → n = k
  /-- Who asks for the document joins the flight that goes on. -/
  joins : ∀ (n : Nat) (f : Flight) (name : String), m.flights[n]? = some f → f.Going →
    (m.step (.get f.document name false)).flights.length = m.flights.length ∧
      (m.step (.get f.document name false)).requests = m.requests ++ [.waiting n]
  /-- A request that stays waits for its flight, or has what the flight has for it. -/
  served : ∀ (r n : Nat) (es : List Event), m.requests[r]? = some (.waiting n) → .leave r ∉ es →
    (m.run es).Served r n
  /-- When the build goes to its end, the request gets what comes of it. -/
  gets : ∀ (r n : Nat) (f : Flight) (x : Except Failure Fetched) (es : List Event),
    m.requests[r]? = some (.waiting n) → m.flights[n]? = some f →
    es.filter (Event.concerns n r) = Event.ofBuild n x ++ [.receive r] →
    (m.run es).requests[r]? = some (.answered (f.phase.verdict n f.name x))
  /-- Those who have stayed get the same. -/
  agree : ∀ (r s n : Nat) (a b : Answer), m.Served r n → m.Served s n →
    m.requests[r]? = some (.answered a) → m.requests[s]? = some (.answered b) → a = b
  /-- A flight that has failed has no entry. -/
  failed : ∀ (n : Nat) (f : Flight) (o : Outcome), m.flights[n]? = some f →
    f.phase.isSettled = true → f.phase.outcome? = some o → (∀ a, o ≠ .built a) →
    ∀ d x, m.entry? d = some x → x.flight ≠ n
  /-- When the flight that an entry refers to has failed, the next request starts another one. -/
  restarts : ∀ (n : Nat) (f : Flight) (o : Outcome) (isAttached : Bool) (es : List Event)
    (name : String), m.flights[n]? = some f → f.phase = .pinned o isAttached →
    (∀ a, o ≠ .built a) →
    m.entry? f.document = some (.building n) → (∀ name, .get f.document name false ∉ es) →
    let m' := (m.step (.record n)).run es
    m'.isDropped = false → m'.isLive f.document = true →
      (m'.step (.get f.document name false)).flights = m'.flights ++ [.start f.document name] ∧
        (m'.step (.get f.document name false)).requests =
          m'.requests ++ [.waiting m'.flights.length]
  /-- Taking notice of a flight leaves every entry that is not its own. -/
  others : ∀ n d : Nat, m.entry? d ≠ some (.building n) →
    entry? (m.step (.record n)) d = m.entry? d
  /-- A cache that a request has got was made over artifacts of one version. -/
  versions : ∀ (r n : Nat) (a : Artifacts), m.requests[r]? = some (.answered (.cache n a)) →
    a.model.tree.version = a.source.version ∧ a.tree.version = a.source.version ∧
      a.index.version = a.source.version

/-- Requests share flights, one at a time for each document, and what comes of them. -/
theorem single_flight (interval : Nat) (es : List Event) (he : .endClear ∉ es) :
    ((new interval).run es).SingleFlight := by
  have sound := (Sound.new interval).run es
  have owned := (Owned.new interval).run (.new interval) he
  generalize (new interval).run es = m at sound owned
  constructor
  case entry => exact owned
  case single =>
    intro n k f g hf hg hn hk hd
    have hx := owned n f hf hn
    rw [hd, owned k g hg hk] at hx
    cases hx
    rfl
  case joins =>
    intro n f name hf going
    have hx := owned n f hf going
    have live := sound.inUse.wanted sound.accounted hf going.wanted
    have here := sound.accounted.here_of_wanted hf going.wanted
    exact get_of_going hx hf going.wanted here live name
  case served => exact fun r n es hr he => (Served.waiting hr).run sound.accounted he
  case gets => exact fun r n f x es hr hf hes => run_requests_of_build sound.accounted hr hf hes
  case agree => exact fun r s n a b hr hs ha hb => hr.agree hs ha hb
  case failed =>
    rintro n f o hf hs ho hb d (k | k) hx rfl
    · obtain ⟨g, hg, -, hu⟩ := sound.entered.building hx
      cases hf.symm.trans hg
      rw [hs] at hu
      cases hu
    · obtain ⟨g, a, hg, -, -, ha⟩ := sound.entered.built hx
      cases hf.symm.trans hg
      rw [Flight.artifacts?_eq_some, ho] at ha
      exact hb a (Option.some.inj ha)
  case restarts =>
    intro n f o isAttached es name hf hp ho hx he m' here live
    have hnone := record_entry?_of_failed sound.entered hx hf hp ho
    exact get_of_entry?_eq_none (run_entry?_eq_none hnone he) here live name
  case others => exact fun n d hx => record_entry?_of_ne hx
  case versions =>
    intro r n a hr
    have := sound.handed.agree (sound.handed.artifacts hr)
    simp only [Versions.agree, Fetched.versions, Bool.and_eq_true, beq_iff_eq] at this
    exact ⟨this.1.1.symm, this.1.2.symm, this.2.symm⟩

/-- Two requests that come one after the other wait for the same flight. -/
theorem single_flight_of_two :
    Event.endClear ∉ [Event.get 0 "a" false] ∧
      ((new 32).run [.get 0 "a" false, .get 0 "a" false]).requests = [.waiting 0, .waiting 0] :=
  ⟨nofun, ((single_flight 32 [.get 0 "a" false] nofun).joins 0 _ "a" rfl ⟨rfl, rfl⟩).2⟩

end Xref.Manager
