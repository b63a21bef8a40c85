import Xref.Proofs.Manager.Pins

/-!
# A cache stays the cache of its document

The entry for a document and the cache that the document holds are set one after the other: the build
pins the cache, and then the manager takes notice. Only the second step asks whether the entry still
is the flight's own. So a build that everybody has left, and that comes to its end nevertheless, can
pin its cache over that of the flight that has taken its place (`Displaces`); the entry then names a
cache that nobody keeps, and a later request builds again. `cache_displaced` is such a run.

Nothing else takes a cache from its document, short of clearing the manager. While no build does
this, what the entry names is what the document holds, and once a request has got a cache all later
ones get the same.
-/

namespace Xref.Manager

variable {m m' : Manager} {e : Event} {d n k r : Nat} {f g : Flight} {a : Artifacts}
  {p : Manager → Event → Prop} {es fs : List Event}

/-! ## Runs on which something holds of every event -/

/-- Every event of a run is as it should be where it happens. -/
def Along (p : Manager → Event → Prop) : Manager → List Event → Prop
  | _, [] => True
  | m, e :: es => p m e ∧ Along p (m.step e) es

theorem along_append : Along p m (es ++ fs) ↔ Along p m es ∧ Along p (m.run es) fs := by
  induction es generalizing m with
  | nil => exact ⟨fun h => ⟨trivial, h⟩, fun h => h.2⟩
  | cons e es ih =>
      rw [List.cons_append, Along, Along, ih, run_cons, and_assoc]

theorem Along.forall_mem {q : Event → Prop} (h : Along p m es) (hq : ∀ m e, p m e → q e) :
    ∀ e ∈ es, q e := by
  induction es generalizing m with
  | nil => exact fun e he => by cases he
  | cons e es ih => exact List.forall_mem_cons.2 ⟨hq m e h.1, ih h.2⟩

/-- A build pins its cache where the document holds the one that its entry is about. -/
inductive Displaces (m : Manager) : Event → Prop
  | mk {n : Nat} {f : Flight} {a : Artifacts} {x : Entry} (flight : m.flights[n]? = some f)
      (phase : f.phase = .finished (.built a) true) (entry : m.entry? f.document = some x)
      (held : m.pin? f.document = some x.flight) : Displaces m (.pin n)

/-- The event is neither half of a clear, and displaces no cache. -/
structure Calm (m : Manager) (e : Event) : Prop where
  begin_ne : e ≠ .beginClear
  end_ne : e ≠ .endClear
  not_displaces : ¬ m.Displaces e

/-- The manager is not cleared, and no build displaces the cache of another. -/
def Steady (m : Manager) (es : List Event) : Prop :=
  Along Calm m es

/-! ## What an entry is about is there -/

/-- A manager that is there was there before. -/
theorem Move.here_of (h : Move m e m') (here : m'.isDropped = false) : m.isDropped = false :=
  Bool.eq_false_iff.2 fun hd => Bool.noConfusion (here.symm.trans (h.dropped hd))

/-- A document that stays keeps the cache its entry is about, unless another displaces it. -/
theorem Move.pin?_kept (h : Move m e m') {x : Entry} (hx : m.entry? d = some x)
    (hp : m.pin? d = some x.flight) (live : m'.isLive d = true) (here : m'.isDropped = false)
    (hc : m.Calm e) : m'.pin? d = some x.flight := by
  cases h.pinning live with
  | same same => exact same.trans hp
  | pinned flight phase document after pin =>
      subst document
      exact (hc.not_displaces (.mk flight phase hx hp)).elim
  | released entry clears none =>
      rcases clears with clears | hdrop
      · exact (hc.begin_ne clears).elim
      · cases here.symm.trans hdrop

/-- The entry for a cache that has not disappeared stays. -/
theorem Move.entry?_built (h : Move m e m') (hx : m.entry? d = some (.built n))
    (ha : m.alive? n = some a) (live : m'.isLive d = true) (here : m'.isDropped = false)
    (hc : e ≠ .endClear) : m'.entry? d = some (.built n) := by
  have hl := h.isLive_of live
  cases h with
  | @start c name m' herec livec gone cancelled swept =>
      have hne : d ≠ c := by
        rintro rfl
        cases ha.symm.trans (gone n hx)
      cases swept with
      | mk kept only =>
          exact (kept d hl).trans ((entry?_setEntry m c d _).trans ((if_neg hne).trans hx))
  | @record k f o counts flight phase =>
      refine (entry?_enterOutcome (m.setPhase k (.recorded o)) k f.document d o).trans ?_
      rw [if_neg]
      · exact hx
      · rintro ⟨own, rfl⟩
        cases own.symm.trans hx
  | sweep swept =>
      cases swept with
      | mk kept only => exact (kept d hl).trans hx
  | endClear => exact (hc rfl).elim
  | free dropped calm => cases here.symm.trans dropped
  | _ => exact hx

/-- Documents hold what their entries are about, and the entries are about what has been built for
somebody. -/
structure Kept (m : Manager) : Prop where
  pinned : ∀ {d n : Nat} {f : Flight} {a : Artifacts}, m.isDropped = false → m.isLive d = true →
    m.entry? d = some (.building n) → m.flights[n]? = some f →
    f.phase = .pinned (.built a) true → m.pin? d = some n
  built : ∀ {d n : Nat}, m.isDropped = false → m.isLive d = true →
    m.entry? d = some (.built n) → m.pin? d = some n
  settled : ∀ {n : Nat} {f : Flight} {a : Artifacts}, m.isDropped = false →
    m.flights[n]? = some f → f.isCancelled = false → f.phase.isSettled = true →
    f.artifacts? = some a → m.entry? f.document = some (.built n)
  answered : ∀ {r n : Nat} {f : Flight} {a : Artifacts}, m.isDropped = false →
    m.requests[r]? = some (.answered (.cache n a)) → m.flights[n]? = some f →
    m.isLive f.document = true → m.entry? f.document = some (.built n)

namespace Kept

theorem new (interval : Nat) : Kept (.new interval) where
  pinned := fun _ _ h => by cases h
  built := fun _ _ h => by cases h
  settled := fun _ h => by cases h
  answered := fun _ h => by cases h

/-- The cache of an entry has not disappeared. -/
theorem alive (h : m.Kept) (hs : m.Sound) (here : m.isDropped = false)
    (hx : m.entry? d = some (.built n)) (live : m.isLive d = true) :
    ∃ a, m.artifacts? n = some a ∧ m.alive? n = some a := by
  obtain ⟨f, a, hf, -, -, ha⟩ := hs.entered.built hx
  have ha : m.artifacts? n = some a := Option.bind_eq_some_iff.2 ⟨f, hf, ha⟩
  exact ⟨a, ha, alive?_of_pin? (h.built here live hx) ha⟩

theorem entry_kept (h : m.Kept) (hs : m.Sound) (hm : Move m e m')
    (hx : m.entry? d = some (.built n)) (live : m'.isLive d = true) (here : m'.isDropped = false)
    (hc : e ≠ .endClear) : m'.entry? d = some (.built n) := by
  obtain ⟨a, -, ha⟩ := h.alive hs (hm.here_of here) hx (hm.isLive_of live)
  exact hm.entry?_built hx ha live here hc

theorem move (h : m.Kept) (hs : m.Sound) (ho : m.Owned) (hm : Move m e m') (hs' : m'.Sound)
    (hc : m.Calm e) : m'.Kept where
  pinned := fun {d n g a} here live hx' hg hq => by
    -- The build has pinned its cache before, or does so now.
    rcases hm.entry hx' with hx | made
    · obtain ⟨f, hf, rfl, -⟩ := hs.entered.building hx
      have old (hp : f.phase = .pinned (.built a) true) : m'.pin? f.document = some n :=
        hm.pin?_kept hx (h.pinned (hm.here_of here) (hm.isLive_of live) hx hf hp) live here hc
      have goes := hm.goes hf hg
      rw [hq] at goes
      generalize hp : f.phase = p at goes
      cases goes with
      | same => exact old hp
      | next next =>
          cases next with
          | pass h => cases h a rfl
      | pin => exact hm.pin?_of_pin hf hp hg hq
    · cases made with
      | start _ flight =>
          cases hg.symm.trans flight
          cases hq
  built := fun {d n} here live hx' => by
    rcases hm.entry hx' with hx | made
    · exact hm.pin?_kept hx (h.built (hm.here_of here) (hm.isLive_of live) hx) live here hc
    · cases made with
      | record flight phase document own after =>
          have hp := h.pinned (hm.here_of here) (hm.isLive_of live) own flight phase
          exact hm.pin?_kept own hp live here hc
  settled := fun {n g a} here' hg hw hq ha => by
    have live := hs'.inUse.wanted hs'.accounted hg hw
    have here := hm.here_of here'
    rcases hm.earlier hg with ⟨f, hf, hl⟩ | ⟨c, name, -, -, rfl, -⟩
    · have hwf := wanted_of_later hl hw
      rw [hl.document] at live ⊢
      cases hp : f.phase.isSettled with
      | true =>
          obtain ⟨o, hof⟩ := Phase.exists_outcome hp
          have hog := (hl.outcome o hof).symm.trans (Flight.artifacts?_eq_some.1 ha)
          rw [Option.some.inj hog] at hof
          have hx := h.settled here hf hwf hp (Flight.artifacts?_eq_some.2 hof)
          exact h.entry_kept hs hm hx live here' hc.end_ne
      | false =>
          -- The flight still goes on, so the entry is its own, and it becomes one for the cache.
          have hx := ho n f hf ⟨hwf, hp⟩
          have attached := hs.entered.attached hx hf
          have goes := hm.goes hf hg
          have ha := Flight.artifacts?_eq_some.1 ha
          generalize hpf : f.phase = p at goes hp attached
          generalize hpg : g.phase = q at goes hq ha
          cases goes with
          | same => cases hp.symm.trans hq
          | finish | pin => cases hq
          | next next =>
              cases next with
              | pass | lose => cases hq
              | ignore => cases attached
              | publish => cases hp
          | record =>
              cases ha
              rw [hm.entry?_of_record hf hpf hg hpg, if_pos ⟨hx, rfl⟩]
              rfl
    · cases hq
  answered := fun {r n g a} here' hr hg live => by
    have here := hm.here_of here'
    have kept {f : Flight} (hf : m.flights[n]? = some f)
        (hx : m.isLive f.document = true → m.entry? f.document = some (.built n)) :
        m'.entry? g.document = some (.built n) := by
      obtain ⟨g', hg', hl⟩ := hm.later hf
      cases hg.symm.trans hg'
      rw [hl.document] at live ⊢
      exact h.entry_kept hs hm (hx (hm.isLive_of live)) live here' hc.end_ne
    rcases hm.answered hr with old | gets
    · obtain ⟨f, hf, -⟩ := Option.bind_eq_some_iff.1 (hs.handed.artifacts old)
      exact kept hf (h.answered here old hf)
    · cases gets with
      | hit entry alive =>
          obtain ⟨f, -, hf, rfl, -⟩ := hs.entered.built entry
          exact kept hf fun _ => entry
      | @receive _ f waits flight phase =>
          obtain ⟨f', hf', -, hw⟩ := hs.accounted.exists_flight waits
          cases flight.symm.trans hf'
          exact kept flight fun _ => h.settled here flight hw (by rw [phase]; rfl)
            (Flight.artifacts?_eq_some.2 (by rw [phase]; rfl))

/-- Documents hold what their entries are about, after every run on which no build displaces the
cache of another. -/
theorem run (h : m.Kept) (hs : m.Sound) (ho : m.Owned) (hes : m.Steady es) : (m.run es).Kept := by
  induction es generalizing m with
  | nil => exact h
  | cons e es ih =>
      obtain ⟨hc, hes⟩ := hes
      have hm := move_step m e
      exact ih (h.move hs ho hm (hs.step e) hc) (hs.step e)
        (ho.move hs.accounted hs.inUse hm hc.end_ne) hes

end Kept

/-! ## Everybody gets the same cache -/

theorem isLive_of_run (h : (m.run es).isLive d = true) : m.isLive d = true := by
  induction es generalizing m with
  | nil => exact h
  | cons e es ih => exact (move_step m e).isLive_of (ih h)

theorem here_of_run (h : (m.run es).isDropped = false) : m.isDropped = false :=
  Bool.eq_false_iff.2 fun hd => by
    have := run_induction (p := fun m => m.isDropped = true) hd
      (fun m e h => (move_step m e).dropped h) es
    cases h.symm.trans this

/-- Once a request has got a cache, the next one gets it too. -/
theorem Kept.get (h : m.Kept) (hs : m.Sound) (here : m.isDropped = false)
    (hr : m.requests[r]? = some (.answered (.cache n a))) (hf : m.flights[n]? = some f)
    (live : m.isLive f.document = true) (name : String) :
    m.step (.get f.document name false) = m.hit n a := by
  have hx := h.answered here hr hf live
  obtain ⟨b, hb, halive⟩ := h.alive hs here hx live
  cases hb.symm.trans (hs.handed.artifacts hr)
  simp [step, Manager.get, here, live, hx, halive]

/-- Once a request has got a cache, no further build starts. -/
theorem Kept.run_flights (h : m.Kept) (hs : m.Sound) (ho : m.Owned) (hes : m.Steady es)
    (here : (m.run es).isDropped = false) (hr : m.requests[r]? = some (.answered (.cache n a)))
    (hf : m.flights[n]? = some f) (live : (m.run es).isLive f.document = true)
    (hg : (m.run es).flights[k]? = some g) (hd : g.document = f.document) :
    k < m.flights.length := by
  induction es generalizing m f with
  | nil => exact (List.getElem?_eq_some_iff.1 hg).1
  | cons e es ih =>
      have hrun : m.isDropped = false := here_of_run here
      have hlive : m.isLive f.document = true := isLive_of_run live
      obtain ⟨hc, hes⟩ := hes
      have hm := move_step m e
      obtain ⟨f', hf', hl⟩ := hm.later hf
      have hk := ih (h.move hs ho hm (hs.step e) hc) (hs.step e)
        (ho.move hs.accounted hs.inUse hm hc.end_ne) hes here (run_answered hr [e]) hf'
        (hl.document ▸ live) hg (hd.trans hl.document.symm)
      have hs' := List.getElem?_eq_getElem hk
      rcases hm.earlier hs' with ⟨f₀, hf₀, -⟩ | ⟨c, name, rfl, rfl, hstart, -⟩
      · exact (List.getElem?_eq_some_iff.1 hf₀).1
      · obtain ⟨g', hg', hl'⟩ := run_later hs' es
        cases hg.symm.trans hg'
        have hcd : c = f.document := by
          rw [← hd, hl'.document, hstart]
          rfl
        rw [hcd, h.get hs hrun hr hf hlive name] at hk
        exact absurd hk (Nat.lt_irrefl _)

/-- While no build displaces the cache of another, a document that stays holds the cache its entry
is for. A request that has got a cache has got it for all that come later, unless they are cancelled
when they ask: they get the same at once, and nothing is built for the document any more. -/
theorem cache_stays (interval : Nat) (es : List Event) (hes : (new interval).Steady es) :
    let m := (new interval).run es
    (∀ d c, m.isDropped = false → m.isLive d = true → m.entry? d = some (.built c) →
        m.pin? d = some c) ∧
      ∀ (fs gs : List Event) (r c : Nat) (a : Artifacts) (f : Flight), es = fs ++ gs →
        let k := (new interval).run fs
        k.requests[r]? = some (.answered (.cache c a)) → k.flights[c]? = some f →
        m.isDropped = false → m.isLive f.document = true →
        (∀ name, m.step (.get f.document name false) = m.hit c a) ∧
          (∀ name, m.step (.get f.document name true) =
            m.addRequest (.answered (.failure .cancelled))) ∧
          ∀ (n : Nat) (g : Flight), m.flights[n]? = some g → g.document = f.document →
            n < k.flights.length := by
  intro m
  have sound := (Sound.new interval).run es
  have kept := (Kept.new interval).run (.new interval) (.new interval) hes
  refine ⟨fun d c here live hx => kept.built here live hx, ?_⟩
  rintro fs gs r c a f rfl k hr hf here live
  obtain ⟨hfs, hgs⟩ := along_append.1 hes
  have hm : m = k.run gs := run_append _ fs gs
  have hr' : m.requests[r]? = some (.answered (.cache c a)) := hm ▸ run_answered hr gs
  obtain ⟨f', hf', hl⟩ := run_later hf gs
  rw [← hm] at hf'
  refine ⟨fun name => ?_, fun name => ?_, fun n g hg hd => ?_⟩
  · rw [← hl.document] at live ⊢
    exact kept.get sound here hr' hf' live name
  · simp [step, Manager.get, here, live]
  · have noClear : .endClear ∉ fs := fun h =>
      hfs.forall_mem (fun _ _ h => h.end_ne) .endClear h rfl
    have keptThere := (Kept.new interval).run (.new interval) (.new interval) hfs
    have ownedThere := (Owned.new interval).run (.new interval) noClear
    rw [hm] at here live hg
    exact keptThere.run_flights ((Sound.new interval).run fs) ownedThere hgs here hr hf live hg hd

/-- A build that has been left displaces the cache of the flight that has taken its place: the entry
is for the one cache, the document holds the other, and the next request starts to build again. And a
request that is cancelled when it asks gets no cache where there is one. -/
theorem cache_displaced :
    let first := [Event.get 0 "a" false, .leave 0, .get 0 "a" false] ++
      Event.ofBuild 1 (.ok .blank) ++ [.receive 1]
    let m := (new 32).run first
    let k := m.run [.finish 0 (.ok .blank), .pin 0]
    m.requests[1]? = some (.answered (.cache 1 .blank)) ∧
      (k.isLive 0 = true ∧ k.entry? 0 = some (.built 1) ∧ k.pin? 0 = some 0) ∧
      (k.step (.get 0 "a" false)).flights.length = k.flights.length + 1 ∧
      (m.step (.get 0 "a" false)).requests = m.requests ++ [.answered (.cache 1 .blank)] ∧
      (m.step (.get 0 "a" true)).requests = m.requests ++ [.answered (.failure .cancelled)] := by
  simp only [Event.ofBuild, List.cons_append, List.nil_append, run_cons, run_nil, step, finish,
    Outcome.ofFetched_blank]
  exact ⟨rfl, ⟨rfl, rfl, rfl⟩, rfl, rfl, rfl⟩

/-- After a sweep too. -/
theorem cache_stays_after_purge :
    let es := .get 0 "a" false :: Event.ofBuild 0 (.ok .blank) ++ [.receive 0, .purge]
    let m := (new 32).run es
    (new 32).Steady es ∧ m.step (.get 0 "a" false) = m.hit 0 .blank := by
  intro es m
  have steady : (new 32).Steady es :=
    ⟨⟨nofun, nofun, nofun⟩, ⟨nofun, nofun, nofun⟩,
      ⟨nofun, nofun, fun h => by cases h with | mk _ _ _ held => cases held⟩,
      ⟨nofun, nofun, nofun⟩, ⟨nofun, nofun, nofun⟩, ⟨nofun, nofun, nofun⟩, ⟨nofun, nofun, nofun⟩,
      trivial⟩
  have gets : m.requests[0]? = some (.answered (.cache 0 .blank)) ∧
      m.flights[0]?.map Flight.document = some 0 ∧ m.isLive 0 = true ∧ m.isDropped = false := by
    simp only [m, es, Event.ofBuild, List.cons_append, List.nil_append, run_cons, run_nil, step,
      finish, Outcome.ofFetched_blank]
    exact ⟨rfl, rfl, rfl, rfl⟩
  obtain ⟨hr, hf, live, here⟩ := gets
  obtain ⟨f, hf, hd⟩ := Option.map_eq_some_iff.1 hf
  have := (cache_stays 32 es steady).2 es [] 0 0 .blank f (List.append_nil es).symm hr hf here
    (hd ▸ live)
  exact ⟨steady, hd ▸ this.1 "a"⟩

end Xref.Manager
