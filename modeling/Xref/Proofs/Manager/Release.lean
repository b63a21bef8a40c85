import Xref.Proofs.Manager.Pins

/-!
# What clearing and dropping a manager release

A clear that begins, and a manager that is dropped, release the caches of the documents that there
are entries for, and no others. So what a document holds is released only if its entry is there, and
is so to speak in step with it (`InStep`). A build that comes to its end when the entry of its
document is not its own is out of step (`Straying`): it pins its cache all the same, and no entry
leads to that cache any more. A build that is going on when the manager is cleared always is, so the
cache that it brings is not released (`pin?_of_clear_build`), by no later clear either.

A build also comes too late to be released when the pinned caches have been released already: while
the entries of a manager that is being cleared are still there, and after the manager has been
dropped, which its builds outlive.

Every other cache is released: what a document still holds that was begun before a clear, or that
outlives the manager, has been left there by a build that was out of step
(`clear_and_drop_release`).
-/

namespace Xref

/-- A cache that is pinned, and that no notice has been taken of, has just been pinned. -/
theorem Phase.eq_pinned {p : Phase} {a : Artifacts} (ho : p.outcome? = some (.built a))
    (hh : p.holdsDocument = false) (hs : p.isSettled = false) (hd : p.isDetached = false) :
    p = .pinned (.built a) true := by
  cases p with
  | pinned o isAttached =>
      cases ho
      obtain rfl : isAttached = true := by simpa [Phase.isDetached] using hd
      rfl
  | running | finished => cases hh
  | recorded | published => cases hs
  | lost => cases ho

namespace Manager

variable {m m' : Manager} {e : Event} {d n k : Nat} {f g : Flight} {a : Artifacts} {x : Entry}
  {es : List Event}

/-! ## Builds out of step -/

/-- A build has a cache for its manager, which it is to pin or has just pinned, and the entry of its
document is not its own; or it is to pin the cache of a manager that is being cleared or has been
dropped. -/
inductive Straying (m : Manager) (n : Nat) : Prop
  | finished {f : Flight} {a : Artifacts} (flight : m.flights[n]? = some f)
      (phase : f.phase = .finished (.built a) true)
      (entry : m.entry? f.document ≠ some (.building n))
  | clearing {f : Flight} {a : Artifacts} (flight : m.flights[n]? = some f)
      (phase : f.phase = .finished (.built a) true) (clears : 0 < m.clearing)
  | dropped {f : Flight} {a : Artifacts} (flight : m.flights[n]? = some f)
      (phase : f.phase = .finished (.built a) true) (gone : m.isDropped = true)
  | pinned {f : Flight} {a : Artifacts} (flight : m.flights[n]? = some f)
      (phase : f.phase = .pinned (.built a) true)
      (entry : m.entry? f.document ≠ some (.building n))

/-- At some time in the run the build was out of step. -/
def Strayed (m : Manager) (es : List Event) (n : Nat) : Prop :=
  ∃ fs gs, es = fs ++ gs ∧ (m.run fs).Straying n

theorem Straying.strayed (h : m.Straying n) (es : List Event) : m.Strayed es n :=
  ⟨[], es, rfl, h⟩

theorem Strayed.cons (h : (m.step e).Strayed es n) : m.Strayed (e :: es) n := by
  obtain ⟨fs, gs, rfl, h⟩ := h
  exact ⟨e :: fs, gs, rfl, h⟩

/-! ## What is held is in step with the entries -/

/-- The entry for the document is about the flight. -/
def Names (m : Manager) (d n : Nat) : Prop :=
  ∃ x, m.entry? d = some x ∧ x.flight = n

/-- The entry for the document is about the flight, in a manager that is there and that nobody is
clearing. -/
structure InStep (m : Manager) (d n : Nat) : Prop where
  here : m.isDropped = false
  calm : m.clearing = 0
  names : m.Names d n

/-- When a build pins its cache nothing else changes. -/
theorem Move.inStep_of_pin (h : Move m (.pin n) m') (hs : m.InStep d k) : m'.InStep d k := by
  cases h with
  | advance flight next => exact ⟨hs.here, hs.calm, hs.names⟩
  | _ => exact ⟨hs.here, hs.calm, hs.names⟩

/-- What a document goes on to hold falls out of step only if the build is so from then on. -/
theorem Move.inStep (h : Move m e m') (hs : m.Sound) (hb : m.Backed) (live : m'.isLive d = true)
    (hp : m.pin? d = some n) (hp' : m'.pin? d = some n) (hn : m.InStep d n) :
    m'.InStep d n ∨ m'.Straying n := by
  obtain ⟨here, calm, x, hx, rfl⟩ := hn
  have hl := h.isLive_of live
  obtain ⟨f, a, hf, hd, ha, hh⟩ := hb d _ hl hp
  cases h with
  | @start c name m' here' livec gone cancelled swept =>
      cases swept with
      | mk only_kept only =>
          have hx' := (only_kept d hl).trans (entry?_setEntry m c d _)
          by_cases hc : d = c
          · rw [if_pos hc] at hx'
            cases x with
            | built k =>
                have := alive?_of_pin? hp (Option.bind_eq_some_iff.2 ⟨f, hf, ha⟩)
                cases this.symm.trans (gone k (hc ▸ hx))
            | building k =>
                -- The cache has been pinned, but no notice taken of it, when a request finds that
                -- everybody has left the flight.
                obtain ⟨f₀, hf₀, -, hu⟩ := hs.entered.building hx
                cases hf.symm.trans hf₀
                have hk := (List.getElem?_eq_some_iff.1 hf).1
                have phase := Phase.eq_pinned (Flight.artifacts?_eq_some.1 ha) hh hu
                  (hs.entered.attached hx hf)
                refine .inr (.pinned ((List.getElem?_append_left hk).trans hf) phase fun hown => ?_)
                have hown := (hd ▸ hown).symm.trans hx'
                cases hown
                exact Nat.lt_irrefl _ hk
          · rw [if_neg hc] at hx'
            exact .inl ⟨here, calm, x, hx'.trans hx, rfl⟩
  | @record k f' o counts flight phase =>
      have hx' := entry?_enterOutcome (m.setPhase k (.recorded o)) k f'.document d o
      by_cases hown : m.entry? f'.document = some (.building k) ∧ d = f'.document
      · obtain ⟨own, rfl⟩ := hown
        obtain rfl := Option.some.inj (hx.symm.trans own)
        cases hf.symm.trans flight
        have ho := Flight.artifacts?_eq_some.1 ha
        rw [phase] at ho
        cases ho
        exact .inl ⟨here, calm, .built k, hx'.trans (if_pos ⟨own, rfl⟩), rfl⟩
      · exact .inl ⟨here, calm, x, hx'.trans ((if_neg hown).trans hx), rfl⟩
  | sweep swept =>
      cases swept with
      | mk only_kept only => exact .inl ⟨here, calm, x, (only_kept d hl).trans hx, rfl⟩
  | beginClear | drop =>
      have hp' : m.unpinAll.pin? d = some x.flight := hp'
      rw [pin?_unpinAll, hx] at hp'
      cases hp'
  | endClear begun => exact absurd calm (Nat.ne_of_gt begun)
  | free dropped => cases here.symm.trans dropped
  | _ => exact .inl ⟨here, calm, x, hx, rfl⟩

/-- A build that pins its cache puts it in step with its entry, if it is so itself. -/
theorem inStep_or_straying (hf : m.flights[n]? = some f)
    (hp : f.phase = .finished (.built a) true) : m.InStep f.document n ∨ m.Straying n := by
  cases here : m.isDropped with
  | true => exact .inr (.dropped hf hp here)
  | false =>
      by_cases clears : 0 < m.clearing
      · exact .inr (.clearing hf hp clears)
      · by_cases own : m.entry? f.document = some (.building n)
        · exact .inl ⟨here, Nat.eq_zero_of_not_pos clears, _, own, rfl⟩
        · exact .inr (.finished hf hp own)

/-- What a document holds is in step with its entry, or has been left by a build that was not. -/
theorem run_inStep {p : Nat → Prop} (hs : m.Sound) (hb : m.Backed)
    (h : ∀ d n, m.isLive d = true → m.pin? d = some n → m.InStep d n ∨ p n) (d n : Nat)
    (live : (m.run es).isLive d = true) (hp : (m.run es).pin? d = some n) :
    (m.run es).InStep d n ∨ p n ∨ m.Strayed es n := by
  -- `p` collects the builds that have been out of step before `m`.
  induction es generalizing m p with
  | nil => exact (h d n live hp).imp_right .inl
  | cons e es ih =>
      have hm := move_step m e
      have stray (h : (m.step e).Straying n) : m.Strayed (e :: es) n := (h.strayed es).cons
      have step : ∀ d n, (m.step e).isLive d = true → (m.step e).pin? d = some n →
          (m.step e).InStep d n ∨ p n ∨ m.Straying n ∨ (m.step e).Straying n := by
        intro d n live hp'
        cases hm.pinning live with
        | same same =>
            have hp := same.symm.trans hp'
            rcases h d n (hm.isLive_of live) hp with inStep | hpn
            · exact (hm.inStep hs hb live hp hp' inStep).imp_right fun h => .inr (.inr h)
            · exact .inr (.inl hpn)
        | @pinned k f a _ flight phase document after pin =>
            obtain rfl := Option.some.inj (hp'.symm.trans pin)
            subst document
            rcases inStep_or_straying flight phase with inStep | straying
            · exact .inl (hm.inStep_of_pin inStep)
            · exact .inr (.inr (.inl straying))
        | released entry clears none => cases none.symm.trans hp'
      rcases ih (hs.step e) (hb.move hm) step live hp with inStep | (hpn | here | there) | later
      · exact .inl inStep
      · exact .inr (.inl hpn)
      · exact .inr (.inr (here.strayed _))
      · exact .inr (.inr (stray there))
      · exact .inr (.inr later.cons)

/-! ## Entries after a clear -/

/-- Every entry is about a flight that has been started since. -/
def Since (m : Manager) (k : Nat) : Prop :=
  k ≤ m.flights.length ∧ ∀ d n, m.Names d n → k ≤ n

theorem Move.since (h : Move m e m') (hs : m.Since k) : m'.Since k := by
  refine ⟨Nat.le_trans hs.1 h.length_le, ?_⟩
  rintro d _ ⟨x, hx, rfl⟩
  rcases h.entry hx with old | made
  · exact hs.2 d _ ⟨x, old, rfl⟩
  · cases made with
    | start here flight => exact hs.1
    | record flight phase document own after => exact hs.2 d _ ⟨_, own, rfl⟩

theorem since_endClear (begun : 0 < m.clearing) : (m.step .endClear).Since m.flights.length := by
  rw [step, endClear, if_neg (Nat.ne_of_gt begun)]
  refine ⟨Nat.le_refl _, ?_⟩
  rintro d _ ⟨x, hx, rfl⟩
  cases hx

/-! ## What clearing and dropping release -/

/-- A build that is going on when the manager is cleared pins its cache all the same. -/
theorem pin?_of_clear_build (here : m.isFreed = false) (hf : m.flights[n]? = some f)
    (hp : f.phase = .running) {x : Except Failure Fetched} (hx : Outcome.ofFetched x = .built a) :
    (m.run [.beginClear, .endClear, .finish n x, .pin n]).pin? f.document = some n := by
  have cleared : ((m.step .beginClear).step .endClear).isFreed = false ∧
      ((m.step .beginClear).step .endClear).flights[n]? = some f := by
    simp only [step, endClear]
    split <;> split <;> exact ⟨here, hf⟩
  rw [run_cons, run_cons, run_cons, run_cons, run_nil]
  generalize (m.step .beginClear).step .endClear = k at cleared ⊢
  have finished : f.phase.after (.finish n x) = .finished (.built a) true := by
    rw [hp, ← hx]
    rfl
  have hk := build_phase (e := .finish n x) cleared.1 cleared.2 rfl
  generalize k.step (.finish n x) = k' at hk ⊢
  simp only [step, Manager.pin, hk, finished]
  exact (pin?_pinCache _ n f.document f.document).trans (if_pos rfl)

/-- After a clear, a document holds only caches that have been built for it by flights started
since, and after the manager has been dropped it holds none; the caches that are not released are
those of builds that were out of step. -/
theorem clear_and_drop_release (interval : Nat) (es : List Event) :
    let m := (new interval).run es
    (∀ fs gs d n, es = fs ++ .endClear :: gs → 0 < ((new interval).run fs).clearing →
      m.isLive d = true → m.pin? d = some n →
      (((new interval).run fs).flights.length ≤ n ∧
        ∃ f a, m.flights[n]? = some f ∧ f.document = d ∧ f.artifacts? = some a) ∨
      (new interval).Strayed es n) ∧
    ∀ d n, m.isDropped = true → m.isLive d = true → m.pin? d = some n →
      (new interval).Strayed es n := by
  intro m
  have step {d n : Nat} (live : m.isLive d = true) (hp : m.pin? d = some n) :
      m.InStep d n ∨ (new interval).Strayed es n :=
    (run_inStep (p := fun _ => False) (.new interval) (.new interval) (fun _ _ _ h => by cases h)
      d n live hp).imp_right (·.resolve_left id)
  refine ⟨?_, fun d n gone live hp => ?_⟩
  · rintro fs gs d n rfl begun live hp
    rcases step live hp with inStep | strayed
    · obtain ⟨f, a, hf, hdoc, ha, -⟩ := (Backed.new interval).run _ d n live hp
      refine .inl ⟨?_, f, a, hf, hdoc, ha⟩
      have since : m.Since ((new interval).run fs).flights.length := by
        have h := run_induction (since_endClear begun) (fun m e h => (move_step m e).since h) gs
        rwa [← run_cons, ← run_append] at h
      exact since.2 d n inStep.names
    · exact .inr strayed
  · refine (step live hp).resolve_left fun inStep => ?_
    cases gone.symm.trans inStep.here

/-- What a build has pinned that was begun after the clear. -/
theorem released_after_clear :
    let fs := [Event.get 0 "a" false, .beginClear]
    let es := fs ++ .endClear :: .get 0 "a" false :: Event.ofBuild 1 (.ok .blank)
    let m := (new 32).run es
    0 < ((new 32).run fs).clearing ∧ m.isLive 0 = true ∧ m.pin? 0 = some 1 ∧
      ((1 ≤ 1 ∧ ∃ f a, m.flights[1]? = some f ∧ f.document = 0 ∧ f.artifacts? = some a) ∨
        (new 32).Strayed es 1) := by
  intro fs es m
  have begun : 0 < ((new 32).run fs).clearing := Nat.one_pos
  have hp : m.isLive 0 = true ∧ m.pin? 0 = some 1 := by
    simp only [m, es, fs, Event.ofBuild, List.cons_append, List.nil_append, run_cons, run_nil,
      step, finish, Outcome.ofFetched_blank]
    exact ⟨rfl, rfl⟩
  exact ⟨begun, hp.1, hp.2,
    (clear_and_drop_release 32 es).1 fs _ 0 1 rfl begun hp.1 hp.2⟩

end Manager

end Xref
