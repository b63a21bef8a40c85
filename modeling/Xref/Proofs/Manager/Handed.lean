import Xref.Proofs.Manager.Entries
import Xref.Tree.Parse

/-!
# Caches that requests have got

A request comes by a cache in two ways: one is there for the document when it asks, or the flight
that it waits for has built one. Either way it is the cache that some flight has built, and that
flight keeps it for good, so what a request has got never becomes something else. All artifacts of
such a cache are of one version, since a build over artifacts of several versions fails.
-/

namespace Xref

theorem Phase.Goes.outcome? {n : Nat} {isHere : Bool} {e : Manager.Event} {p q : Phase}
    {o : Outcome} (h : Goes n isHere e p q) (hq : q.outcome? = some o) :
    p.outcome? = some o ∨ ∃ x, o = .ofFetched x := by
  cases h with
  | @finish x => exact .inr ⟨x, (Option.some.inj hq).symm⟩
  | next next =>
      cases next with
      | lose => cases hq
      | _ => exact .inl hq
  | _ => exact .inl hq

/-! ## Artifacts that make a cache -/

theorem Artifacts.make?_ofTree (name : String) (tree : Tree) :
    make? (.ofTree name tree) = some (.ofTree name tree) := by
  have hn : Comparison.ofName? (Fetched.ofTree name tree).languageName =
    some (.ofLanguage tree.language) := ofName?_name tree.language
  unfold make?
  split
  · next h => cases h.symm.trans hn
  · next c h =>
      cases h.symm.trans hn
      rfl

theorem Outcome.ofFetched_ofTree (name : String) (tree : Tree) :
    ofFetched (.ok (.ofTree name tree)) = built (.ofTree name tree) := by
  rw [ofFetched, if_pos (Fetched.agree_ofTree name tree), Artifacts.make?_ofTree]

def Fetched.blank : Fetched :=
  .ofTree "a" (Tree.parse .csharp (.ofText [] 0))

def Artifacts.blank : Artifacts :=
  .ofTree "a" (Tree.parse .csharp (.ofText [] 0))

theorem Outcome.ofFetched_blank : ofFetched (.ok .blank) = built .blank :=
  ofFetched_ofTree _ _

/-- A blank document whose model reports a language that nobody can compare names of. -/
def Fetched.strange : Fetched :=
  { Fetched.blank with languageName := "F#" }

theorem Outcome.ofFetched_strange : ofFetched (.ok .strange) = unsupported "F#" := by
  have agree : Fetched.strange.versions.agree = true := Fetched.agree_ofTree "a" _
  have hn : Comparison.ofName? Fetched.strange.languageName = none := by
    decide +kernel
  rw [ofFetched, if_pos agree]
  split
  · next a ha =>
      unfold Artifacts.make? at ha
      split at ha
      · cases ha
      · next c hc => cases hn.symm.trans hc
  · rfl

namespace Manager

variable {m m' : Manager} {e : Event} {d n k r : Nat} {f g : Flight} {a : Artifacts}
  {es : List Event}

theorem artifacts?_later (h : Move m e m') (ha : m.artifacts? n = some a) :
    m'.artifacts? n = some a := by
  obtain ⟨f, hf, ha⟩ := Option.bind_eq_some_iff.1 ha
  obtain ⟨g, hg, hl⟩ := h.later hf
  exact Option.bind_eq_some_iff.2 ⟨g, hg, hl.artifacts ha⟩

theorem artifacts?_of_alive? (h : m.alive? n = some a) : m.artifacts? n = some a := by
  unfold alive? at h
  split at h
  · exact h
  · cases h

theorem artifacts?_of_answer? (hf : m.flights[n]? = some f)
    (h : answer? n f = some (.cache k a)) : k = n ∧ m.artifacts? n = some a := by
  rw [answer?_eq] at h
  unfold Phase.answer? at h
  split at h
  · next o hp =>
      cases o with
      | built b =>
          cases h
          refine ⟨rfl, Option.bind_eq_some_iff.2 ⟨f, hf, Flight.artifacts?_eq_some.2 ?_⟩⟩
          rw [hp]
          rfl
      | _ => cases h
  · cases h
  · cases h

/-- How a request comes by a cache: one is there when it asks, or its flight has one for it. -/
inductive Gets (m : Manager) (n : Nat) (a : Artifacts) : Event → Prop
  | hit {d : Nat} {name : String} (entry : m.entry? d = some (.built n))
      (alive : m.alive? n = some a) : Gets m n a (.get d name false)
  | receive {r : Nat} {f : Flight} (waits : m.requests[r]? = some (.waiting n))
      (flight : m.flights[n]? = some f) (phase : f.phase = .published (.built a)) :
      Gets m n a (.receive r)

theorem Gets.artifacts? (h : m.Gets n a e) : m.artifacts? n = some a := by
  cases h with
  | hit entry alive => exact artifacts?_of_alive? alive
  | receive waits flight phase =>
      refine Option.bind_eq_some_iff.2 ⟨_, flight, Flight.artifacts?_eq_some.2 ?_⟩
      rw [phase]
      rfl

theorem Move.answered (h : Move m e m') (hr : m'.requests[r]? = some (.answered (.cache n a))) :
    m.requests[r]? = some (.answered (.cache n a)) ∨ m.Gets n a e := by
  have appended {x : Request} (hr : (m.requests ++ [x])[r]? = some (.answered (.cache n a))) :
      m.requests[r]? = some (.answered (.cache n a)) ∨ x = .answered (.cache n a) :=
    (of_getElem?_concat hr).imp_right fun h => h.2.symm
  have settled {s : Nat} {x : Request}
      (hr : (m.requests.set s x)[r]? = some (.answered (.cache n a))) :
      m.requests[r]? = some (.answered (.cache n a)) ∨ x = .answered (.cache n a) := by
    rw [List.getElem?_set] at hr
    split at hr
    · split at hr
      · exact .inr (Option.some.inj hr)
      · cases hr
    · exact .inl hr
  cases h with
  | turnAway => exact (appended hr).imp_right nofun
  | join => exact (appended hr).imp_right nofun
  | hit entry alive =>
      refine (appended hr).imp_right fun hx => ?_
      cases hx
      exact .hit entry alive
  | start here live gone cancelled swept =>
      cases swept
      exact (appended hr).imp_right nofun
  | leave waits => exact (settled hr).imp_right nofun
  | @receive s k f x waits flight has =>
      refine (settled hr).imp_right fun hx => ?_
      cases hx
      obtain ⟨rfl, -⟩ := artifacts?_of_answer? flight has
      refine .receive waits flight ?_
      rw [answer?_eq] at has
      unfold Phase.answer? at has
      split at has
      · next o hp =>
          cases o <;> cases has
          exact hp
      · cases has
      · cases has
  | sweep swept =>
      cases swept
      exact .inl hr
  | _ => exact .inl hr

/-- The caches that flights have built are of one version each, and requests have got no others. -/
structure Handed (m : Manager) : Prop where
  agree : ∀ {n : Nat} {a : Artifacts}, m.artifacts? n = some a → a.versions.agree = true
  artifacts : ∀ {r n : Nat} {a : Artifacts}, m.requests[r]? = some (.answered (.cache n a)) →
    m.artifacts? n = some a

namespace Handed

theorem new (interval : Nat) : Handed (.new interval) where
  agree := fun h => by cases h
  artifacts := fun h => by cases h

theorem move (h : m.Handed) (hm : Move m e m') : m'.Handed where
  agree := fun {n a} ha => by
    obtain ⟨g, hg, ha⟩ := Option.bind_eq_some_iff.1 ha
    rcases hm.earlier hg with ⟨f, hf, -⟩ | ⟨d, name, -, -, rfl, -⟩
    · have old (hp : f.phase.outcome? = some (.built a)) : a.versions.agree = true :=
        h.agree (Option.bind_eq_some_iff.2 ⟨f, hf, Flight.artifacts?_eq_some.2 hp⟩)
      rcases (hm.goes hf hg).outcome? (Flight.artifacts?_eq_some.1 ha) with hp | ⟨x, hx⟩
      · exact old hp
      · exact Outcome.agree_of_built hx.symm
    · cases ha
  artifacts := fun hr => by
    refine artifacts?_later hm ?_
    rcases hm.answered hr with hold | gets
    · exact h.artifacts hold
    · exact gets.artifacts?

theorem run (h : m.Handed) (es : List Event) : (m.run es).Handed :=
  run_induction h (fun m e h => h.move (move_step m e)) es

end Handed

/-! ## What holds after every run -/

/-- The accounts are right, entries are about flights, documents in use are there, and requests have
got what flights have built. -/
structure Sound (m : Manager) : Prop where
  accounted : m.Accounted
  entered : m.Entered
  inUse : m.InUse
  handed : m.Handed

namespace Sound

theorem new (interval : Nat) : Sound (.new interval) :=
  ⟨.new interval, .new interval, .new interval, .new interval⟩

theorem step (h : m.Sound) (e : Event) : (m.step e).Sound :=
  have hm := move_step m e
  ⟨h.accounted.move hm, h.entered.move h.accounted hm, h.inUse.move h.accounted hm, h.handed.move hm⟩

theorem run (h : m.Sound) (es : List Event) : (m.run es).Sound :=
  run_induction h (fun _ e h => h.step e) es

end Sound

/-- A flight that goes on owns the entry of its document, after every run without a clear. -/
theorem Owned.run (h : m.Owned) (hs : m.Sound) (he : .endClear ∉ es) : (m.run es).Owned := by
  induction es generalizing m with
  | nil => exact h
  | cons e es ih =>
      have hne : e ≠ .endClear := fun h => he (h ▸ List.mem_cons_self)
      exact ih (h.move hs.accounted hs.inUse (move_step m e) hne) (hs.step e)
        fun h => he (List.mem_cons_of_mem e h)

end Manager

end Xref
