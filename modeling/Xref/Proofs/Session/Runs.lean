import Mathlib.Logic.Relation
import Xref.Proofs.Manager.Pins
import Xref.Session.Steps

/-!
# The managers of a session run

A session does a great deal at once: it begins requests, lets builds look at gates, drops what
nobody has. To its managers it does only one thing, again and again: it lets an event happen to one
of them (`Session.Move`). So whatever a session is told, in whatever order, each of its managers is
one that has run (`Session.managers_run`), and what holds of a manager after every run holds of the
managers of every session, as for the caches that documents hold (`Session.alive?_of_pinned`).
Clears end only where the session is told to clear.
-/

namespace Xref.Session

open Relation

/-- The managers of a session, in the order of their numbers. -/
def managers (s : Session) : List Manager :=
  s.hosts.map (·.manager)

/-- A new manager is taken, or an event happens to one that is there. A clear ends only where it
may. -/
inductive Move (clears : Prop) : List Manager → List Manager → Prop
  | take (ms : List Manager) (interval : Nat) : Move clears ms (ms ++ [.new interval])
  | event (ms : List Manager) (m : Nat) (e : Manager.Event) (h : e = .endClear → clears) :
    Move clears ms (ms.modify m (·.step e))

/-- The managers of one session have become those of another. -/
def Onward (clears : Prop) (s t : Session) : Prop :=
  ReflTransGen (Move clears) s.managers t.managers

variable {clears : Prop} {s t u : Session}

theorem Onward.refl : Onward clears s s :=
  ReflTransGen.refl

theorem Onward.trans (h : Onward clears s t) (h' : Onward clears t u) : Onward clears s u :=
  ReflTransGen.trans h h'

theorem Onward.foldl {α : Type} {f : Session → α → Session} (h : ∀ s x, Onward clears s (f s x))
    (xs : List α) : Onward clears s (xs.foldl f s) :=
  List.foldlRecOn xs f (motive := Onward clears s) .refl fun t ht x _ => ht.trans (h t x)

/-! ## What a session does by itself -/

theorem managers_event (s : Session) (m : Nat) (e : Manager.Event) :
    (s.event m e).managers = s.managers.modify m (·.step e) := by
  refine List.ext_getElem? fun i => ?_
  simp only [managers, event, List.getElem?_map, List.getElem?_modify]
  cases s.hosts[i]? with
  | none => rfl
  | some h =>
      rw [Option.map_eq_map, Option.map_some, Option.map_some]
      split <;> rfl

theorem onward_event (m : Nat) (e : Manager.Event) (h : e = .endClear → clears) :
    Onward clears s (s.event m e) := by
  refine .single ?_
  rw [managers_event]
  exact .event _ m e h

theorem managers_addTask (s : Session) (t : Task) : (s.addTask t).managers = s.managers := by
  unfold addTask
  split <;> rfl

theorem managers_see (s : Session) (m f : Nat) : (s.see m f).managers = s.managers := by
  unfold see
  split <;> rfl

theorem onward_seeAll : Onward clears s s.seeAll := by
  refine .foldl (fun s w => ?_) _
  split
  · show ReflTransGen _ _ (s.see _ _).managers
    rw [managers_see]
  · exact .refl

theorem onward_reapManager (m : Nat) : Onward clears s (s.reapManager m) := by
  unfold reapManager
  split
  · split
    · exact .refl
    · exact (onward_event m .drop nofun).trans (onward_event m .free nofun)
  · exact .refl

theorem onward_reapDocument (d : Nat) : Onward clears s (s.reapDocument d) := by
  unfold reapDocument
  split
  · split
    · exact .refl
    · exact .foldl (s := s.onDocument d _) (fun s m => onward_event m (.forget d) nofun) _
  · exact .refl

theorem onward_reap : Onward clears s s.reap :=
  (Onward.foldl (fun _ m => onward_reapManager m) _).trans
    (.foldl (fun _ d => onward_reapDocument d) _)

theorem onward_finishBuild (b : Build) (x : Except Failure Fetched) :
    Onward clears s (s.finishBuild b x) :=
  ((onward_event b.manager (.finish b.flight x) nofun).trans <|
    (onward_event b.manager (.pin b.flight) nofun).trans <|
    (onward_event b.manager (.record b.flight) nofun).trans <|
    onward_event b.manager (.publish b.flight) nofun :
      Onward clears { s with builds := _ } _)

theorem onward_beginFetches (b : Build) (d : Document) :
    Onward clears s (s.beginFetches b d) := by
  unfold beginFetches
  generalize (Document.beginAll b.progress.looks (s.isCancelled b) (s.isMaking b.document)).run d = r
  obtain ⟨e | _, d⟩ := r
  · exact onward_finishBuild (s := s.onDocument b.document _) b _
  · dsimp only
    split
    · exact onward_finishBuild (s := s.onDocument b.document _) b _
    · exact .refl

theorem onward_pollBuild (b : Build) : Onward clears s (s.pollBuild b) := by
  unfold pollBuild
  split
  · split
    · exact onward_beginFetches b _
    · split
      · exact onward_finishBuild b _
      · exact .refl
  · exact .refl

theorem onward_resumeBuild (b : Build) : Onward clears s (s.resumeBuild b) := by
  unfold resumeBuild
  split
  · split
    · exact onward_finishBuild (s := s.onDocument b.document _) b _
    · exact onward_finishBuild (s := s.onDocument b.document _) b _
  · exact .refl

theorem onward_ask (w : Nat) (x : Waiter) : Onward clears s (s.ask w x) := by
  unfold ask
  split
  · dsimp only
    split <;> exact onward_event x.manager (.get x.document _ x.isCancelled) nofun
  · exact .refl

/-- Whatever task it is, only events happen to managers. -/
theorem onward_perform (t : Task) : Onward clears s (s.perform t) := by
  unfold perform
  cases t with
  | ask w =>
      dsimp only
      split
      · split
        · exact .refl
        · exact onward_ask w _
      · exact .refl
  | wake w =>
      dsimp only
      split
      · next x _ =>
          split
          · next r _ _ => split <;> exact onward_event x.manager (.leave r) nofun
          · exact .refl
      · exact .refl
  | poll d => exact .foldl (fun _ b => onward_pollBuild b) _

theorem onward_deliver (w : Waiter) : Onward clears s (s.deliver w) := by
  unfold deliver
  split
  · exact onward_event w.manager (.receive _) nofun
  · exact .refl

theorem onward_settle : Onward clears s s.settle := by
  have tasks : Onward clears s _ :=
    .foldl (s := { s with tasks := [] })
      (fun s t => (onward_perform t).trans (onward_reap (s := s.perform t))) s.tasks
  exact tasks.trans <| (Onward.foldl (fun _ b => onward_pollBuild b) _).trans <|
    (Onward.foldl (fun _ b => onward_resumeBuild b) _).trans <|
    (Onward.foldl (fun _ w => onward_deliver w) _).trans <| onward_reap.trans onward_seeAll

/-! ## What a session is told -/

/-- What a session can be told, one thing at a time; the last lets it go on. -/
inductive Order : Type 1
  | newManager (interval : Option Nat)
  | newDocument (d : Document)
  | dropManager (m : Nat)
  | dropDocument (d : Nat)
  | request (m d : Nat) (isCancelled : Bool)
  | cancel (w : Nat)
  | abort (w : Nat)
  | requestAbandoned (m d : Nat)
  | openGate (d : Nat)
  | closeGate (d : Nat)
  | failNext (d : Nat) (stage : Stage)
  | fetch {α : Type} (d : Nat) (f : Document.Fetch α)
  | slot (d : Nat)
  | contains (m d : Nat)
  | purge (m : Nat)
  | clear (m : Nat)
  | describe (m : Nat)
  | isAlive (c : Nat)
  | hold (c : Nat)
  | releaseAll
  | query {α : Type} (c : Nat) (q : Artifacts → Query α)
  | settle

/-- The session once it has been told something. -/
def obey (s : Session) : Order → Session
  | .newManager interval => ((newManager interval).run s).2
  | .newDocument d => ((newDocument d).run s).2
  | .dropManager m => ((dropManager m).run s).2
  | .dropDocument d => ((dropDocument d).run s).2
  | .request m d isCancelled => ((request m d isCancelled).run s).2
  | .cancel w => ((cancel w).run s).2
  | .abort w => ((abort w).run s).2
  | .requestAbandoned m d => ((requestAbandoned m d).run s).2
  | .openGate d => ((openGate d).run s).2
  | .closeGate d => ((closeGate d).run s).2
  | .failNext d stage => ((failNext d stage).run s).2
  | .fetch d f => ((fetch d f).run s).2
  | .slot d => ((slot d).run s).2
  | .contains m d => ((contains m d).run s).2
  | .purge m => ((purge m).run s).2
  | .clear m => ((clear m).run s).2
  | .describe m => ((describe m).run s).2
  | .isAlive c => ((isAlive c).run s).2
  | .hold c => ((hold c).run s).2
  | .releaseAll => (releaseAll.run s).2
  | .query c q => ((query c q).run s).2
  | .settle => s.settle

/-- The session is told to clear a manager. -/
def Order.Clears : Order → Prop
  | clear _ => True
  | _ => False

section Steps

variable {α : Type}

theorem run_get_bind (f : Session → Step α) : (get >>= f : Step α).run s = (f s).run s := rfl

theorem onward_withManager {m : Nat} {f : Manager → Step α}
    (h : ∀ x, Onward clears s ((f x).run s).2) : Onward clears s ((withManager m f).run s).2 := by
  rw [withManager, run_get_bind]
  split
  · exact h _
  · exact .refl

theorem onward_withDocument {d : Nat} {f : Document → Step α}
    (h : ∀ x, Onward clears s ((f x).run s).2) : Onward clears s ((withDocument d f).run s).2 := by
  rw [withDocument, run_get_bind]
  split
  · exact h _
  · exact .refl

theorem onward_withBoth {m d : Nat} {f : Manager → Document → Step α}
    (h : ∀ x y, Onward clears s ((f x y).run s).2) :
    Onward clears s ((withBoth m d f).run s).2 := by
  rw [withBoth, run_get_bind]
  split
  · exact h _ _
  · exact .refl

theorem onward_newManager (interval : Option Nat) :
    Onward clears s ((newManager interval).run s).2 := by
  refine .single ?_
  have h : ((newManager interval).run s).2.managers =
      s.managers ++ [.new (interval.getD Manager.defaultInterval)] := List.map_append
  rw [h]
  exact .take _ _

/-- To let a manager go is nothing that happens to it; what follows is. -/
theorem onward_dropManager (m : Nat) : Onward clears s ((dropManager m).run s).2 := by
  have h : managers { s with hosts := s.hosts.modify m fun h => { h with isHeld := false } } =
      s.managers := by
    refine List.ext_getElem? fun i => ?_
    simp only [managers, List.getElem?_map, List.getElem?_modify]
    cases s.hosts[i]? with
    | none => rfl
    | some h =>
        rw [Option.map_eq_map, Option.map_some, Option.map_some]
        split <;> rfl
  refine (?_ : Onward clears s _).trans onward_reap
  rw [Onward, h]

theorem onward_request (m d : Nat) (isCancelled : Bool) :
    Onward clears s ((request m d isCancelled).run s).2 := by
  refine onward_withBoth fun _ _ => ?_
  show Onward clears s (addTask { s with waiters := _ } _)
  rw [Onward, managers_addTask]
  exact .refl

theorem onward_interrupt (w : Nat) (f : Waiter → Waiter) :
    Onward clears s ((interrupt w f).run s).2 := by
  rw [interrupt, run_get_bind]
  split
  · split
    · show Onward clears s ((s.onWaiter w f).addTask _)
      rw [Onward, managers_addTask]
      exact .refl
    · exact .refl
  · exact .refl

theorem onward_requestAbandoned (m d : Nat) :
    Onward clears s ((requestAbandoned m d).run s).2 := by
  refine onward_withBoth fun x y => ?_
  rw [StateT.run_bind, StateT.run_modify, pure_bind, run_get_bind]
  refine ((onward_event m (.get d y.name false) nofun).trans <|
    (onward_event m (.lose x.flights.length) nofun).trans <|
    (onward_event m (.receive x.requests.length) nofun).trans <|
    (onward_event m (.leave x.requests.length) nofun).trans onward_reap).trans ?_
  split
  · next f _ _ =>
      show Onward clears _ (see _ m f)
      rw [Onward, managers_see]
      exact .refl
  · exact .refl

theorem onward_moveGate (d : Nat) (isOpen : Bool) :
    Onward clears s ((moveGate d isOpen).run s).2 := by
  refine onward_withDocument fun _ => ?_
  show Onward clears s ((s.onDocument d _).addTask _)
  rw [Onward, managers_addTask]
  exact .refl

theorem onward_clear (h : clears) (m : Nat) : Onward clears s ((clear m).run s).2 :=
  onward_withManager fun _ =>
    (onward_event m .beginClear nofun).trans (onward_event m .endClear fun _ => h)

theorem onward_hold (c : Nat) : Onward clears s ((hold c).run s).2 := by
  rw [hold, run_get_bind]
  split
  · exact onward_event _ _ nofun
  · exact .refl

theorem onward_query (c : Nat) (q : Artifacts → Query α) :
    Onward clears s ((query c q).run s).2 := by
  rw [query, run_get_bind]
  split
  · exact .refl
  · exact .refl

end Steps

/-- Whatever a session is told, only events happen to its managers, and no clear ends unless it is
told to clear. -/
theorem onward_obey (o : Order) (h : o.Clears → clears) : Onward clears s (s.obey o) := by
  cases o with
  | newManager interval => exact onward_newManager interval
  | newDocument d => exact .refl
  | dropManager m => exact onward_dropManager m
  | dropDocument d => exact onward_reap (s := s.onDocument d _)
  | request m d isCancelled => exact onward_request m d isCancelled
  | cancel w => exact onward_interrupt w _
  | abort w => exact onward_interrupt w _
  | requestAbandoned m d => exact onward_requestAbandoned m d
  | openGate d => exact onward_moveGate d true
  | closeGate d => exact onward_moveGate d false
  | failNext d stage => exact onward_withDocument fun _ => .refl
  | fetch d f => exact onward_withDocument fun _ => .refl
  | slot d => exact onward_withDocument fun _ => .refl
  | contains m d => exact onward_withBoth fun _ _ => .refl
  | purge m => exact onward_withManager fun _ => onward_event m .purge nofun
  | clear m => exact onward_clear (h trivial) m
  | describe m => exact onward_withManager fun _ => .refl
  | isAlive c => exact .refl
  | hold c => exact onward_hold c
  | releaseAll => exact .foldl (fun _ (m, f) => onward_event m (.release f) nofun) _
  | query c q => exact onward_query c q
  | settle => exact onward_settle

/-! ## What has happened to a manager -/

/-- What becomes of a manager that has run is a manager that has run, and new ones have not. -/
theorem Move.runs {ms ns : List Manager} (hmove : Move clears ms ns)
    (h : ∀ m ∈ ms, ∃ interval es, m = (Manager.new interval).run es ∧ (.endClear ∈ es → clears)) :
    ∀ m ∈ ns, ∃ interval es, m = (Manager.new interval).run es ∧ (.endClear ∈ es → clears) := by
  intro m hm
  cases hmove with
  | take interval =>
      rcases List.mem_append.1 hm with hm | hm
      · exact h m hm
      · obtain rfl := List.mem_singleton.1 hm
        exact ⟨interval, [], rfl, fun he => (List.not_mem_nil he).elim⟩
  | event i e he =>
      obtain ⟨j, hj⟩ := List.mem_iff_getElem?.1 hm
      rw [List.getElem?_modify, Option.map_eq_map, Option.map_eq_some_iff] at hj
      obtain ⟨m, hk, rfl⟩ := hj
      obtain ⟨interval, es, rfl, hes⟩ := h m (List.mem_of_getElem? hk)
      split
      · refine ⟨interval, es ++ [e], ?_, fun hmem => ?_⟩
        · rw [Manager.run_append, Manager.run_cons, Manager.run_nil]
        · rcases List.mem_append.1 hmem with hmem | hmem
          · exact hes hmem
          · exact he (List.mem_singleton.1 hmem).symm
      · exact ⟨interval, es, rfl, hes⟩

/-- Whatever a session has been told, each of its managers has run, and its clears have ended only
if the session was told to clear. -/
theorem managers_run (os : List Order) {m : Manager} (hm : m ∈ (os.foldl obey {}).managers) :
    ∃ interval es, m = (Manager.new interval).run es ∧ (.endClear ∈ es → ∃ o ∈ os, o.Clears) := by
  have onward : Onward (∃ o ∈ os, o.Clears) {} (os.foldl obey {}) :=
    List.foldlRecOn os obey (motive := Onward (∃ o ∈ os, o.Clears) {}) .refl
      fun s h o ho => h.trans (onward_obey o fun hc => ⟨o, ho, hc⟩)
  rw [Onward] at onward
  generalize (os.foldl obey {}).managers = ms at hm onward
  induction onward generalizing m with
  | refl => cases hm
  | tail _ hmove ih => exact hmove.runs (fun _ => ih) m hm

/-- So what a document of a session holds for a manager was built for this document, and has not
disappeared. -/
theorem alive?_of_pinned (os : List Order) {m : Manager}
    (hm : m ∈ (os.foldl obey {}).managers) {d n : Nat} (live : m.isLive d = true)
    (hp : m.pin? d = some n) :
    ∃ f a, m.flights[n]? = some f ∧ f.document = d ∧ m.alive? n = some a := by
  obtain ⟨interval, es, rfl, -⟩ := managers_run os hm
  obtain ⟨f, a, hf, hd, ha, -⟩ := (Manager.Backed.new interval).run es d n live hp
  refine ⟨f, a, hf, hd, Manager.alive?_of_pin? hp ?_⟩
  rw [Manager.artifacts?, hf]
  exact ha

end Xref.Session
