import Xref.Proofs.Manager.Move

/-!
# Who waits for a flight

A flight counts its waiters, and the count is all that decides whether the flight is cancelled.
`Accounted` says that the count is right: it is the number of requests that have been taken up for
the flight and have neither been answered nor left, and the flight is cancelled exactly if there are
none. The first waiter is counted when the flight is started, every other one when it joins, and the
two ways of stopping to wait take one off each.

It follows that a flight somebody waits for can be left, and that a cancelled flight has nobody to
lose and gets nobody new.
-/

namespace Xref

def Request.waitsFor (n : Nat) : Request → Bool
  | .waiting k => k == n
  | .answered _ => false

namespace Manager

def registered (m : Manager) (n : Nat) : Nat :=
  m.requests.countP (Request.waitsFor n)

variable {m m' : Manager} {e : Event} {n k r : Nat} {f : Flight}

/-! ## Counting requests -/

theorem registered_pos (h : m.requests[r]? = some (.waiting n)) : 0 < m.registered n :=
  List.countP_pos_iff.2 ⟨_, List.mem_of_getElem? h, by simp [Request.waitsFor]⟩

theorem exists_waiting (h : 0 < m.registered n) : ∃ r : Nat, m.requests[r]? = some (.waiting n) := by
  obtain ⟨x, hx, hw⟩ := List.countP_pos_iff.1 h
  obtain ⟨r, hr⟩ := List.mem_iff_getElem?.1 hx
  cases x with
  | waiting k =>
      obtain rfl : k = n := by simpa [Request.waitsFor] using hw
      exact ⟨r, hr⟩
  | answered a => cases hw

theorem registered_of_left (h : m.hasWaiting = false) (n : Nat) : m.registered n = 0 := by
  refine Nat.eq_zero_of_not_pos fun hp => ?_
  obtain ⟨r, hr⟩ := exists_waiting hp
  have := List.any_eq_false.1 h _ (List.mem_of_getElem? hr)
  exact this rfl

theorem countP_answered (l : List Request) (a : Answer) (n : Nat) :
    (l ++ [Request.answered a]).countP (Request.waitsFor n) = l.countP (Request.waitsFor n) := by
  simp [List.countP_append, Request.waitsFor]

theorem countP_waiting (l : List Request) (k n : Nat) :
    (l ++ [Request.waiting k]).countP (Request.waitsFor n) =
      l.countP (Request.waitsFor n) + if k = n then 1 else 0 := by
  simp [List.countP_append, List.countP_singleton, Request.waitsFor]

theorem countP_set_answered {l : List Request} (h : l[r]? = some (.waiting k)) (a : Answer)
    (n : Nat) : (l.set r (.answered a)).countP (Request.waitsFor n) =
      l.countP (Request.waitsFor n) - if k = n then 1 else 0 := by
  obtain ⟨hr, hk⟩ := List.getElem?_eq_some_iff.1 h
  rw [List.countP_set hr, hk]
  simp [Request.waitsFor]

/-! ## Accounts -/

/-- Every flight knows how many requests wait for it, and is cancelled when there are none. -/
structure Accounted (m : Manager) : Prop where
  waiters : ∀ {n : Nat} {f : Flight}, m.flights[n]? = some f → f.waiters = m.registered n
  cancelled : ∀ {n : Nat} {f : Flight}, m.flights[n]? = some f → (f.isCancelled = true ↔ f.waiters = 0)
  started : ∀ {n}, m.flights.length ≤ n → m.registered n = 0
  /-- Nobody waits for a manager that has been dropped. -/
  left : m.isDropped = true → ∀ n, m.registered n = 0
  freed : m.isFreed = true → m.isDropped = true

namespace Accounted

theorem new (interval : Nat) : Accounted (.new interval) where
  waiters := fun h => by cases h
  cancelled := fun h => by cases h
  started := fun _ => rfl
  left := fun _ _ => rfl
  freed := fun h => by cases h

theorem exists_flight (h : m.Accounted) (hr : m.requests[r]? = some (.waiting n)) :
    ∃ f, m.flights[n]? = some f ∧ 0 < f.waiters ∧ f.isCancelled = false := by
  have hp := registered_pos hr
  cases hf : m.flights[n]? with
  | none =>
      rw [h.started (List.getElem?_eq_none_iff.1 hf)] at hp
      cases hp
  | some f =>
      rw [← h.waiters hf] at hp
      refine ⟨f, rfl, hp, Bool.eq_false_iff.2 fun hc => ?_⟩
      rw [(h.cancelled hf).1 hc] at hp
      cases hp

theorem not_dropped (h : m.Accounted) (hr : m.requests[r]? = some (.waiting n)) :
    m.isDropped = false := by
  have hp := registered_pos hr
  exact Bool.eq_false_iff.2 fun hd => by rw [h.left hd] at hp; cases hp

theorem not_freed (h : m.Accounted) (here : m.isDropped = false) : m.isFreed = false :=
  Bool.eq_false_iff.2 fun hf => Bool.noConfusion (here.symm.trans (h.freed hf))

theorem congr (h : m.Accounted) (hf : m'.flights = m.flights) (hr : m'.requests = m.requests)
    (hd : m'.isDropped = true → ∀ n, m.registered n = 0)
    (hfree : m'.isFreed = true → m'.isDropped = true) : m'.Accounted := by
  have hreg (n : Nat) : m'.registered n = m.registered n := by rw [registered, hr, registered]
  constructor
  · intro n f hn
    rw [hreg]
    exact h.waiters (hf ▸ hn)
  · intro n f hn
    exact h.cancelled (hf ▸ hn)
  · intro n hn
    rw [hreg]
    exact h.started (hf ▸ hn)
  · intro hm n
    rw [hreg]
    exact hd hm n
  · exact hfree

theorem setPhase (h : m.Accounted) (n : Nat) (p : Phase) : (m.setPhase n p).Accounted where
  waiters := fun hk => by
    obtain ⟨f, hf, rfl⟩ := of_getElem?_modify hk
    have hw := h.waiters hf
    split <;> exact hw
  cancelled := fun hk => by
    obtain ⟨f, hf, rfl⟩ := of_getElem?_modify hk
    have hc := h.cancelled hf
    split <;> exact hc
  started := fun {k} hk => by
    have hk : (m.flights.modify n fun f => { f with phase := p }).length ≤ k := hk
    rw [List.length_modify] at hk
    exact h.started hk
  left := h.left
  freed := h.freed

theorem answered (h : m.Accounted) (a : Answer) : (m.addRequest (.answered a)).Accounted where
  waiters := fun hn => (h.waiters hn).trans (countP_answered _ a _).symm
  cancelled := h.cancelled
  started := fun hn => (countP_answered _ a _).trans (h.started hn)
  left := fun hd n => (countP_answered _ a n).trans (h.left hd n)
  freed := h.freed

theorem join (h : m.Accounted) (here : m.isDropped = false) (hf : m.flights[n]? = some f)
    (hc : f.isCancelled = false) :
    (m.joinFlight n { f with waiters := f.waiters + 1 }).Accounted where
  waiters := fun {k g} hg => by
    obtain ⟨g, hm, rfl⟩ := of_getElem?_modify hg
    refine Eq.trans ?_ (countP_waiting _ n k).symm
    by_cases hk : n = k
    · subst hk
      rw [if_pos rfl, if_pos rfl]
      show f.waiters + 1 = m.registered n + 1
      rw [h.waiters hf]
    · rw [if_neg hk, if_neg hk]
      exact h.waiters hm
  cancelled := fun {k g} hg => by
    obtain ⟨g, hm, rfl⟩ := of_getElem?_modify hg
    split
    · simp [hc]
    · exact h.cancelled hm
  started := fun {k} hk => by
    have hk : m.flights.length ≤ k := by
      have hk : (m.flights.modify n fun _ => { f with waiters := f.waiters + 1 }).length ≤ k := hk
      rwa [List.length_modify] at hk
    have hn := (List.getElem?_eq_some_iff.1 hf).1
    refine (countP_waiting _ n k).trans ?_
    rw [if_neg (by omega)]
    exact h.started hk
  left := fun hd => Bool.noConfusion (here.symm.trans hd)
  freed := h.freed

theorem start (h : m.Accounted) (here : m.isDropped = false) (d : Nat) (name : String) :
    (m.startFlight d name).Accounted := by
  have hlen : m.registered m.flights.length = 0 := h.started (Nat.le_refl _)
  have hreg (k : Nat) : (m.startFlight d name).registered k =
      m.registered k + if m.flights.length = k then 1 else 0 :=
    countP_waiting _ _ k
  constructor
  · intro k g hg
    rw [hreg]
    rcases of_flights_start hg with hm | ⟨rfl, rfl⟩
    · have hk := (List.getElem?_eq_some_iff.1 hm).1
      rw [if_neg (by omega), h.waiters hm, Nat.add_zero]
    · rw [if_pos rfl, hlen]
      rfl
  · intro k g hg
    rcases of_flights_start hg with hm | ⟨-, rfl⟩
    · exact h.cancelled hm
    · simp [Flight.start]
  · intro k hk
    have hk : (m.flights ++ [Flight.start d name]).length ≤ k := hk
    rw [List.length_append, List.length_singleton] at hk
    rw [hreg, if_neg (by omega), h.started (by omega)]
  · intro hd
    exact Bool.noConfusion (here.symm.trans hd)
  · exact h.freed

theorem depart (h : m.Accounted) (hr : m.requests[r]? = some (.waiting n)) (a : Answer) :
    (m.depart n r a).Accounted where
  waiters := fun {k g} hg => by
    obtain ⟨g, hm, rfl⟩ := of_getElem?_modify hg
    refine Eq.trans ?_ (countP_set_answered hr a k).symm
    split
    · exact congrArg (· - 1) (h.waiters hm)
    · exact h.waiters hm
  cancelled := fun {k g} hg => by
    obtain ⟨g, hm, rfl⟩ := of_getElem?_modify hg
    split
    · simp only [Flight.leave, Bool.or_eq_true, beq_iff_eq, h.cancelled hm]
      omega
    · exact h.cancelled hm
  started := fun {k} hk => by
    have hk : m.flights.length ≤ k := by
      have hk : (m.flights.modify n Flight.leave).length ≤ k := hk
      rwa [List.length_modify] at hk
    refine (countP_set_answered hr a k).trans ?_
    have : m.requests.countP (Request.waitsFor k) = 0 := h.started hk
    rw [this, Nat.zero_sub]
  left := fun hd k => by
    refine (countP_set_answered hr a k).trans ?_
    have : m.requests.countP (Request.waitsFor k) = 0 := h.left hd k
    rw [this, Nat.zero_sub]
  freed := h.freed

theorem move (h : m.Accounted) (hm : Move m e m') : m'.Accounted := by
  cases hm with
  | idle => exact h
  | turnAway d name => exact h.answered _
  | @hit d name c a entry alive =>
      have ha := h.answered (.cache c a)
      exact ha.congr rfl rfl ha.left ha.freed
  | join here entry flight going => exact h.join here flight going
  | @start d name m' here live gone cancelled swept =>
      have hs := h.start here d name
      cases swept
      exact hs.congr rfl rfl hs.left hs.freed
  | leave waits => exact h.depart waits _
  | receive waits flight has => exact h.depart waits _
  | finish flight phase => exact h.setPhase _ _
  | advance flight next => exact h.setPhase _ _
  | @pin n f a flight phase => exact (h.setPhase n (.pinned (.built a) true)).congr rfl rfl h.left h.freed
  | @record n f o counts flight phase => exact (h.setPhase n (.recorded o)).congr rfl rfl h.left h.freed
  | sweep swept =>
      cases swept
      exact h.congr rfl rfl h.left h.freed
  | drop left calm => exact h.congr rfl rfl (fun _ => registered_of_left left) fun _ => rfl
  | free dropped calm => exact h.congr rfl rfl h.left fun _ => dropped
  | beginClear | endClear | forget | hold => exact h.congr rfl rfl h.left h.freed

theorem run (h : m.Accounted) (es : List Event) : (m.run es).Accounted :=
  run_induction h (fun m e h => h.move (move_step m e)) es

end Accounted

end Manager

end Xref
