import Xref.Proofs.Manager.Answer

/-!
# A manager in other company

Changing who waits for a flight, and what is counted, commutes with whatever happens to the manager:
a flight with waiters can be joined and left, uses its document and keeps its cache, however many
they are. Only the counts may come out differently, and nothing reads them.
-/

namespace Xref

theorem modify_congr {α : Type} {l : List α} {i : Nat} {a : α} (h : l[i]? = some a) {f g : α → α}
    (hfg : f a = g a) : l.modify i f = l.modify i g := by
  refine List.ext_getElem? fun k => ?_
  rw [List.getElem?_modify, List.getElem?_modify]
  by_cases hk : i = k
  · subst hk
    simp [h, hfg]
  · simp [hk]

theorem any_modify {α : Type} {l : List α} {i : Nat} {a : α} (h : l[i]? = some a) {g : α → α}
    {p : α → Bool} (hp : p (g a) = p a) : (l.modify i g).any p = l.any p := by
  induction l generalizing i with
  | nil => cases h
  | cons b l ih =>
      cases i with
      | zero =>
          cases h
          simp [hp]
      | succ i => simp [ih h]

theorem modify_concat {α : Type} {l : List α} {i : Nat} (h : i < l.length) (g : α → α) (b : α) :
    (l ++ [b]).modify i g = l.modify i g ++ [b] := by
  induction l generalizing i with
  | nil => cases h
  | cons a l ih =>
      cases i with
      | zero => rfl
      | succ i =>
          rw [List.cons_append, List.modify_succ_cons, ih (Nat.lt_of_succ_lt_succ h)]
          rfl

/-- The same flight, waited for by another number of requests. -/
def Flight.withWaiters (k : Nat) (f : Flight) : Flight :=
  { f with waiters := k }

namespace Manager

variable {m : Manager} {n k j : Nat} {f : Flight} {rs : List Request} {c : Counts}

/-! ## The same manager in other company -/

/-- The manager with another number of waiters for a flight, other requests and other counts. -/
def withCompany (m : Manager) (n k : Nat) (rs : List Request) (c : Counts) : Manager :=
  { m with flights := m.flights.modify n (Flight.withWaiters k), requests := rs, counts := c }

section

variable (m n k rs c)

theorem flights_withCompany (j : Nat) :
    (m.withCompany n k rs c).flights[j]? =
      m.flights[j]?.map fun f => if n = j then f.withWaiters k else f :=
  List.getElem?_modify ..

/-- Whatever does not depend on who waits can be seen in any company. -/
theorem map_withCompany {α : Type} {p : Flight → α} (hp : ∀ f k, p (f.withWaiters k) = p f)
    (j : Nat) : (m.withCompany n k rs c).flights[j]?.map p = m.flights[j]?.map p := by
  rw [flights_withCompany, Option.map_map]
  congr 1
  funext f
  show p (if n = j then f.withWaiters k else f) = p f
  split
  · exact hp f k
  · rfl

theorem setPhase_withCompany (j : Nat) (p : Phase) :
    (m.withCompany n k rs c).setPhase j p = (m.setPhase j p).withCompany n k rs c := by
  unfold setPhase onFlight withCompany
  congr 1
  by_cases hj : j = n
  · subst hj
    rw [List.modify_modify_eq, List.modify_modify_eq]
    rfl
  · exact (List.modify_modify_ne _ _ _ hj).symm

theorem finish_withCompany (j : Nat) (x : Except Failure Fetched) :
    (m.withCompany n k rs c).finish j x = (m.finish j x).withCompany n k rs c := by
  unfold finish
  rw [map_withCompany m n k rs c (fun _ _ => rfl) j]
  split
  · exact setPhase_withCompany ..
  · rfl

theorem publish_withCompany (j : Nat) :
    (m.withCompany n k rs c).publish j = (m.publish j).withCompany n k rs c := by
  unfold publish
  rw [map_withCompany m n k rs c (fun _ _ => rfl) j]
  split
  · exact setPhase_withCompany ..
  · rfl

theorem lose_withCompany (j : Nat) :
    (m.withCompany n k rs c).lose j = (m.lose j).withCompany n k rs c := by
  unfold lose
  rw [map_withCompany m n k rs c (fun _ _ => rfl) j]
  split
  · exact setPhase_withCompany ..
  · rfl

theorem pin_withCompany (j : Nat) :
    (m.withCompany n k rs c).pin j = (m.pin j).withCompany n k rs c := by
  unfold Manager.pin
  rw [flights_withCompany]
  cases m.flights[j]? with
  | none => rfl
  | some f =>
      have hp : (if n = j then f.withWaiters k else f).phase = f.phase := by split <;> rfl
      have hd : (if n = j then f.withWaiters k else f).document = f.document := by split <;> rfl
      simp only [Option.map_some, hp, hd]
      split
      · rw [setPhase_withCompany]
        split
        · split <;> rfl
        · rfl
      · rfl

theorem enterOutcome_withCompany (j d : Nat) (o : Outcome) :
    (m.withCompany n k rs c).enterOutcome j d o =
      (m.enterOutcome j d o).withCompany n k rs c := by
  unfold enterOutcome
  have hx : entry? (m.withCompany n k rs c) d = m.entry? d := rfl
  rw [hx]
  split
  · cases o <;> rfl
  · rfl

theorem record_withCompany (j : Nat) :
    ∃ c', (m.withCompany n k rs c).record j = (m.record j).withCompany n k rs c' := by
  unfold Manager.record
  rw [flights_withCompany]
  cases m.flights[j]? with
  | none => exact ⟨c, rfl⟩
  | some f =>
      have hp : (if n = j then f.withWaiters k else f).phase = f.phase := by split <;> rfl
      have hd : (if n = j then f.withWaiters k else f).document = f.document := by split <;> rfl
      simp only [Option.map_some, hp, hd]
      split
      · rw [setPhase_withCompany]
        split
        · rw [enterOutcome_withCompany]
          exact ⟨_, rfl⟩
        · exact ⟨c, rfl⟩
      · exact ⟨c, rfl⟩

theorem countInsertion_withCompany :
    ∃ c', (m.withCompany n k rs c).countInsertion =
      m.countInsertion.withCompany n k rs c' := by
  unfold countInsertion
  have hi : (m.withCompany n k rs c).insertions = m.insertions := rfl
  dsimp only
  rw [hi]
  split
  · next h =>
      have h : (m.insertions + 1) % m.interval = 0 := h
      rw [if_pos h]
      exact ⟨_, rfl⟩
  · next h =>
      have h : ¬ (m.insertions + 1) % m.interval = 0 := h
      rw [if_neg h]
      exact ⟨c, rfl⟩

end

theorem join?_withWaiters (b : Prop) [Decidable b] (k : Nat) (g : Flight) :
    (if b then g.withWaiters k else g).join? =
      g.join?.map fun h => if b then h.withWaiters (k + 1) else h := by
  by_cases hg : g.isCancelled = true
  · have hnone : g.join? = none := if_pos hg
    rw [hnone]
    split <;> exact if_pos hg
  · have hsome : g.join? = some { g with waiters := g.waiters + 1 } := if_neg hg
    rw [hsome]
    split <;> exact if_neg hg

theorem joinFlight_withCompany (m : Manager) (n k : Nat) (rs : List Request) (c : Counts) (j : Nat)
    (h : Flight) :
    ∃ c', (m.withCompany n k rs c).joinFlight j (if n = j then h.withWaiters (k + 1) else h) =
      (m.joinFlight j h).withCompany n (if n = j then k + 1 else k) (rs ++ [.waiting j]) c' := by
  refine ⟨{ c with misses := c.misses + 1 }, ?_⟩
  dsimp only [joinFlight, withCompany, onFlight, addRequest, count]
  by_cases hj : n = j
  · subst hj
    rw [if_pos rfl, if_pos rfl, List.modify_modify_eq, List.modify_modify_eq]
    rfl
  · rw [if_neg hj, if_neg hj, List.modify_modify_ne _ _ _ hj]

theorem startFlight_withCompany (rs : List Request) (c : Counts) (hf : m.flights[n]? = some f)
    (d : Nat) (name : String) :
    ∃ c', (m.withCompany n k rs c).startFlight d name =
      (m.startFlight d name).withCompany n k (rs ++ [.waiting m.flights.length]) c' := by
  refine ⟨{ c with misses := c.misses + 1, builds := c.builds + 1 }, ?_⟩
  dsimp only [startFlight, withCompany, setEntry]
  rw [List.length_modify, modify_concat (List.getElem?_eq_some_iff.1 hf).1]

section

variable (hf : m.flights[n]? = some f) (hw : 0 < f.waiters) (hk : 0 < k) (rs c)

include hf hw hk

-- Somebody waits in both companies, so the flight uses its document and keeps its cache.

theorem uses_withCompany (d : Nat) : (m.withCompany n k rs c).uses d = m.uses d :=
  any_modify hf (by simp [Flight.withWaiters, hw, hk])

theorem alive?_withCompany (j : Nat) : (m.withCompany n k rs c).alive? j = m.alive? j := by
  have carries : (m.withCompany n k rs c).flights[j]?.map Flight.carriesCache =
      m.flights[j]?.map Flight.carriesCache := by
    rw [flights_withCompany]
    by_cases hj : n = j
    · subst hj
      simp [hf, Flight.carriesCache, Flight.withWaiters, Flight.artifacts?, hw, hk]
    · simp [hj]
  have artifacts : (m.withCompany n k rs c).artifacts? j = m.artifacts? j := by
    unfold Manager.artifacts?
    rw [flights_withCompany]
    cases m.flights[j]? with
    | none => rfl
    | some f =>
        simp only [Option.map_some, Option.bind_some]
        split <;> rfl
  have keeps : (m.withCompany n k rs c).keeps j = m.keeps j := by
    unfold Manager.keeps
    rw [carries]
    rfl
  rw [alive?, keeps, artifacts, alive?]

/-- Who asks for a document starts a flight, joins one or gets a cache in any company. -/
theorem get_withCompany (d : Nat) (name : String) (isCancelled : Bool) :
    ∃ k' q c', 0 < k' ∧ (m.get d name isCancelled).requests = m.requests ++ [q] ∧
      (m.withCompany n k rs c).get d name isCancelled =
        (m.get d name isCancelled).withCompany n k' (rs ++ [q]) c' := by
  unfold Manager.get
  have hx : entry? (m.withCompany n k rs c) d = m.entry? d := rfl
  rw [hx]
  split
  · exact ⟨k, _, c, hk, rfl, rfl⟩
  · split
    · next j hj =>
        rw [alive?_withCompany rs c hf hw hk]
        split
        · exact ⟨k, _, _, hk, rfl, rfl⟩
        · obtain ⟨c', hs⟩ := startFlight_withCompany rs c hf d name
          exact ⟨k, _, c', hk, rfl, hs⟩
    · next j hj =>
        rw [flights_withCompany]
        cases hg : m.flights[j]? with
        | none =>
            obtain ⟨c', hs⟩ := startFlight_withCompany rs c hf d name
            exact ⟨k, _, c', hk, rfl, hs⟩
        | some g =>
            simp only [Option.map_some, Option.bind_some, join?_withWaiters]
            cases g.join? with
            | none =>
                obtain ⟨c', hs⟩ := startFlight_withCompany rs c hf d name
                exact ⟨k, _, c', hk, rfl, hs⟩
            | some h =>
                obtain ⟨c', hs⟩ := joinFlight_withCompany m n k rs c j h
                refine ⟨_, _, c', ?_, rfl, hs⟩
                split
                · exact k.succ_pos
                · exact hk
    · obtain ⟨c', hs⟩ := startFlight_withCompany rs c hf d name
      rw [hs]
      obtain ⟨c₂, hc₂⟩ := countInsertion_withCompany (m.startFlight d name) n k
        (rs ++ [.waiting m.flights.length]) c'
      refine ⟨k, _, c₂, hk, ?_, hc₂⟩
      have swept := swept_countInsertion (m.startFlight d name)
      generalize (m.startFlight d name).countInsertion = m' at swept
      cases swept
      rfl

end

/-! ## Leaving -/

/-- A flight is left in any company alike, if it is not left alone. -/
theorem depart_withCompany (hf : m.flights[n]? = some f) (hw : n = j → 1 < f.waiters)
    (hk : n = j → 1 < k) (rs : List Request) (c : Counts) (r : Nat) (a : Answer) :
    (m.withCompany n k rs c).depart j r a =
      (m.depart j r a).withCompany n (if n = j then k - 1 else k) (rs.set r (.answered a)) c := by
  dsimp only [depart, withCompany, onFlight, setRequest]
  congr 1
  by_cases hj : n = j
  · subst hj
    have hw := hw rfl
    have hk := hk rfl
    -- Others stay, so the flight is cancelled in neither.
    rw [if_pos rfl, List.modify_modify_eq, List.modify_modify_eq]
    refine modify_congr hf ?_
    have hk₁ : (k - 1 == 0) = false := by simp; omega
    have hw₁ : (f.waiters - 1 == 0) = false := by simp; omega
    simp [Flight.withWaiters, Flight.leave, hk₁, hw₁]
  · rw [if_neg hj, List.modify_modify_ne _ _ _ hj]

/-- Who leaves makes no difference to those who are without them. -/
theorem depart_alone (hf : m.flights[n]? = some f) (hw : 1 < f.waiters) (k : Nat)
    (rs : List Request) (c : Counts) (r : Nat) (a : Answer) :
    m.withCompany n k rs c = (m.depart n r a).withCompany n k rs c := by
  dsimp only [depart, withCompany, onFlight, setRequest]
  congr 1
  rw [List.modify_modify_eq]
  refine modify_congr hf ?_
  have hw₁ : (f.waiters - 1 == 0) = false := by simp; omega
  simp [Flight.withWaiters, Flight.leave, hw₁]

end Manager

end Xref
