import Xref.Proofs.Manager.Handed

/-!
# What documents hold

A cache is pinned in its document by the build, before the manager takes notice of it, and whether or
not the entry of the document is still the flight's own. It is released when the document goes, when
another cache of the manager takes its place, and when a clear begins or the manager is dropped while
there is an entry for the document; otherwise it stays (`Pinning`).

While it is pinned a cache cannot disappear, so an entry for it answers requests.
-/

namespace Xref.Manager

variable {m m' : Manager} {e : Event} {d n : Nat} {f g : Flight} {a : Artifacts} {es : List Event}

/-- What a move does to what a document holds. -/
inductive Pinning (m : Manager) (d : Nat) : Event → Manager → Prop
  | same {e : Event} {m' : Manager} (same : m'.pin? d = m.pin? d) : Pinning m d e m'
  | pinned {n : Nat} {f : Flight} {a : Artifacts} {m' : Manager} (flight : m.flights[n]? = some f)
      (phase : f.phase = .finished (.built a) true) (document : f.document = d)
      (after : m'.flights[n]? = some { f with phase := .pinned (.built a) true })
      (pin : m'.pin? d = some n) : Pinning m d (.pin n) m'
  | released {e : Event} {m' : Manager} (entry : m.entry? d ≠ none)
      (clears : e = .beginClear ∨ m'.isDropped = true) (none : m'.pin? d = none) : Pinning m d e m'

theorem pinning_unpinAll (m : Manager) (d : Nat) :
    m.unpinAll.pin? d = m.pin? d ∨ (m.entry? d ≠ none ∧ m.unpinAll.pin? d = none) := by
  rw [pin?_unpinAll]
  cases h : m.entry? d with
  | none => exact .inl rfl
  | some x => exact .inr ⟨nofun, rfl⟩

/-- A document that is there was there before. -/
theorem Move.isLive_of (h : Move m e m') (hd : m'.isLive d = true) : m.isLive d = true := by
  cases h with
  | start here live gone cancelled swept =>
      cases swept
      exact hd
  | sweep swept =>
      cases swept
      exact hd
  | @forget c unused =>
      simp only [Manager.isLive, List.contains_cons, Bool.not_or, Bool.and_eq_true] at hd
      exact hd.2
  | _ => exact hd

/-- What a document that stays holds changes in no other way. -/
theorem Move.pinning (h : Move m e m') (hd : m'.isLive d = true) : Pinning m d e m' := by
  cases h with
  | @pin n f a flight phase =>
      have hp : ((m.setPhase n (.pinned (.built a) true)).pinCache n f.document).pin? d =
          if d = f.document then some n else m.pin? d :=
        pin?_pinCache (m.setPhase n (.pinned (.built a) true)) n f.document d
      by_cases hf : d = f.document
      · refine .pinned flight phase hf.symm (setPhase_flights flight _) ?_
        rw [hp, if_pos hf]
      · rw [if_neg hf] at hp
        exact .same hp
  | start here live gone cancelled swept =>
      cases swept
      exact .same rfl
  | sweep swept =>
      cases swept
      exact .same rfl
  | beginClear =>
      rcases pinning_unpinAll m d with same | ⟨entry, none⟩
      · exact .same same
      · exact .released entry (.inl rfl) none
  | drop left calm =>
      rcases pinning_unpinAll m d with same | ⟨entry, none⟩
      · exact .same same
      · exact .released entry (.inr rfl) none
  | @forget c unused =>
      refine .same ((pin?_forget m c d).trans (if_neg ?_))
      rintro rfl
      simp [Manager.isLive] at hd
  | _ => exact .same rfl

/-- A build that has a cache for its manager pins it. -/
theorem Move.pin?_of_pin (h : Move m (.pin n) m') (hf : m.flights[n]? = some f)
    (hp : f.phase = .finished (.built a) true) (hg : m'.flights[n]? = some g)
    (hq : g.phase = .pinned (.built a) true) : m'.pin? f.document = some n := by
  have changed (h : m.flights[n]? = some g) : False := by
    cases hf.symm.trans h
    cases hp.symm.trans hq
  cases h with
  | idle | hold => exact (changed hg).elim
  | advance flight next =>
      obtain rfl := Option.some.inj next.build?
      cases hf.symm.trans flight
      rw [hp] at next
      cases next with
      | pass h => cases h a rfl
  | pin flight phase =>
      cases hf.symm.trans flight
      exact (pin?_pinCache _ n f.document f.document).trans (if_pos rfl)

/-- Documents hold caches that flights of theirs have built. -/
def Backed (m : Manager) : Prop :=
  ∀ d n : Nat, m.isLive d = true → m.pin? d = some n →
    ∃ f a, m.flights[n]? = some f ∧ f.document = d ∧ f.artifacts? = some a ∧
      f.phase.holdsDocument = false

namespace Backed

theorem new (interval : Nat) : Backed (.new interval) := fun _ _ _ h => by cases h

theorem move (h : m.Backed) (hm : Move m e m') : m'.Backed := by
  intro d n live hp
  cases hm.pinning live with
  | same same =>
      obtain ⟨f, a, hf, hd, ha, hh⟩ := h d n (hm.isLive_of live) (same.symm.trans hp)
      obtain ⟨g, hg, hl⟩ := hm.later hf
      refine ⟨g, a, hg, hl.document.trans hd, hl.artifacts ha, Bool.eq_false_iff.2 fun hb => ?_⟩
      rw [(hm.goes hf hg).holdsDocument hb] at hh
      cases hh
  | pinned flight phase document after pin =>
      cases hp.symm.trans pin
      exact ⟨_, _, after, document, rfl, rfl⟩
  | released entry clears none => cases none.symm.trans hp

/-- Documents hold what flights of theirs have built, after every run. -/
theorem run (h : m.Backed) (es : List Event) : (m.run es).Backed :=
  run_induction h (fun m e h => h.move (move_step m e)) es

end Backed

/-- A cache that a document holds has not disappeared. -/
theorem alive?_of_pin? (hp : m.pin? d = some n) (ha : m.artifacts? n = some a) :
    m.alive? n = some a := by
  obtain ⟨l₁, l₂, hl, -⟩ := List.lookup_eq_some_iff.1 hp
  have hk : m.keeps n = true := by simp [keeps, hl]
  rw [alive?, if_pos hk, ha]

end Xref.Manager
