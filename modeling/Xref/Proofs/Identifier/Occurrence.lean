import Xref.Identifier.Occurrence

/-!
# What the search for a name finds

The search compares pieces of text by their keys, one character after the other. It finds exactly
the pieces that have the key of the name, the first of them (`Comparison.find?_eq_some`), and none
only if there is none (`Comparison.find?_eq_none`). A piece is known by where it begins, since no
character folds to nothing (`Comparison.size_eq_of_key_eq`).
-/

namespace Xref.Comparison

variable {m : Comparison} {k s : Text}

theorem key_nil (m : Comparison) : m.key [] = [] := by
  cases m <;> rfl

theorem key_eq_nil {s : Text} (h : m.key s = []) : s = [] := by
  by_cases hs : s = []
  · exact hs
  · exact absurd h (key_ne_nil hs)

theorem stripLeading?_eq_some {p s r : Text} : stripLeading? p s = some r ↔ s = p ++ r := by
  induction p generalizing s with
  | nil => exact ⟨fun h => Option.some.inj h, fun h => congrArg some h⟩
  | cons c p ih =>
      cases s with
      | nil => exact ⟨nofun, nofun⟩
      | cons d s =>
          rw [stripLeading?]
          by_cases hc : c = d
          · rw [if_pos hc, ih, hc, List.cons_append, List.cons.injEq]
            exact ⟨fun h => ⟨rfl, h⟩, And.right⟩
          · rw [if_neg hc, List.cons_append, List.cons.injEq]
            exact ⟨nofun, fun h => absurd h.1.symm hc⟩

theorem foldedSize?_eq_some {f : Text} (hf : f ≠ []) {b : Nat} :
    foldedSize? f s = some b ↔ ∃ u r, s = u ++ r ∧ Text.fold u = f ∧ Text.size u = b := by
  induction s generalizing f b with
  | nil =>
      constructor
      · intro h
        cases h
      · rintro ⟨u, r, hs, hu, -⟩
        obtain ⟨rfl, -⟩ := List.append_eq_nil_iff.1 hs.symm
        exact absurd hu.symm hf
  | cons c s ih =>
      rw [foldedSize?]
      constructor
      · intro h
        split at h
        · cases h
        · next hc =>
            obtain rfl := Option.some.inj h
            rw [stripLeading?_eq_some, List.append_nil] at hc
            exact ⟨[c], s, rfl, by rw [hc]; exact List.append_nil _, rfl⟩
        · next d g hc =>
            obtain ⟨b, hb, rfl⟩ := Option.map_eq_some_iff.1 h
            obtain ⟨u, r, rfl, hu, rfl⟩ := (ih (List.cons_ne_nil d g)).1 hb
            rw [stripLeading?_eq_some] at hc
            exact ⟨c :: u, r, rfl, by rw [hc, ← hu]; rfl, rfl⟩
      · rintro ⟨u, r, hs, hu, hb⟩
        cases u with
        | nil => exact absurd hu.symm hf
        | cons d u =>
            obtain ⟨rfl, rfl⟩ := List.cons.inj hs
            have hc : stripLeading? (Unicode.lowercase c) f = some (Text.fold u) :=
              stripLeading?_eq_some.2 hu.symm
            rw [hc]
            cases u with
            | nil => rw [← hb]; rfl
            | cons e u =>
                have hne : Text.fold (e :: u) ≠ [] :=
                  key_ne_nil (m := .ignoreCase) (List.cons_ne_nil e u)
                have hi := (ih hne).2 ⟨e :: u, r, rfl, rfl, rfl⟩
                generalize Text.fold (e :: u) = g at hne hi ⊢
                cases g with
                | nil => exact absurd rfl hne
                | cons d g =>
                    show (foldedSize? (d :: g) _).map _ = some b
                    rw [hi, ← hb]
                    rfl

theorem leadingSize?_eq_some (hk : k ≠ []) {b : Nat} :
    m.leadingSize? k s = some b ↔ ∃ u r, s = u ++ r ∧ m.key u = k ∧ Text.size u = b := by
  cases m with
  | ordinal =>
      rw [leadingSize?, Option.map_eq_some_iff]
      constructor
      · rintro ⟨r, hr, rfl⟩
        exact ⟨k, r, stripLeading?_eq_some.1 hr, rfl, rfl⟩
      · rintro ⟨u, r, hs, rfl, rfl⟩
        exact ⟨r, stripLeading?_eq_some.2 hs, rfl⟩
  | ignoreCase => exact foldedSize?_eq_some hk

theorem size_eq_of_key_eq {u v r r' : Text} (h : u ++ r = v ++ r') (hk : m.key u = m.key v) :
    u.size = v.size := by
  by_cases hu : u = []
  · rw [hu, key_nil] at hk
    rw [hu, key_eq_nil hk.symm]
  · have h₁ := (leadingSize?_eq_some (m := m) (key_ne_nil hu)).2 ⟨u, r, rfl, rfl, rfl⟩
    have h₂ := (leadingSize?_eq_some (m := m) (key_ne_nil hu)).2 ⟨v, r', h, hk.symm, rfl⟩
    exact Option.some.inj (h₁.symm.trans h₂)

/-- The piece `u` behind `p` in a text, and it has the key. -/
def Occurs (m : Comparison) (k s p u : Text) : Prop :=
  (∃ r, s = p ++ u ++ r) ∧ m.key u = k

theorem Occurs.cons {p u : Text} {c : Char} (h : m.Occurs k (c :: s) (c :: p) u) :
    m.Occurs k s p u := by
  obtain ⟨⟨r, hr⟩, hk⟩ := h
  exact ⟨⟨r, (List.cons.inj hr).2⟩, hk⟩

theorem firstFrom?_eq_none (hk : k ≠ []) {n : Nat} (h : m.firstFrom? k n s = none) (p u : Text) :
    ¬ m.Occurs k s p u := by
  induction s generalizing n p with
  | nil =>
      rintro ⟨⟨r, hr⟩, hu⟩
      rw [(List.append_eq_nil_iff.1 (List.append_eq_nil_iff.1 hr.symm).1).2, key_nil] at hu
      exact hk hu.symm
  | cons c s ih =>
      rw [firstFrom?] at h
      split at h
      · cases h
      · next hn =>
          intro ho
          cases p with
          | nil =>
              obtain ⟨⟨r, hr⟩, hu⟩ := ho
              have := (leadingSize?_eq_some hk).2 ⟨u, r, hr, hu, rfl⟩
              rw [hn] at this
              cases this
          | cons d p =>
              obtain rfl : c = d := (List.cons.inj ho.1.choose_spec).1
              exact ih h p ho.cons

theorem firstFrom?_eq_some (hk : k ≠ []) {n : Nat} {o : Occurrence}
    (h : m.firstFrom? k n s = some o) :
    (∃ p u, m.Occurs k s p u ∧ n + p.size = o.start ∧ u.size = o.size) ∧
      ∀ p u, m.Occurs k s p u → o.start ≤ n + p.size := by
  induction s generalizing n with
  | nil => cases h
  | cons c s ih =>
      rw [firstFrom?] at h
      split at h
      · next b hb =>
          obtain rfl := Option.some.inj h
          obtain ⟨u, r, hs, hu, rfl⟩ := (leadingSize?_eq_some hk).1 hb
          exact ⟨⟨[], u, ⟨⟨r, hs⟩, hu⟩, rfl, rfl⟩, fun p u _ => Nat.le_add_right _ _⟩
      · next hn =>
          obtain ⟨⟨p, u, ho, hp, hu⟩, hmin⟩ := ih h
          refine ⟨⟨c :: p, u, ?_, ?_, hu⟩, fun p' u' ho' => ?_⟩
          · obtain ⟨⟨r, rfl⟩, hu⟩ := ho
            exact ⟨⟨r, rfl⟩, hu⟩
          · rw [Text.size_cons, ← Nat.add_assoc, hp]
          · cases p' with
            | nil =>
                obtain ⟨⟨r, hr⟩, hu'⟩ := ho'
                have := (leadingSize?_eq_some hk).2 ⟨u', r, hr, hu', rfl⟩
                rw [hn] at this
                cases this
            | cons d p' =>
                obtain rfl : c = d := (List.cons.inj ho'.1.choose_spec).1
                rw [Text.size_cons, ← Nat.add_assoc]
                exact hmin p' u' ho'.cons

/-- Of two initial pieces of one text the longer begins with the shorter. -/
theorem exists_append_of_size_le {p q a b : Text} (h : p ++ a = q ++ b) (hs : q.size ≤ p.size) :
    ∃ p', p = q ++ p' ∧ b = p' ++ a := by
  rcases List.append_eq_append_iff.1 h with ⟨x, hq, ha⟩ | ⟨x, hp, hb⟩
  · rw [hq, Text.size_append] at hs
    have hx : x = [] := Text.size_eq_zero.1 (by omega)
    rw [hx, List.append_nil] at hq
    rw [hx, List.nil_append] at ha
    exact ⟨[], by rw [hq, List.append_nil], ha.symm⟩
  · exact ⟨x, hp, hb⟩

variable {name : Text} {n : Nat}

/-- A search finds the first piece with the key of the name at or after the offset. -/
theorem find?_eq_some (hn : name ≠ []) {o : Occurrence} (h : m.find? name s n = some o) :
    (∃ p u, m.Occurs (m.key name) s p u ∧ p.size = o.start ∧ u.size = o.size) ∧
      ∀ p u, m.Occurs (m.key name) s p u → n ≤ p.size → o.start ≤ p.size := by
  unfold find? at h
  split at h
  · cases h
  · next r hr =>
      rw [if_neg hn] at h
      obtain ⟨q, rfl, rfl⟩ := Text.dropBytes?_eq_some_iff.1 hr
      obtain ⟨⟨p, u, ⟨⟨t, ht⟩, hu⟩, hp, hs⟩, hmin⟩ := firstFrom?_eq_some (key_ne_nil hn) h
      refine ⟨⟨q ++ p, u, ⟨⟨t, ?_⟩, hu⟩, ?_, hs⟩, ?_⟩
      · rw [ht, List.append_assoc, List.append_assoc, List.append_assoc]
      · rw [Text.size_append, hp]
      · rintro p' u' ⟨⟨t', ht'⟩, hu'⟩ hle
        rw [List.append_assoc] at ht'
        obtain ⟨x, rfl, hx⟩ := exists_append_of_size_le ht'.symm hle
        rw [← List.append_assoc] at hx
        rw [Text.size_append]
        exact hmin x u' ⟨⟨t', hx⟩, hu'⟩

/-- A search from between two characters finds nothing only if no piece has the key. -/
theorem find?_eq_none (hn : name ≠ []) (h : m.find? name s n = none)
    (hb : ∃ q r, s = q ++ r ∧ Text.size q = n) {p u : Text} (ho : m.Occurs (m.key name) s p u) :
    p.size < n := by
  obtain ⟨q, r, rfl, rfl⟩ := hb
  have hr := (Text.dropBytes?_eq_some_iff (s := q ++ r)).2 ⟨q, rfl, rfl⟩
  rw [find?, hr] at h
  dsimp only at h
  rw [if_neg hn] at h
  rcases Nat.lt_or_ge p.size q.size with hlt | hle
  · exact hlt
  · obtain ⟨⟨t, ht⟩, hu⟩ := ho
    rw [List.append_assoc] at ht
    obtain ⟨x, rfl, hx⟩ := exists_append_of_size_le ht.symm hle
    rw [← List.append_assoc] at hx
    exact absurd ⟨⟨t, hx⟩, hu⟩ (firstFrom?_eq_none (key_ne_nil hn) h x u)

end Xref.Comparison
