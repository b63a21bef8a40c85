import Xref.Proofs.Grammar.CSharp

/-!
# Braces and nodes open and close in step

The C# parser moves braces in many places: as marks of namespaces, types and blocks, whose frames
they open and close, and as plain tokens in the attributes in front of an item. It knows nothing of
the nesting of parentheses, brackets and braces in the text. Where that nesting is proper, though,
braces and nodes close in the order in which they were opened, each after what was opened inside it
(`CSharp.run_events`): no brace is closed from inside a node that was opened behind it, and none is
noted as missing.

What is open so far is read off the events by `Opening.run`. The invariant ties it to the text from
both sides. The marks that the text ahead has still to close are as many braces as are open
(`InStep`), and the open braces and nodes are those that the frames close with (`State.InStep`). So
a closing brace is ahead only if a frame waits for it, and the text cannot end before it came.
-/

namespace Xref

/-! ## Proper nesting -/

namespace TokenKind

/-- The mark that closes what a mark opens. -/
def closer? : TokenKind → Option TokenKind
  | openParen => some closeParen
  | openBrace => some closeBrace
  | openBracket => some closeBracket
  | _ => none

/-- The mark closes another. -/
def closes : TokenKind → Bool
  | closeParen | closeBrace | closeBracket => true
  | _ => false

theorem closer?_eq_closeBrace {k : TokenKind} : k.closer? = some closeBrace ↔ k = openBrace := by
  cases k <;> decide

theorem closer?_eq_closeBracket {k : TokenKind} :
    k.closer? = some closeBracket ↔ k = openBracket := by
  cases k <;> decide

theorem closes_eq_false {k m : TokenKind} (h : k.closer? = some m) : k.closes = false := by
  cases k <;> cases h <;> rfl

theorem ne_of_closes {k m : TokenKind} (hk : k.closes = true) (hm : m.closes = false) : k ≠ m := by
  rintro rfl
  rw [hk] at hm
  cases hm

theorem ne_of_closer? {k m : TokenKind} (hk : k.closer? = none) (hm : m.closer?.isSome = true) :
    k ≠ m := by
  rintro rfl
  rw [hk] at hm
  cases hm

end TokenKind

/-- Every mark that closes is the next of the pending ones, and in the end none is pending. -/
def nested (pending : List TokenKind) : List TokenKind → Bool
  | [] => pending.isEmpty
  | k :: ks =>
    match k.closer? with
    | some m => nested (m :: pending) ks
    | none =>
      if k.closes then
        match pending with
        | [] => false
        | m :: rest => m == k && nested rest ks
      else nested pending ks

section

variable {B ks : List TokenKind} {k m : TokenKind}

theorem nested_nil : nested B [] = true ↔ B = [] :=
  List.isEmpty_iff

theorem nested_open (h : k.closer? = some m) : nested B (k :: ks) = nested (m :: B) ks := by
  simp only [nested, h]

theorem nested_close (h : k.closes = true) :
    nested B (k :: ks) = true ↔ ∃ B', B = k :: B' ∧ nested B' ks = true := by
  have hn : k.closer? = none := by
    cases k <;> first | rfl | cases h
  cases B with
  | nil => simp [nested, hn, h]
  | cons m B => simp [nested, hn, h, and_assoc]

theorem nested_other (ho : k.closer? = none) (hc : k.closes = false) :
    nested B (k :: ks) = nested B ks := by
  simp [nested, ho, hc]

theorem nested_cons (h : nested B (k :: ks) = true) :
    (∃ m, k.closer? = some m ∧ nested (m :: B) ks = true) ∨
      (k.closes = true ∧ ∃ B', B = k :: B' ∧ nested B' ks = true) ∨
      k.closer? = none ∧ k.closes = false ∧ nested B ks = true := by
  cases ho : k.closer? with
  | some m => exact .inl ⟨m, rfl, nested_open ho ▸ h⟩
  | none =>
      cases hc : k.closes with
      | true => exact .inr (.inl ⟨rfl, (nested_close hc).1 h⟩)
      | false => exact .inr (.inr ⟨rfl, rfl, nested_other ho hc ▸ h⟩)

/-- A mark that neither opens nor closes does not matter at the end. -/
theorem nested_append_other (ho : k.closer? = none) (hc : k.closes = false) :
    nested B (ks ++ [k]) = true → nested B ks = true := by
  intro h
  induction ks generalizing B with
  | nil => exact nested_other ho hc ▸ h
  | cons j ks ih =>
      rw [List.cons_append] at h
      rcases nested_cons h with ⟨m, hj, hn⟩ | ⟨hj, B', rfl, hn⟩ | ⟨hj, hj', hn⟩
      · rw [nested_open hj]
        exact ih hn
      · exact (nested_close hj).2 ⟨B', rfl, ih hn⟩
      · rw [nested_other hj hj']
        exact ih hn

theorem exists_nested_drop {us : List TokenKind} (h : nested B (us ++ ks) = true) :
    ∃ B', nested B' ks = true := by
  induction us generalizing B with
  | nil => exact ⟨B, h⟩
  | cons k us ih =>
      rcases nested_cons h with ⟨m, -, hn⟩ | ⟨-, B', -, hn⟩ | ⟨-, -, hn⟩
      · exact ih hn
      · exact ih hn
      · exact ih hn

/-- A pending mark comes, behind what the marks pending before it enclose. -/
theorem exists_close {X : List TokenKind} (h : nested (X ++ m :: B) ks = true) :
    ∃ us vs, ks = us ++ m :: vs ∧ nested X us = true ∧ nested B vs = true := by
  induction ks generalizing X with
  | nil =>
      have := nested_nil.1 h
      simp at this
  | cons k ks ih =>
      rcases nested_cons h with ⟨j, hk, h⟩ | ⟨hk, B', hB, h⟩ | ⟨hk, hk', h⟩
      · obtain ⟨us, vs, rfl, hu, hv⟩ := ih (X := j :: X) h
        exact ⟨k :: us, vs, rfl, nested_open hk ▸ hu, hv⟩
      · cases X with
        | nil =>
            obtain ⟨rfl, rfl⟩ := List.cons.inj hB
            exact ⟨[], ks, rfl, rfl, h⟩
        | cons x X =>
            obtain ⟨rfl, rfl⟩ := List.cons.inj hB
            obtain ⟨us, vs, rfl, hu, hv⟩ := ih h
            exact ⟨x :: us, vs, rfl, (nested_close hk).2 ⟨X, rfl, hu⟩, hv⟩
      · obtain ⟨us, vs, rfl, hu, hv⟩ := ih h
        exact ⟨k :: us, vs, rfl, (nested_other hk hk').symm ▸ hu, hv⟩

end

/-! ## What events leave open -/

/-- A node or a brace that has been opened. -/
inductive Opening
  | node
  | brace
  deriving DecidableEq

namespace Opening

/-- What is open after an event, the innermost first; nothing where the event closes something else
than the innermost, or notes that a brace is missing. -/
def step (E : List Opening) : Event → Option (List Opening)
  | .opened _ => some (node :: E)
  | .closed => if E.head? = some node then some E.tail else none
  | .token l =>
    match l.kind with
    | .openBrace => some (brace :: E)
    | .closeBrace => if E.head? = some brace then some E.tail else none
    | _ => some E
  | .missing k => if k = .closeBrace then none else some E

/-- What is open after some events. -/
def run (E : List Opening) : List Event → Option (List Opening)
  | [] => some E
  | e :: es => (step E e).bind (run · es)

theorem run_append (E : List Opening) (es fs : List Event) :
    run E (es ++ fs) = (run E es).bind (run · fs) := by
  induction es generalizing E with
  | nil => rfl
  | cons e es ih =>
      rw [List.cons_append, run, run, Option.bind_assoc]
      exact congrArg _ (funext ih)

theorem run_concat {E F : List Opening} {es : List Event} (h : run E es = some F) (e : Event) :
    run E (es ++ [e]) = step F e := by
  rw [run_append, h, Option.bind_some, run]
  cases step F e <;> rfl

theorem step_token {E : List Opening} {l : Lexeme} (ho : l.kind ≠ .openBrace)
    (hc : l.kind ≠ .closeBrace) : step E (.token l) = some E := by
  simp only [step]

theorem step_open {E : List Opening} {l : Lexeme} (h : l.kind = .openBrace) :
    step E (.token l) = some (brace :: E) := by
  rw [step, h]

theorem step_close {E : List Opening} {l : Lexeme} (h : l.kind = .closeBrace) :
    step (brace :: E) (.token l) = some E := by
  rw [step, h]
  rfl

end Opening

/-! ## Cursors in step with the text -/

/-- The marks `B` are pending ahead of a cursor, and the events so far leave `E` open. -/
structure Awaits (B : List TokenKind) (E : List Opening) (c : Cursor) : Prop where
  run : Opening.run [] c.events.reverse = some E
  nested : nested B (c.ahead.map Lexeme.kind) = true
  real : ∀ l ∈ c.ahead, l.kind ≠ .endOfFile

namespace Awaits

variable {B B' : List TokenKind} {E E' : List Opening} {c : Cursor} {k : NodeKind} {l : Lexeme}
  {ls : List Lexeme}

theorem event (h : Awaits B E c) {e : Event} (he : Opening.step E e = some E') :
    Awaits B E' { c with events := e :: c.events } where
  run := by
    rw [List.reverse_cons, Opening.run_concat h.run, he]
  nested := h.nested
  real := h.real

theorem openNode (h : Awaits B E c) (k : NodeKind) : Awaits B (.node :: E) (c.openNode k) :=
  h.event rfl

theorem close (h : Awaits B (.node :: E) c) : Awaits B E c.close :=
  h.event rfl

theorem missing (h : Awaits B E c) {k : TokenKind} (hk : k ≠ .closeBrace) :
    Awaits B E (c.missing k) :=
  h.event (if_neg hk)

theorem bump (h : Awaits B E c) (ha : c.ahead = l :: ls)
    (hn : Xref.nested B' (ls.map Lexeme.kind) = true)
    (he : Opening.step E (.token l) = some E') : Awaits B' E' c.bump := by
  rw [Cursor.bump, ha]
  refine ⟨?_, hn, fun l hl => h.real l ?_⟩
  · rw [List.reverse_cons, Opening.run_concat h.run, he]
  · rw [ha]
    exact List.mem_cons_of_mem _ hl

theorem wrap (h : Awaits B E c) (ha : c.ahead = l :: ls)
    (hn : Xref.nested B' (ls.map Lexeme.kind) = true) (hl : l.kind = .identifier) (k : NodeKind) :
    Awaits B' E (c.wrap k) := by
  have hs : Opening.step (.node :: E) (.token l) = some (.node :: E) :=
    Opening.step_token (by rw [hl]; decide) (by rw [hl]; decide)
  exact ((h.openNode k).bump ha hn hs).close

end Awaits

/-- As many braces are pending ahead as have been opened. -/
def InStep (E : List Opening) (c : Cursor) : Prop :=
  ∃ B, Awaits B E c ∧ B.count .closeBrace = E.count .brace

namespace InStep

variable {E : List Opening} {c : Cursor} {k : NodeKind}

theorem openNode (h : InStep E c) (k : NodeKind) : InStep (.node :: E) (c.openNode k) := by
  obtain ⟨B, h, hn⟩ := h
  exact ⟨B, h.openNode k, hn⟩

theorem close (h : InStep (.node :: E) c) : InStep E c.close := by
  obtain ⟨B, h, hn⟩ := h
  exact ⟨B, h.close, hn⟩

theorem closeMany {n : Nat} (h : InStep (List.replicate n .node ++ E) c) :
    InStep E (c.closeMany n) := by
  induction n generalizing c with
  | zero => exact h
  | succ n ih => exact ih (close h)

theorem missing (h : InStep E c) {k : TokenKind} (hk : k ≠ .closeBrace) :
    InStep E (c.missing k) := by
  obtain ⟨B, h, hn⟩ := h
  exact ⟨B, h.missing hk, hn⟩

theorem nested_tail {B : List TokenKind} {k : TokenKind} {ks : List TokenKind}
    (h : nested B (k :: ks) = true) (ho : k ≠ .openBrace) (hc : k ≠ .closeBrace) :
    ∃ B', nested B' ks = true ∧ B'.count .closeBrace = B.count .closeBrace := by
  rcases nested_cons h with ⟨m, hm, hn⟩ | ⟨hk, B', rfl, hn⟩ | ⟨-, -, hn⟩
  · refine ⟨m :: B, hn, List.count_cons_of_ne ?_⟩
    rintro rfl
    exact ho (TokenKind.closer?_eq_closeBrace.1 hm)
  · exact ⟨B', hn, (List.count_cons_of_ne hc).symm⟩
  · exact ⟨B, hn, rfl⟩

theorem bump (h : InStep E c) (ho : c.kind 0 ≠ .openBrace) (hc : c.kind 0 ≠ .closeBrace) :
    InStep E c.bump := by
  obtain ⟨B, h, hn⟩ := h
  cases ha : c.ahead with
  | nil =>
      rw [Cursor.bump, ha]
      exact ⟨B, h, hn⟩
  | cons l ls =>
      rw [Cursor.kind, ha] at ho hc
      have hl := h.nested
      rw [ha] at hl
      obtain ⟨B', hn', hcount⟩ := nested_tail hl ho hc
      exact ⟨B', h.bump ha hn' (Opening.step_token ho hc), hcount.trans hn⟩

theorem bump_sees {k : TokenKind} (h : InStep E c) (hs : c.sees k = true) (ho : k ≠ .openBrace)
    (hc : k ≠ .closeBrace) : InStep E c.bump := by
  obtain rfl : c.kind 0 = k := eq_of_beq hs
  exact h.bump ho hc

theorem expect {k : TokenKind} (h : InStep E c) (ho : k ≠ .openBrace)
    (hc : k ≠ .closeBrace) : InStep E (c.expect k) := by
  unfold Cursor.expect
  split
  · next hs => exact h.bump_sees hs ho hc
  · exact h.missing hc

theorem wrap (h : InStep E c) (hs : c.sees .identifier = true) (k : NodeKind) :
    InStep E (c.wrap k) :=
  ((h.openNode k).bump_sees (c := c.openNode k) hs (by decide) (by decide)).close

theorem bump_open (h : InStep E c) (hk : c.kind 0 = .openBrace) : InStep (.brace :: E) c.bump := by
  obtain ⟨B, h, hn⟩ := h
  obtain ⟨l, ls, ha, hl⟩ := Cursor.exists_ahead (c := c) (by rw [hk]; decide)
  rw [hk] at hl
  have hn' := h.nested
  rw [ha, List.map_cons, hl, nested_open rfl] at hn'
  refine ⟨_, h.bump ha hn' (Opening.step_open hl), ?_⟩
  rw [List.count_cons_self, List.count_cons_self, hn]

/-- A closing brace is pending where it stands. -/
theorem exists_pending {B : List TokenKind} (h : Awaits B E c) (hk : c.kind 0 = .closeBrace) :
    ∃ l ls B', c.ahead = l :: ls ∧ l.kind = .closeBrace ∧ B = .closeBrace :: B' ∧
      nested B' (ls.map Lexeme.kind) = true := by
  obtain ⟨l, ls, ha, hl⟩ := Cursor.exists_ahead (c := c) (by rw [hk]; decide)
  rw [hk] at hl
  have hn := h.nested
  rw [ha, List.map_cons, hl] at hn
  obtain ⟨B', rfl, hn⟩ := (nested_close rfl).1 hn
  exact ⟨l, ls, B', ha, hl, rfl, hn⟩

theorem bump_close (h : InStep (.brace :: E) c) (hk : c.kind 0 = .closeBrace) :
    InStep E c.bump := by
  obtain ⟨B, h, hn⟩ := h
  obtain ⟨l, ls, B', ha, hl, rfl, hn'⟩ := exists_pending h hk
  refine ⟨B', h.bump ha hn' (Opening.step_close hl), ?_⟩
  rw [List.count_cons_self, List.count_cons_self] at hn
  exact Nat.succ.inj hn

theorem count_pos (h : InStep E c) (hk : c.kind 0 = .closeBrace) : 0 < E.count .brace := by
  obtain ⟨B, h, hn⟩ := h
  obtain ⟨l, ls, B', -, -, rfl, -⟩ := exists_pending h hk
  rw [List.count_cons_self] at hn
  omega

theorem count_eq_zero (h : InStep E c) (hk : c.kind 0 = .endOfFile) :
    c.ahead = [] ∧ E.count .brace = 0 := by
  obtain ⟨B, h, hn⟩ := h
  cases ha : c.ahead with
  | nil =>
      have hb := h.nested
      rw [ha] at hb
      rw [nested_nil.1 hb] at hn
      exact ⟨rfl, hn.symm⟩
  | cons l ls =>
      rw [Cursor.kind, ha] at hk
      exact absurd hk (h.real l (by rw [ha]; exact List.mem_cons_self))

end InStep

namespace CSharp

variable {E : List Opening} {B : List TokenKind} {c : Cursor} {k : NodeKind}

/-! ## Runs of tokens -/

theorem awaits_moveToken {B' : List TokenKind} {E' : List Opening} {l : Lexeme} {ls : List Lexeme}
    (h : Awaits B E c) (ha : c.ahead = l :: ls) (hn : nested B' (ls.map Lexeme.kind) = true)
    (he : Opening.step E (.token l) = some E') : Awaits B' E' (moveToken c) := by
  unfold moveToken
  split
  · next hs =>
      have hl : l.kind = .identifier := by
        rw [Cursor.sees, Cursor.kind, ha] at hs
        exact eq_of_beq hs
      rw [Opening.step_token (by rw [hl]; decide) (by rw [hl]; decide)] at he
      obtain rfl := Option.some.inj he
      exact h.wrap ha hn hl _
  · exact h.bump ha hn he

theorem inStep_moveReference (h : InStep E c) (ho : c.kind 0 ≠ .openBrace)
    (hc : c.kind 0 ≠ .closeBrace) : InStep E (moveReference c) := by
  unfold moveReference
  split
  · next hs => exact h.wrap hs _
  · exact h.bump ho hc

theorem inStep_moveToken (h : InStep E c) (ho : c.kind 0 ≠ .openBrace)
    (hc : c.kind 0 ≠ .closeBrace) : InStep E (moveToken c) := by
  unfold moveToken
  split
  · next hs => exact h.wrap hs _
  · exact h.bump ho hc

theorem inStep_moveUntil {k : List TokenKind} {move : Cursor → Cursor}
    {t : ∀ c, (move c).ahead = c.ahead.tail} (h : InStep E c) (ho : .openBrace ∈ k)
    (hc : .closeBrace ∈ k)
    (hm : ∀ {c : Cursor}, InStep E c → c.kind 0 ≠ .openBrace → c.kind 0 ≠ .closeBrace →
      InStep E (move c)) : InStep E (moveUntil k move t c) := by
  refine repeatUntil_induct (P := InStep E) c h fun c hs h => hm h ?_ ?_
  · intro hk
    simp [hk, ho] at hs
  · intro hk
    simp [hk, hc] at hs

theorem inStep_moveListItems (h : InStep E c) : InStep E (moveListItems c) := by
  refine repeatUntil_induct (P := fun s : Cursor × Nat => InStep E s.1) (c, 0) h fun s hs h => ?_
  have ho : s.1.kind 0 ≠ .openBrace := by
    intro hk
    simp [hk] at hs
  have hc : s.1.kind 0 ≠ .closeBrace := by
    intro hk
    simp [hk] at hs
  split
  · exact h.bump ho hc
  · exact h.bump ho hc
  · exact inStep_moveToken h ho hc

theorem inStep_moveList (h : InStep E c) (k : NodeKind) : InStep E (moveList c k) := by
  unfold moveList
  simp only
  split
  · next hs =>
      have hb := (h.openNode k).bump_sees hs (by decide) (by decide)
      exact ((inStep_moveListItems hb).expect (by decide) (by decide)).close
  · exact (((h.openNode k).missing (by decide)).missing (by decide)).close

/-! ## Attributes and modifiers -/

/-- The marks `X` are pending in an attribute, the bracket that ends it last of all. Outside
attributes none is. -/
def InAttribute (X : List TokenKind) : Prop :=
  ∀ m ∈ X.getLast?, m = .closeBracket

theorem InAttribute.nil : InAttribute [] := by
  intro m hm
  cases hm

theorem InAttribute.cons {X : List TokenKind} {m : TokenKind} (h : InAttribute X) (hX : X ≠ []) :
    InAttribute (m :: X) := by
  intro x hx
  rw [List.getLast?_cons, List.getLast?_eq_some_getLast hX, Option.getD_some] at hx
  obtain rfl := Option.some.inj hx
  exact h _ (List.getLast?_eq_some_getLast hX)

theorem InAttribute.tail {X : List TokenKind} {m : TokenKind} (h : InAttribute (m :: X)) :
    InAttribute X := by
  intro x hx
  refine h x ?_
  rw [List.getLast?_cons, hx]
  rfl

theorem InAttribute.eq_nil {X : List TokenKind} (h : InAttribute X)
    (hX : X.count .closeBracket = 0) : X = [] := by
  cases hx : X.getLast? with
  | none => exact List.getLast?_eq_none_iff.1 hx
  | some m =>
      obtain rfl := h m hx
      exact absurd (List.mem_of_getLast? hx) (List.count_eq_zero.1 hX)

/-- The braces that are open in an attribute. -/
def attributeBraces (X : List TokenKind) : List Opening :=
  List.replicate (X.count .closeBrace) .brace

theorem attributeBraces_cons {X : List TokenKind} {m : TokenKind} (h : m ≠ .closeBrace) :
    attributeBraces (m :: X) = attributeBraces X := by
  rw [attributeBraces, List.count_cons_of_ne h]
  rfl

theorem attributeBraces_brace {X : List TokenKind} :
    attributeBraces (.closeBrace :: X) = .brace :: attributeBraces X := by
  rw [attributeBraces, List.count_cons_self, List.replicate_succ]
  rfl

theorem step_opens {X : List TokenKind} {l : Lexeme} {m : TokenKind}
    (h : l.kind.closer? = some m) :
    Opening.step (attributeBraces X ++ E) (.token l) = some (attributeBraces (m :: X) ++ E) := by
  by_cases hm : m = .closeBrace
  · subst hm
    rw [attributeBraces_brace]
    exact Opening.step_open (TokenKind.closer?_eq_closeBrace.1 h)
  · rw [attributeBraces_cons hm]
    refine Opening.step_token (fun ho => hm ?_) ?_
    · exact Option.some.inj (h.symm.trans (TokenKind.closer?_eq_closeBrace.2 ho))
    · exact (TokenKind.ne_of_closes rfl (TokenKind.closes_eq_false h)).symm

theorem step_closes {X : List TokenKind} {l : Lexeme} (h : l.kind.closes = true) :
    Opening.step (attributeBraces (l.kind :: X) ++ E) (.token l) =
      some (attributeBraces X ++ E) := by
  by_cases hm : l.kind = .closeBrace
  · rw [hm, attributeBraces_brace]
    exact Opening.step_close hm
  · rw [attributeBraces_cons hm]
    exact Opening.step_token (TokenKind.ne_of_closes h rfl) hm

theorem step_plain {l : Lexeme} (ho : l.kind.closer? = none) (hc : l.kind.closes = false) :
    Opening.step E (.token l) = some E :=
  Opening.step_token (TokenKind.ne_of_closer? ho rfl) (TokenKind.ne_of_closes rfl hc).symm

theorem headLength_cons {d : Nat} {l : Lexeme} {ls : List Lexeme} :
    headLength (d + 1) (l :: ls) = 1 + headLength
      (if l.kind = .openBracket then d + 2 else if l.kind = .closeBracket then d else d + 1) ls := by
  rw [headLength]
  split
  · next h => rw [if_pos h]
  · next h => rw [if_neg (by rw [h]; decide), if_pos h]
  · next h h' => rw [if_neg h, if_neg h']

/-- A lexeme in an attribute. Behind it stand the marks `X'`. -/
theorem exists_inAttribute {X : List TokenKind} {d : Nat} {l : Lexeme} {ls : List Lexeme}
    (hX : InAttribute X) (hd : X.count .closeBracket = d + 1) (ha : c.ahead = l :: ls)
    (h : Awaits (X ++ B) (attributeBraces X ++ E) c) :
    ∃ X', InAttribute X' ∧ Awaits (X' ++ B) (attributeBraces X' ++ E) (moveToken c) ∧
      headLength (d + 1) (l :: ls) = 1 + headLength (X'.count .closeBracket) ls := by
  have hn := h.nested
  rw [ha, List.map_cons] at hn
  have hne : X ≠ [] := by
    rintro rfl
    cases hd
  rw [headLength_cons]
  rcases nested_cons hn with ⟨m, hm, hn⟩ | ⟨hk, B', hB, hn⟩ | ⟨hk, hk', hn⟩
  · refine ⟨m :: X, hX.cons hne, awaits_moveToken h ha hn (step_opens hm), ?_⟩
    by_cases ho : l.kind = .openBracket
    · obtain rfl := Option.some.inj (hm.symm.trans (TokenKind.closer?_eq_closeBracket.2 ho))
      rw [if_pos ho, List.count_cons_self, hd]
    · rw [if_neg ho, if_neg, List.count_cons_of_ne, hd]
      · rintro rfl
        exact ho (TokenKind.closer?_eq_closeBracket.1 hm)
      · exact (TokenKind.ne_of_closes rfl (TokenKind.closes_eq_false hm)).symm
  · cases X with
    | nil => exact absurd rfl hne
    | cons x X =>
        obtain ⟨rfl, rfl⟩ := List.cons.inj hB
        refine ⟨X, hX.tail, awaits_moveToken h ha hn (step_closes hk), ?_⟩
        have ho : l.kind ≠ .openBracket := TokenKind.ne_of_closes hk rfl
        rw [if_neg ho]
        by_cases hc : l.kind = .closeBracket
        · rw [hc, List.count_cons_self] at hd
          rw [if_pos hc, Nat.succ.inj hd]
        · rw [List.count_cons_of_ne hc] at hd
          rw [if_neg hc, hd]
  · refine ⟨X, hX, awaits_moveToken h ha hn (step_plain hk hk'), ?_⟩
    rw [if_neg (TokenKind.ne_of_closer? hk rfl), if_neg (TokenKind.ne_of_closes rfl hk').symm, hd]

theorem closer?_of_isModifier {l : Lexeme} {k : TokenKind} (h : isModifier l k = true) :
    l.kind.closer? = none ∧ l.kind.closes = false := by
  unfold isModifier at h
  split at h
  · next hk => rw [hk]; exact ⟨rfl, rfl⟩
  · next hk => rw [hk]; exact ⟨rfl, rfl⟩
  · next hk => rw [hk]; exact ⟨rfl, rfl⟩
  · cases h

/-- A lexeme of the head of an item. Behind it stand the marks `X'`. -/
theorem exists_inHead {X : List TokenKind} {l : Lexeme} {ls : List Lexeme}
    (hX : InAttribute X) (ha : c.ahead = l :: ls)
    (h : Awaits (X ++ B) (attributeBraces X ++ E) c)
    (hl : headLength (X.count .closeBracket) (l :: ls) ≠ 0) :
    ∃ X', InAttribute X' ∧ Awaits (X' ++ B) (attributeBraces X' ++ E) (moveToken c) ∧
      headLength (X.count .closeBracket) (l :: ls) =
        1 + headLength (X'.count .closeBracket) ls := by
  cases hd : X.count .closeBracket with
  | succ d => exact exists_inAttribute hX hd ha h
  | zero =>
      obtain rfl := hX.eq_nil hd
      have hn := h.nested
      rw [ha, List.map_cons] at hn
      rw [hd, headLength] at hl
      rw [headLength]
      by_cases ho : l.kind = .openBracket
      · have hm : l.kind.closer? = some .closeBracket := TokenKind.closer?_eq_closeBracket.2 ho
        rw [if_pos ho]
        rw [nested_open hm] at hn
        refine ⟨[.closeBracket], ?_, awaits_moveToken h ha hn (step_opens hm), rfl⟩
        exact fun m hm => (Option.some.inj hm).symm
      · rw [if_neg ho] at hl ⊢
        by_cases hm : isModifier l (firstKind ls) = true
        · obtain ⟨hk, hk'⟩ := closer?_of_isModifier hm
          rw [if_pos hm]
          rw [nested_other hk hk'] at hn
          exact ⟨[], .nil, awaits_moveToken h ha hn (step_plain hk hk'), rfl⟩
        · exact absurd (if_neg hm) hl

/-- The head of an item opens no brace that it does not close, since the brackets around its
attributes are nested with the braces in them. -/
theorem awaits_head {X : List TokenKind} (hX : InAttribute X)
    (h : Awaits (X ++ B) (attributeBraces X ++ E) c) :
    Awaits B E (moveTokens c (headLength (X.count .closeBracket) c.ahead)) := by
  generalize hls : c.ahead = ls
  -- the marks are those of the attribute so far, which each lexeme of the head changes
  induction ls generalizing c X with
  | nil =>
      have hn := h.nested
      rw [hls] at hn
      obtain ⟨rfl, rfl⟩ := List.append_eq_nil_iff.1 (nested_nil.1 hn)
      exact h
  | cons l ls ih =>
      by_cases hl : headLength (X.count .closeBracket) (l :: ls) = 0
      · have hd : X.count .closeBracket = 0 := by
          cases hd : X.count .closeBracket with
          | zero => rfl
          | succ d =>
              rw [hd, headLength_cons] at hl
              omega
        obtain rfl := hX.eq_nil hd
        rw [hl]
        exact h
      · obtain ⟨X', hX', h', he⟩ := exists_inHead hX hls h hl
        rw [he, Nat.add_comm]
        refine ih hX' h' ?_
        rw [ahead_moveToken, hls]
        rfl

theorem inStep_head (h : InStep E c) : InStep E (moveTokens c (headLength 0 c.ahead)) := by
  obtain ⟨B, h, hn⟩ := h
  exact ⟨B, awaits_head .nil h, hn⟩

theorem inStep_headWord {n : Nat} (h : InStep E c) (k : NodeKind) (hn : headLength 0 c.ahead = n)
    (ho : c.kind n ≠ .openBrace) (hc : c.kind n ≠ .closeBrace) :
    InStep (.node :: E) (moveTokens (c.openNode k) n).bump := by
  have hh : InStep (.node :: E) (moveTokens (c.openNode k) n) := hn ▸ inStep_head (h.openNode k)
  have hk : (moveTokens (c.openNode k) n).kind 0 = c.kind n := kind_moveTokens (c.openNode k) n 0
  exact hh.bump (hk ▸ ho) (hk ▸ hc)

/-! ## Items -/

theorem inStep_moveUsing {n : Nat} (h : InStep E c) (hn : headLength 0 c.ahead = n)
    (hk : c.kind n = .usingKeyword) : InStep E (moveUsing c n) := by
  have h₀ := inStep_headWord h .usingDirective hn (by rw [hk]; decide) (by rw [hk]; decide)
  unfold moveUsing
  simp only
  generalize (moveTokens (c.openNode .usingDirective) n).bump = c₀ at h₀ ⊢
  have h₁ : InStep (.node :: E)
      (if c₀.sees .keyword && c₀.valueIs 0 "static" then c₀.bump else c₀) := by
    split
    · next hs => exact h₀.bump_sees (Bool.and_eq_true_iff.1 hs).1 (by decide) (by decide)
    · exact h₀
  generalize (if c₀.sees .keyword && c₀.valueIs 0 "static" then c₀.bump else c₀) = c₁ at h₁ ⊢
  refine InStep.close (InStep.expect ?_ (by decide) (by decide))
  refine inStep_moveUntil ?_ (by decide) (by decide) inStep_moveReference
  split
  · next hs =>
      obtain ⟨hs, he⟩ := Bool.and_eq_true_iff.1 hs
      have he : (c₁.openNode .nameEquals).bump.kind 0 = .equals :=
        (Cursor.kind_bump (c₁.openNode .nameEquals) 0).trans (eq_of_beq he)
      have hb := (h₁.openNode .nameEquals).bump_sees (c := c₁.openNode .nameEquals) hs (by decide)
        (by decide)
      exact (hb.bump (by rw [he]; decide) (by rw [he]; decide)).close
  · split
    · next hs =>
        have hm := (h₁.openNode .nameEquals).missing (k := .identifier) (by decide)
        exact (hm.bump_sees hs (by decide) (by decide)).close
    · exact h₁

theorem inStep_moveInitializer (h : InStep E c) : InStep E (moveInitializer c) := by
  unfold moveInitializer
  split
  · next hs =>
      have hb := (h.openNode .constructorInitializer).bump_sees
        (c := c.openNode .constructorInitializer) hs (by decide) (by decide)
      simp only
      generalize (c.openNode .constructorInitializer).bump = c₁ at hb ⊢
      refine InStep.close (inStep_moveList ?_ _)
      split
      · next hw =>
          rcases Bool.or_eq_true_iff.1 hw with hw | hw
          · exact hb.bump_sees hw (by decide) (by decide)
          · exact hb.bump_sees hw (by decide) (by decide)
      · exact hb.missing (by decide)
  · exact h

/-! ## Frames -/

/-- What closes with a frame: the nodes, and before them the brace unless it is a statement. -/
def OpenFrame.openings (f : OpenFrame) : List Opening :=
  match f.frame with
  | .statement _ _ => List.replicate f.nodes .node
  | _ => .brace :: List.replicate f.nodes .node

/-- What closes with all frames, the innermost first. -/
def openings (fs : List OpenFrame) : List Opening :=
  fs.flatMap OpenFrame.openings

theorem openings_markAfterBlock (fs : List OpenFrame) :
    openings (markAfterBlock fs) = openings fs := by
  unfold markAfterBlock
  split
  · rfl
  · rfl

theorem openings_cons {f : OpenFrame} {fs : List OpenFrame}
    (h : ∀ depth afterBlock nodes, f = ⟨.statement depth afterBlock, nodes⟩ → False) :
    openings (f :: fs) = .brace :: (List.replicate f.nodes .node ++ openings fs) := by
  obtain ⟨frame, nodes⟩ := f
  cases frame with
  | statement depth afterBlock => exact (h _ _ _ rfl).elim
  | _ => rfl

/-- Open are the braces and nodes that close with the frames. -/
def State.InStep (s : State) : Prop :=
  Xref.InStep (openings s.frames) s.cursor

namespace State.InStep

variable {s : State} {fs : List OpenFrame}

theorem closeFrame {f : OpenFrame}
    (h : Xref.InStep (List.replicate f.nodes .node ++ openings fs) c) :
    InStep (State.closeFrame ⟨c, f :: fs⟩) := by
  show Xref.InStep (openings (if _ then _ else _)) (c.closeMany f.nodes)
  have hc := h.closeMany
  split
  · rwa [openings_markAfterBlock]
  · exact hc

theorem stepStatement {depth m : Nat}
    (h : Xref.InStep (List.replicate m .node ++ openings fs) c) :
    InStep (stepStatement c depth m fs) := by
  have go {c : Cursor} (h : Xref.InStep (List.replicate m Opening.node ++ openings fs) c)
      (d : Nat) : InStep ⟨c, ⟨.statement d false, m⟩ :: fs⟩ := h
  unfold CSharp.stepStatement
  split
  · exact h.closeMany
  · exact h.closeMany
  · next hk =>
      have hb := h.bump (by rw [hk]; decide) (by rw [hk]; decide)
      split
      · exact hb.closeMany
      · exact go hb depth
  · next hk => exact (h.openNode .block).bump_open hk
  · next hk => exact go (h.bump (by rw [hk]; decide) (by rw [hk]; decide)) _
  · next hk => exact go (h.bump (by rw [hk]; decide) (by rw [hk]; decide)) _
  · next hk =>
      have hn : Xref.InStep _ (moveName c) := h.wrap (beq_iff_eq.2 hk) _
      simp only
      split
      · exact go (inStep_moveList hn _) depth
      · exact go hn depth
  · exact go (h.bump (by assumption) (by assumption)) depth

theorem bump_semicolon {E : List Opening} (h : Xref.InStep (.node :: E) c)
    (hs : c.sees .semicolon = true) : Xref.InStep E c.bump.close :=
  (h.bump_sees hs (by decide) (by decide)).close

theorem moveNamespace {n : Nat} (h : InStep s) (hn : headLength 0 s.cursor.ahead = n)
    (hk : s.cursor.kind n = .namespaceKeyword) : InStep (s.moveNamespace n) := by
  have h₀ := inStep_headWord h .namespaceDeclaration hn (by rw [hk]; decide) (by rw [hk]; decide)
  have h₁ := inStep_moveUntil (k := [.openBrace, .semicolon, .closeBrace])
    (t := ahead_moveReference) h₀ (by decide) (by decide) inStep_moveReference
  unfold State.moveNamespace
  simp only
  split
  · next hs => exact h₁.bump_open (eq_of_beq hs)
  · split
    · next hs => exact bump_semicolon h₁ hs
    · exact h₁.close

theorem moveTypeWord {n : Nat} {E : List Opening} {fs : List OpenFrame} (h : Xref.InStep E c)
    (hn : headLength 0 c.ahead = n) (hk : classify fs c n = .type) :
    Xref.InStep (.node :: E) (moveTypeWord c n) := by
  have hw := of_classify hk
  have h₀ := inStep_headWord h .classDeclaration hn
    (by rcases hw with hw | ⟨hw, -⟩ <;> rw [hw] <;> decide)
    (by rcases hw with hw | ⟨hw, -⟩ <;> rw [hw] <;> decide)
  unfold CSharp.moveTypeWord
  simp only
  split
  · next hs => exact h₀.bump_sees (Bool.and_eq_true_iff.1 hs).2 (by decide) (by decide)
  · exact h₀

theorem moveType {n : Nat} (h : InStep s) (hn : headLength 0 s.cursor.ahead = n)
    (hk : classify s.frames s.cursor n = .type) : InStep (s.moveType n) := by
  have h₀ := (moveTypeWord h hn hk).expect (k := .identifier) (by decide) (by decide)
  have h₁ := inStep_moveUntil (k := [.openBrace, .semicolon, .closeBrace])
    (t := ahead_moveToken) h₀ (by decide) (by decide) inStep_moveToken
  unfold State.moveType
  simp only
  split
  · next hs => exact h₁.bump_open (eq_of_beq hs)
  · split
    · next hs => exact bump_semicolon h₁ hs
    · exact h₁.close

theorem moveConstructor {n : Nat} (h : InStep s) (hn : headLength 0 s.cursor.ahead = n)
    (hk : classify s.frames s.cursor n = .constructor) : InStep (s.moveConstructor n) := by
  have hi := (of_classify hk).1
  have h₀ := inStep_headWord h .constructorDeclaration hn (by rw [hi]; decide) (by rw [hi]; decide)
  have h₁ := inStep_moveInitializer (inStep_moveList h₀ .parameterList)
  unfold State.moveConstructor
  simp only
  split
  · next hs => exact (h₁.openNode .block).bump_open hs
  · next hs => exact bump_semicolon h₁ (beq_iff_eq.2 hs)
  · exact h₁.close
  · exact h₁.close
  · exact h₁.openNode .statement

theorem moveItem (h : InStep s) : InStep s.moveItem := by
  unfold State.moveItem
  simp only
  split
  · next hk => exact inStep_moveUsing h rfl (of_classify hk)
  · next hk => exact h.moveNamespace rfl (of_classify hk)
  · next hk => exact h.moveType rfl hk
  · next hk => exact h.moveConstructor rfl hk
  · exact h.openNode .memberDeclaration
  · exact h.openNode .statement

/-- A round keeps braces and nodes in step. A closing brace comes only where a frame waits for it,
and the text does not end before. -/
theorem step (h : InStep s) : InStep s.step := by
  obtain ⟨c, fs⟩ := s
  unfold State.step
  split
  · next he =>
      obtain rfl : fs = [] := he
      split
      · next hs => exact absurd (Xref.InStep.count_pos h (eq_of_beq hs)) (Nat.lt_irrefl 0)
      · exact h.moveItem
  · next depth after m gs he =>
      obtain rfl : fs = _ := he
      split
      · exact closeFrame (f := ⟨.statement depth after, m⟩) h
      · exact stepStatement h
  · next f gs hf he =>
      obtain rfl : fs = f :: gs := he
      have h : Xref.InStep (openings (f :: gs)) c := h
      rw [openings_cons hf] at h
      split
      · next hk => exact absurd (h.count_eq_zero hk).2 (by simp)
      · next hk => exact closeFrame (h.bump_close hk)
      · exact moveItem (s := ⟨c, f :: gs⟩) (by rwa [InStep, openings_cons hf])

theorem run (h : InStep s) : InStep s.run :=
  repeatUntil_induct (P := InStep) s h fun _ _ h => h.step

end State.InStep

/-- Where the marks of a text are nested, its events close braces and nodes as they opened, and all
of them in the end. -/
theorem run_events (q : LexemeSeq) (hq : ∀ l ∈ q.lexemes, l.kind ≠ .endOfFile)
    (hl : q.last.kind = .endOfFile) (hn : nested [] (q.lexemes.map Lexeme.kind) = true) :
    Opening.run [] (events q) = some [] := by
  have h₀ : State.InStep ⟨.ofLexemes q.lexemes, []⟩ := ⟨[], ⟨rfl, hn, hq⟩, rfl⟩
  have h := h₀.run
  have hd : (State.run ⟨.ofLexemes q.lexemes, []⟩).isDone = true :=
    stop_repeatUntil (p := State.isDone) _
  have hf : (State.run ⟨.ofLexemes q.lexemes, []⟩).frames = [] :=
    List.isEmpty_iff.1 (Bool.and_eq_true_iff.1 hd).1
  obtain ⟨B, h, -⟩ := h
  rw [hf] at h
  rw [events, Opening.run_concat h.run]
  exact Opening.step_token (by rw [hl]; decide) (by rw [hl]; decide)

end CSharp

end Xref
