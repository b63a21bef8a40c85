import Xref.Lexeme.Basic

/-!
# Where tokens stand

Lexemes have no positions, so what is true of a token only because of where it stands has to be said
of a token together with the text before it. A spot is such a pair: all text to the left of the
token's own characters, and the token. The spots of lexemes are those of their tokens in document
order, with the words of a directive just before the token whose leading trivia holds it.
-/

namespace Xref

/-- The text before a token, and the token as a lexeme. -/
abbrev Spot := Text × Lexeme

/-- The words of a directive where they stand. -/
def Word.spots (pre : Text) : List Word → List Spot
  | [] => []
  | w :: ws => (pre ++ Trivia.sources w.leading, .ofWord w) :: spots (pre ++ w.source) ws

/-- The words in leading trivia where they stand. -/
def Lead.spots (pre : Text) : List Lead → List Spot
  | [] => []
  | p :: ps => Word.spots pre p.words ++ spots (pre ++ p.source) ps

/-- The tokens of lexemes where they stand, those of directives included. -/
def Lexeme.spots (pre : Text) : List Lexeme → List Spot
  | [] => []
  | l :: ls =>
    Lead.spots pre l.leading ++ (pre ++ Lead.sources l.leading, l) :: spots (pre ++ l.source) ls

theorem Trivia.sources_nil : sources [] = [] := rfl

theorem Lead.sources_nil : sources [] = [] := rfl

theorem Lead.sources_cons (p : Lead) (ps : List Lead) :
    sources (p :: ps) = p.source ++ sources ps := rfl

theorem Lead.sources_append (ps qs : List Lead) : sources (ps ++ qs) = sources ps ++ sources qs :=
  List.flatMap_append

theorem Lead.sources_singleton (p : Lead) : sources [p] = p.source :=
  List.append_nil _

theorem Lead.sources_trivia (ts : List Trivia) : sources (ts.map .trivia) = Trivia.sources ts :=
  List.flatMap_map ..

theorem Lexeme.sources_nil : sources [] = [] := rfl

theorem Lexeme.sources_singleton (l : Lexeme) : sources [l] = l.source :=
  List.append_nil _

theorem Lexeme.sources_cons (l : Lexeme) (ls : List Lexeme) :
    sources (l :: ls) = l.source ++ sources ls := rfl

theorem Lexeme.sources_append (ls ms : List Lexeme) :
    sources (ls ++ ms) = sources ls ++ sources ms := List.flatMap_append

theorem Word.spots_append (pre : Text) (ws vs : List Word) :
    spots pre (ws ++ vs) = spots pre ws ++ spots (pre ++ ws.flatMap source) vs := by
  induction ws generalizing pre with
  | nil => simp [spots]
  | cons w ws ih =>
      rw [List.cons_append, spots, ih, spots, List.flatMap_cons, List.append_assoc]
      rfl

theorem Lead.spots_append (pre : Text) (ps qs : List Lead) :
    spots pre (ps ++ qs) = spots pre ps ++ spots (pre ++ sources ps) qs := by
  induction ps generalizing pre with
  | nil => simp [spots, sources]
  | cons p ps ih =>
      rw [List.cons_append, spots, ih, spots, List.append_assoc, List.append_assoc]
      rfl

theorem Lexeme.spots_append (pre : Text) (ls ms : List Lexeme) :
    spots pre (ls ++ ms) = spots pre ls ++ spots (pre ++ sources ls) ms := by
  induction ls generalizing pre with
  | nil => simp [spots, sources]
  | cons l ls ih =>
      rw [List.cons_append, spots, ih, spots, List.append_assoc, List.append_assoc]
      rfl

/-- What is asked of the words of a directive is asked of each of them. -/
theorem Word.forall_spots_cons {P : Spot → Prop} {pre : Text} {w : Word} {ws : List Word} :
    (∀ x ∈ spots pre (w :: ws), P x) ↔
      P (pre ++ Trivia.sources w.leading, .ofWord w) ∧ ∀ x ∈ spots (pre ++ w.source) ws, P x :=
  List.forall_mem_cons

theorem Lead.forall_spots_cons {P : Spot → Prop} {pre : Text} {p : Lead} {ps : List Lead} :
    (∀ x ∈ spots pre (p :: ps), P x) ↔
      (∀ x ∈ Word.spots pre p.words, P x) ∧ ∀ x ∈ spots (pre ++ p.source) ps, P x :=
  List.forall_mem_append

theorem Lexeme.forall_spots_cons {P : Spot → Prop} {pre : Text} {l : Lexeme} {ls : List Lexeme} :
    (∀ x ∈ spots pre (l :: ls), P x) ↔
      (∀ x ∈ Lead.spots pre l.leading, P x) ∧ P (pre ++ Lead.sources l.leading, l) ∧
        ∀ x ∈ spots (pre ++ l.source) ls, P x := by
  rw [spots, List.forall_mem_append, List.forall_mem_cons]

end Xref
