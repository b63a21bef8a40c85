import Xref.Proofs.Grammar.Braces
import Xref.Proofs.Tree.Lossless

/-!
# Matching braces have one parent

Where the parentheses, brackets and braces of a C# text are properly nested, the tree keeps every
pair of braces together: they are children of one node, and no brace is made up
(`Tree.braces_paired`). Events close braces and nodes in step (`CSharp.run_events`), so between a
brace and the one that closes it the outline comes back to the node it was in
(`Outline.paired_place`).
-/

namespace Xref

/-- Each closing brace is a child of the same node as the innermost brace that is open. The parents
of the open braces are `σ` in front of the tokens and `τ` behind them. -/
def Paired (σ : List PlacedNode) : List PlacedToken → List PlacedNode → Prop
  | [], τ => σ = τ
  | x :: xs, τ =>
    if x.token.kind = .openBrace then Paired (x.parent :: σ) xs τ
    else if x.token.kind = .closeBrace then ∃ ρ, σ = x.parent :: ρ ∧ Paired ρ xs τ
    else Paired σ xs τ

namespace Paired

variable {σ τ ρ : List PlacedNode} {x : PlacedToken} {xs ys : List PlacedToken}

theorem cons_open (h : x.token.kind = .openBrace) :
    Paired σ (x :: xs) τ ↔ Paired (x.parent :: σ) xs τ := by
  rw [Paired, if_pos h]

theorem cons_close (h : x.token.kind = .closeBrace) :
    Paired σ (x :: xs) τ ↔ ∃ ρ, σ = x.parent :: ρ ∧ Paired ρ xs τ := by
  rw [Paired, if_neg (by rw [h]; decide), if_pos h]

theorem cons_other (ho : x.token.kind ≠ .openBrace) (hc : x.token.kind ≠ .closeBrace) :
    Paired σ (x :: xs) τ ↔ Paired σ xs τ := by
  rw [Paired, if_neg ho, if_neg hc]

theorem append_iff : Paired σ (xs ++ ys) τ ↔ ∃ ρ, Paired σ xs ρ ∧ Paired ρ ys τ := by
  induction xs generalizing σ with
  | nil => exact ⟨fun h => ⟨σ, rfl, h⟩, fun ⟨ρ, h, h'⟩ => h ▸ h'⟩
  | cons x xs ih =>
      rw [List.cons_append]
      by_cases ho : x.token.kind = .openBrace
      · simp only [cons_open ho, ih]
      · by_cases hc : x.token.kind = .closeBrace
        · simp only [cons_close hc, ih]
          constructor
          · intro ⟨υ, hυ, ρ, h⟩
            exact ⟨ρ, ⟨υ, hυ, h.1⟩, h.2⟩
          · intro ⟨ρ, ⟨υ, hυ, h⟩, h'⟩
            exact ⟨υ, hυ, ρ, h, h'⟩
        · simp only [cons_other ho hc, ih]

/-- Behind nested marks the braces that were open before them are open again. -/
theorem eq_of_nested {r : List PlacedNode} {B : List TokenKind} (hn : nested B (xs.map (·.token.kind)) = true)
    (hr : r.length = B.count .closeBrace) (h : Paired (r ++ σ) xs τ) : τ = σ := by
  induction xs generalizing B r with
  | nil =>
      obtain rfl := nested_nil.1 hn
      obtain rfl := List.length_eq_zero_iff.1 hr
      exact h.symm
  | cons x xs ih =>
      rw [List.map_cons] at hn
      rcases nested_cons hn with ⟨m, hm, hn'⟩ | ⟨hk, B', rfl, hn'⟩ | ⟨hk, hk', hn'⟩
      · have hc : x.token.kind ≠ .closeBrace :=
          (TokenKind.ne_of_closes rfl (TokenKind.closes_eq_false hm)).symm
        by_cases ho : x.token.kind = .openBrace
        · obtain rfl := Option.some.inj (hm.symm.trans (TokenKind.closer?_eq_closeBrace.2 ho))
          refine ih (r := x.parent :: r) hn' ?_ ((cons_open ho).1 h)
          rw [List.length_cons, List.count_cons_self, hr]
        · refine ih hn' ?_ ((cons_other ho hc).1 h)
          rw [List.count_cons_of_ne, hr]
          rintro rfl
          exact ho (TokenKind.closer?_eq_closeBrace.1 hm)
      · have ho : x.token.kind ≠ .openBrace := TokenKind.ne_of_closes hk rfl
        by_cases hc : x.token.kind = .closeBrace
        · rw [hc, List.count_cons_self] at hr
          obtain ⟨p, r, rfl⟩ := List.exists_cons_of_length_eq_add_one hr
          obtain ⟨υ, hυ, h⟩ := (cons_close hc).1 h
          obtain ⟨-, rfl⟩ := List.cons.inj hυ
          exact ih hn' (Nat.succ.inj hr) h
        · rw [List.count_cons_of_ne hc] at hr
          exact ih hn' hr ((cons_other ho hc).1 h)
      · have ho : x.token.kind ≠ .openBrace := TokenKind.ne_of_closer? hk rfl
        have hc : x.token.kind ≠ .closeBrace := (TokenKind.ne_of_closes rfl hk').symm
        exact ih hn' hr ((cons_other ho hc).1 h)

end Paired

/-! ## Outlines -/

/-- The tokens that the text has outside directives. -/
def PlacedToken.isCode (x : PlacedToken) : Bool :=
  !x.inDirective && !x.token.isMissing

theorem Token.filter_isCode_words (t : Token) :
    (t.placedDirectives.flatMap PlacedNode.words).filter PlacedToken.isCode = [] := by
  rw [List.filter_eq_nil_iff]
  intro x hx
  obtain ⟨d, -, hx⟩ := List.mem_flatMap.1 hx
  obtain ⟨w, -, rfl⟩ := List.mem_map.1 hx
  exact Bool.false_ne_true

theorem Forest.filter_isCode_token (t : Token) (rest : Forest) (parent : PlacedNode)
    (h : t.isMissing = false) : ((Forest.token t rest).placedTokens parent).filter
      PlacedToken.isCode =
        ⟨t, parent, false⟩ :: (rest.placedTokens parent).filter PlacedToken.isCode := by
  rw [placedTokens, List.filter_append, Token.filter_isCode_words, List.nil_append,
    List.filter_cons_of_pos]
  rw [PlacedToken.isCode, h]
  rfl

theorem Forest.filter_isCode_missing (t : Token) (rest : Forest) (parent : PlacedNode)
    (h : t.isMissing = true) : ((Forest.token t rest).placedTokens parent).filter
      PlacedToken.isCode = (rest.placedTokens parent).filter PlacedToken.isCode := by
  rw [placedTokens, List.filter_append, Token.filter_isCode_words, List.nil_append,
    List.filter_cons_of_neg]
  rw [PlacedToken.isCode, h]
  exact Bool.false_ne_true

open Opening in
/-- What the events of an outline leave open in the node they are in are braces in that node. -/
theorem Outline.paired_place (o : Outline) {n : Tally} {p : PlacedNode} {d : Nat}
    {E F : List Opening} {es : List Event} (hE : E.head? ≠ some brace)
    (h : run (List.replicate d brace ++ E) (o.events ++ es) = some F) :
    ∃ d', run (List.replicate d' brace ++ E) es = some F ∧
      ∀ σ, Paired (List.replicate d p ++ σ)
        (((o.place n).placedTokens p).filter PlacedToken.isCode)
        (List.replicate d' p ++ σ) := by
  induction o generalizing n p d E es with
  | nil => exact ⟨d, h, fun _ => rfl⟩
  | token l r ih =>
      rw [place_token, Forest.filter_isCode_token _ _ _ rfl]
      generalize hx : (⟨n.token l false, p, false⟩ : PlacedToken) = x
      have hk : x.token.kind = l.kind := by rw [← hx]; rfl
      obtain rfl : x.parent = p := by rw [← hx]
      rw [events, List.cons_append, run] at h
      obtain ⟨G, hG, h⟩ := Option.bind_eq_some_iff.1 h
      by_cases ho : l.kind = .openBrace
      · rw [step_open ho] at hG
        obtain rfl := Option.some.inj hG
        obtain ⟨d', hd, hp⟩ := ih (d := d + 1) hE h
        exact ⟨d', hd, fun σ => (Paired.cons_open (hk.trans ho)).2 (hp σ)⟩
      by_cases hc : l.kind = .closeBrace
      · cases d with
        | zero =>
            rw [step, hc] at hG
            exact absurd hG (by simp [hE])
        | succ d =>
            rw [List.replicate_succ, List.cons_append, step_close hc] at hG
            obtain rfl := Option.some.inj hG
            obtain ⟨d', hd, hp⟩ := ih (d := d) hE h
            exact ⟨d', hd, fun σ => (Paired.cons_close (hk.trans hc)).2 ⟨_, rfl, hp σ⟩⟩
      · rw [step_token ho hc] at hG
        obtain rfl := Option.some.inj hG
        obtain ⟨d', hd, hp⟩ := ih hE h
        exact ⟨d', hd, fun σ => (Paired.cons_other (hk ▸ ho) (hk ▸ hc)).2 (hp σ)⟩
  | missing k r ih =>
      rw [place_missing, Forest.filter_isCode_missing _ _ _ rfl]
      rw [events, List.cons_append, run] at h
      obtain ⟨G, hG, h⟩ := Option.bind_eq_some_iff.1 h
      obtain rfl := Option.some.inj (Option.ite_none_left_eq_some.1 hG).2
      exact ih hE h
  | node k c r ihc ihr =>
      rw [place_node, Forest.placedTokens, List.filter_append]
      rw [events, List.cons_append, List.append_assoc, List.cons_append, run] at h
      obtain ⟨G, hG, h⟩ := Option.bind_eq_some_iff.1 h
      obtain rfl := Option.some.inj hG
      obtain ⟨e, he, hpc⟩ := ihc (n := afterOpen n)
        (p := p.child ⟨⟨n.nodes, k, n.offset⟩, c.place (afterOpen n)⟩) (d := 0)
        (E := Opening.node :: (List.replicate d brace ++ E)) (by rw [List.head?_cons]; decide) h
      rw [run] at he
      obtain ⟨G, hG, h⟩ := Option.bind_eq_some_iff.1 he
      -- the node closes after its own braces
      cases e with
      | succ e => cases hG
      | zero =>
          obtain rfl := Option.some.inj hG
          obtain ⟨d', hd, hpr⟩ := ihr hE h
          exact ⟨d', hd, fun σ => Paired.append_iff.2 ⟨_, hpc _, hpr σ⟩⟩

theorem Opening.missing_not_mem {E F : List Opening} {es : List Event} (h : run E es = some F) :
    .missing .closeBrace ∉ es := by
  intro hm
  obtain ⟨us, vs, rfl⟩ := List.append_of_mem hm
  rw [run_append] at h
  obtain ⟨G, -, h⟩ := Option.bind_eq_some_iff.1 h
  cases h

theorem Token.isMissing_of_layOutWords {n i k : Nat} {ws : List Word} {t : Token}
    (ht : t ∈ layOutWords n i k ws) : t.isMissing = false := by
  induction ws generalizing n i with
  | nil => cases ht
  | cons w ws ih =>
      rcases List.mem_cons.1 ht with rfl | ht
      · rfl
      · exact ih ht

theorem Token.isMissing_of_words {t : Token} {x : PlacedToken}
    (hx : x ∈ t.placedDirectives.flatMap PlacedNode.words) : x.token.isMissing = false := by
  obtain ⟨d, hd, hx⟩ := List.mem_flatMap.1 hx
  obtain ⟨w, hw, rfl⟩ := List.mem_map.1 hx
  obtain ⟨-, n, i, j, ws, he⟩ := Lead.mem_directiveNodes (Token.mem_placedDirectives hd).1
  rw [he, Node.tokens, Forest.tokens_ofTokens] at hw
  exact isMissing_of_layOutWords hw

/-- A missing token of an outline in its place is noted in its events. -/
theorem Outline.missing_mem (o : Outline) {n : Tally} {parent : PlacedNode} {x : PlacedToken}
    (hx : x ∈ (o.place n).placedTokens parent) (hm : x.token.isMissing = true) :
    .missing x.token.kind ∈ o.events := by
  have hw {t : Token} (h : x ∈ t.placedDirectives.flatMap PlacedNode.words) : False := by
    rw [Token.isMissing_of_words h] at hm
    cases hm
  induction o generalizing n parent with
  | nil => cases hx
  | token l r ih =>
      rcases List.mem_append.1 hx with hx | hx
      · exact (hw hx).elim
      · rcases List.mem_cons.1 hx with rfl | hx
        · cases hm
        · exact List.mem_cons_of_mem _ (ih hx)
  | missing k r ih =>
      rcases List.mem_append.1 hx with hx | hx
      · exact (hw hx).elim
      · rcases List.mem_cons.1 hx with rfl | hx
        · exact List.mem_cons_self
        · exact List.mem_cons_of_mem _ (ih hx)
  | node k c r ihc ihr =>
      rcases List.mem_append.1 hx with hx | hx
      · exact List.mem_cons_of_mem _ (List.mem_append_left _ (ihc hx))
      · exact List.mem_cons_of_mem _ (List.mem_append_right _ (List.mem_cons_of_mem _ (ihr hx)))

/-! ## The tree of a text -/

namespace Tree

/-- The tokens that the text has outside directives, in order. -/
def code (t : Tree) : List PlacedToken :=
  t.tokens.toList.filter PlacedToken.isCode

variable {l : Language} {s : SourceText}

theorem lexemes_code (l : Language) (s : SourceText) :
    (parse l s).code.map (·.token.lexeme) = (LexemeSeq.ofText l s.chars).all := by
  have hc : (parse l s).code =
      ((parse l s).tokens.toList.filter fun x => !x.inDirective).filter fun x =>
        !x.token.isMissing := by
    rw [code, List.filter_filter]
    exact List.filter_congr fun x _ => Bool.and_comm _ _
  rw [← (lexemes_tokens l s).1, tokens_root, hc, List.filter_map, List.map_map]
  rfl

/-- Where the marks of a C# text are nested, the outline of its tree closes braces and nodes in
step. -/
theorem exists_outline_in_step
    (hn : nested [] ((parse .csharp s).code.map (·.token.kind)) = true) :
    ∃ o : Outline, (parse .csharp s).root = ⟨⟨0, .compilationUnit, 0⟩, o.place ⟨1, 0, 0⟩⟩ ∧
      Opening.run [] o.events = some [] := by
  let q := LexemeSeq.ofText .csharp s.chars
  have hq : ∀ l ∈ q.lexemes, l.kind ≠ .endOfFile := LexemeSeq.kind_ne_of_mem_scan
  have hlast : q.last.kind = .endOfFile := LexemeSeq.kind_last_scan
  have hk : (parse .csharp s).code.map (·.token.kind) =
      q.lexemes.map Lexeme.kind ++ [.endOfFile] := by
    have h := congrArg (List.map Lexeme.kind) (lexemes_code .csharp s)
    rw [List.map_map, LexemeSeq.all, List.map_append, List.map_singleton] at h
    rw [← hlast]
    exact h
  rw [hk] at hn
  obtain ⟨o, he, -, -⟩ := CSharp.exists_outline q hq
  refine ⟨o ++ .token q.last .nil, ?_, ?_⟩
  · show Node.rootOfEvents (CSharp.events q) = _
    rw [Node.rootOfEvents, he, Forest.ofMarks_events]
  · rw [← he]
    exact CSharp.run_events q hq hlast (nested_append_other rfl rfl hn)

/-- Where parentheses, brackets and braces are properly nested, no closing brace is made up, every
opening brace has its match, and the two are children of one node. -/
theorem braces_paired (s : SourceText) :
    let t := parse .csharp s
    nested [] (t.code.map (·.token.kind)) = true →
      (∀ x ∈ t.tokens, x.token.isMissing = true → x.token.kind ≠ .closeBrace) ∧
      (∀ us a rest, t.code = us ++ a :: rest → a.token.kind = .openBrace →
        ∃ vs b ws, rest = vs ++ b :: ws ∧ b.token.kind = .closeBrace ∧
          nested [] (vs.map (·.token.kind)) = true) ∧
      ∀ us a vs b ws, t.code = us ++ a :: (vs ++ b :: ws) → a.token.kind = .openBrace →
        b.token.kind = .closeBrace → nested [] (vs.map (·.token.kind)) = true →
          a.parent = b.parent := by
  intro t hn
  obtain ⟨o, hr, hrun⟩ := exists_outline_in_step hn
  refine ⟨fun x hx hm hk => ?_, fun us a rest he ha => ?_, fun us a vs b ws he ha hb hv => ?_⟩
  · rw [mem_tokens_iff, hr] at hx
    have hmem := Outline.missing_mem o hx hm
    rw [hk] at hmem
    exact Opening.missing_not_mem hrun hmem
  · rw [he, List.map_append, List.map_cons, ha] at hn
    obtain ⟨B, hB⟩ := exists_nested_drop hn
    rw [nested_open rfl] at hB
    obtain ⟨ks, ls, hkl, hks, -⟩ := exists_close (X := []) hB
    obtain ⟨vs, zs, rfl, rfl, hz⟩ := List.map_eq_append_iff.1 hkl
    obtain ⟨b, ws, rfl, hb, -⟩ := List.map_eq_cons_iff.1 hz
    exact ⟨vs, b, ws, rfl, hb, hks⟩
  · have hp : Paired [] t.code [] := by
      rw [← List.append_nil o.events] at hrun
      obtain ⟨d, hd, hp⟩ := o.paired_place (n := ⟨1, 0, 0⟩) (p := t.placedRoot) (d := 0)
        (E := []) (by decide) hrun
      cases d with
      | succ d => cases hd
      | zero =>
          have ht : t.code = ((o.place ⟨1, 0, 0⟩).placedTokens t.placedRoot).filter
              PlacedToken.isCode := by
            rw [code, t.tokens_eq, Node.placedTokens, ← placedRoot, hr]
          rw [ht]
          exact hp []
    rw [he] at hp
    obtain ⟨σ, -, hp⟩ := Paired.append_iff.1 hp
    obtain ⟨ρ, hv', hp⟩ := Paired.append_iff.1 ((Paired.cons_open ha).1 hp)
    obtain rfl : ρ = a.parent :: σ := Paired.eq_of_nested (r := []) hv rfl hv'
    obtain ⟨τ, hτ, -⟩ := (Paired.cons_close hb).1 hp
    exact (List.cons.inj hτ).1

/-- Braces in an attribute, around a body and around a block in a call. -/
theorem braces_paired_in_attribute :
    let s := SourceText.ofText "[A(new[] { 1 })] class C { C() { f(() => { }) } }".toList 0
    let t := parse .csharp s
    nested [] (t.code.map (·.token.kind)) = true ∧
      (∀ x ∈ t.tokens, x.token.isMissing = true → x.token.kind ≠ .closeBrace) ∧
      ∃ us a vs b ws, t.code = us ++ a :: (vs ++ b :: ws) ∧ a.token.kind = .openBrace ∧
        b.token.kind = .closeBrace ∧ a.parent = b.parent := by
  intro s t
  have hn : nested [] (t.code.map (·.token.kind)) = true := by decide +kernel
  have ho : (t.code.any fun x => x.token.kind == .openBrace) = true := by decide +kernel
  obtain ⟨a, ha, hk⟩ := List.any_eq_true.1 ho
  obtain ⟨us, rest, he⟩ := List.append_of_mem ha
  obtain ⟨hm, hex, hp⟩ := braces_paired _ hn
  obtain ⟨vs, b, ws, rfl, hb, hv⟩ := hex us a rest he (eq_of_beq hk)
  exact ⟨hn, hm, us, a, vs, b, ws, he, eq_of_beq hk, hb, hp us a vs b ws he (eq_of_beq hk) hb hv⟩

end Tree

end Xref
