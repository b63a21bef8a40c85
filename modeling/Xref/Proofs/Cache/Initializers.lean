import Mathlib.Data.List.Perm.Basic
import Xref.Proofs.Cache.Transparency
import Xref.Proofs.Tree.Formed

/-!
# Initializers of nested constructors

The words of initializers are collected constructor by constructor, and of each constructor they are
collected all the way down. So the word of an initializer is met once for every constructor around
it: a constructor in a type in the body of another, or one that follows where the end of another is
missing, has its initializer listed twice (`Query.initializers_by_nesting`). Every word is listed,
nothing else is, and the list is in document order without repeats exactly if no initializer stands
in two constructors.

The list is compared with the table of tokens. Below one constructor it is a stretch of the table
with everything else left out (`Forest.filter_placedTokens`), since the word of an initializer
stands before the arguments of the call, and no other node holds a word. A constructor in another
adds its own stretch to that of the other, and so the count goes up by one at each
(`Forest.initializersBelow_perm`).
-/

namespace Xref

/-- How many constructors stand around what is below a node, the node itself among them. -/
def PlacedNode.constructors (p : PlacedNode) : Nat :=
  p.around.countP fun n => n.kind == .constructorDeclaration

/-- The word of an initializer stands in one. -/
theorem Language.kind_of_isInitializerWord {l : Language} {x : PlacedToken}
    (h : l.isInitializerWord x = true) : x.parent.kind = .constructorInitializer := by
  have hi : Language.inInitializer x = true := by
    cases l with
    | csharp =>
        simp only [isInitializerWord, callsThis, callsBase, Bool.or_eq_true,
          Bool.and_eq_true] at h
        exact h.elim And.right And.right
    | visualBasic =>
        simp only [isInitializerWord, callsThis, callsBase, qualifier?, Bool.or_eq_true,
          beq_iff_eq] at h
        by_contra hn
        rw [Bool.not_eq_true] at hn
        rw [hn, Bool.and_false] at h
        rcases h with (h | h) | h <;> cases h
  rw [inInitializer, Bool.and_eq_true, beq_iff_eq] at hi
  exact hi.2

namespace Forest

/-- No token at the top stands behind a node. -/
def TokensFirst : Forest → Prop
  | nil => True
  | token _ rest => rest.TokensFirst
  | node _ _ rest => ∀ t, Element.token t ∉ rest.elements

/-- The initializers below have their tokens before their nodes. -/
def CallsBelow (f : Forest) (around : List Node) : Prop :=
  ∀ p ∈ f.placedNodes around, p.kind = .constructorInitializer → p.node.children.TokensFirst

/-- The words of initializers among the tokens at the top of what is below a node. -/
def callsAt (l : Language) (parent : PlacedNode) (f : Forest) : List PlacedToken :=
  (f.elements.filterMap fun
    | .token t => some ⟨t, parent, false⟩
    | .node _ => none).filter l.isInitializerWord

/-- The words of the initializers below the given nodes. -/
def callsBelow (l : Language) (around : List Node) (f : Forest) : List PlacedToken :=
  ((PlacedNode.descendants.below around f).filter
    fun i => i.kind == .constructorInitializer).flatMap
      fun i => i.childTokens.filter l.isInitializerWord

variable {l : Language} {f : Forest} {parent : PlacedNode}

theorem callsAt_eq_nil (h : parent.kind ≠ .constructorInitializer) (f : Forest) :
    f.callsAt l parent = [] := by
  rw [callsAt, List.filter_eq_nil_iff]
  intro x hx hw
  obtain ⟨e, -, he⟩ := List.mem_filterMap.1 hx
  cases e with
  | node n => cases he
  | token t =>
      obtain rfl := Option.some.inj he
      exact h (Language.kind_of_isInitializerWord hw)

theorem callsAt_eq_nil_of_forall (h : ∀ t, Element.token t ∉ f.elements) :
    f.callsAt l parent = [] := by
  have hn : f.elements.filterMap (fun
      | .token t => some (⟨t, parent, false⟩ : PlacedToken)
      | .node _ => none) = [] := by
    refine List.filterMap_eq_nil_iff.2 fun e he => ?_
    cases e with
    | token t => exact absurd he (h t)
    | node n => rfl
  rw [callsAt, hn]
  rfl

theorem filter_childTokens (n : Node) :
    (parent.child n).childTokens.filter l.isInitializerWord =
      n.children.callsAt l (parent.child n) := by
  rw [callsAt, PlacedNode.childTokens, Node.childTokens, List.map_filterMap]
  refine congrArg _ (List.filterMap_congr fun e _ => ?_)
  cases e <;> rfl

/-- The words of directives are no words of initializers. -/
theorem filter_words_placedDirectives (l : Language) (t : Token) :
    (t.placedDirectives.flatMap PlacedNode.words).filter l.isInitializerWord = [] := by
  rw [List.filter_eq_nil_iff]
  intro x hx hw
  have hk := Token.kind_of_mem_placedDirectives (Token.mem_words_placedDirectives.1 hx).1
  rw [Language.kind_of_isInitializerWord hw] at hk
  cases hk

theorem tokensFirst_of_forall (h : ∀ t, Element.token t ∉ f.elements) : f.TokensFirst := by
  cases f with
  | nil => trivial
  | token t rest => exact absurd List.mem_cons_self (h t)
  | node head c rest => exact fun t ht => h t (List.mem_cons_of_mem _ ht)

section

variable {head : NodeHead} {c r : Forest}

theorem CallsBelow.children (h : (node head c r).CallsBelow parent.around) :
    c.CallsBelow (parent.child ⟨head, c⟩).around :=
  fun p hp => h p (List.mem_cons_of_mem _ (List.mem_append_left _ hp))

theorem CallsBelow.rest (h : (node head c r).CallsBelow parent.around) :
    r.CallsBelow parent.around :=
  fun p hp => h p (List.mem_cons_of_mem _ (List.mem_append_right _ hp))

theorem below_node (parent : PlacedNode) (head : NodeHead) (c r : Forest) :
    PlacedNode.descendants.below parent.around (node head c r) =
      parent.child ⟨head, c⟩ ::
        (PlacedNode.descendants.below (parent.child ⟨head, c⟩).around c ++
          PlacedNode.descendants.below parent.around r) :=
  rfl

theorem callsBelow_node (l : Language) (head : NodeHead) (c r : Forest) :
    (node head c r).callsBelow l parent.around =
      c.callsAt l (parent.child ⟨head, c⟩) ++
        c.callsBelow l (parent.child ⟨head, c⟩).around ++ r.callsBelow l parent.around := by
  unfold callsBelow
  rw [below_node, List.filter_cons]
  by_cases hk : (parent.child ⟨head, c⟩).kind = .constructorInitializer
  · have hw : (parent.child ⟨head, c⟩).childTokens.filter l.isInitializerWord =
        c.callsAt l (parent.child ⟨head, c⟩) := filter_childTokens _
    rw [if_pos (beq_iff_eq.2 hk), List.flatMap_cons, List.filter_append, List.flatMap_append,
      List.append_assoc, hw]
  · rw [if_neg (by rwa [beq_iff_eq]), List.filter_append, List.flatMap_append,
      callsAt_eq_nil hk, List.nil_append]

end

/-- The words of initializers below a node, in document order: those at the top, and those of the
initializers below. -/
theorem filter_placedTokens (hc : f.CallsBelow parent.around)
    (hp : parent.kind = .constructorInitializer → f.TokensFirst) :
    (f.placedTokens parent).filter l.isInitializerWord =
      f.callsAt l parent ++ f.callsBelow l parent.around := by
  induction f generalizing parent with
  | nil => rfl
  | token t rest ih =>
      have hrest := ih (fun p h => hc p (List.mem_append_right _ h)) hp
      rw [placedTokens, List.filter_append, filter_words_placedDirectives, List.nil_append,
        List.filter_cons, hrest]
      show _ = ((⟨t, parent, false⟩ :: _ : List PlacedToken).filter _) ++ _
      rw [List.filter_cons]
      split <;> rfl
  | node head c rest ihc ihr =>
      -- what is open is an initializer with its words behind it, or nothing that holds a word
      have hnone : rest.callsAt l parent = [] := by
        by_cases hk : parent.kind = .constructorInitializer
        · exact callsAt_eq_nil_of_forall (hp hk)
        · exact callsAt_eq_nil hk rest
      have hrest := ihr hc.rest fun hk => tokensFirst_of_forall (hp hk)
      have hchildren := ihc hc.children (hc _ List.mem_cons_self)
      rw [hnone, List.nil_append] at hrest
      rw [placedTokens, List.filter_append, hrest, hchildren, callsBelow_node]
      show _ = rest.callsAt l parent ++ _
      rw [hnone, List.nil_append]

/-! ## Constructors in constructors -/

/-- What stands around a node stands around the tokens below it. -/
theorem around_suffix {x : PlacedToken} (hx : x ∈ f.placedTokens parent)
    (hk : x.parent.kind ≠ .directive) : parent.around <:+ x.parent.around := by
  induction f generalizing parent with
  | nil => cases hx
  | token t rest ih =>
      rw [placedTokens] at hx
      rcases List.mem_append.1 hx with hx | hx
      · exact absurd (Token.kind_of_mem_placedDirectives
          (Token.mem_words_placedDirectives.1 hx).1) hk
      · rcases List.mem_cons.1 hx with rfl | hx
        · exact List.suffix_rfl
        · exact ih hx
  | node head c rest ihc ihr =>
      rcases List.mem_append.1 hx with hx | hx
      · exact (List.suffix_cons _ _).trans (ihc hx)
      · exact ihr hx

/-- The words of the initializers of the constructors below the given nodes. -/
def initializersBelow (l : Language) (around : List Node) (f : Forest) : List PlacedToken :=
  ((PlacedNode.descendants.below around f).filter
    fun c => c.kind == .constructorDeclaration).flatMap
      fun c => c.node.children.callsBelow l c.around

/-- The words of initializers below a node, in document order. -/
def words (l : Language) (parent : PlacedNode) (f : Forest) : List PlacedToken :=
  (f.placedTokens parent).filter l.isInitializerWord

/-- A constructor adds the words below it. -/
theorem initializersBelow_node {head : NodeHead} {c r : Forest}
    (hc : c.CallsBelow (parent.child ⟨head, c⟩).around) :
    (node head c r).initializersBelow l parent.around =
      (if head.kind = .constructorDeclaration then c.words l (parent.child ⟨head, c⟩) else []) ++
        c.initializersBelow l (parent.child ⟨head, c⟩).around ++
          r.initializersBelow l parent.around := by
  unfold initializersBelow
  rw [below_node, List.filter_cons]
  by_cases hk : head.kind = .constructorDeclaration
  · have hn : (parent.child ⟨head, c⟩).kind ≠ .constructorInitializer := by
      intro h
      cases hk.symm.trans h
    have hw : c.callsBelow l (parent.child ⟨head, c⟩).around =
        c.words l (parent.child ⟨head, c⟩) := by
      rw [words, filter_placedTokens hc (absurd · hn), callsAt_eq_nil hn, List.nil_append]
    have hk' : ((parent.child ⟨head, c⟩).kind == .constructorDeclaration) = true :=
      beq_iff_eq.2 hk
    rw [if_pos hk', if_pos hk, List.flatMap_cons, List.filter_append, List.flatMap_append,
      List.append_assoc, ← hw]
    rfl
  · have hk' : ¬ ((parent.child ⟨head, c⟩).kind == .constructorDeclaration) = true := by
      rwa [beq_iff_eq]
    rw [if_neg hk', if_neg hk, List.filter_append, List.flatMap_append, List.nil_append]

/-- A word with its copies: one for each constructor around it but not around the node. -/
def copies (parent : PlacedNode) (x : PlacedToken) : List PlacedToken :=
  List.replicate (x.parent.constructors - parent.constructors) x

theorem constructors_child (parent : PlacedNode) (head : NodeHead) (c : Forest) :
    (parent.child ⟨head, c⟩).constructors =
      parent.constructors + if head.kind = .constructorDeclaration then 1 else 0 := by
  show List.countP _ (Node.mk head c :: parent.around) = _
  rw [List.countP_cons]
  simp only [beq_iff_eq]
  rfl

theorem constructors_le {x : PlacedToken} (hx : x ∈ f.words l parent) :
    parent.constructors ≤ x.parent.constructors := by
  obtain ⟨hx, hw⟩ := List.mem_filter.1 hx
  have hk : x.parent.kind ≠ .directive := by
    rw [Language.kind_of_isInitializerWord hw]
    exact nofun
  exact (around_suffix hx hk).sublist.countP_le

theorem words_token (l : Language) (parent : PlacedNode) (t : Token) (rest : Forest) :
    (token t rest).words l parent =
      [⟨t, parent, false⟩].filter l.isInitializerWord ++ rest.words l parent := by
  rw [words, placedTokens, List.filter_append, filter_words_placedDirectives, List.nil_append,
    words]
  exact List.filter_append [_] _

theorem words_node (l : Language) (parent : PlacedNode) (head : NodeHead) (c r : Forest) :
    (node head c r).words l parent =
      c.words l (parent.child ⟨head, c⟩) ++ r.words l parent :=
  List.filter_append ..

/-- Every word below a node is listed once for each constructor around it but not around the
node. -/
theorem initializersBelow_perm (hc : f.CallsBelow parent.around) :
    (f.initializersBelow l parent.around).Perm ((f.words l parent).flatMap (copies parent)) := by
  induction f generalizing parent with
  | nil => exact .nil
  | token t rest ih =>
      have hnone : ([⟨t, parent, false⟩].filter l.isInitializerWord).flatMap (copies parent) =
          [] := by
        refine List.flatMap_eq_nil_iff.2 fun x hx => ?_
        obtain rfl := List.mem_singleton.1 (List.mem_filter.1 hx).1
        exact congrArg (List.replicate · _) (Nat.sub_self _)
      rw [words_token, List.flatMap_append, hnone, List.nil_append]
      exact ih fun p h => hc p (List.mem_append_right _ h)
  | node head c r ihc ihr =>
      have hcount := constructors_child parent head c
      rw [initializersBelow_node hc.children, words_node, List.flatMap_append]
      refine List.Perm.append ?_ (ihr hc.rest)
      by_cases hk : head.kind = .constructorDeclaration
      · -- each word below this constructor is listed for it, and then for those inside it
        rw [if_pos hk] at hcount ⊢
        have hone : ∀ x ∈ c.words l (parent.child ⟨head, c⟩),
            [x] ++ copies (parent.child ⟨head, c⟩) x = copies parent x := by
          intro x hx
          have hle := constructors_le hx
          rw [copies, copies, hcount, List.singleton_append, ← List.replicate_succ]
          congr 1
          omega
        have hperm := List.flatMap_append_perm (c.words l (parent.child ⟨head, c⟩))
          (fun x => [x]) (copies (parent.child ⟨head, c⟩))
        rw [List.flatMap_singleton', List.flatMap_congr hone] at hperm
        exact ((ihc hc.children).append_left _).trans hperm
      · rw [if_neg hk] at hcount ⊢
        have he : copies (parent.child ⟨head, c⟩) = copies parent := by
          funext x
          rw [copies, hcount]
          rfl
        rw [List.nil_append, ← he]
        exact ihc hc.children

/-- Where there is one constructor around each word, the words are listed as they stand. -/
theorem initializersBelow_eq (hc : f.CallsBelow parent.around)
    (h : ∀ x ∈ f.words l parent, x.parent.constructors = parent.constructors + 1) :
    f.initializersBelow l parent.around = f.words l parent := by
  induction f generalizing parent with
  | nil => rfl
  | token t rest ih =>
      rw [words_token] at h ⊢
      have hnone : [⟨t, parent, false⟩].filter l.isInitializerWord = [] := by
        refine List.eq_nil_iff_forall_not_mem.2 fun x hx => ?_
        have hcount := h x (List.mem_append_left _ hx)
        obtain rfl := List.mem_singleton.1 (List.mem_filter.1 hx).1
        exact Nat.succ_ne_self _ hcount.symm
      rw [hnone, List.nil_append]
      exact ih (fun p hp => hc p (List.mem_append_right _ hp)) fun x hx =>
        h x (List.mem_append_right _ hx)
  | node head c r ihc ihr =>
      have hcount := constructors_child parent head c
      rw [words_node] at h
      have hchildren := fun x hx => h x (List.mem_append_left _ hx)
      have hrest := ihr hc.rest fun x hx => h x (List.mem_append_right _ hx)
      rw [initializersBelow_node hc.children, words_node, hrest]
      congr 1
      by_cases hk : head.kind = .constructorDeclaration
      · -- no constructor inside this one has a word below it
        rw [if_pos hk] at hcount ⊢
        have hnone : c.initializersBelow l (parent.child ⟨head, c⟩).around = [] := by
          have hcopies : (c.words l (parent.child ⟨head, c⟩)).flatMap
              (copies (parent.child ⟨head, c⟩)) = [] := by
            refine List.flatMap_eq_nil_iff.2 fun x hx => ?_
            rw [copies, hchildren x hx, hcount, Nat.sub_self, List.replicate_zero]
          exact (hcopies ▸ initializersBelow_perm hc.children).eq_nil
        rw [hnone, List.append_nil]
      · rw [if_neg hk] at hcount ⊢
        rw [List.nil_append]
        exact ihc hc.children fun x hx => by rw [hchildren x hx, hcount, Nat.add_zero]

end Forest

/-! ## The list of a tree -/

namespace Tree

variable {l : Language} {s : SourceText}

/-- The arguments of a call stand behind its words. -/
theorem callsBelow_parse (l : Language) (s : SourceText) :
    (parse l s).root.children.CallsBelow (parse l s).placedRoot.around := by
  intro p hp hk
  have hnode : p ∈ (parse l s).nodes := mem_nodes_iff.2 (List.mem_cons_of_mem _ hp)
  rcases exists_of_mem_nodes hnode with h | h | ⟨o, n, hc, ha, -⟩
  · cases hk.symm.trans h
  · cases hk.symm.trans h
  · rw [hk] at ha
    rw [hc]
    cases ha with
    | ofColon => exact fun t ht => by cases ht
    | ofColonOnly => exact fun t ht => by cases ht
    | ofDot => exact fun t ht => by cases ht

theorem initializerWords_placedRoot (l : Language) (s : SourceText) :
    l.initializerWords (parse l s).placedRoot =
      (parse l s).root.children.initializersBelow l (parse l s).placedRoot.around := by
  have hroot : (parse l s).placedRoot.descendants.filter
        (fun c => c.kind == .constructorDeclaration) =
      (PlacedNode.descendants.below (parse l s).placedRoot.around
        (parse l s).root.children).filter fun c => c.kind == .constructorDeclaration :=
    rfl
  rw [Language.initializerWords, hroot, Forest.initializersBelow]
  refine List.flatMap_congr fun c hc => ?_
  have hk : ¬ (c.kind == .constructorInitializer) = true := by
    rw [eq_of_beq (List.mem_filter.1 hc).2]
    decide
  rw [PlacedNode.descendants, List.filter_cons, if_neg hk]
  rfl

/-- The words of the initializers of a tree, each as often as there are constructors around it. -/
theorem initializerWords_perm (l : Language) (s : SourceText) :
    (l.initializerWords (parse l s).placedRoot).Perm
      (((parse l s).tokens.toList.filter l.isInitializerWord).flatMap
        fun x => List.replicate x.parent.constructors x) := by
  rw [initializerWords_placedRoot, tokens_eq]
  exact Forest.initializersBelow_perm (callsBelow_parse l s)

theorem initializerWords_eq (h : ∀ x ∈ (parse l s).tokens.toList.filter l.isInitializerWord,
      x.parent.constructors = 1) :
    l.initializerWords (parse l s).placedRoot =
      (parse l s).tokens.toList.filter l.isInitializerWord := by
  rw [tokens_eq] at h ⊢
  rw [initializerWords_placedRoot]
  exact Forest.initializersBelow_eq (callsBelow_parse l s) h

end Tree

namespace Query

variable {a : Artifacts} {l : Language} {s : SourceText}

/-- A list in document order that holds copies has one of each. -/
theorem InDocumentOrder.le_one {ts xs : List PlacedToken} {n : PlacedToken → Nat}
    (h : InDocumentOrder ts) (hp : ts.Perm (xs.flatMap fun x => List.replicate (n x) x))
    {x : PlacedToken} (hx : x ∈ xs) : n x ≤ 1 := by
  have hne : ts.Pairwise fun y z => y.token.id ≠ z.token.id :=
    List.Pairwise.imp (fun h => Nat.ne_of_lt h.1) h
  have hcopies := (hp.pairwise_iff fun {_ _} h => Ne.symm h).1 hne
  rcases List.pairwise_replicate.1 ((List.pairwise_flatMap.1 hcopies).1 x hx) with h | h
  · exact h
  · exact absurd rfl h

/-- The words of all initializers are listed, and nothing else; each as often as there are
constructors around it. They are in document order exactly if there is one around each, and then
the list is the table of tokens with everything else left out. -/
theorem initializers_by_nesting (ht : a.tree = .parse l s) {m : Memo} (hm : m.Truthful a) :
    let words := a.tree.tokens.toList.filter a.facts.isInitializerWord
    ∃ ts, (initializers a a.facts (.own a.tree.placedRoot) false m).1 = .ok ts ∧
      (∀ x, x ∈ ts ↔ x ∈ a.tree.tokens ∧ a.facts.isInitializerWord x = true) ∧
      ts.Perm (words.flatMap fun x => List.replicate x.parent.constructors x) ∧
      (InDocumentOrder ts ↔ ∀ x ∈ words, x.parent.constructors = 1) ∧
      (InDocumentOrder ts → ts = words) := by
  intro words
  have hroot : ∀ p, Subject.own a.tree.placedRoot = .own p → p ∈ a.tree.nodes :=
    fun p h => Subject.own.inj h ▸ Tree.placedRoot_mem_nodes _
  have hts : (initializers a a.facts (.own a.tree.placedRoot) false m).1 =
      .ok (a.facts.initializerWords a.tree.placedRoot) := by
    have hy : Yields a false (initializers a a.facts (.own a.tree.placedRoot) false) _ :=
      yields_initializers ht hroot
    rcases (hy m hm).2 with h | ⟨h, -⟩
    · exact h
    · cases h
  refine ⟨_, hts, ?_⟩
  have hfacts : a.facts = l := by rw [Artifacts.facts, ht]; rfl
  have hmem : ∀ x, x ∈ a.facts.initializerWords a.tree.placedRoot ↔
      x ∈ a.tree.tokens ∧ a.facts.isInitializerWord x = true := by
    rw [hfacts, ht]
    exact fun x => Tree.mem_initializerWords
  have hperm : (a.facts.initializerWords a.tree.placedRoot).Perm
      (words.flatMap fun x => List.replicate x.parent.constructors x) := by
    simp only [words]
    rw [hfacts, ht]
    exact Tree.initializerWords_perm l s
  have heq : (∀ x ∈ words, x.parent.constructors = 1) →
      a.facts.initializerWords a.tree.placedRoot = words := by
    simp only [words]
    rw [hfacts, ht]
    exact Tree.initializerWords_eq
  have hone : InDocumentOrder (a.facts.initializerWords a.tree.placedRoot) →
      ∀ x ∈ words, x.parent.constructors = 1 := by
    intro ho x hx
    refine Nat.le_antisymm (ho.le_one hperm hx) ?_
    -- a word that is listed has a copy
    have hw := List.mem_filter.1 hx
    obtain ⟨y, -, hy⟩ :=
      List.mem_flatMap.1 (hperm.subset ((hmem x).2 ⟨Array.mem_toList_iff.1 hw.1, hw.2⟩))
    obtain ⟨hn, rfl⟩ := List.mem_replicate.1 hy
    exact Nat.one_le_iff_ne_zero.2 hn
  refine ⟨hmem, hperm, ⟨hone, fun h => ?_⟩, fun h => heq (hone h)⟩
  rw [heq h]
  exact inDocumentOrder_filter ht _

/-- A type in the body of a constructor: the initializer of its constructor is listed twice. -/
theorem initializers_listed_twice :
    let s := SourceText.ofText "class C { C() { class D { D() : this() { } } } }".toList 0
    let a := Artifacts.ofTree "a.cs" (.parse .csharp s)
    let words := a.tree.tokens.toList.filter a.facts.isInitializerWord
    a.tree = .parse .csharp s ∧ ({} : Memo).Truthful a ∧ words.length = 1 ∧
      ∃ ts, (initializers a a.facts (.own a.tree.placedRoot) false {}).1 = .ok ts ∧
        (∀ x, x ∈ ts ↔ x ∈ a.tree.tokens ∧ a.facts.isInitializerWord x = true) ∧
        ts.length = 2 ∧ ¬ InDocumentOrder ts := by
  intro s a words
  have hone : words.length = 1 := by decide +kernel
  have htwo : (words.flatMap fun x => List.replicate x.parent.constructors x).length = 2 := by
    decide +kernel
  obtain ⟨ts, h, hmem, hperm, -, hall⟩ := initializers_by_nesting (a := a) (l := .csharp) (s := s)
    rfl (Memo.truthful_empty a)
  have hts : ts.length = 2 := hperm.length_eq.trans htwo
  refine ⟨rfl, Memo.truthful_empty a, hone, ts, h, hmem, hts, fun ho => ?_⟩
  rw [hall ho, hone] at hts
  cases hts

end Query

end Xref
