import Xref.Proofs.Tree.Tables
import Xref.Search.Walk

/-!
# What the walk finds

The walk keeps a list of what is left to visit and the table of tokens is made by recursion; both
meet the same tokens in the same order. The tokens that the walk asks about are listed apart from
what it asks (`Visit.asked`). What is left stands for a list of tokens (`Visit.tokens`), a step of
the walk takes the first off this list or rewrites what stands for it, and so these are the tokens
asked about (`asked_eq`), and from the root the whole table is (`Tree.treeWalk_placedRoot`).
-/

namespace Xref

namespace Visit

/-- The tokens that something left to visit stands for. -/
def tokens : Visit → List PlacedToken
  | node p => p.node.children.placedTokens p
  | token p => p.token.directiveWords ++ [p]
  | bare p => [p]

/-- Only nodes outside directives are left to visit. -/
def Outside (vs : List Visit) : Prop :=
  ∀ p, node p ∈ vs → p.owner = none

theorem flatMap_tokens_children {p : PlacedNode} (hp : p.owner = none) :
    (children p).flatMap tokens = p.node.children.placedTokens p := by
  have h (f : Forest) : (f.elements.map (ofElement p)).flatMap tokens = f.placedTokens p := by
    induction f with
    | nil => rfl
    | token t rest ih =>
        rw [Forest.elements, List.map_cons, List.flatMap_cons, ih, Forest.placedTokens, ofElement,
          hp, tokens, List.append_assoc]
        rfl
    | node head c rest _ ih =>
        rw [Forest.elements, List.map_cons, List.flatMap_cons, ih]
        rfl
  exact h p.node.children

theorem outside_children (p : PlacedNode) : Outside (children p) := by
  intro q hq
  obtain ⟨e, -, he⟩ := List.mem_map.1 hq
  cases e with
  | token t => cases he
  | node n =>
      obtain rfl := Visit.node.inj he
      rfl

theorem flatMap_tokens_unpacked (p : PlacedToken) :
    (unpacked p).flatMap tokens = p.token.directiveWords ++ [p] := by
  rw [unpacked, List.flatMap_append, List.flatMap_map]
  show List.flatMap (fun w => [w]) _ ++ [p] = _
  rw [List.flatMap_singleton']

theorem directiveWords_eq_nil {t : Token} (h : t.hasDirective = false) : t.directiveWords = [] := by
  rw [Token.directiveWords, Token.placedDirectives_eq_nil h]
  rfl

end Visit

open Visit

theorem keep_eq {m : Comparison} {name : Text} {p : PlacedToken} {vs : List PlacedToken} :
    (if p.token.matches m name then
        (Except.ok (vs.filter fun x => x.token.matches m name) : Except Failure _).map (p :: ·)
      else .ok (vs.filter fun x => x.token.matches m name)) =
      .ok ((p :: vs).filter fun x => x.token.matches m name) := by
  rw [List.filter_cons]
  split <;> rfl

/-- The tokens that a walk asks about, in the order in which it asks. -/
def Visit.asked (todo : List Visit) : List PlacedToken :=
  match todo with
  | [] => []
  | .node p :: rest => asked (children p ++ rest)
  | .token p :: rest =>
    if p.token.hasDirective then asked (unpacked p ++ rest) else p :: asked rest
  | .bare p :: rest => p :: asked rest
termination_by totalCost todo
decreasing_by
  · simp only [totalCost_append, totalCost_children, totalCost, cost]
    omega
  · simp only [totalCost_append, totalCost_unpacked, totalCost, cost]
    omega
  · simp only [totalCost, cost]
    omega
  · simp only [totalCost, cost]
    omega

/-- A walk that is not cancelled keeps those that match of the tokens it asks about. -/
theorem walk_eq_filter_asked (m : Comparison) (name : Text) (todo : List Visit) :
    walk m name false todo =
      .ok ((asked todo).filter fun x => x.token.matches m name) := by
  induction todo using asked.induct with
  | case1 => rw [walk.eq_def, asked]; rfl
  | case2 p rest ih => rw [walk.eq_def, asked]; exact ih
  | case3 p rest hd ih =>
      rw [walk.eq_def, asked, if_pos hd]
      simp only [Bool.false_eq_true, if_false, if_pos hd]
      exact ih
  | case4 p rest hd ih =>
      rw [walk.eq_def, asked, if_neg hd]
      simp only [Bool.false_eq_true, if_false, if_neg hd]
      rw [ih, keep_eq]
  | case5 p rest ih =>
      rw [walk.eq_def, asked]
      simp only [Bool.false_eq_true, if_false]
      rw [ih, keep_eq]

/-- It asks about the tokens that the nodes and tokens left to visit stand for. -/
theorem asked_eq {todo : List Visit} (h : Outside todo) : asked todo = todo.flatMap tokens := by
  induction todo using asked.induct with
  | case1 => rw [asked]; rfl
  | case2 p rest ih =>
      have hp : p.owner = none := h p List.mem_cons_self
      rw [asked, ih, List.flatMap_append, flatMap_tokens_children hp]
      · rfl
      · intro q hq
        rcases List.mem_append.1 hq with hq | hq
        · exact outside_children p q hq
        · exact h q (List.mem_cons_of_mem _ hq)
  | case3 p rest hd ih =>
      rw [asked, if_pos hd, ih, List.flatMap_append, flatMap_tokens_unpacked]
      · rfl
      · intro q hq
        rcases List.mem_append.1 hq with hq | hq
        · rw [unpacked] at hq
          rcases List.mem_append.1 hq with hq | hq
          · obtain ⟨w, -, hw⟩ := List.mem_map.1 hq
            cases hw
          · cases List.mem_singleton.1 hq
        · exact h q (List.mem_cons_of_mem _ hq)
  | case4 p rest hd ih =>
      rw [asked, if_neg hd, ih fun q hq => h q (List.mem_cons_of_mem _ hq), List.flatMap_cons,
        tokens, directiveWords_eq_nil (Bool.eq_false_iff.2 hd)]
      rfl
  | case5 p rest ih =>
      rw [asked, ih fun q hq => h q (List.mem_cons_of_mem _ hq)]
      rfl

/-- From a node on the walk asks about what the children of the node stand for. -/
theorem asked_node (p : PlacedNode) : asked [.node p] = (children p).flatMap tokens := by
  rw [asked, List.append_nil, asked_eq (outside_children p)]

theorem Tree.treeWalk_placedRoot (t : Tree) (m : Comparison) {name : Text} (hn : name ≠ []) :
    t.placedRoot.treeWalk m name false =
      .ok (t.tokens.toList.filter fun x => x.token.matches m name) := by
  rw [PlacedNode.treeWalk, if_neg hn, walk_eq_filter_asked, asked_node,
    flatMap_tokens_children rfl, t.tokens_eq]
  rfl

end Xref
