import Mathlib.Data.List.Perm.Subperm
import Xref.Proofs.Symbols.Scope
import Xref.Proofs.Tree.Arena

/-!
# Numbers have room

Nodes, tokens and symbols are told apart by numbers. Here these are as large as need be; where they
are kept in 32 bits, everything said about them takes for granted that the tables of the tree are no
longer than that (`Tree.Narrow`). Nothing else has to be, because numbers are places in the tables
(`Model.toNat_toUInt32_id`). Symbols need no bound of their own: each has a node that declares it
and no other symbol.
-/

namespace Xref

namespace Tree

/-- The tables are so short that 32 bits tell the nodes apart, and the tokens. -/
def Narrow (t : Tree) : Prop :=
  t.nodes.size ≤ UInt32.size ∧ t.tokens.size ≤ UInt32.size

end Tree

namespace Model

variable {l : Language} {s : SourceText} {b : Bool} {x : Symbol}

/-- There are no more symbols than nodes. -/
theorem length_symbols_le (l : Language) (s : SourceText) (b : Bool) :
    (build (.parse l s) b).symbols.length ≤ (Tree.parse l s).nodes.size := by
  have hn : ((Draft.all (.parse l s)).map (·.node.id)).Nodup :=
    List.pairwise_map.2 (Draft.pairwise_all l s)
  have hs : (Draft.all (.parse l s)).map (·.node.id) ⊆
      (Tree.parse l s).nodes.toList.map PlacedNode.id := by
    intro i hi
    obtain ⟨d, hd, rfl⟩ := List.mem_map.1 hi
    exact List.mem_map_of_mem (Array.mem_toList_iff.2 (Draft.of_mem_all hd).1)
  have h := (List.subperm_of_subset hn hs).length_le
  rw [List.length_map, List.length_map, Array.length_toList] at h
  rw [symbols, List.length_map, build, Declaration.all, List.length_mapIdx]
  exact h

/-- In a tree with short tables no number is lost if it is kept in 32 bits. -/
theorem toNat_toUInt32_id (h : (Tree.parse l s).Narrow) :
    (∀ p ∈ (Tree.parse l s).nodes, p.id.toUInt32.toNat = p.id) ∧
      (∀ x ∈ (Tree.parse l s).tokens, x.token.id.toUInt32.toNat = x.token.id) ∧
        ∀ x ∈ (build (.parse l s) b).symbols, x.id.toUInt32.toNat = x.id := by
  refine ⟨fun p hp => ?_, fun x hx => ?_, fun x hx => ?_⟩
  · obtain ⟨i, hi, rfl⟩ := Array.getElem_of_mem hp
    rw [Tree.id_of_getElem?_nodes (Array.getElem?_eq_getElem hi)]
    exact UInt32.toNat_ofNat_of_lt' (hi.trans_le h.1)
  · obtain ⟨i, hi, rfl⟩ := Array.getElem_of_mem hx
    rw [Tree.id_of_getElem?_tokens (Array.getElem?_eq_getElem hi)]
    exact UInt32.toNat_ofNat_of_lt' (hi.trans_le h.2)
  · obtain ⟨i, hi, rfl⟩ := List.getElem_of_mem hx
    rw [getElem?_symbols_build (List.getElem?_eq_getElem hi)]
    exact UInt32.toNat_ofNat_of_lt' ((hi.trans_le (length_symbols_le l s b)).trans_le h.1)

end Model

end Xref
