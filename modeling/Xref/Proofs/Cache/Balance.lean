import Mathlib.Algebra.GroupWithZero.Nat
import Mathlib.Data.Finset.Card
import Xref.Proofs.Cache.Plans
import Xref.Proofs.Search.Outcome

/-!
# The counters of a cache balance

Counters and tables are changed on different lines of an operation, with answers from the memo,
failures and nodes of other trees in between. Whatever is performed, they stay in step with each
other and with what was performed (`Memo.Accounts`). Each operation keeps that
(`Operation.accounts_ask`), so every plan does, and so does every sequence of calls
(`Call.counters_balance`).

The model is asked about a node of the cache's own tree only when nothing is remembered of it, and
then something is: so it is asked once for each node that is ever asked about. A node has its place
in the memo by its number, and a number belongs to one node of the tree (`Tree.node_inj`).
-/

namespace Xref

/-! ## What was performed -/

namespace Performed

/-- A search for a name that is not empty. -/
def isSearch (p : Performed) : Bool :=
  match p.operation with
  | .tokens name => !name.isEmpty
  | _ => false

/-- A search that ended cancelled. -/
def isCancelledSearch (p : Performed) : Bool :=
  p.isSearch && p.failure? matches some .cancelled

/-- The number of the node of the cache's own tree that was asked about. -/
def ownNode? (p : Performed) : Option Nat :=
  match p.operation with
  | .resolution (.own n) => some n.id
  | _ => none

/-- How often the model was asked about a node of the cache's own tree, of certain numbers. -/
def callsFor (q : Nat → Bool) (p : Performed) : Nat :=
  if p.ownNode?.any q then p.resolved else 0

theorem sum_callsFor_concat (q : Nat → Bool) (ps : List Performed) (p : Performed) :
    ((ps ++ [p]).map (·.callsFor q)).sum = (ps.map (·.callsFor q)).sum + p.callsFor q := by
  rw [List.map_append, List.sum_append, List.map_singleton, List.sum_singleton]

/-- A node of another tree was asked about. -/
def isForeign (p : Performed) : Bool :=
  match p.operation with
  | .resolution (.foreign _) => true
  | _ => false

end Performed

/-! ## Entries of a table -/

namespace Memo

variable {κ ι : Type} [BEq κ] [LawfulBEq κ] {k : κ} {v : ι} {es : List (κ × ι)}

theorem not_mem_of_lookup (h : es.lookup k = none) : k ∉ es.map (·.1) := by
  intro hk
  obtain ⟨e, he, rfl⟩ := List.mem_map.1 hk
  exact bne_iff_ne.1 (List.lookup_eq_none_iff.1 h e he) rfl

theorem mem_of_lookup (h : es.lookup k = some v) : k ∈ es.map (·.1) := by
  obtain ⟨before, after, rfl, -⟩ := List.lookup_eq_some_iff.1 h
  exact List.mem_map_of_mem (List.mem_append_right before List.mem_cons_self)

/-! ## Searches -/

/-- Every search was answered from the memo or asked the index; if it asked, it went by one of the
strategies, and its answer is remembered under a key of its own unless it was cancelled. -/
structure AccountsForSearches (m : Memo) (ps : List Performed) : Prop where
  searches : m.counters.tokenHits + m.counters.tokenMisses = ps.countP (·.isSearch)
  strategies : m.counters.tokenMisses =
    m.counters.skipped + m.counters.textScans + m.counters.treeWalks
  keys : (m.tokens.map (·.1)).Nodup
  memoized : m.tokens.length + ps.countP (·.isCancelledSearch) = m.counters.tokenMisses

namespace AccountsForSearches

variable {m m' : Memo} {ps : List Performed} {p : Performed}

/-- What is no search changes nothing. -/
theorem frame (h : m.AccountsForSearches ps) (hp : p.isSearch = false) {i j k : Nat}
    (ht : m'.tokens = m.tokens)
    (hc : m'.counters = { m.counters with
      resolutionHits := i, resolutionMisses := j, aliasLookups := k }) :
    m'.AccountsForSearches (ps ++ [p]) where
  searches := by
    rw [List.countP_append, List.countP_singleton, hp, hc]
    exact h.searches
  strategies := by
    rw [hc]
    exact h.strategies
  keys := ht ▸ h.keys
  memoized := by
    rw [List.countP_append, List.countP_singleton, Performed.isCancelledSearch, hp, ht, hc]
    exact h.memoized

/-- A search is answered from the memo. -/
theorem hit (h : m.AccountsForSearches ps) (hp : p.isSearch = true) (hf : p.failure? = none) :
    AccountsForSearches
      { m with counters := { m.counters with tokenHits := m.counters.tokenHits + 1 } }
      (ps ++ [p]) where
  searches := by
    rw [List.countP_append, List.countP_singleton, hp, ← h.searches]
    exact Nat.add_right_comm ..
  strategies := h.strategies
  keys := h.keys
  memoized := by
    rw [List.countP_append, List.countP_singleton, Performed.isCancelledSearch, hp, hf]
    exact h.memoized

/-- The counters once a search has asked the index. -/
def missed (s : Strategy) (n : Counters) : Counters :=
  Query.countStrategy s { n with tokenMisses := n.tokenMisses + 1 }

theorem tokenHits_missed (s : Strategy) (n : Counters) :
    (missed s n).tokenHits = n.tokenHits := by
  cases s <;> rfl

theorem tokenMisses_missed (s : Strategy) (n : Counters) :
    (missed s n).tokenMisses = n.tokenMisses + 1 := by
  cases s <;> rfl

theorem resolutionMisses_missed (s : Strategy) (n : Counters) :
    (missed s n).resolutionMisses = n.resolutionMisses := by
  cases s <;> rfl

theorem aliasLookups_missed (s : Strategy) (n : Counters) :
    (missed s n).aliasLookups = n.aliasLookups := by
  cases s <;> rfl

theorem strategies_missed (s : Strategy) (n : Counters) :
    (missed s n).skipped + (missed s n).textScans + (missed s n).treeWalks =
      n.skipped + n.textScans + n.treeWalks + 1 := by
  cases s <;> simp only [missed, Query.countStrategy] <;> omega

/-- A search asks the index and is cancelled. -/
theorem cancelled (h : m.AccountsForSearches ps) (hp : p.isSearch = true)
    (hf : p.failure? = some .cancelled) (s : Strategy) :
    AccountsForSearches { m with counters := missed s m.counters } (ps ++ [p]) where
  searches := by
    rw [List.countP_append, List.countP_singleton, hp, ← h.searches]
    show (missed s m.counters).tokenHits + (missed s m.counters).tokenMisses = _
    rw [tokenHits_missed, tokenMisses_missed]
    rfl
  strategies := by
    show (missed s m.counters).tokenMisses = _
    rw [tokenMisses_missed, h.strategies]
    exact (strategies_missed s m.counters).symm
  keys := h.keys
  memoized := by
    rw [List.countP_append, List.countP_singleton, Performed.isCancelledSearch, hp, hf]
    show _ = (missed s m.counters).tokenMisses
    rw [tokenMisses_missed, ← h.memoized]
    rfl

/-- A search asks the index, and the answer is remembered. -/
theorem stored (h : m.AccountsForSearches ps) (hp : p.isSearch = true) (hf : p.failure? = none)
    (s : Strategy) {key : Text} (hk : m.tokens.lookup key = none) (ts : List PlacedToken) :
    AccountsForSearches { m with
      counters := missed s m.counters, tokens := (key, ts) :: m.tokens } (ps ++ [p]) where
  searches := by
    rw [List.countP_append, List.countP_singleton, hp, ← h.searches]
    show (missed s m.counters).tokenHits + (missed s m.counters).tokenMisses = _
    rw [tokenHits_missed, tokenMisses_missed]
    rfl
  strategies := by
    show (missed s m.counters).tokenMisses = _
    rw [tokenMisses_missed, h.strategies]
    exact (strategies_missed s m.counters).symm
  keys := List.nodup_cons.2 ⟨not_mem_of_lookup hk, h.keys⟩
  memoized := by
    rw [List.countP_append, List.countP_singleton, Performed.isCancelledSearch, hp, hf]
    show m.tokens.length + 1 + _ = (missed s m.counters).tokenMisses
    rw [tokenMisses_missed, ← h.memoized]
    exact Nat.add_right_comm ..

end AccountsForSearches

/-! ## Nodes -/

/-- Each node of the cache's own tree that was asked about is remembered once and was missed once,
and the model was asked once for each of these and for the nodes of other trees. -/
structure AccountsForNodes (m : Memo) (ps : List Performed) : Prop where
  keys : (m.resolutions.map (·.1)).Nodup
  asked : ∀ i, i ∈ m.resolutions.map (·.1) ↔ i ∈ ps.filterMap (·.ownNode?)
  misses : m.counters.resolutionMisses = m.resolutions.length
  own : ∀ q, (ps.map (·.callsFor q)).sum = (m.resolutions.map (·.1)).countP q
  calls : m.calls.resolve = m.counters.resolutionMisses + ps.countP (·.isForeign)

namespace AccountsForNodes

variable {m m' : Memo} {ps : List Performed} {p : Performed} {i : Nat}

/-- As many nodes were missed as different ones were asked about. -/
theorem distinct (h : m.AccountsForNodes ps) :
    m.counters.resolutionMisses = (ps.filterMap (·.ownNode?)).toFinset.card := by
  have he : (ps.filterMap (·.ownNode?)).toFinset = (m.resolutions.map (·.1)).toFinset := by
    ext i
    rw [List.mem_toFinset, List.mem_toFinset, h.asked]
  rw [he, List.toFinset_card_of_nodup h.keys, List.length_map, h.misses]

/-- The model was asked about own nodes as often as one was missed. -/
theorem own_calls (h : m.AccountsForNodes ps) :
    (ps.map (·.callsFor fun _ => true)).sum = m.counters.resolutionMisses := by
  rw [h.own, List.countP_true, List.length_map, h.misses]

/-- A node that was asked about was handed to the model once, any other never. -/
theorem once (h : m.AccountsForNodes ps) (i : Nat) :
    (ps.map (·.callsFor (· == i))).sum = if i ∈ ps.filterMap (·.ownNode?) then 1 else 0 := by
  rw [h.own]
  show (m.resolutions.map (·.1)).count i = _
  rw [h.keys.count]
  exact if_congr (h.asked i) rfl rfl

/-- What asks about no node changes nothing, and a node of another tree only the calls. -/
theorem frame (h : m.AccountsForNodes ps) (ho : p.ownNode? = none)
    (hr : m'.resolutions = m.resolutions)
    (hm : m'.counters.resolutionMisses = m.counters.resolutionMisses)
    (hc : m'.calls.resolve = m.calls.resolve + if p.isForeign then 1 else 0) :
    m'.AccountsForNodes (ps ++ [p]) where
  keys := hr ▸ h.keys
  asked i := by
    rw [List.filterMap_append, List.filterMap_cons_none ho, List.filterMap_nil, List.append_nil, hr]
    exact h.asked i
  misses := by rw [hm, hr, h.misses]
  own q := by
    rw [Performed.sum_callsFor_concat, h.own, hr, Performed.callsFor, ho]
    rfl
  calls := by rw [List.countP_append, List.countP_singleton, hc, hm, h.calls, Nat.add_assoc]

/-- A node is answered from the memo. -/
theorem hit (h : m.AccountsForNodes ps) (ho : p.ownNode? = some i) (hx : p.isForeign = false)
    (hp : p.resolved = 0) (hi : i ∈ m.resolutions.map (·.1)) (hr : m'.resolutions = m.resolutions)
    (hm : m'.counters.resolutionMisses = m.counters.resolutionMisses)
    (hc : m'.calls = m.calls) : m'.AccountsForNodes (ps ++ [p]) where
  keys := hr ▸ h.keys
  asked j := by
    rw [List.filterMap_append, List.filterMap_cons_some ho, List.filterMap_nil, List.mem_append,
      List.mem_singleton, ← h.asked, hr]
    exact ⟨.inl, fun hj => hj.elim id fun hj => hj ▸ hi⟩
  misses := by rw [hm, hr, h.misses]
  own q := by
    rw [Performed.sum_callsFor_concat, h.own, hr, Performed.callsFor, hp, ite_self]
    rfl
  calls := by rw [List.countP_append, List.countP_singleton, hx, hc, hm, h.calls]; rfl

/-- The model is asked about a node, and the answer is remembered. -/
theorem stored (h : m.AccountsForNodes ps) (ho : p.ownNode? = some i) (hx : p.isForeign = false)
    (hp : p.resolved = 1) {r : Resolution} (hi : m.resolutions.lookup i = none)
    (hr : m'.resolutions = (i, r) :: m.resolutions)
    (hm : m'.counters.resolutionMisses = m.counters.resolutionMisses + 1)
    (hc : m'.calls.resolve = m.calls.resolve + 1) : m'.AccountsForNodes (ps ++ [p]) where
  keys := by
    rw [hr]
    exact List.nodup_cons.2 ⟨not_mem_of_lookup hi, h.keys⟩
  asked j := by
    rw [List.filterMap_append, List.filterMap_cons_some ho, List.filterMap_nil, List.mem_append,
      List.mem_singleton, ← h.asked, hr, List.map_cons, List.mem_cons]
    exact or_comm
  misses := by rw [hm, hr, List.length_cons, h.misses]
  own q := by
    rw [Performed.sum_callsFor_concat, h.own, hr, List.map_cons, List.countP_cons,
      Performed.callsFor, ho, hp]
    rfl
  calls := by
    rw [List.countP_append, List.countP_singleton, hx, hc, hm, h.calls]
    exact Nat.add_right_comm ..

end AccountsForNodes

/-- The counters and tables are in step with each other and with what was performed. -/
structure Accounts (m : Memo) (ps : List Performed) : Prop where
  searches : m.AccountsForSearches ps
  nodes : m.AccountsForNodes ps
  aliases : m.counters.aliasLookups = m.calls.aliases

theorem accounts_empty : Accounts {} [] where
  searches := ⟨rfl, rfl, List.nodup_nil, rfl⟩
  nodes := ⟨List.nodup_nil, fun _ => Iff.rfl, rfl, fun _ => rfl, rfl⟩
  aliases := rfl

end Memo

/-! ## Operations -/

namespace Query

variable (a : Artifacts) (cancelled : Bool) {m : Memo} {name : Text}

theorem tokensOf_empty (m : Memo) : tokensOf a [] cancelled m = (.ok [], m) := by
  unfold tokensOf
  rw [if_pos rfl, run_pure]

theorem tokensOf_hit {ts : List PlacedToken} (hn : name ≠ [])
    (hl : m.tokens.lookup (a.comparison.key name) = some ts) :
    tokensOf a name cancelled m = (.ok ts, { m with counters :=
      { m.counters with tokenHits := m.counters.tokenHits + 1 } }) := by
  unfold tokensOf
  rw [if_neg hn]
  simp only [run_bind, run_get, hl, run_count, run_pure]

theorem tokensOf_miss (hn : name ≠ []) (hl : m.tokens.lookup (a.comparison.key name) = none) :
    let n := Memo.AccountsForSearches.missed (Strategy.select a.index name) m.counters
    (∃ ts, tokensOf a name cancelled m =
      (.ok ts, { m with counters := n, tokens := (a.comparison.key name, ts) :: m.tokens })) ∨
    tokensOf a name cancelled m = (.error .cancelled, { m with counters := n }) := by
  unfold tokensOf
  rw [if_neg hn]
  simp only [run_bind, run_get, hl, run_count, run_ofExcept]
  rcases (Strategy.select a.index name).run_eq a.tree a.comparison name cancelled with
    hr | ⟨-, hr⟩
  · rw [hr]
    exact .inl ⟨_, rfl⟩
  · rw [hr]
    exact .inr rfl

theorem resolve_hit {p : PlacedNode} {r : Resolution} (hl : m.resolutions.lookup p.id = some r) :
    resolve a (.own p) m = (.ok r, { m with counters :=
      { m.counters with resolutionHits := m.counters.resolutionHits + 1 } }) := by
  unfold resolve
  simp only [run_bind, run_get, hl, run_count, run_pure]

theorem resolve_miss {p : PlacedNode} (hl : m.resolutions.lookup p.id = none) :
    resolve a (.own p) m = (.ok (a.model.resolve p), { m with
      counters := { m.counters with resolutionMisses := m.counters.resolutionMisses + 1 },
      calls := { m.calls with resolve := m.calls.resolve + 1 },
      resolutions := (p.id, a.model.resolve p) :: m.resolutions }) := by
  unfold resolve
  simp only [run_bind, run_get, hl, run_count, run_countCall, run_modify, run_pure]

theorem aliasNames_memo (f : Language) (m : Memo) :
    ∃ ns, (aliasNames a f cancelled m).2 = { m with aliasNames := ns } := by
  unfold aliasNames
  simp only [run_bind, run_get]
  cases h : m.aliasNames with
  | some ns => exact ⟨m.aliasNames, rfl⟩
  | none =>
      cases cancelled with
      | false => exact ⟨some _, rfl⟩
      | true => exact ⟨m.aliasNames, rfl⟩

/-- A token is counted as looked up exactly if the model is asked for its alias. -/
theorem hasAliasName_memo (f : Language) (t : PlacedToken) (m : Memo) :
    ∃ ns k, (hasAliasName a f t cancelled m).2 = { m with
      aliasNames := ns,
      counters := { m.counters with aliasLookups := m.counters.aliasLookups + k },
      calls := { m.calls with aliases := m.calls.aliases + k } } := by
  obtain ⟨ns, hns⟩ := aliasNames_memo a cancelled f m
  unfold hasAliasName
  rw [run_bind]
  generalize aliasNames a f cancelled m = r at hns ⊢
  obtain ⟨r, m'⟩ := r
  obtain rfl : m' = { m with aliasNames := ns } := hns
  cases r with
  | error e => exact ⟨ns, 0, rfl⟩
  | ok names =>
      dsimp only
      split
      · exact ⟨ns, 1, rfl⟩
      · exact ⟨ns, 0, rfl⟩

theorem aliasAt_memo (f : Language) (t : PlacedToken) (m : Memo) :
    (aliasAt a f t cancelled m).2 = (hasAliasName a f t cancelled m).2 := by
  unfold aliasAt
  rw [run_bind]
  generalize hasAliasName a f t cancelled m = r
  obtain ⟨r, m'⟩ := r
  cases r with
  | error e => rfl
  | ok b => cases b <;> rfl

theorem foreignAliasAt_memo (f : Language) (t : PlacedToken) (m : Memo) :
    (foreignAliasAt a f t cancelled m).2 = (hasAliasName a f t cancelled m).2 := by
  unfold foreignAliasAt
  rw [run_bind]
  generalize hasAliasName a f t cancelled m = r
  obtain ⟨r, m'⟩ := r
  cases r <;> rfl

theorem initializers_memo (f : Language) (x : Subject) (m : Memo) :
    ∃ ts, (initializers a f x cancelled m).2 = { m with initializers := ts } := by
  unfold initializers
  split
  · simp only [run_bind, run_get]
    cases h : m.initializers with
    | some ts => exact ⟨m.initializers, rfl⟩
    | none =>
        cases cancelled with
        | false => exact ⟨some _, rfl⟩
        | true => exact ⟨m.initializers, rfl⟩
  · cases cancelled with
    | false => exact ⟨m.initializers, rfl⟩
    | true => exact ⟨m.initializers, rfl⟩

end Query

namespace Operation

open Memo

variable {a : Artifacts} {c : Bool} {m m' : Memo} {ps : List Performed} {o : Operation}

theorem perform_of_ok {v : o.Answer} (h : o.ask a c m = (.ok v, m')) :
    o.perform a c m = ⟨o, none, m'.calls.resolve - m.calls.resolve⟩ := by
  rw [perform, h]

theorem perform_of_error {e : Failure} (h : o.ask a c m = (.error e, m')) :
    o.perform a c m = ⟨o, some e, m'.calls.resolve - m.calls.resolve⟩ := by
  rw [perform, h]

theorem accounts_tokens (h : m.Accounts ps) (name : Text) :
    ((tokens name).ask a c m).2.Accounts (ps ++ [(tokens name).perform a c m]) := by
  by_cases hn : name = []
  · have hq : (tokens name).ask a c m = (.ok [], m) := hn ▸ Query.tokensOf_empty a c m
    rw [perform_of_ok hq, hq]
    have hp (n : Nat) : (Performed.mk (tokens name) none n).isSearch = false := by rw [hn]; rfl
    exact ⟨h.searches.frame (hp _) rfl rfl, h.nodes.frame rfl rfl rfl rfl, h.aliases⟩
  have hp (e : Option Failure) (n : Nat) : (Performed.mk (tokens name) e n).isSearch = true := by
    simpa [Performed.isSearch] using hn
  cases hl : m.tokens.lookup (a.comparison.key name) with
  | some ts =>
      have hq : (tokens name).ask a c m = _ := Query.tokensOf_hit a c hn hl
      rw [perform_of_ok hq, hq]
      exact ⟨h.searches.hit (hp ..) rfl, h.nodes.frame rfl rfl rfl rfl, h.aliases⟩
  | none =>
      have hm := AccountsForSearches.resolutionMisses_missed (.select a.index name) m.counters
      have ha := AccountsForSearches.aliasLookups_missed (.select a.index name) m.counters
      rcases Query.tokensOf_miss a c hn hl with ⟨ts, hq⟩ | hq
      · have hq : (tokens name).ask a c m = _ := hq
        rw [perform_of_ok hq, hq]
        exact ⟨h.searches.stored (hp ..) rfl _ hl ts, h.nodes.frame rfl rfl hm rfl,
          ha.trans h.aliases⟩
      · have hq : (tokens name).ask a c m = _ := hq
        rw [perform_of_error hq, hq]
        exact ⟨h.searches.cancelled (hp ..) rfl _, h.nodes.frame rfl rfl hm rfl,
          ha.trans h.aliases⟩

theorem accounts_resolution (h : m.Accounts ps) (x : Subject) :
    ((resolution x).ask a c m).2.Accounts (ps ++ [(resolution x).perform a c m]) := by
  cases x with
  | foreign n =>
      exact ⟨h.searches.frame rfl rfl rfl, h.nodes.frame rfl rfl rfl rfl, h.aliases⟩
  | own n =>
      cases hl : m.resolutions.lookup n.id with
      | some r =>
          have hq : (resolution (.own n)).ask a c m = _ := Query.resolve_hit a hl
          rw [perform_of_ok hq, hq]
          exact ⟨h.searches.frame rfl rfl rfl,
            h.nodes.hit rfl rfl (Nat.sub_self _) (mem_of_lookup hl) rfl rfl rfl, h.aliases⟩
      | none =>
          have hq : (resolution (.own n)).ask a c m = _ := Query.resolve_miss a hl
          rw [perform_of_ok hq, hq]
          have hp := Nat.add_sub_cancel_left m.calls.resolve 1
          exact ⟨h.searches.frame rfl rfl rfl, h.nodes.stored rfl rfl hp hl rfl rfl rfl, h.aliases⟩

/-- What is neither a search nor a question about a node counts alias lookups and calls alike. -/
theorem accounts_other {p : Performed} (h : m.Accounts ps) (hs : p.isSearch = false)
    (ho : p.ownNode? = none) (hx : p.isForeign = false) (k : Nat) (ht : m'.tokens = m.tokens)
    (hr : m'.resolutions = m.resolutions)
    (hc : m'.counters = { m.counters with aliasLookups := m.counters.aliasLookups + k })
    (hk : m'.calls.resolve = m.calls.resolve) (ha : m'.calls.aliases = m.calls.aliases + k) :
    m'.Accounts (ps ++ [p]) where
  searches := h.searches.frame hs ht hc
  nodes := h.nodes.frame ho hr (by rw [hc]) (by rw [hk, hx]; rfl)
  aliases := by
    rw [hc, ha, ← h.aliases]

/-- However it ends, what is performed is the operation. -/
theorem perform_eq (o : Operation) :
    o.perform a c m = ⟨o, (o.perform a c m).failure?, (o.perform a c m).resolved⟩ := by
  unfold perform
  split <;> rfl

theorem accounts_hasAliasName (h : m.Accounts ps) {p : Performed} (hs : p.isSearch = false)
    (ho : p.ownNode? = none) (hx : p.isForeign = false) (f : Language) (t : PlacedToken) :
    (Query.hasAliasName a f t c m).2.Accounts (ps ++ [p]) := by
  obtain ⟨ns, k, hm⟩ := Query.hasAliasName_memo a c f t m
  rw [hm]
  exact accounts_other h hs ho hx k rfl rfl rfl rfl rfl

/-- Whatever is performed, the accounts are kept. -/
theorem accounts_ask (o : Operation) (h : m.Accounts ps) :
    (o.ask a c m).2.Accounts (ps ++ [o.perform a c m]) := by
  cases o with
  | tokens name => exact accounts_tokens h name
  | resolution x => exact accounts_resolution h x
  | declared p => exact accounts_other h rfl rfl rfl 0 rfl rfl rfl rfl rfl
  | aliasAt f t =>
      rw [perform_eq, ask, Query.aliasAt_memo]
      exact accounts_hasAliasName h rfl rfl rfl f t
  | foreignAliasAt f t =>
      rw [perform_eq, ask, Query.foreignAliasAt_memo]
      exact accounts_hasAliasName h rfl rfl rfl f t
  | initializers f x =>
      obtain ⟨ts, hm⟩ := Query.initializers_memo a c f x m
      rw [perform_eq, ask, hm]
      exact accounts_other h rfl rfl rfl 0 rfl rfl rfl rfl rfl

end Operation

/-! ## Histories -/

namespace Call

/-- A call keeps the accounts of all that it performs. -/
theorem accounts_ask {a : Artifacts} {cancelled : Bool} {m : Memo} {ps : List Performed}
    (c : Call) (h : m.Accounts ps) :
    (c.ask a cancelled m).2.Accounts (ps ++ (c.plan a).steps a cancelled m) := by
  rw [← c.run_plan]
  exact Plan.run_steps (P := Memo.Accounts) (fun o m ps h => o.accounts_ask h) _ h

/-- The memo once calls have been made on a memo. Each call is given whether it is cancelled. -/
def remember (a : Artifacts) : List (Call × Bool) → Memo → Memo
  | [], m => m
  | (c, cancelled) :: history, m => remember a history (c.ask a cancelled m).2

/-- What calls perform, starting with a memo. -/
def performed (a : Artifacts) : List (Call × Bool) → Memo → List Performed
  | [], _ => []
  | (c, cancelled) :: history, m =>
    (c.plan a).steps a cancelled m ++ performed a history (c.ask a cancelled m).2

/-- Calls keep the accounts, one after the other. -/
theorem accounts_remember {a : Artifacts} (history : List (Call × Bool)) {m : Memo}
    {ps : List Performed} (h : m.Accounts ps) :
    (remember a history m).Accounts (ps ++ performed a history m) := by
  induction history generalizing m ps with
  | nil =>
      rw [performed, List.append_nil]
      exact h
  | cons call history ih =>
      obtain ⟨c, cancelled⟩ := call
      rw [performed, ← List.append_assoc]
      exact ih (c.accounts_ask h)

/-- Whatever calls are made on a cache, its counters balance. Every search for a name that is not
empty was answered from the memo or asked the index, every search of the index went by one of the
strategies, and each left an answer under a key of its own unless it was cancelled. The model was
asked once for each node of the cache's own tree that was asked about, every time for nodes of other
trees, and for an alias as often as one was looked up. -/
theorem counters_balance (a : Artifacts) (history : List (Call × Bool)) :
    let m := remember a history {}
    let ps := performed a history {}
    let asked := ps.filterMap (·.ownNode?)
    (m.counters.tokenHits + m.counters.tokenMisses = ps.countP (·.isSearch) ∧
      m.counters.tokenMisses =
        m.counters.skipped + m.counters.textScans + m.counters.treeWalks ∧
      (m.tokens.map (·.1)).Nodup ∧
      m.tokens.length + ps.countP (·.isCancelledSearch) = m.counters.tokenMisses) ∧
    (m.counters.resolutionMisses = asked.toFinset.card ∧
      (ps.map (·.callsFor fun _ => true)).sum = m.counters.resolutionMisses ∧
      (∀ i, (ps.map (·.callsFor (· == i))).sum = if i ∈ asked then 1 else 0) ∧
      m.calls.resolve = m.counters.resolutionMisses + ps.countP (·.isForeign)) ∧
    m.counters.aliasLookups = m.calls.aliases := by
  have h := accounts_remember (a := a) history Memo.accounts_empty
  rw [List.nil_append] at h
  obtain ⟨hs, hn, ha⟩ := h
  exact ⟨⟨hs.searches, hs.strategies, hs.keys, hs.memoized⟩,
    ⟨hn.distinct, hn.own_calls, hn.once, hn.calls⟩, ha⟩

end Call

end Xref
