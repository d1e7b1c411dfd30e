import Mathlib.Data.Fintype.EquivFin
import Mathlib.Data.Set.Finite.List
import Mathlib.Logic.Relation
import Mathlib.Order.WellFounded
import PhaseFlow.Proofs.Graph.Adjacency
import PhaseFlow.Proofs.Schedule.Kahn
import PhaseFlow.Proofs.Text.ByteOrder

/-!
# Cycles

The placing of the nodes stalls exactly on the nodes behind a cycle. A node on a cycle
would have to stand before itself, and so would the first placed node behind a cycle
(`SourcesFirst.not_blocked`). On the other side, when no node is ready, every node that
is left out has a source that is left out (`Stalled.exists_source`), and going back from
source to source must run into a cycle (`exists_transGen_self`).

Main statement: `cycle_error_iff`.
-/

namespace PhaseFlow

namespace Graph

/-- The node is on a directed cycle. -/
def OnCycle (graph : Graph) (id : String) : Prop :=
  Relation.TransGen graph.Joins id id

def HasCycle (graph : Graph) : Prop :=
  ∃ id, graph.OnCycle id

/-- The node is on a directed cycle or can be reached from one. -/
def Blocked (graph : Graph) (id : String) : Prop :=
  ∃ start, graph.OnCycle start ∧ Relation.ReflTransGen graph.Joins start id

theorem OnCycle.blocked
    {graph : Graph} {id : String}
    (h : graph.OnCycle id) :
    graph.Blocked id :=
  ⟨id, h, Relation.ReflTransGen.refl⟩

/-- Only nodes are blocked. -/
theorem WellFormed.hasNode_of_blocked
    {graph : Graph}
    (h : graph.WellFormed)
    {id : String}
    (hblocked : graph.Blocked id) :
    graph.hasNode id = true := by
  obtain ⟨start, hcycle, hpath⟩ := hblocked
  have hbehind : Relation.TransGen graph.Joins start id := hcycle.trans_left hpath
  cases hbehind with
  | single hjoins => exact (h.hasNode_of_joins hjoins).2
  | tail _ hjoins => exact (h.hasNode_of_joins hjoins).2

end Graph

namespace Schedule

variable {graph : Graph}

/-! ## Placed nodes are not blocked -/

/-- In an order with sources first, everything that leads to a node stands before it. -/
theorem SourcesFirst.mem_of_transGen
    {order : List String}
    (h : SourcesFirst graph order)
    {source id : String}
    (hpath : Relation.TransGen graph.Joins source id) :
    ∀ {before after : List String},
      order = before ++ id :: after → source ∈ before := by
  induction hpath with
  | single hjoins =>
      intro before after heq
      obtain ⟨edge, hedge, rfl, rfl⟩ := hjoins
      exact h before _ after heq edge hedge rfl
  | tail _ hjoins ih =>
      intro before after heq
      obtain ⟨edge, hedge, rfl, rfl⟩ := hjoins
      obtain ⟨front, back, rfl⟩ := List.append_of_mem (h before _ after heq edge hedge rfl)
      have hfront : source ∈ front :=
        @ih front (back ++ edge.target :: after) (by simpa using heq)
      exact List.mem_append_left _ hfront

theorem SourcesFirst.not_onCycle
    {order : List String}
    (h : SourcesFirst graph order)
    (hnodup : order.Nodup)
    {id : String}
    (hid : id ∈ order) :
    ¬ graph.OnCycle id := by
  intro hcycle
  obtain ⟨before, after, rfl⟩ := List.append_of_mem hid
  have hbefore : id ∈ before := h.mem_of_transGen hcycle rfl
  exact (List.nodup_append.1 hnodup).2.2 id hbefore id List.mem_cons_self rfl

theorem SourcesFirst.not_blocked
    {order : List String}
    (h : SourcesFirst graph order)
    (hnodup : order.Nodup)
    {id : String}
    (hid : id ∈ order) :
    ¬ graph.Blocked id := by
  rintro ⟨start, hcycle, hpath⟩
  rcases Relation.reflTransGen_iff_eq_or_transGen.1 hpath with rfl | hbehind
  · exact h.not_onCycle hnodup hid hcycle
  · obtain ⟨before, after, rfl⟩ := List.append_of_mem hid
    have hstart : start ∈ before := h.mem_of_transGen hbehind rfl
    exact h.not_onCycle hnodup (List.mem_append_left _ hstart) hcycle

/-! ## Nodes that are left out are blocked -/

/-- If every member of a finite set has a predecessor in it, some member is before
itself. -/
theorem exists_transGen_self
    {α : Type} {r : α → α → Prop} {s : Set α}
    (hfinite : s.Finite)
    (hne : s.Nonempty)
    (hpred : ∀ a ∈ s, ∃ b ∈ s, r b a) :
    ∃ a ∈ s, Relation.TransGen r a a := by
  by_contra hnone
  -- Being before is well-founded on a finite set then, and its first member has no
  -- predecessor.
  have : Finite s := hfinite.to_subtype
  have : Std.Irrefl fun a b : s => Relation.TransGen r a.1 b.1 :=
    ⟨fun a hcycle => hnone ⟨a.1, a.2, hcycle⟩⟩
  have : IsTrans s fun a b : s => Relation.TransGen r a.1 b.1 :=
    ⟨fun _ _ _ hab hbc => hab.trans hbc⟩
  have hfounded : WellFounded fun a b : s => Relation.TransGen r a.1 b.1 :=
    Finite.wellFounded_of_trans_of_irrefl _
  obtain ⟨a, ha⟩ := hne
  obtain ⟨first, -, hfirst⟩ := hfounded.has_min Set.univ ⟨⟨a, ha⟩, Set.mem_univ _⟩
  obtain ⟨b, hb, hbefore⟩ := hpred first.1 first.2
  exact hfirst ⟨b, hb⟩ (Set.mem_univ _) (Relation.TransGen.single hbefore)

namespace Frontier

/-- No node may be placed next. -/
def Stalled (frontier : Frontier) : Prop :=
  ∀ id, frontier.ready.contains id = false

theorem stalled_of_step_eq_none
    {frontier : Frontier}
    (h : frontier.step graph = none) :
    frontier.Stalled := by
  intro id
  by_contra hready
  obtain ⟨value, hvalue⟩ := (frontier.ready.contains_iff id).1 (by simpa using hready)
  have hentry := (frontier.ready.mem_entries_iff id value).2 hvalue
  unfold Frontier.step at h
  split at h
  · next hempty =>
      rw [hempty] at hentry
      cases hentry
  · cases h

/-- With as many placed nodes as there are nodes, all are placed. -/
theorem Invariant.perm_of_length
    {frontier : Frontier}
    (h : Invariant graph frontier)
    (hlength : graph.nodes.size ≤ frontier.placed.length) :
    frontier.placed.Perm graph.nodes.keys := by
  have hsubset : frontier.placed ⊆ graph.nodes.keys := by
    intro id hid
    exact mem_keys_iff_hasNode.2 (h.known id hid)
  apply (List.subperm_of_subset h.nodup hsubset).perm_of_length_le
  simpa [KeyMap.keys, KeyMap.size] using hlength

theorem Invariant.stalled_of_length
    {frontier : Frontier}
    (h : Invariant graph frontier)
    (hlength : graph.nodes.size ≤ frontier.placed.length) :
    frontier.Stalled := by
  intro id
  by_contra hready
  obtain ⟨hnode, hnew, -⟩ := (h.ready id).1 (by simpa using hready)
  exact hnew ((h.perm_of_length hlength).mem_iff.2 (mem_keys_iff_hasNode.2 hnode))

/-- **Enough steps stall**, since each of them places one more node. -/
theorem Invariant.stalled_advance :
    ∀ (bound : Nat) {frontier : Frontier},
      Invariant graph frontier →
      graph.nodes.size ≤ frontier.placed.length + bound →
      (Frontier.advance graph bound frontier).Stalled
  | 0, _, h, hbound => h.stalled_of_length hbound
  | bound + 1, frontier, h, hbound => by
      unfold Frontier.advance
      split
      · next next hnext =>
          obtain ⟨hinvariant, id, -, hplaced⟩ := h.step hnext
          refine hinvariant.stalled_advance bound ?_
          rw [hplaced, List.length_append, List.length_singleton]
          omega
      · next hnone => exact stalled_of_step_eq_none hnone

theorem stalled_final (graph : Graph) : (final graph).Stalled :=
  (Invariant.initial graph).stalled_advance graph.nodes.size (by simp)

/-- A node that is left out has a source that is left out. -/
theorem Stalled.exists_source
    {frontier : Frontier}
    (hstalled : frontier.Stalled)
    (h : Invariant graph frontier)
    {id : String}
    (hnode : graph.hasNode id = true)
    (hid : id ∉ frontier.placed) :
    ∃ source, graph.Joins source id ∧ source ∉ frontier.placed := by
  have hwaiting : waiting graph frontier.placed id ≠ 0 := by
    intro hzero
    have hready := (h.ready id).2 ⟨hnode, hid, hzero⟩
    rw [hstalled id] at hready
    cases hready
  rw [Ne, waiting_eq_zero_iff] at hwaiting
  push Not at hwaiting
  obtain ⟨edge, hedge, htarget, hsource⟩ := hwaiting
  exact ⟨edge.source, ⟨edge, hedge, rfl, htarget⟩, hsource⟩

/-- The nodes that a list leaves out and that lead to a given node. -/
def leftBefore
    (graph : Graph)
    (placed : List String)
    (id : String) :
    Set String :=
  { source | graph.hasNode source = true ∧ source ∉ placed ∧
    Relation.ReflTransGen graph.Joins source id }

/-- **Nodes that are left out are blocked.** -/
theorem Stalled.blocked
    {frontier : Frontier}
    (hstalled : frontier.Stalled)
    (h : Invariant graph frontier)
    (hwell : graph.WellFormed)
    {id : String}
    (hnode : graph.hasNode id = true)
    (hid : id ∉ frontier.placed) :
    graph.Blocked id := by
  have hfinite : (leftBefore graph frontier.placed id).Finite :=
    (List.finite_toSet graph.nodes.keys).subset fun _ hsource =>
      mem_keys_iff_hasNode.2 hsource.1
  have hpred : ∀ other ∈ leftBefore graph frontier.placed id,
      ∃ source ∈ leftBefore graph frontier.placed id, graph.Joins source other := by
    rintro other ⟨hother, hleft, hpath⟩
    obtain ⟨source, hjoins, hsource⟩ := hstalled.exists_source h hother hleft
    exact ⟨source, ⟨(hwell.hasNode_of_joins hjoins).1, hsource, hpath.head hjoins⟩, hjoins⟩
  obtain ⟨start, ⟨-, -, hpath⟩, hcycle⟩ := exists_transGen_self hfinite
    ⟨id, hnode, hid, Relation.ReflTransGen.refl⟩ hpred
  exact ⟨start, hcycle, hpath⟩

end Frontier

/-- **The nodes that are placed are those that are not blocked.** -/
theorem mem_placed_final_iff
    (hwell : graph.WellFormed)
    {id : String}
    (hnode : graph.hasNode id = true) :
    id ∈ (Frontier.final graph).placed ↔ ¬ graph.Blocked id := by
  have hfinal := Frontier.Invariant.final graph
  constructor
  · exact fun hid => hfinal.sourcesFirst.not_blocked hfinal.nodup hid
  · intro hfree
    by_contra hid
    exact hfree ((Frontier.stalled_final graph).blocked hfinal hwell hnode hid)

/-! ## The error -/

theorem mem_missing_iff
    {placed : List String} {id : String} :
    id ∈ missing graph placed ↔ graph.hasNode id = true ∧ id ∉ placed := by
  simp [missing, mem_keys_iff_hasNode]

theorem pairwise_missing
    (graph : Graph)
    (placed : List String) :
    (missing graph placed).Pairwise fun a b => Text.utf8 a < Text.utf8 b :=
  List.Pairwise.filter _ graph.nodes.ascending_keys

theorem executionOrder_of_not_hasCycle
    (hwell : graph.WellFormed)
    (h : ¬ graph.HasCycle) :
    executionOrder graph = .ok (Frontier.final graph).placed := by
  have hfinal := Frontier.Invariant.final graph
  have hkeys : graph.nodes.keys ⊆ (Frontier.final graph).placed := by
    intro id hid
    refine (mem_placed_final_iff hwell (mem_keys_iff_hasNode.1 hid)).2 ?_
    rintro ⟨start, hcycle, -⟩
    exact h ⟨start, hcycle⟩
  have hle := (List.subperm_of_subset graph.nodes.nodup_keys hkeys).length_le
  have hge := (List.subperm_of_subset hfinal.nodup fun id hid =>
    mem_keys_iff_hasNode.2 (hfinal.known id hid)).length_le
  have hlength : (Frontier.final graph).placed.length = graph.nodes.size := by
    rw [KeyMap.keys, List.length_map] at hle hge
    exact Nat.le_antisymm hge hle
  simp [executionOrder, hlength]

theorem executionOrder_of_hasCycle
    (hwell : graph.WellFormed)
    (h : graph.HasCycle) :
    executionOrder graph =
      .error (.cycle (missing graph (Frontier.final graph).placed)) := by
  obtain ⟨id, hcycle⟩ := h
  have hnode := hwell.hasNode_of_blocked hcycle.blocked
  have hlength : (Frontier.final graph).placed.length ≠ graph.nodes.size := by
    intro hlength
    have hperm := (Frontier.Invariant.final graph).perm_of_length hlength.ge
    have hid := hperm.mem_iff.2 (mem_keys_iff_hasNode.2 hnode)
    exact (mem_placed_final_iff hwell hnode).1 hid hcycle.blocked
  simp [executionOrder, hlength]

theorem not_hasCycle_of_executionOrder
    (hwell : graph.WellFormed)
    {order : List String}
    (h : executionOrder graph = .ok order) :
    ¬ graph.HasCycle := by
  intro hcycle
  rw [executionOrder_of_hasCycle hwell hcycle] at h
  cases h

/-- **A graph without execution order is a graph with a cycle**, and the error lists,
ascending, the nodes on a cycle and the nodes that can be reached from one. -/
theorem cycle_error_iff
    (hgraph : graph.Reachable) :
    ((∃ remaining, executionOrder graph = .error (.cycle remaining)) ↔
        graph.HasCycle) ∧
    ∀ remaining,
      executionOrder graph = .error (.cycle remaining) →
      (remaining.Pairwise fun a b => Text.utf8 a < Text.utf8 b) ∧
      ∀ id, id ∈ remaining ↔ graph.Blocked id := by
  have hwell := hgraph.wellFormed
  by_cases hcycle : graph.HasCycle
  · have herror := executionOrder_of_hasCycle hwell hcycle
    refine ⟨⟨fun _ => hcycle, fun _ => ⟨_, herror⟩⟩, ?_⟩
    intro remaining hremaining
    rw [herror] at hremaining
    cases hremaining
    refine ⟨pairwise_missing graph _, ?_⟩
    intro id
    rw [mem_missing_iff]
    constructor
    · rintro ⟨hnode, hid⟩
      exact Classical.not_not.1 fun hfree => hid ((mem_placed_final_iff hwell hnode).2 hfree)
    · intro hblocked
      have hnode := hwell.hasNode_of_blocked hblocked
      exact ⟨hnode, fun hid => (mem_placed_final_iff hwell hnode).1 hid hblocked⟩
  · have hok := executionOrder_of_not_hasCycle hwell hcycle
    have hnone : ∀ remaining, executionOrder graph ≠ .error (.cycle remaining) := by
      intro remaining heq
      rw [hok] at heq
      cases heq
    exact ⟨⟨fun ⟨remaining, h⟩ => absurd h (hnone remaining), fun h => absurd h hcycle⟩,
      fun remaining h => absurd h (hnone remaining)⟩

/-- A node that feeds itself, a cycle of two nodes, a node behind the cycle and one
before it. -/
def tangled : Graph :=
  (Graph.create "g" "tangled" ⟨0⟩).after
    [.addNode "self" "" .null .passThrough ⟨0⟩, .addNode "to" "" .null .passThrough ⟨0⟩,
      .addNode "fro" "" .null .passThrough ⟨0⟩, .addNode "behind" "" .null .passThrough ⟨0⟩,
      .addNode "before" "" .null .passThrough ⟨0⟩, .addEdge "self" "self" .null ⟨0⟩,
      .addEdge "to" "fro" .null ⟨0⟩, .addEdge "fro" "to" .null ⟨0⟩,
      .addEdge "fro" "behind" .null ⟨0⟩, .addEdge "before" "to" .null ⟨0⟩]

theorem reachable_tangled : tangled.Reachable :=
  (Graph.Reachable.create "tangled" ⟨0⟩ (by decide)).after _

theorem executionOrder_tangled :
    executionOrder tangled = .error (.cycle ["behind", "fro", "self", "to"]) :=
  rfl

theorem cycle_error_iff_tangled :
    tangled.Reachable ∧
    tangled.HasCycle ∧
    ∀ id, tangled.Blocked id ↔ id ∈ ["behind", "fro", "self", "to"] := by
  obtain ⟨hiff, hremaining⟩ := cycle_error_iff reachable_tangled
  refine ⟨reachable_tangled, hiff.1 ⟨_, executionOrder_tangled⟩, ?_⟩
  intro id
  exact ((hremaining _ executionOrder_tangled).2 id).symm

end Schedule

end PhaseFlow
