import PhaseFlow.Proofs.Schedule.Cycle

/-!
# The least order

Of the ready nodes the smallest one is placed (`Frontier.placed_step`). Any other order
of the graph that starts with the nodes placed so far goes on with a ready node, so it
goes on with the same node or with a larger one: what is placed always leads every order
(`Frontier.Leads.step`).

Which orders a graph has depends on its nodes and on the pairs of nodes that edges join
(`IsOrder.congr`), so graphs with the same nodes and pairs have the same execution
order.

Main statement: `executionOrder_least`.
-/

namespace PhaseFlow

namespace Schedule

variable {graph : Graph}

/-- Node by node in the order of their bytes, the first order comes before the second
one. -/
def Before (order other : List String) : Prop :=
  List.Lex (fun a b => Text.utf8 a < Text.utf8 b) order other

theorem before_of_diverges
    {order other : List String}
    (h : Diverges order other) :
    Before order other := by
  obtain ⟨common, first, second, rest, rest', rfl, rfl, hlt⟩ := h
  exact List.Lex.append_left (fun a b => Text.utf8 a < Text.utf8 b)
    (List.Lex.rel (Text.utf8_lt_utf8 hlt)) common

/-- The order of lists by their first difference is the lexicographic one. -/
theorem Before.lt
    {order other : List String}
    (h : Before order other) :
    order < other := by
  unfold Before at h
  induction h with
  | nil => exact List.Lex.nil
  | cons _ ih => exact List.Lex.cons ih
  | rel hlt => exact List.Lex.rel (Text.utf8_lt_utf8_iff.1 hlt)

theorem Before.asymm
    {order other : List String}
    (h : Before order other) :
    ¬ Before other order :=
  fun hback => List.lt_asymm h.lt hback.lt

/-! ## The smallest ready node goes first -/

namespace Frontier

/-- A round places the least of the nodes that are ready. -/
theorem placed_step
    {frontier next : Frontier}
    (h : frontier.step graph = some next) :
    ∃ id,
      next.placed = frontier.placed ++ [id] ∧
      frontier.ready.contains id = true ∧
      ∀ other, frontier.ready.contains other = true → id = other ∨ id < other := by
  obtain ⟨id, hready, hleast, rfl⟩ := exists_of_step h
  exact ⟨id, placed_foldl_release _ _, hready, hleast⟩

/-- What is placed is the start of an order, or it is smaller where it differs from the
order first. -/
def Leads (placed order : List String) : Prop :=
  placed <+: order ∨ Diverges placed order

/-- An order that starts with the placed nodes goes on with a ready node. -/
theorem Invariant.ready_of_isOrder
    {frontier : Frontier}
    (h : Invariant graph frontier)
    {id : String} {rest : List String}
    (horder : IsOrder graph (frontier.placed ++ id :: rest)) :
    frontier.ready.contains id = true := by
  have hmem : id ∈ frontier.placed ++ id :: rest :=
    List.mem_append_right _ List.mem_cons_self
  have hnodup : (frontier.placed ++ id :: rest).Nodup :=
    horder.perm.nodup_iff.2 graph.nodes.nodup_keys
  refine (h.ready id).2 ⟨mem_keys_iff_hasNode.1 (horder.perm.mem_iff.1 hmem), ?_, ?_⟩
  · intro hplaced
    exact (List.nodup_append.1 hnodup).2.2 id hplaced id List.mem_cons_self rfl
  · exact waiting_eq_zero_iff.2 (horder.sourcesFirst _ _ _ rfl)

/-- **A step keeps ahead of every order.** -/
theorem Leads.step
    {frontier next : Frontier} {order : List String}
    (hinvariant : Invariant graph frontier)
    (horder : IsOrder graph order)
    (hstep : frontier.step graph = some next)
    (h : Leads frontier.placed order) :
    Leads next.placed order := by
  obtain ⟨id, hplaced, hready, hleast⟩ := placed_step hstep
  rw [hplaced]
  rcases h with ⟨rest, rfl⟩ | hdiverges
  · cases rest with
    | nil =>
        -- All nodes are placed, so none could have been ready.
        obtain ⟨hnode, hnew, -⟩ := (hinvariant.ready id).1 hready
        have hid := horder.perm.mem_iff.2 (mem_keys_iff_hasNode.2 hnode)
        rw [List.append_nil] at hid
        exact absurd hid hnew
    | cons other rest =>
        rcases hleast other (hinvariant.ready_of_isOrder horder) with rfl | hlt
        · exact Or.inl ⟨rest, by simp⟩
        · exact Or.inr ⟨frontier.placed, id, other, [], rest, rfl, rfl, hlt⟩
  · have hmore := hdiverges.append [id] []
    rw [List.append_nil] at hmore
    exact Or.inr hmore

/-- The placed nodes stay ahead of a given order, round after round. -/
theorem Leads.advance
    {order : List String}
    (horder : IsOrder graph order) :
    ∀ (bound : Nat) {frontier : Frontier},
      Invariant graph frontier →
      Leads frontier.placed order →
      Leads (Frontier.advance graph bound frontier).placed order
  | 0, _, _, h => h
  | bound + 1, frontier, hinvariant, h => by
      unfold Frontier.advance
      split
      · next next hnext =>
          exact Leads.advance horder bound (hinvariant.step hnext).1
            (h.step hinvariant horder hnext)
      · exact h

theorem leads_final
    {order : List String}
    (horder : IsOrder graph order) :
    Leads (final graph).placed order :=
  Leads.advance horder graph.nodes.size (Invariant.initial graph) (Or.inl (List.nil_prefix))

end Frontier

/-- The order that is computed is ahead of every other one. -/
theorem eq_or_before
    {order other : List String}
    (h : executionOrder graph = .ok order)
    (hother : IsOrder graph other) :
    other = order ∨ Before order other := by
  have hfinal : (Frontier.final graph).placed = order := by
    unfold executionOrder at h
    dsimp only at h
    split at h
    · exact Except.ok.inj h
    · cases h
  have hlength : order.length = other.length :=
    ((executionOrder_isOrder h).perm.trans hother.perm.symm).length_eq
  rcases Frontier.leads_final hother with hstart | hdiverges
  · rw [hfinal] at hstart
    exact Or.inl (hstart.eq_of_length hlength).symm
  · rw [hfinal] at hdiverges
    exact Or.inr (before_of_diverges hdiverges)

/-! ## Graphs with the same nodes and pairs -/

/-- Every source of an edge stands somewhere before its target. -/
theorem sourcesFirst_iff
    {order : List String} :
    SourcesFirst graph order ↔
      ∀ before id after,
        order = before ++ id :: after →
        ∀ source, graph.Joins source id → source ∈ before := by
  constructor
  · rintro h before id after heq source ⟨edge, hedge, rfl, rfl⟩
    exact h before _ after heq edge hedge rfl
  · rintro h before id after heq edge hedge rfl
    exact h before _ after heq edge.source ⟨edge, hedge, rfl, rfl⟩

section Twins

variable {twin : Graph} (hnodes : ∀ id, twin.hasNode id = graph.hasNode id)
variable (hjoins : ∀ source target, twin.Joins source target ↔ graph.Joins source target)

include hnodes hjoins in
/-- **The orders of a graph depend on its nodes and on the pairs that edges join
only.** -/
theorem IsOrder.congr
    {order : List String}
    (h : IsOrder twin order) :
    IsOrder graph order := by
  constructor
  · have hkeys : twin.nodes.keys.Perm graph.nodes.keys := by
      refine (List.perm_ext_iff_of_nodup twin.nodes.nodup_keys graph.nodes.nodup_keys).2 ?_
      intro id
      rw [mem_keys_iff_hasNode, mem_keys_iff_hasNode, hnodes]
    exact h.perm.trans hkeys
  · refine sourcesFirst_iff.2 ?_
    intro before id after heq source hsource
    exact sourcesFirst_iff.1 h.sourcesFirst before id after heq source
      ((hjoins source id).2 hsource)

include hjoins in
/-- Graphs with the same edges have the same cycles. -/
theorem hasCycle_congr : twin.HasCycle ↔ graph.HasCycle := by
  have hsame : twin.Joins = graph.Joins :=
    funext fun source => funext fun target => propext (hjoins source target)
  unfold Graph.HasCycle Graph.OnCycle
  rw [hsame]

end Twins

/-- **The execution order of a graph without cycles is the least one.** It is a
permutation of the nodes with sources first, every other one comes after it, and every
graph with the same nodes and the same joined pairs has it, too. -/
theorem executionOrder_least
    (hgraph : graph.Reachable)
    (hacyclic : ¬ graph.HasCycle) :
    ∃ order,
      executionOrder graph = .ok order ∧
      IsOrder graph order ∧
      (∀ other, IsOrder graph other → other = order ∨ Before order other) ∧
      ∀ twin : Graph,
        twin.Reachable →
        (∀ id, twin.hasNode id = graph.hasNode id) →
        (∀ source target,
            twin.Joins source target ↔ graph.Joins source target) →
        executionOrder twin = .ok order := by
  have horder := executionOrder_of_not_hasCycle hgraph.wellFormed hacyclic
  refine ⟨_, horder, executionOrder_isOrder horder, fun other => eq_or_before horder, ?_⟩
  intro twin htwin hnodes hjoins
  have hacyclic' : ¬ twin.HasCycle := fun h => hacyclic ((hasCycle_congr hjoins).1 h)
  have horder' := executionOrder_of_not_hasCycle htwin.wellFormed hacyclic'
  have hfirst := eq_or_before horder ((executionOrder_isOrder horder').congr hnodes hjoins)
  have hsecond := eq_or_before horder' ((executionOrder_isOrder horder).congr
    (fun id => (hnodes id).symm) fun source target => (hjoins source target).symm)
  rw [horder']
  rcases hfirst with heq | hbefore
  · exact congrArg Except.ok heq
  · rcases hsecond with heq | hback
    · exact congrArg Except.ok heq.symm
    · exact absurd hback hbefore.asymm

/-- Two streams from `b` to `a`, one of them inactive, and a node apart. -/
def forked : Graph :=
  (Graph.create "g" "forked" ⟨0⟩).after
    [.addNode "c" "" .null .passThrough ⟨0⟩, .addNode "a" "" .null .passThrough ⟨0⟩,
      .addNode "b" "" .null .passThrough ⟨0⟩, .addEdge "b" "a" .null ⟨0⟩,
      .addEdge "b" "a" (.object [("stream", .str "log")]) ⟨0⟩,
      .editEdge "b->a:log" (fun edge => { edge with active := false }) (fun _ => ⟨rfl, rfl⟩)]

/-- One stream from `b` to `a`, and a node apart. -/
def plain : Graph :=
  (Graph.create "h" "plain" ⟨1⟩).after
    [.addNode "a" "" .null .passThrough ⟨1⟩, .addNode "b" "" .null .passThrough ⟨1⟩,
      .addNode "c" "" .null .passThrough ⟨1⟩,
      .addEdge "b" "a" (.object [("stream", .str "log")]) ⟨1⟩]

/-- In this graph the least node that is ready is not always the least node left. -/
theorem reachable_forked : forked.Reachable :=
  (Graph.Reachable.create "forked" ⟨0⟩ (by decide)).after _

theorem reachable_plain : plain.Reachable :=
  (Graph.Reachable.create "plain" ⟨1⟩ (by decide)).after _

theorem executionOrder_forked : executionOrder forked = .ok ["b", "a", "c"] :=
  rfl

theorem hasNode_plain (id : String) : plain.hasNode id = forked.hasNode id := by
  have hkeys : plain.nodes.keys = forked.nodes.keys := rfl
  rw [Bool.eq_iff_iff, ← mem_keys_iff_hasNode, ← mem_keys_iff_hasNode, hkeys]

theorem joins_plain
    (source target : String) :
    plain.Joins source target ↔ forked.Joins source target := by
  have hplain :
      plain.edges.values.map (fun edge => (edge.source, edge.target)) =
        [("b", "a")] :=
    rfl
  have hforked : forked.edges.values.map (fun edge => (edge.source, edge.target)) =
      [("b", "a"), ("b", "a")] := rfl
  have hpair : ∀ graph : Graph, graph.Joins source target ↔
      (source, target) ∈ graph.edges.values.map fun edge => (edge.source, edge.target) := by
    intro graph
    simp [Graph.Joins]
  rw [hpair, hpair, hplain, hforked]
  simp

theorem executionOrder_least_forked :
    forked.Reachable ∧
    ¬ forked.HasCycle ∧
    plain.Reachable ∧
    (∀ other,
        IsOrder forked other →
        other = ["b", "a", "c"] ∨ Before ["b", "a", "c"] other) ∧
    executionOrder plain = .ok ["b", "a", "c"] := by
  have hacyclic : ¬ forked.HasCycle :=
    not_hasCycle_of_executionOrder reachable_forked.wellFormed executionOrder_forked
  obtain ⟨order, horder, -, hleast, htwins⟩ := executionOrder_least reachable_forked hacyclic
  obtain rfl : ["b", "a", "c"] = order :=
    Except.ok.inj (executionOrder_forked.symm.trans horder)
  exact ⟨reachable_forked, hacyclic, reachable_plain, hleast,
    htwins plain reachable_plain hasNode_plain joins_plain⟩

end Schedule

end PhaseFlow
