import PhaseFlow.Proofs.Schedule.Cycle

/-!
# The rounds of the placing loop

The loop takes a step in each round, until no node is ready (`Frontier.After`). `Booked`
says what holds between two rounds, and `PlacesOne` what happens in one. The number that
is kept for a node is lowered once for each edge from the placed node, several times in
one round where edges are parallel, and each time there is an edge left that it counts
(`Midway.exists_pending`), so it is not zero.

A round places one node, and nodes are not placed twice, so there are no more rounds
than nodes. The rounds that the execution order allows for are enough, on graphs with
cycles too (`exists_after_final`).

Main statement: `rounds_lower_no_number_below_zero`.
-/

namespace PhaseFlow

namespace Schedule

namespace Frontier

variable {graph : Graph} {frontier next : Frontier} {rounds : Nat}

/-- The loop has come to a frontier after a number of rounds. -/
inductive After (graph : Graph) : Nat → Frontier → Prop where
  | start : After graph 0 (initial graph)
  | round
      {rounds : Nat} {frontier next : Frontier}
      (before : After graph rounds frontier)
      (step : frontier.step graph = some next) :
      After graph (rounds + 1) next

/-- Between two rounds, the number of a node is that of the edges from nodes that are
not placed, and the ready nodes are the nodes not placed whose number is zero. -/
structure Booked (graph : Graph) (frontier : Frontier) : Prop where
  nodup : frontier.placed.Nodup
  not_ready : ∀ id ∈ frontier.placed, frontier.ready.contains id = false
  pending : ∀ id, graph.hasNode id = true →
    frontier.pending.get? id = some (waiting graph frontier.placed id)
  ready_iff : ∀ id, frontier.ready.contains id = true ↔
    graph.hasNode id = true ∧ id ∉ frontier.placed ∧ frontier.pending.get? id = some 0

/-- A round places one more node and lowers the number of the target of each of its
edges in turn. The number is not zero before. -/
structure PlacesOne
    (graph : Graph)
    (frontier next : Frontier)
    (id : String) : Prop where
  ready : frontier.ready.contains id = true
  next_eq :
    next = ((graph.outgoing id).map Edge.target).foldl release (frontier.place id)
  positive :
    ∀ done target left,
      (graph.outgoing id).map Edge.target = done ++ target :: left →
      ∃ count,
        (done.foldl release (frontier.place id)).pending.get? target = some count ∧
        0 < count
  fewer_missing :
    (missing graph next.placed).length < (missing graph frontier.placed).length

/-! ## Between two rounds -/

theorem Invariant.booked
    (h : Invariant graph frontier) :
    Booked graph frontier where
  nodup := h.nodup
  not_ready id hid := by
    by_contra hready
    exact ((h.ready id).1 (by simpa using hready)).2.1 hid
  pending id hnode := by rw [h.pending, if_pos hnode]
  ready_iff id := by
    rw [h.ready, h.pending]
    cases graph.hasNode id <;> simp

theorem After.invariant
    (h : After graph rounds frontier) :
    Invariant graph frontier := by
  induction h with
  | start => exact Invariant.initial graph
  | round _ hstep ih => exact (ih.step hstep).1

theorem After.length_placed
    (h : After graph rounds frontier) :
    frontier.placed.length = rounds := by
  induction h with
  | start => rfl
  | round before hstep ih =>
      obtain ⟨-, id, -, hplaced⟩ := before.invariant.step hstep
      rw [hplaced, List.length_append, List.length_singleton, ih]

/-- Every node is either placed or missing. -/
theorem Invariant.length_missing
    (h : Invariant graph frontier) :
    frontier.placed.length + (missing graph frontier.placed).length =
      graph.nodes.size := by
  have hplaced : (graph.nodes.keys.filter fun id => frontier.placed.contains id).Perm
      frontier.placed := by
    refine (List.perm_ext_iff_of_nodup (graph.nodes.nodup_keys.filter _) h.nodup).2
      fun id => ?_
    rw [List.mem_filter, List.contains_iff_mem, and_iff_right_iff_imp]
    exact fun hid => mem_keys_iff_hasNode.2 (h.known id hid)
  have hsplit :=
    List.filter_append_perm (fun id => frontier.placed.contains id) graph.nodes.keys
  have hlength := ((hplaced.symm.append_right _).trans hsplit).length_eq
  rwa [List.length_append, KeyMap.keys, List.length_map] at hlength

theorem After.le_size
    (h : After graph rounds frontier) :
    rounds ≤ graph.nodes.size := by
  rw [← h.invariant.length_missing, h.length_placed]
  exact Nat.le_add_right rounds _

/-! ## In a round -/

/-- **A round lowers no number that is zero.** -/
theorem Invariant.placesOne
    (hwell : graph.WellFormed)
    (h : Invariant graph frontier)
    (hstep : frontier.step graph = some next) :
    ∃ id, PlacesOne graph frontier next id := by
  obtain ⟨hnext, last, -, hplaced⟩ := h.step hstep
  obtain ⟨id, hready, -, heq⟩ := exists_of_step hstep
  refine ⟨id, hready, heq, ?_, ?_⟩
  · intro done target left hsplit
    obtain ⟨edge, hedge, rfl⟩ : ∃ edge ∈ graph.outgoing id, edge.target = target :=
      List.mem_map.1 (hsplit ▸ List.mem_append_right _ List.mem_cons_self)
    have htarget := hwell.hasNode_target (hwell.get?_id (List.mem_filter.1 hedge).1)
    have hmidway := h.place hready
    rw [hsplit] at hmidway
    exact ⟨_, (hmidway.foldl_release done).exists_pending htarget, Nat.succ_pos _⟩
  · have hbefore := h.length_missing
    have hafter := hnext.length_missing
    rw [hplaced, List.length_append, List.length_singleton] at hafter
    rw [hplaced]
    omega

/-! ## The end of the loop -/

theorem step_eq_none_of_stalled
    (h : frontier.Stalled) :
    frontier.step graph = none := by
  cases hstep : frontier.step graph with
  | none => rfl
  | some next =>
      obtain ⟨id, hready, -⟩ := exists_of_step hstep
      rw [h id] at hready
      cases hready

theorem After.advance :
    ∀ (bound : Nat) {rounds : Nat} {frontier : Frontier},
      After graph rounds frontier →
      ∃ more, After graph more (advance graph bound frontier)
  | 0, rounds, _, h => ⟨rounds, h⟩
  | bound + 1, rounds, frontier, h => by
      unfold Frontier.advance
      split
      · next next hnext => exact After.advance bound (h.round hnext)
      · exact ⟨rounds, h⟩

/-- The loop ends with the frontier that the execution order is read off. -/
theorem exists_after_final
    (graph : Graph) :
    ∃ rounds, After graph rounds (final graph) ∧ (final graph).step graph = none := by
  obtain ⟨rounds, hfinal⟩ :=
    (.start : After graph 0 (initial graph)).advance graph.nodes.size
  exact ⟨rounds, hfinal, step_eq_none_of_stalled (stalled_final graph)⟩

/-- **The numbers of the placing loop never go below zero.** After any number of rounds
the numbers count the edges from nodes that are not placed, a further round lowers only
numbers that are not zero and leaves fewer nodes to be placed, and the loop ends after
at most one round for each node. -/
theorem rounds_lower_no_number_below_zero
    (hgraph : graph.Reachable) :
    (∀ rounds frontier,
        After graph rounds frontier →
        rounds ≤ graph.nodes.size ∧
        Booked graph frontier ∧
        ∀ next,
          frontier.step graph = some next →
          ∃ id, PlacesOne graph frontier next id) ∧
    ∃ rounds ≤ graph.nodes.size,
      After graph rounds (final graph) ∧ (final graph).step graph = none := by
  constructor
  · intro rounds frontier hafter
    have hinvariant := hafter.invariant
    exact ⟨hafter.le_size, hinvariant.booked, fun next hnext =>
      hinvariant.placesOne hgraph.wellFormed hnext⟩
  · obtain ⟨rounds, hafter, hend⟩ := exists_after_final graph
    exact ⟨rounds, hafter.le_size, hafter, hend⟩

/-- Two streams between the same nodes, a node that feeds itself, and one behind it. -/
def braided : Graph :=
  (Graph.create "g" "braided" ⟨0⟩).after
    [.addNode "a" "" .null .passThrough ⟨0⟩, .addNode "b" "" .null .passThrough ⟨0⟩,
      .addNode "c" "" .null .passThrough ⟨0⟩, .addNode "d" "" .null .passThrough ⟨0⟩,
      .addEdge "a" "b" .null ⟨0⟩, .addEdge "a" "b" (.object [("stream", .str "more")]) ⟨0⟩,
      .addEdge "b" "c" .null ⟨0⟩, .addEdge "c" "c" .null ⟨0⟩, .addEdge "c" "d" .null ⟨0⟩]

theorem reachable_braided : braided.Reachable :=
  (Graph.Reachable.create "braided" ⟨0⟩ (by decide)).after _

/-- Two rounds take off both streams from the first node and leave the number of the
node that feeds itself at one. -/
theorem rounds_lower_no_number_below_zero_braided :
    braided.Reachable ∧
    ∃ first second,
      braided.nodes.size = 4 ∧
      After braided 1 first ∧
      first.step braided = some second ∧
      (∃ id, PlacesOne braided first second id) ∧
      Booked braided second ∧
      second.placed = ["a", "b"] ∧
      second.pending.get? "c" = some 1 ∧
      second.step braided = none := by
  obtain ⟨hrounds, -⟩ := rounds_lower_no_number_below_zero reachable_braided
  have hfirst : After braided 1 _ := .round .start rfl
  obtain ⟨-, -, hplaces⟩ := hrounds 1 _ hfirst
  obtain ⟨-, hbooked, -⟩ := hrounds 2 _ (hfirst.round rfl)
  exact ⟨reachable_braided, _, _, rfl, hfirst, rfl, hplaces _ rfl, hbooked, rfl, rfl, rfl⟩

end Frontier

end Schedule

end PhaseFlow
