import Mathlib.Data.List.Induction
import Mathlib.Data.List.Nodup
import Mathlib.Data.List.Perm.Subperm
import PhaseFlow.Proofs.Graph.WellFormed
import PhaseFlow.Schedule.Order

/-!
# The loop that places the nodes

`Frontier.Invariant` says what the placing of nodes keeps: the number kept for a node is
the number of edges that end there and start at a node not placed yet, the ready nodes
are the nodes not placed whose number is zero, and every placed node stands after the
sources of its edges.

`Frontier.Invariant.initial` and `Frontier.Invariant.step` are the base and the step,
and `Frontier.Invariant.advance` is the induction. An order that comes out of the loop
is a permutation of the nodes with sources first (`executionOrder_isOrder`).
-/

namespace PhaseFlow

namespace Schedule

/-- The number of edges into a node whose source is not among the placed nodes. -/
def waiting (graph : Graph) (placed : List String) (id : String) : Nat :=
  graph.edges.values.countP fun edge => edge.target = id ∧ edge.source ∉ placed

/-- Every node of a list stands after the sources of the edges into it. -/
def SourcesFirst (graph : Graph) (order : List String) : Prop :=
  ∀ before id after, order = before ++ id :: after →
    ∀ edge ∈ graph.edges.values, edge.target = id → edge.source ∈ before

/-- A permutation of the nodes with sources first. -/
structure IsOrder (graph : Graph) (order : List String) : Prop where
  perm : order.Perm graph.nodes.keys
  sourcesFirst : SourcesFirst graph order

/-- A node waits for nothing once the sources of its edges are placed. -/
theorem waiting_eq_zero_iff
    {graph : Graph} {placed : List String} {id : String} :
    waiting graph placed id = 0 ↔
      ∀ edge ∈ graph.edges.values, edge.target = id → edge.source ∈ placed := by
  simp [waiting, List.countP_eq_zero]

theorem SourcesFirst.nil (graph : Graph) : SourcesFirst graph [] := by
  intro before id after h
  cases before <;> cases h

/-- A node that waits for nothing may come next. -/
theorem SourcesFirst.snoc
    {graph : Graph} {order : List String} {id : String}
    (h : SourcesFirst graph order)
    (hid : waiting graph order id = 0) :
    SourcesFirst graph (order ++ [id]) := by
  intro before other after heq edge hedge htarget
  rcases List.eq_nil_or_concat after with rfl | ⟨front, last, rfl⟩
  · obtain ⟨rfl, hlast⟩ := List.append_inj' heq rfl
    obtain rfl : id = other := by simpa using hlast
    exact waiting_eq_zero_iff.1 hid edge hedge htarget
  · rw [List.concat_eq_append, ← List.cons_append, ← List.append_assoc] at heq
    obtain ⟨rfl, -⟩ := List.append_inj' heq rfl
    exact h before other front rfl edge hedge htarget

theorem SourcesFirst.waiting_eq_zero
    {graph : Graph} {order : List String}
    (h : SourcesFirst graph order)
    {id : String}
    (hid : id ∈ order) :
    waiting graph order id = 0 := by
  obtain ⟨before, after, rfl⟩ := List.append_of_mem hid
  refine waiting_eq_zero_iff.2 ?_
  intro edge hedge htarget
  exact List.mem_append_left _ (h before id after rfl edge hedge htarget)

/-- What a node has if the sources of its edges have it, all nodes of the order have. -/
theorem SourcesFirst.induction
    {graph : Graph} {order : List String} {motive : String → Prop}
    (h : SourcesFirst graph order)
    (step :
        ∀ id ∈ order,
          (∀ edge ∈ graph.edges.values, edge.target = id → motive edge.source) →
          motive id) :
    ∀ id ∈ order, motive id := by
  have hprefix : ∀ before after, order = before ++ after → ∀ id ∈ before, motive id := by
    intro before
    induction before using List.reverseRecOn with
    | nil =>
        intro after _ id hid
        cases hid
    | append_singleton before last ih =>
        intro after hsplit id hid
        rw [List.append_assoc] at hsplit
        have hbefore := ih ([last] ++ after) hsplit
        rcases List.mem_append.1 hid with hid | hlast
        · exact hbefore id hid
        · obtain rfl : id = last := List.mem_singleton.1 hlast
          refine step id (hsplit ▸ List.mem_append_right _ List.mem_cons_self) ?_
          intro edge hedge htarget
          exact hbefore edge.source (h before id after hsplit edge hedge htarget)
  exact hprefix order [] (List.append_nil order).symm

/-- Placing a node takes off the edges that start there. -/
theorem waiting_snoc
    (graph : Graph)
    {placed : List String} {id : String}
    (hid : id ∉ placed)
    (other : String) :
    waiting graph placed other =
      waiting graph (placed ++ [id]) other +
        ((graph.outgoing id).map Edge.target).count other := by
  unfold waiting Graph.outgoing
  rw [List.count_eq_countP, List.countP_map, List.countP_filter]
  induction graph.edges.values with
  | nil => rfl
  | cons edge rest ih =>
      simp only [List.countP_cons, ih, Function.comp_apply, List.mem_append,
        List.mem_singleton, decide_eq_true_eq, Bool.and_eq_true, beq_iff_eq]
      by_cases htarget : edge.target = other
      · by_cases hsource : edge.source = id
        · subst hsource
          simp [htarget, hid]
          omega
        · by_cases hplaced : edge.source ∈ placed <;> simp [htarget, hsource, hplaced]
          omega
      · simp [htarget]

namespace Frontier

/-- What the placing of nodes keeps. -/
structure Invariant (graph : Graph) (frontier : Frontier) : Prop where
  nodup : frontier.placed.Nodup
  known : ∀ id ∈ frontier.placed, graph.hasNode id = true
  sourcesFirst : SourcesFirst graph frontier.placed
  pending : ∀ id, frontier.pending.get? id =
    if graph.hasNode id then some (waiting graph frontier.placed id) else none
  ready :
    ∀ id,
      frontier.ready.contains id = true ↔
        graph.hasNode id = true ∧
        id ∉ frontier.placed ∧
        waiting graph frontier.placed id = 0

/-! ## The start -/

/-- The count of a node is the number of edges that end there. -/
theorem get?_countTargets
    (edges : List Edge)
    (counts : KeyMap Nat)
    (id : String) :
    (edges.foldl (fun counts edge => counts.modify edge.target (· + 1))
        counts).get? id =
      (counts.get? id).map (· + edges.countP fun edge => edge.target = id) := by
  induction edges generalizing counts with
  | nil => simp
  | cons edge rest ih =>
      rw [List.foldl_cons, ih, KeyMap.get?_modify, List.countP_cons]
      by_cases htarget : edge.target = id
      · subst htarget
        cases counts.get? edge.target with
        | none => simp
        | some count =>
            simp
            omega
      · simp [htarget]

theorem contains_readyOf
    (pending : KeyMap Nat)
    (id : String) :
    (readyOf pending).contains id = true ↔ pending.get? id = some 0 := by
  unfold readyOf KeyMap.contains
  rw [KeyMap.get?_map, KeyMap.get?_filter]
  cases pending.get? id with
  | none => simp
  | some count => by_cases hcount : count = 0 <;> simp [Option.filter, hcount]

theorem Invariant.initial (graph : Graph) : Invariant graph (initial graph) where
  nodup := List.nodup_nil
  known id hid := absurd hid List.not_mem_nil
  sourcesFirst := SourcesFirst.nil graph
  pending id := by
    simp only [Frontier.initial, get?_countTargets, KeyMap.get?_map, Graph.hasNode,
      KeyMap.contains]
    rcases Option.eq_none_or_eq_some (graph.nodes.get? id) with hnode | ⟨node, hnode⟩ <;>
      simp [hnode, waiting]
  ready id := by
    unfold Frontier.initial
    rw [contains_readyOf, get?_countTargets, KeyMap.get?_map, Graph.hasNode, KeyMap.contains]
    rcases Option.eq_none_or_eq_some (graph.nodes.get? id) with hnode | ⟨node, hnode⟩ <;>
      simp [hnode, waiting]

/-! ## One step

A step places a ready node and then releases the edges that start there, one after the
other. `Midway` says what holds in between, with the targets of the edges that are still
to be released. -/

/-- A node has been placed, and none of its edges has been released yet. -/
def place (frontier : Frontier) (id : String) : Frontier :=
  { frontier with
    ready := frontier.ready.erase id
    placed := frontier.placed ++ [id] }

/-- **What a step does.** -/
theorem exists_of_step
    {graph : Graph} {frontier next : Frontier}
    (h : frontier.step graph = some next) :
    ∃ id,
      frontier.ready.contains id = true ∧
      (∀ other,
          frontier.ready.contains other = true → id = other ∨ id < other) ∧
      next =
        ((graph.outgoing id).map Edge.target).foldl release (frontier.place id) := by
  unfold Frontier.step at h
  split at h
  · cases h
  · next id value rest hentries =>
      cases h
      refine ⟨id, ?_, ?_, rfl⟩
      · refine (frontier.ready.contains_iff id).2 ⟨value, ?_⟩
        rw [← KeyMap.mem_entries_iff, hentries]
        exact List.mem_cons_self
      · intro other hother
        obtain ⟨mark, hmark⟩ := (frontier.ready.contains_iff other).1 hother
        have horder : Entries.Ascending ((id, value) :: rest) :=
          hentries ▸ frontier.ready.ascending
        rw [← KeyMap.mem_entries_iff, hentries] at hmark
        rcases List.mem_cons.1 hmark with heq | hrest
        · exact Or.inl (Prod.mk.inj heq).1.symm
        · exact Or.inr ((List.pairwise_cons.1 horder).1 _ hrest)

theorem placed_release
    (frontier : Frontier)
    (target : String) :
    (frontier.release target).placed = frontier.placed := by
  unfold release
  split
  · rfl
  · dsimp only
    split <;> rfl

theorem placed_foldl_release
    (targets : List String)
    (frontier : Frontier) :
    (targets.foldl release frontier).placed = frontier.placed := by
  induction targets generalizing frontier with
  | nil => rfl
  | cons target rest ih => rw [List.foldl_cons, ih, placed_release]

theorem get?_pending_release
    (frontier : Frontier)
    (target id : String) :
    (frontier.release target).pending.get? id =
      (frontier.pending.get? id).map fun count =>
        if target = id then count - 1 else count := by
  unfold release
  cases hfound : frontier.pending.get? target with
  | none =>
      by_cases htarget : target = id
      · subst htarget
        simp [hfound]
      · simp [htarget]
  | some found =>
      have hinsert : (frontier.pending.insert target (found - 1)).get? id =
          (frontier.pending.get? id).map fun count =>
            if target = id then count - 1 else count := by
        rw [KeyMap.get?_insert]
        by_cases htarget : target = id
        · subst htarget
          simp [hfound]
        · simp [htarget]
      dsimp only
      split <;> exact hinsert

/-- A node becomes ready when its last edge is released. -/
theorem contains_ready_release
    (frontier : Frontier)
    (target id : String) :
    (frontier.release target).ready.contains id = true ↔
      frontier.ready.contains id = true ∨
      target = id ∧ frontier.pending.get? id = some 1 := by
  unfold release
  cases hfound : frontier.pending.get? target with
  | none =>
      refine (or_iff_left ?_).symm
      rintro ⟨rfl, hone⟩
      rw [hfound] at hone
      cases hone
  | some found =>
      by_cases htarget : target = id
      · subst htarget
        by_cases hone : found = 1 <;> simp [hfound, hone, KeyMap.contains]
      · by_cases hone : found = 1 <;>
          simp [htarget, hone, KeyMap.contains, KeyMap.get?_insert]

/-- What holds in the middle of a step, while the edges to some targets are left to be
released. -/
structure Midway
    (graph : Graph)
    (left : List String)
    (frontier : Frontier) : Prop where
  nodup : frontier.placed.Nodup
  known : ∀ id ∈ frontier.placed, graph.hasNode id = true
  sourcesFirst : SourcesFirst graph frontier.placed
  not_left : ∀ id ∈ frontier.placed, id ∉ left
  pending :
    ∀ id,
      frontier.pending.get? id =
        if graph.hasNode id then
          some (waiting graph frontier.placed id + left.count id)
        else none
  ready :
    ∀ id,
      frontier.ready.contains id = true ↔
        graph.hasNode id = true ∧
        id ∉ frontier.placed ∧
        waiting graph frontier.placed id = 0 ∧
        id ∉ left

/-- A ready node waits for nothing, so its own edges lead neither to it nor to a node
placed before. -/
theorem Invariant.place
    {graph : Graph} {frontier : Frontier}
    (h : Invariant graph frontier)
    {id : String}
    (hid : frontier.ready.contains id = true) :
    Midway graph ((graph.outgoing id).map Edge.target) (frontier.place id) := by
  obtain ⟨hnode, hnew, hzero⟩ := (h.ready id).1 hid
  have hfirst : SourcesFirst graph (frontier.placed ++ [id]) := h.sourcesFirst.snoc hzero
  have hsum := waiting_snoc graph hnew
  constructor
  case nodup =>
    refine List.nodup_append.2 ⟨h.nodup, List.nodup_singleton id, ?_⟩
    rintro other hother last hlast rfl
    rw [List.mem_singleton] at hlast
    subst hlast
    exact hnew hother
  case known =>
    intro other hother
    rcases List.mem_append.1 hother with hold | hlast
    · exact h.known other hold
    · rw [List.mem_singleton.1 hlast]
      exact hnode
  case sourcesFirst => exact hfirst
  case not_left =>
    intro other hother
    have hnone : waiting graph frontier.placed other = 0 := by
      rcases List.mem_append.1 hother with hold | hlast
      · exact h.sourcesFirst.waiting_eq_zero hold
      · rw [List.mem_singleton.1 hlast]
        exact hzero
    rw [hsum, Nat.add_eq_zero_iff] at hnone
    exact List.count_eq_zero.1 hnone.2
  case pending =>
    intro other
    show frontier.pending.get? other = _
    rw [h.pending, hsum]
    rfl
  case ready =>
    intro other
    show (frontier.ready.erase id).contains other = true ↔
      graph.hasNode other = true ∧ other ∉ frontier.placed ++ [id] ∧
        waiting graph (frontier.placed ++ [id]) other = 0 ∧ _
    have hready := h.ready other
    rw [hsum, Nat.add_eq_zero_iff, List.count_eq_zero] at hready
    rw [KeyMap.contains, KeyMap.get?_erase]
    by_cases hother : id = other
    · subst hother
      simp
    · rw [if_neg hother, List.mem_append, List.mem_singleton, not_or]
      exact hready.trans (and_congr_right fun _ =>
        and_congr_left fun _ => (and_iff_left (Ne.symm hother)).symm)

/-- A target on record waits for the edge that is to be released, so its number is not
zero. -/
theorem Midway.exists_pending
    {graph : Graph} {frontier : Frontier} {target : String} {left : List String}
    (h : Midway graph (target :: left) frontier)
    (htarget : graph.hasNode target = true) :
    frontier.pending.get? target =
      some (waiting graph frontier.placed target + left.count target + 1) := by
  rw [h.pending, if_pos htarget, List.count_cons_self, Nat.add_assoc]

/-- **One edge.** Its target is ready then if that was the last edge. -/
theorem Midway.release
    {graph : Graph} {frontier : Frontier} {target : String} {left : List String}
    (h : Midway graph (target :: left) frontier) :
    Midway graph left (frontier.release target) := by
  have hkept := placed_release frontier target
  constructor
  case nodup => exact hkept ▸ h.nodup
  case known => exact hkept ▸ h.known
  case sourcesFirst => exact hkept ▸ h.sourcesFirst
  case not_left =>
    rw [hkept]
    exact fun id hid hleft => h.not_left id hid (List.mem_cons_of_mem _ hleft)
  case pending =>
    intro id
    rw [get?_pending_release, h.pending, hkept]
    by_cases htarget : target = id
    · subst htarget
      cases graph.hasNode target <;> simp
    · simp [htarget]
  case ready =>
    intro id
    rw [contains_ready_release, h.ready, h.pending, hkept]
    by_cases htarget : target = id
    · subst htarget
      have hnew : target ∉ frontier.placed := fun hplaced =>
        h.not_left target hplaced List.mem_cons_self
      have hlast : waiting graph frontier.placed target + (left.count target + 1) = 1 ↔
          waiting graph frontier.placed target = 0 ∧ target ∉ left := by
        rw [← List.count_eq_zero]
        omega
      cases graph.hasNode target <;> simp [hnew, hlast]
    · simp [htarget, Ne.symm htarget]

theorem Midway.foldl_release
    {graph : Graph} {left : List String} :
    ∀ (done : List String) {frontier : Frontier},
      Midway graph (done ++ left) frontier →
      Midway graph left (done.foldl Frontier.release frontier)
  | [], _, h => h
  | _ :: rest, _, h => Midway.foldl_release rest h.release

/-- When no edge is left, the step is over. -/
theorem Midway.invariant
    {graph : Graph} {frontier : Frontier}
    (h : Midway graph [] frontier) :
    Invariant graph frontier where
  nodup := h.nodup
  known := h.known
  sourcesFirst := h.sourcesFirst
  pending := h.pending
  ready id := by simpa using h.ready id

/-- A round keeps the invariant, and places one more node. -/
theorem Invariant.step
    {graph : Graph} {frontier next : Frontier}
    (h : Invariant graph frontier)
    (hstep : frontier.step graph = some next) :
    Invariant graph next ∧
    ∃ id, id ∉ frontier.placed ∧ next.placed = frontier.placed ++ [id] := by
  obtain ⟨id, hready, -, rfl⟩ := exists_of_step hstep
  have hmidway :
      Midway graph ((graph.outgoing id).map Edge.target ++ [])
        (frontier.place id) := by
    rw [List.append_nil]
    exact h.place hready
  exact ⟨(hmidway.foldl_release _).invariant, id, ((h.ready id).1 hready).2.1,
    placed_foldl_release _ _⟩

/-! ## The whole loop -/

/-- All rounds keep the invariant. -/
theorem Invariant.advance
    {graph : Graph} :
    ∀ (bound : Nat) {frontier : Frontier},
      Invariant graph frontier → Invariant graph (advance graph bound frontier)
  | 0, _, h => h
  | bound + 1, frontier, h => by
      unfold Frontier.advance
      split
      · next next hnext => exact Invariant.advance bound (h.step hnext).1
      · exact h

theorem Invariant.final (graph : Graph) : Invariant graph (final graph) :=
  (Invariant.initial graph).advance graph.nodes.size

end Frontier

theorem mem_keys_iff_hasNode
    {graph : Graph} {id : String} :
    id ∈ graph.nodes.keys ↔ graph.hasNode id = true := by
  rw [KeyMap.mem_keys_iff, Graph.hasNode_iff]

/-- **An execution order is a permutation of the nodes with sources first.** -/
theorem executionOrder_isOrder
    {graph : Graph} {order : List String}
    (h : executionOrder graph = .ok order) :
    IsOrder graph order := by
  have hfinal := Frontier.Invariant.final graph
  unfold executionOrder at h
  dsimp only at h
  split at h
  · next hlength =>
      cases h
      refine ⟨?_, hfinal.sourcesFirst⟩
      have hsubset : (Frontier.final graph).placed ⊆ graph.nodes.keys := by
        intro id hid
        exact mem_keys_iff_hasNode.2 (hfinal.known id hid)
      apply (List.subperm_of_subset hfinal.nodup hsubset).perm_of_length_le
      rw [hlength]
      simp [KeyMap.keys, KeyMap.size]
  · cases h

/-- The only error is that of a cycle. -/
theorem cycle_of_executionOrder
    {graph : Graph} {error : Error}
    (h : executionOrder graph = .error error) :
    ∃ remaining, error = .cycle remaining := by
  unfold executionOrder at h
  dsimp only at h
  split at h
  · cases h
  · cases h
    exact ⟨_, rfl⟩

end Schedule

end PhaseFlow
