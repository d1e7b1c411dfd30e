import Mathlib.Data.List.Nodup
import Mathlib.Data.List.Perm.Basic
import PhaseFlow.Proofs.Graph.Adjacency
import PhaseFlow.Proofs.Schedule.Kahn
import PhaseFlow.Schedule.Levels

/-!
# Levels as layers

A list of levels is a schedule of a graph if it lists every node once and every edge
into a node of a level starts in an earlier level. Both ways to cut an order into levels
give schedules: every node for itself (`sequentialLevels_isSchedule`), and nodes of one
height together (`levels_isSchedule`), which also says that the levels of an order are
never refused.

The second needs that heights grow along edges: `heightsAlong_grow` is the induction
along the order.
-/

namespace PhaseFlow

namespace Schedule

/-- Every edge into a node of a level starts in an earlier level or among the nodes
`done` before. -/
def Layered (graph : Graph) : List String → List (List String) → Prop
  | _, [] => True
  | done, level :: rest =>
      (∀ id ∈ level, ∀ edge ∈ graph.edges.values, edge.target = id → edge.source ∈ done) ∧
        Layered graph (done ++ level) rest

theorem Layered.of_edges_eq
    {graph other : Graph}
    (hedges : other.edges = graph.edges) :
    ∀ {done : List String} {levels : List (List String)},
      Layered graph done levels → Layered other done levels
  | _, [], _ => trivial
  | _, _ :: _, h => by
      refine ⟨?_, Layered.of_edges_eq hedges h.2⟩
      rw [hedges]
      exact h.1

/-- Levels that list every node once, with sources in earlier levels. -/
structure IsSchedule (graph : Graph) (levels : List (List String)) : Prop where
  perm : levels.flatten.Perm graph.nodes.keys
  layered : Layered graph [] levels

theorem IsSchedule.nodup
    {graph : Graph} {levels : List (List String)}
    (h : IsSchedule graph levels) :
    levels.flatten.Nodup :=
  h.perm.nodup_iff.2 graph.nodes.nodup_keys

/-- Exactly the nodes are scheduled. -/
theorem IsSchedule.mem_iff
    {graph : Graph} {levels : List (List String)}
    (h : IsSchedule graph levels)
    {id : String} :
    id ∈ levels.flatten ↔ graph.hasNode id = true := by
  rw [h.perm.mem_iff, mem_keys_iff_hasNode]

/-! ## Every node for itself -/

theorem flatten_sequentialLevels
    (order : List String) :
    (sequentialLevels order).flatten = order := by
  induction order with
  | nil => rfl
  | cons id rest ih =>
      show id :: (sequentialLevels rest).flatten = id :: rest
      rw [ih]

/-- An order with sources first is a schedule of one node each. -/
theorem layered_sequentialLevels
    {graph : Graph} :
    ∀ {done order : List String},
      SourcesFirst graph (done ++ order) → Layered graph done (sequentialLevels order)
  | _, [], _ => trivial
  | done, id :: rest, h => by
      refine ⟨?_, ?_⟩
      · intro other hother edge hedge htarget
        rw [List.mem_singleton.1 hother] at htarget
        exact h done id rest rfl edge hedge htarget
      · have happend : SourcesFirst graph ((done ++ [id]) ++ rest) := by simpa using h
        exact layered_sequentialLevels happend

theorem sequentialLevels_isSchedule
    {graph : Graph} {order : List String}
    (h : IsOrder graph order) :
    IsSchedule graph (sequentialLevels order) where
  perm := by
    rw [flatten_sequentialLevels]
    exact h.perm
  layered := layered_sequentialLevels h.sourcesFirst

/-! ## Heights -/

/-- The height of a node whose sources have been visited exceeds theirs. -/
theorem heightAbove_of_visited
    {heights : Heights}
    (id : String) :
    ∀ {sources : List String},
      (∀ source ∈ sources, heights.contains source = true) →
      ∃ height,
        heightAbove heights id sources = .ok height ∧
        ∀ source ∈ sources, heights.getD source 0 < height
  | [], _ => ⟨0, rfl, by simp⟩
  | source :: rest, h => by
      obtain ⟨below, hbelow⟩ := (heights.contains_iff source).1 (h source List.mem_cons_self)
      obtain ⟨height, hheight, hrest⟩ :=
        heightAbove_of_visited id fun other hother => h other (List.mem_cons_of_mem _ hother)
      refine ⟨max (below + 1) height, by simp [heightAbove, hbelow, hheight, Except.map], ?_⟩
      intro other hother
      rcases List.mem_cons.1 hother with rfl | hmem
      · simp only [KeyMap.getD, hbelow, Option.getD_some]
        omega
      · have := hrest other hmem
        omega

/-- What the heights of the nodes visited so far are like. -/
structure HeightsOf
    (graph : Graph)
    (heights : Heights)
    (done : List String) : Prop where
  visited : ∀ id, heights.contains id = true ↔ id ∈ done
  grows : ∀ edge ∈ graph.edges.values, edge.target ∈ done →
    heights.getD edge.source 0 < heights.getD edge.target 0

/-- A node that is visited after its sources gets a height above all of theirs. -/
theorem HeightsOf.snoc
    {graph : Graph} {heights : Heights} {done : List String} {id : String}
    {height : Nat}
    (h : HeightsOf graph heights done)
    (hnew : id ∉ done)
    (hclosed :
        ∀ edge ∈ graph.edges.values, edge.target ∈ done ++ [id] → edge.source ∈ done)
    (hheight : ∀ source ∈ graph.predecessors id, heights.getD source 0 < height) :
    HeightsOf graph (heights.insert id height) (done ++ [id]) where
  visited other := by
    rw [KeyMap.contains, KeyMap.get?_insert]
    have hold := h.visited other
    rw [KeyMap.contains] at hold
    by_cases hother : id = other
    · simp [hother]
    · simp [hother, hold, Ne.symm hother]
  grows edge hedge htarget := by
    have hsource := hclosed edge hedge htarget
    have hne : id ≠ edge.source := by
      rintro rfl
      exact hnew hsource
    rw [KeyMap.getD, KeyMap.getD, KeyMap.get?_insert, KeyMap.get?_insert, if_neg hne]
    by_cases hlast : id = edge.target
    · rw [if_pos hlast]
      exact hheight edge.source (Graph.mem_predecessors.2 ⟨edge, hedge, rfl, hlast.symm⟩)
    · rw [if_neg hlast]
      have hold : edge.target ∈ done := by
        rcases List.mem_append.1 htarget with hmem | hmem
        · exact hmem
        · exact absurd (List.mem_singleton.1 hmem).symm hlast
      exact h.grows edge hedge hold

/-- **Along an order no node is refused, and heights grow along edges.** -/
theorem heightsAlong_grow
    {graph : Graph} :
    ∀ {done rest : List String} {heights : Heights},
      IsOrder graph (done ++ rest) →
      HeightsOf graph heights done →
      ∃ final,
        heightsAlong graph heights rest = .ok final ∧
        HeightsOf graph final (done ++ rest)
  | done, [], heights, _, h => ⟨heights, rfl, by simpa using h⟩
  | done, id :: rest, heights, horder, h => by
      have hnode : graph.hasNode id = true :=
        mem_keys_iff_hasNode.1 (horder.perm.mem_iff.1 (by simp))
      have hnodup : (done ++ id :: rest).Nodup :=
        horder.perm.nodup_iff.2 graph.nodes.nodup_keys
      have hnew : id ∉ done := by
        intro hmem
        exact (List.nodup_append.1 hnodup).2.2 id hmem id List.mem_cons_self rfl
      have hclosed : ∀ edge ∈ graph.edges.values, edge.target ∈ done ++ [id] →
          edge.source ∈ done := by
        intro edge hedge htarget
        rcases List.mem_append.1 htarget with hmem | hmem
        · obtain ⟨before, after, rfl⟩ := List.append_of_mem hmem
          have hsource :=
            horder.sourcesFirst before edge.target (after ++ id :: rest) (by simp)
            edge hedge rfl
          exact List.mem_append_left _ hsource
        · exact horder.sourcesFirst done id rest rfl edge hedge (List.mem_singleton.1 hmem)
      have hvisited : ∀ source ∈ graph.predecessors id, heights.contains source = true := by
        intro source hsource
        obtain ⟨edge, hedge, rfl, htarget⟩ := Graph.mem_predecessors.1 hsource
        exact (h.visited _).2 (hclosed edge hedge (by simp [htarget]))
      obtain ⟨height, hheight, habove⟩ := heightAbove_of_visited id hvisited
      have hfresh : heights.contains id = false := by
        rw [Bool.eq_false_iff]
        exact fun hcontains => hnew ((h.visited id).1 hcontains)
      have hvisit : visit graph heights id = .ok (heights.insert id height) := by
        simp [visit, hnode, hfresh, hheight]
      have hsnoc := h.snoc hnew hclosed habove
      have happend : IsOrder graph ((done ++ [id]) ++ rest) := by simpa using horder
      obtain ⟨final, hfinal, hof⟩ := heightsAlong_grow happend hsnoc
      refine ⟨final, by simpa [heightsAlong, hvisit] using hfinal, by simpa using hof⟩

/-! ## Nodes of one height together -/

/-- The number of heights that occur. -/
def heightCount (heights : Heights) : Nat :=
  heights.values.foldl (fun count height => max count (height + 1)) 0

/-- The count of levels exceeds every height. -/
theorem lt_foldl_max :
    ∀ (values : List Nat) (start height : Nat),
      height < start ∨ height ∈ values →
      height < values.foldl (fun count height => max count (height + 1)) start
  | [], start, height, h => by simpa using h
  | value :: rest, start, height, h => by
      refine lt_foldl_max rest (max start (value + 1)) height ?_
      rcases h with h | h
      · left
        omega
      · rcases List.mem_cons.1 h with rfl | h
        · left
          omega
        · exact Or.inr h

theorem getD_lt_heightCount
    {heights : Heights} {id : String}
    (h : heights.contains id = true) :
    heights.getD id 0 < heightCount heights := by
  obtain ⟨height, hheight⟩ := (heights.contains_iff id).1 h
  have hmem : height ∈ heights.values := (heights.mem_values_iff height).2 ⟨id, hheight⟩
  rw [KeyMap.getD, hheight]
  exact lt_foldl_max heights.values 0 height (Or.inr hmem)

theorem mem_flatten_groups
    {heights : Heights} {order : List String} {id : String} {count : Nat} :
    id ∈
      ((List.range count).map fun index =>
          order.filter fun id => heights.getD id 0 = index).flatten ↔
      id ∈ order ∧ heights.getD id 0 < count := by
  simp [List.mem_flatten, and_comm]

/-- Grouping by height neither loses nor repeats a node. -/
theorem perm_flatten_groupByHeight
    {heights : Heights} {order : List String}
    (hnodup : order.Nodup)
    (hvisited : ∀ id ∈ order, heights.contains id = true) :
    (groupByHeight heights order).flatten.Perm order := by
  refine (List.perm_ext_iff_of_nodup ?_ hnodup).2 ?_
  · refine List.nodup_flatten.2 ⟨?_, ?_⟩
    · intro level hlevel
      obtain ⟨index, -, rfl⟩ := List.mem_map.1 hlevel
      exact hnodup.filter _
    · -- A node has one height, so it is in one group only.
      rw [groupByHeight, List.pairwise_map]
      refine List.nodup_range.imp ?_
      intro i j hij id hi hj
      have hheight : heights.getD id 0 = i := by simpa using (List.mem_filter.1 hi).2
      have hother : heights.getD id 0 = j := by simpa using (List.mem_filter.1 hj).2
      exact hij (hheight.symm.trans hother)
  · intro id
    refine mem_flatten_groups.trans ?_
    constructor
    · exact And.left
    · intro hid
      exact ⟨hid, getD_lt_heightCount (hvisited id hid)⟩

/-- The groups from a height on are layered over nodes that include all lower ones. -/
theorem layered_groups
    {graph : Graph} {heights : Heights} {order : List String}
    (hgrows :
        ∀ edge ∈ graph.edges.values,
          edge.target ∈ order →
          edge.source ∈ order ∧
          heights.getD edge.source 0 < heights.getD edge.target 0) :
    ∀ (count start : Nat) {done : List String},
      (∀ id ∈ order, heights.getD id 0 < start → id ∈ done) →
      Layered graph done ((List.range' start count).map fun index =>
          order.filter fun id => heights.getD id 0 = index)
  | 0, _, _, _ => trivial
  | count + 1, start, done, hdone => by
      refine ⟨?_, layered_groups hgrows count (start + 1) ?_⟩
      · intro id hid edge hedge htarget
        obtain ⟨hmem, hheight⟩ := List.mem_filter.1 hid
        have hheight' : heights.getD id 0 = start := by simpa using hheight
        subst htarget
        obtain ⟨hsource, hlt⟩ := hgrows edge hedge hmem
        exact hdone edge.source hsource (by omega)
      · intro id hid hlt
        by_cases hlow : heights.getD id 0 < start
        · exact List.mem_append_left _ (hdone id hid hlow)
        · have heq : heights.getD id 0 = start := by omega
          exact List.mem_append_right _ (List.mem_filter.2 ⟨hid, by simp [heq]⟩)

/-- **The levels of an order are a schedule**; they are never refused. -/
theorem levels_isSchedule
    {graph : Graph} {order : List String}
    (h : IsOrder graph order) :
    ∃ found, levels graph order = .ok found ∧ IsSchedule graph found := by
  have hstart : HeightsOf graph KeyMap.empty [] :=
    { visited := by simp [KeyMap.contains]
      grows := by simp }
  have horder : IsOrder graph ([] ++ order) := h
  obtain ⟨heights, hheights, hof⟩ := heightsAlong_grow horder hstart
  have hlength : order.length = graph.nodes.size := by
    rw [h.perm.length_eq]
    simp [KeyMap.keys, KeyMap.size]
  have hvisited : ∀ id ∈ order, heights.contains id = true :=
    fun id hid => (hof.visited id).2 hid
  have hnodup : order.Nodup := h.perm.nodup_iff.2 graph.nodes.nodup_keys
  refine ⟨groupByHeight heights order, ?_, ?_, ?_⟩
  · simp [levels, hlength, hheights, Except.map]
  · exact (perm_flatten_groupByHeight hnodup hvisited).trans h.perm
  · rw [groupByHeight, List.range_eq_range']
    refine layered_groups ?_ _ 0 (by simp)
    intro edge hedge htarget
    obtain ⟨before, after, hsplit⟩ := List.append_of_mem htarget
    have hsource := h.sourcesFirst before edge.target after hsplit edge hedge rfl
    exact ⟨by simp [hsplit, hsource], hof.grows edge hedge htarget⟩

end Schedule

end PhaseFlow
