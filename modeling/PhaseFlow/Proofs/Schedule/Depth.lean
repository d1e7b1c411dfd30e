import Mathlib.Data.List.Forall2
import PhaseFlow.Proofs.Schedule.Cycle
import PhaseFlow.Proofs.Schedule.Layers

/-!
# Levels and longest paths

`levels` visits the nodes of a list one by one and refuses the list as soon as a node is
unknown, listed twice or listed before one that feeds it. `Measured` says what the
visits keep: the nodes visited so far are an order of what has been seen, and the height
of a node is the number of edges of the longest directed path that ends there
(`Graph.IsDepth`).

So the lists that are accepted are the orders of the graph, and the levels depend on the
graph alone: a node stands at its depth (`ByDepth`), every depth below a depth that
occurs is occupied, and another order leads to the same sets (`ByDepth.perm`).

Main statement: `levels_eq_ok_iff`.
-/

namespace PhaseFlow

namespace Graph

/-- A directed path with a given number of edges, active or not, ends at a node. -/
inductive PathTo (graph : Graph) : Nat → String → Prop
  | start (id : String) : PathTo graph 0 id
  | step
      {length : Nat} {source id : String}
      (hpath : PathTo graph length source)
      (hjoins : graph.Joins source id) :
      PathTo graph (length + 1) id

/-- The longest directed path that ends at a node has a given number of edges. -/
def IsDepth (graph : Graph) (id : String) (depth : Nat) : Prop :=
  graph.PathTo depth id ∧ ∀ length, graph.PathTo length id → length ≤ depth

theorem IsDepth.unique
    {graph : Graph} {id : String} {a b : Nat}
    (ha : graph.IsDepth id a)
    (hb : graph.IsDepth id b) :
    a = b :=
  Nat.le_antisymm (hb.2 a ha.1) (ha.2 b hb.1)

theorem IsDepth.lt_of_joins
    {graph : Graph} {source id : String} {a b : Nat}
    (ha : graph.IsDepth source a)
    (hb : graph.IsDepth id b)
    (hjoins : graph.Joins source id) :
    a < b :=
  hb.2 (a + 1) (.step ha.1 hjoins)

/-- The node before the end of a longest path is one level above its end. -/
theorem IsDepth.exists_source
    {graph : Graph} {id : String} {depth : Nat}
    (h : graph.IsDepth id (depth + 1)) :
    ∃ source, graph.Joins source id ∧ graph.IsDepth source depth := by
  obtain ⟨hpath, hlongest⟩ := h
  cases hpath with
  | @step _ source _ hpath hjoins =>
      refine ⟨source, hjoins, hpath, ?_⟩
      intro length hlength
      exact Nat.le_of_succ_le_succ (hlongest (length + 1) (.step hlength hjoins))

end Graph

namespace Schedule

variable {graph : Graph}

/-! ## One visit -/

/-- A height is the least number above the heights of the predecessors, all of which
have one. -/
theorem heightAbove_eq_ok
    {heights : Heights} {id : String} :
    ∀ {sources : List String} {height : Nat},
      heightAbove heights id sources = .ok height →
      (∀ source ∈ sources,
          ∃ below, heights.get? source = some below ∧ below < height) ∧
      (height = 0 ∨
        ∃ source ∈ sources,
          ∃ below, heights.get? source = some below ∧ height = below + 1)
  | [], height, h => by
      cases h
      exact ⟨by simp, Or.inl rfl⟩
  | source :: rest, height, h => by
      rw [heightAbove] at h
      split at h
      · cases h
      · next below hbelow =>
          obtain ⟨above, habove, rfl⟩ := Answer.map_eq_ok_iff.1 h
          obtain ⟨hall, hattained⟩ := heightAbove_eq_ok habove
          constructor
          · intro other hother
            rcases List.mem_cons.1 hother with rfl | hmem
            · exact ⟨below, hbelow, by omega⟩
            · obtain ⟨found, hfound, hlt⟩ := hall other hmem
              exact ⟨found, hfound, by omega⟩
          · right
            by_cases hle : above ≤ below + 1
            · exact ⟨source, List.mem_cons_self, below, hbelow, by omega⟩
            · rcases hattained with hzero | ⟨other, hother, found, hfound, heq⟩
              · omega
              · exact ⟨other, List.mem_cons_of_mem _ hother, found, hfound, by omega⟩

theorem visit_eq_ok
    {heights next : Heights} {id : String}
    (h : visit graph heights id = .ok next) :
    graph.hasNode id = true ∧
    heights.contains id = false ∧
    ∃ height,
      heightAbove heights id (graph.predecessors id) = .ok height ∧
      next = heights.insert id height := by
  unfold visit at h
  split at h
  · cases h
  · next hnode =>
      split at h
      · cases h
      · next hnew =>
          split at h
          · cases h
          · next height hheight =>
              cases h
              exact ⟨by simpa using hnode, by simpa using hnew, height, hheight, rfl⟩

/-! ## All visits -/

/-- The visited nodes are in order, and their heights are their depths. -/
structure Measured
    (graph : Graph)
    (heights : Heights)
    (done : List String) : Prop where
  visited : ∀ id, heights.contains id = true ↔ id ∈ done
  nodup : done.Nodup
  known : ∀ id ∈ done, graph.hasNode id = true
  sourcesFirst : SourcesFirst graph done
  depth : ∀ {id height}, heights.get? id = some height → graph.IsDepth id height

theorem Measured.initial (graph : Graph) : Measured graph KeyMap.empty [] where
  visited := by simp [KeyMap.contains]
  nodup := List.nodup_nil
  known := by simp
  sourcesFirst := SourcesFirst.nil graph
  depth h := by cases h

theorem Measured.visit
    {heights next : Heights} {done : List String} {id : String}
    (h : Measured graph heights done)
    (hnext : visit graph heights id = .ok next) :
    Measured graph next (done ++ [id]) := by
  obtain ⟨hnode, hnew, height, hheight, rfl⟩ := visit_eq_ok hnext
  obtain ⟨habove, hattained⟩ := heightAbove_eq_ok hheight
  have hfresh : id ∉ done := by
    rw [← h.visited, hnew]
    exact Bool.false_ne_true
  constructor
  case visited =>
    intro other
    rw [KeyMap.contains_insert, Bool.or_eq_true, decide_eq_true_iff, h.visited,
      List.mem_append, List.mem_singleton, or_comm, eq_comm]
  case nodup =>
    refine List.nodup_append.2 ⟨h.nodup, List.nodup_singleton id, ?_⟩
    rintro other hother last hlast rfl
    exact hfresh (List.mem_singleton.1 hlast ▸ hother)
  case known =>
    intro other hother
    rcases List.mem_append.1 hother with hold | hlast
    · exact h.known other hold
    · rw [List.mem_singleton.1 hlast]
      exact hnode
  case sourcesFirst =>
    refine h.sourcesFirst.snoc (waiting_eq_zero_iff.2 ?_)
    intro edge hedge htarget
    obtain ⟨below, hbelow, -⟩ :=
      habove edge.source (Graph.mem_predecessors.2 ⟨edge, hedge, rfl, htarget⟩)
    exact (h.visited _).1 ((heights.contains_iff _).2 ⟨below, hbelow⟩)
  case depth =>
    intro other found hfound
    rw [KeyMap.get?_insert] at hfound
    split at hfound
    · next heq =>
        obtain rfl := heq
        obtain rfl := Option.some.inj hfound
        constructor
        · rcases hattained with rfl | ⟨source, hsource, below, hbelow, rfl⟩
          · exact .start id
          · exact .step (h.depth hbelow).1 (Graph.mem_predecessors.1 hsource)
        · -- The last edge of a path to the new node comes from a node that has been visited.
          intro length hpath
          cases hpath with
          | start => exact Nat.zero_le _
          | step hpath hjoins =>
              obtain ⟨below, hbelow, hlt⟩ := habove _ (Graph.mem_predecessors.2 hjoins)
              exact Nat.lt_of_le_of_lt ((h.depth hbelow).2 _ hpath) hlt
    · exact h.depth hfound

theorem Measured.along :
    ∀ {rest done : List String} {heights final : Heights},
      Measured graph heights done →
      heightsAlong graph heights rest = .ok final →
      Measured graph final (done ++ rest)
  | [], done, _, _, h, hfinal => by
      cases hfinal
      rw [List.append_nil]
      exact h
  | id :: rest, done, heights, final, h, hfinal => by
      rw [heightsAlong] at hfinal
      split at hfinal
      · cases hfinal
      · next next hnext =>
          have hrest := (h.visit hnext).along hfinal
          rwa [List.append_assoc] at hrest

/-- **A list that is accepted has been visited to its end.** -/
theorem measured_of_levels
    {order : List String} {found : List (List String)}
    (h : levels graph order = .ok found) :
    order.length = graph.nodes.size ∧
    ∃ heights,
      Measured graph heights order ∧ found = groupByHeight heights order := by
  unfold levels at h
  split at h
  · cases h
  · next hlength =>
      obtain ⟨heights, hheights, rfl⟩ := Answer.map_eq_ok_iff.1 h
      exact ⟨by simpa using hlength, heights, (Measured.initial graph).along hheights, rfl⟩

theorem Measured.isOrder
    {heights : Heights} {order : List String}
    (h : Measured graph heights order)
    (hlength : order.length = graph.nodes.size) :
    IsOrder graph order where
  perm := by
    have hsubset : order ⊆ graph.nodes.keys :=
      fun id hid => mem_keys_iff_hasNode.2 (h.known id hid)
    apply (List.subperm_of_subset h.nodup hsubset).perm_of_length_le
    simp [KeyMap.keys, hlength, KeyMap.size]
  sourcesFirst := h.sourcesFirst

theorem Measured.isDepth_getD
    {heights : Heights} {order : List String}
    (h : Measured graph heights order)
    {id : String}
    (hid : id ∈ order) :
    graph.IsDepth id (heights.getD id 0) := by
  obtain ⟨height, hheight⟩ := (heights.contains_iff id).1 ((h.visited id).2 hid)
  rw [KeyMap.getD, hheight]
  exact h.depth hheight

/-! ## Which depths occur -/

theorem exists_of_lt_foldl_max :
    ∀ (values : List Nat) (start index : Nat),
      index < values.foldl (fun count height => max count (height + 1)) start →
      index < start ∨ ∃ height ∈ values, index ≤ height
  | [], _, _, h => Or.inl h
  | value :: rest, start, index, h => by
      rcases exists_of_lt_foldl_max rest (max start (value + 1)) index h with
        hstart | ⟨height, hheight, hle⟩
      · by_cases hlt : index < start
        · exact Or.inl hlt
        · exact Or.inr ⟨value, List.mem_cons_self, by omega⟩
      · exact Or.inr ⟨height, List.mem_cons_of_mem _ hheight, hle⟩

/-- Every depth below the depth of a node of an order is the depth of a node of the
order. -/
theorem exists_of_isDepth
    {order : List String}
    (horder : SourcesFirst graph order) :
    ∀ {depth index : Nat} {id : String},
      id ∈ order →
      graph.IsDepth id depth →
      index ≤ depth →
      ∃ other ∈ order, graph.IsDepth other index
  | 0, index, id, hid, hdepth, hle => ⟨id, hid, by rwa [Nat.le_zero.1 hle]⟩
  | depth + 1, index, id, hid, hdepth, hle => by
      by_cases hlast : index = depth + 1
      · exact ⟨id, hid, hlast ▸ hdepth⟩
      · obtain ⟨source, hjoins, hsource⟩ := hdepth.exists_source
        obtain ⟨before, after, rfl⟩ := List.append_of_mem hid
        have hbefore := horder.mem_of_transGen (Relation.TransGen.single hjoins) rfl
        exact exists_of_isDepth horder (List.mem_append_left _ hbefore) hsource (by omega)

/-- The depths below the number of levels are those that occur. -/
theorem Measured.exists_of_lt_heightCount
    {heights : Heights} {order : List String}
    (h : Measured graph heights order)
    {index : Nat}
    (hindex : index < heightCount heights) :
    ∃ id ∈ order, graph.IsDepth id index := by
  rcases exists_of_lt_foldl_max _ _ _ hindex with hlt | ⟨height, hheight, hle⟩
  · exact absurd hlt (Nat.not_lt_zero index)
  · obtain ⟨id, hid⟩ := (heights.mem_values_iff height).1 hheight
    have hmem := (h.visited id).1 ((heights.contains_iff id).2 ⟨height, hid⟩)
    exact exists_of_isDepth h.sourcesFirst hmem (h.depth hid) hle

/-! ## Levels by depth -/

/-- The nodes, cut into levels by their depths. -/
structure ByDepth
    (graph : Graph)
    (order : List String)
    (found : List (List String)) : Prop where
  partition : found.flatten.Perm graph.nodes.keys
  depth :
    ∀ index level, found[index]? = some level → ∀ id ∈ level, graph.IsDepth id index
  ne_nil : ∀ level ∈ found, level ≠ []
  apart :
    ∀ level ∈ found, ∀ source ∈ level, ∀ target ∈ level, ¬ graph.Joins source target
  sublist : ∀ level ∈ found, level.Sublist order

theorem getElem?_groupByHeight
    {heights : Heights} {order level : List String} {index : Nat} :
    (groupByHeight heights order)[index]? = some level ↔
      index < heightCount heights ∧
      order.filter (fun id => heights.getD id 0 = index) = level := by
  show ((List.range (heightCount heights)).map _)[index]? = some level ↔ _
  simp [List.getElem?_eq_some_iff]

/-- **The heights of an order group its nodes by depth.** -/
theorem Measured.byDepth
    {heights : Heights} {order : List String}
    (h : Measured graph heights order)
    (horder : IsOrder graph order) :
    ByDepth graph order (groupByHeight heights order) := by
  have hlevel : ∀ level ∈ groupByHeight heights order, ∃ index, index < heightCount heights ∧
      order.filter (fun id => heights.getD id 0 = index) = level := by
    intro level hlevel
    obtain ⟨index, hindex⟩ := List.mem_iff_getElem?.1 hlevel
    exact ⟨index, getElem?_groupByHeight.1 hindex⟩
  have hdepth : ∀ {index id}, id ∈ order.filter (fun id => heights.getD id 0 = index) →
      graph.IsDepth id index := by
    intro index id hid
    obtain ⟨hmem, hheight⟩ := List.mem_filter.1 hid
    have heq : heights.getD id 0 = index := by simpa using hheight
    exact heq ▸ h.isDepth_getD hmem
  constructor
  case partition =>
    exact
      (perm_flatten_groupByHeight h.nodup fun id hid => (h.visited id).2 hid).trans
      horder.perm
  case depth =>
    intro index level hfound id hid
    obtain ⟨-, rfl⟩ := getElem?_groupByHeight.1 hfound
    exact hdepth hid
  case ne_nil =>
    intro level hmem
    obtain ⟨index, hlt, rfl⟩ := hlevel level hmem
    obtain ⟨id, hid, hindex⟩ := h.exists_of_lt_heightCount hlt
    have heq := (h.isDepth_getD hid).unique hindex
    exact List.ne_nil_of_mem (List.mem_filter.2 ⟨hid, by simpa using heq⟩)
  case apart =>
    intro level hmem source hsource target htarget hjoins
    obtain ⟨index, -, rfl⟩ := hlevel level hmem
    exact Nat.lt_irrefl index ((hdepth hsource).lt_of_joins (hdepth htarget) hjoins)
  case sublist =>
    intro level hmem
    obtain ⟨index, -, rfl⟩ := hlevel level hmem
    exact List.filter_sublist

section Same

variable {order other : List String} {found found' : List (List String)}

theorem ByDepth.exists_level
    (h : ByDepth graph order found)
    {id : String}
    (hnode : graph.hasNode id = true) :
    ∃ (index : Nat) (level : List String),
      found[index]? = some level ∧ id ∈ level := by
  have hmem := h.partition.mem_iff.2 (mem_keys_iff_hasNode.2 hnode)
  obtain ⟨level, hlevel, hid⟩ := List.mem_flatten.1 hmem
  obtain ⟨index, hindex⟩ := List.mem_iff_getElem?.1 hlevel
  exact ⟨index, level, hindex, hid⟩

theorem ByDepth.mem_iff
    (h : ByDepth graph order found)
    {index : Nat} {level : List String}
    (hlevel : found[index]? = some level)
    {id : String} :
    id ∈ level ↔ graph.hasNode id = true ∧ graph.IsDepth id index := by
  constructor
  · intro hid
    have hmem : id ∈ found.flatten :=
      List.mem_flatten.2 ⟨level, List.mem_of_getElem? hlevel, hid⟩
    exact ⟨mem_keys_iff_hasNode.1 (h.partition.mem_iff.1 hmem),
      h.depth index level hlevel id hid⟩
  · rintro ⟨hnode, hdepth⟩
    obtain ⟨place, other, hother, hid⟩ := h.exists_level hnode
    obtain rfl := (h.depth place other hother id hid).unique hdepth
    rw [hlevel] at hother
    rwa [Option.some.inj hother]

/-- There are as many levels as depths. -/
theorem ByDepth.lt_length_iff
    (h : ByDepth graph order found)
    {index : Nat} :
    index < found.length ↔
      ∃ id, graph.hasNode id = true ∧ graph.IsDepth id index := by
  constructor
  · intro hlt
    have hlevel := List.getElem?_eq_getElem hlt
    obtain ⟨id, hid⟩ := List.exists_mem_of_ne_nil _ (h.ne_nil _ (List.getElem_mem hlt))
    exact ⟨id, (h.mem_iff hlevel).1 hid⟩
  · rintro ⟨id, hnode, hdepth⟩
    obtain ⟨place, level, hlevel, hid⟩ := h.exists_level hnode
    obtain rfl := (h.depth place level hlevel id hid).unique hdepth
    exact (List.getElem?_eq_some_iff.1 hlevel).1

theorem ByDepth.nodup
    (h : ByDepth graph order found)
    {level : List String}
    (hlevel : level ∈ found) :
    level.Nodup :=
  (List.nodup_flatten.1 (h.partition.nodup_iff.2 graph.nodes.nodup_keys)).1 level hlevel

/-- **The levels of a graph do not depend on the order but for the places within a
level.** -/
theorem ByDepth.perm
    (h : ByDepth graph order found)
    (h' : ByDepth graph other found') :
    List.Forall₂ List.Perm found found' := by
  have hlength : found.length = found'.length := by
    refine Nat.le_antisymm (Nat.le_of_not_lt fun hlt => ?_) (Nat.le_of_not_lt fun hlt => ?_)
    · exact Nat.lt_irrefl _ (h'.lt_length_iff.2 (h.lt_length_iff.1 hlt))
    · exact Nat.lt_irrefl _ (h.lt_length_iff.2 (h'.lt_length_iff.1 hlt))
  refine List.forall₂_iff_get.2 ⟨hlength, ?_⟩
  intro index hlt hlt'
  have hlevel := List.getElem?_eq_getElem hlt
  have hlevel' := List.getElem?_eq_getElem hlt'
  refine (List.perm_ext_iff_of_nodup (h.nodup (List.getElem_mem hlt))
    (h'.nodup (List.getElem_mem hlt'))).2 ?_
  intro id
  exact (h.mem_iff hlevel).trans (h'.mem_iff hlevel').symm

end Same

/-- **Which lists have levels, and which.** A list is accepted exactly if it is an order
of the graph, and then its levels are the nodes by their depths; all orders of a graph
have the same levels but for the places within a level. -/
theorem levels_eq_ok_iff
    (graph : Graph)
    (order : List String) :
    ((∃ found, levels graph order = .ok found) ↔ IsOrder graph order) ∧
    ∀ found,
      levels graph order = .ok found →
      ByDepth graph order found ∧
      ∀ other found',
        levels graph other = .ok found' → List.Forall₂ List.Perm found found' := by
  have hbyDepth :
      ∀ {order found},
        levels graph order = .ok found → ByDepth graph order found := by
    intro order found hfound
    obtain ⟨hlength, heights, hmeasured, rfl⟩ := measured_of_levels hfound
    exact hmeasured.byDepth (hmeasured.isOrder hlength)
  refine ⟨⟨?_, ?_⟩, ?_⟩
  · rintro ⟨found, hfound⟩
    obtain ⟨hlength, heights, hmeasured, -⟩ := measured_of_levels hfound
    exact hmeasured.isOrder hlength
  · intro horder
    obtain ⟨found, hfound, -⟩ := levels_isSchedule horder
    exact ⟨found, hfound⟩
  · intro found hfound
    exact ⟨hbyDepth hfound,
      fun other found' hfound' => (hbyDepth hfound).perm (hbyDepth hfound')⟩

/-- A way of two edges from `a` to `c`, another one of one edge, and a node apart. -/
def shortcut : Graph :=
  (Graph.create "g" "shortcut" ⟨0⟩).after
    [.addNode "a" "" .null .passThrough ⟨0⟩, .addNode "b" "" .null .passThrough ⟨0⟩,
      .addNode "c" "" .null .passThrough ⟨0⟩, .addNode "d" "" .null .passThrough ⟨0⟩,
      .addEdge "a" "b" .null ⟨0⟩, .addEdge "b" "c" .null ⟨0⟩, .addEdge "a" "c" .null ⟨0⟩]

example : levels shortcut ["d", "a", "b", "c"] = .ok [["d", "a"], ["b"], ["c"]] :=
  rfl

end Schedule

end PhaseFlow
