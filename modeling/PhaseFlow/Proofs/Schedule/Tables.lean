import PhaseFlow.Proofs.Schedule.Kahn

/-!
# The tables of the placing loop

The nodes can be placed with two tables, the number of edges that a node waits for and
the targets of the edges that start at a node, in which looking up an absent key stores
it. Where the ends of all edges are nodes, every key that is looked up is a node, so the
tables have the nodes as their keys all the time (`keys_advance`), and the loop is the
one that `Frontier` describes (`Mirrors`): the base is `mirrors_initial`, the step is
`Mirrors.step`, and `mirrors_advance` is the induction.
-/

namespace PhaseFlow

namespace Schedule

/-- The tables of the loop, the nodes that may be placed next and the nodes placed so
far. -/
structure Tables where
  degrees : KeyMap Nat
  successors : KeyMap (List String)
  ready : KeyMap Unit
  order : List String

namespace Tables

/-- An edge is counted at its target and listed at its source, which stores both. -/
def enter (tables : Tables) (edge : Edge) : Tables :=
  { tables with
    degrees := tables.degrees.insert edge.target (tables.degrees.getD edge.target 0 + 1)
    successors := tables.successors.insert edge.source
      (tables.successors.getD edge.source [] ++ [edge.target]) }

def blank (graph : Graph) : Tables where
  degrees := graph.nodes.map fun _ => 0
  successors := graph.nodes.map fun _ => []
  ready := KeyMap.empty
  order := []

def initial (graph : Graph) : Tables :=
  let entered := graph.edges.values.foldl enter (blank graph)
  { entered with ready := Frontier.readyOf entered.degrees }

/-- A target has one edge less to wait for; looking up its number stores it. -/
def lower (tables : Tables) (target : String) : Tables :=
  let degree := tables.degrees.getD target 0
  let degrees := tables.degrees.insert target (degree - 1)
  if degree = 1 then { tables with degrees, ready := tables.ready.insert target () }
  else { tables with degrees }

/-- After the smallest ready node has been placed; looking up its successors stores
it. -/
def step (tables : Tables) : Option Tables :=
  match tables.ready.entries with
  | [] => none
  | (id, _) :: _ =>
      let targets := tables.successors.getD id []
      some (targets.foldl lower
        { tables with
          successors := tables.successors.insert id targets
          ready := tables.ready.erase id
          order := tables.order ++ [id] })

def advance : (rounds : Nat) → Tables → Tables
  | 0, tables => tables
  | rounds + 1, tables =>
      match tables.step with
      | some next => advance rounds next
      | none => tables

/-! ## Tables and frontier -/

/-- The tables say what the frontier says, and list the edges of the graph. -/
structure Mirrors
    (graph : Graph)
    (frontier : Frontier)
    (tables : Tables) : Prop where
  degrees : tables.degrees = frontier.pending
  successors : ∀ id, tables.successors.get? id =
    (graph.nodes.get? id).map fun _ => (graph.outgoing id).map Edge.target
  ready : tables.ready = frontier.ready
  order : tables.order = frontier.placed

theorem degrees_foldl_enter
    {edges : List Edge} {tables : Tables}
    (h : ∀ edge ∈ edges, tables.degrees.contains edge.target = true) :
    (edges.foldl enter tables).degrees =
      edges.foldl (fun counts edge => counts.modify edge.target (· + 1))
        tables.degrees := by
  induction edges generalizing tables with
  | nil => rfl
  | cons edge rest ih =>
      have hfirst :
          (tables.enter edge).degrees = tables.degrees.modify edge.target (· + 1) :=
        KeyMap.insert_getD_of_contains (h edge List.mem_cons_self) 0 (· + 1)
      rw [List.foldl_cons, List.foldl_cons, ih, hfirst]
      intro other hother
      rw [hfirst, KeyMap.contains_modify]
      exact h other (List.mem_cons_of_mem _ hother)

theorem get?_successors_foldl_enter
    {edges : List Edge} {tables : Tables}
    (h : ∀ edge ∈ edges, tables.successors.contains edge.source = true)
    (id : String) :
    (edges.foldl enter tables).successors.get? id =
      (tables.successors.get? id).map fun targets =>
        targets ++ (edges.filter fun edge => edge.source = id).map Edge.target := by
  induction edges generalizing tables with
  | nil => simp
  | cons edge rest ih =>
      have hfirst : (tables.enter edge).successors =
          tables.successors.modify edge.source (· ++ [edge.target]) :=
        KeyMap.insert_getD_of_contains (h edge List.mem_cons_self) [] (· ++ [edge.target])
      rw [List.foldl_cons, ih, hfirst, KeyMap.get?_modify]
      · by_cases hsource : edge.source = id
        · subst hsource
          simp [Function.comp_def]
        · simp [hsource]
      · intro other hother
        rw [hfirst, KeyMap.contains_modify]
        exact h other (List.mem_cons_of_mem _ hother)

theorem order_foldl_enter
    (edges : List Edge)
    (tables : Tables) :
    (edges.foldl enter tables).order = tables.order := by
  induction edges generalizing tables with
  | nil => rfl
  | cons edge rest ih => exact ih (tables.enter edge)

theorem contains_map_nodes
    {α : Type}
    (graph : Graph)
    (f : Node → α)
    (id : String) :
    (graph.nodes.map f).contains id = graph.hasNode id := by
  rw [KeyMap.contains, KeyMap.get?_map, Option.isSome_map]
  rfl

/-- Both ends of every edge are among the keys from the start. -/
theorem mirrors_initial
    {graph : Graph}
    (hwell : graph.WellFormed) :
    Mirrors graph (Frontier.initial graph) (initial graph) := by
  have hends : ∀ edge ∈ graph.edges.values,
      graph.hasNode edge.source = true ∧ graph.hasNode edge.target = true := by
    intro edge hedge
    have hstored := hwell.get?_id hedge
    exact ⟨hwell.hasNode_source hstored, hwell.hasNode_target hstored⟩
  have hdegrees : (initial graph).degrees = (Frontier.initial graph).pending := by
    refine degrees_foldl_enter fun edge hedge => ?_
    rw [blank, contains_map_nodes]
    exact (hends edge hedge).2
  constructor
  case degrees => exact hdegrees
  case successors =>
    intro id
    refine (get?_successors_foldl_enter (fun edge hedge => ?_) id).trans ?_
    · rw [blank, contains_map_nodes]
      exact (hends edge hedge).1
    · rw [blank, KeyMap.get?_map, Option.map_map]
      rfl
  case ready => exact congrArg Frontier.readyOf hdegrees
  case order => exact order_foldl_enter graph.edges.values (blank graph)

/-- Taking one edge off a node on record. -/
theorem Mirrors.lower
    {graph : Graph} {frontier : Frontier} {tables : Tables} {target : String}
    (h : Mirrors graph frontier tables)
    (htarget : frontier.pending.contains target = true) :
    Mirrors graph (frontier.release target) (tables.lower target) := by
  obtain ⟨count, hcount⟩ := (frontier.pending.contains_iff target).1 htarget
  have hdegree : tables.degrees.getD target 0 = count := by
    rw [h.degrees, KeyMap.getD, hcount, Option.getD_some]
  unfold Frontier.release Tables.lower
  rw [hcount]
  dsimp only
  rw [hdegree, h.degrees]
  split
  · refine ⟨rfl, h.successors, ?_, h.order⟩
    dsimp only
    rw [h.ready]
  · exact ⟨rfl, h.successors, h.ready, h.order⟩

theorem contains_pending_release
    (frontier : Frontier)
    (target other : String) :
    (frontier.release target).pending.contains other =
      frontier.pending.contains other := by
  rw [KeyMap.contains, Frontier.get?_pending_release, Option.isSome_map]
  rfl

theorem Mirrors.foldl_lower
    {graph : Graph} :
    ∀ {targets : List String} {frontier : Frontier} {tables : Tables},
      Mirrors graph frontier tables →
      (∀ target ∈ targets, frontier.pending.contains target = true) →
      Mirrors graph (targets.foldl Frontier.release frontier)
        (targets.foldl Tables.lower tables)
  | [], _, _, h, _ => h
  | target :: rest, frontier, tables, h, htargets => by
      show Mirrors graph (rest.foldl Frontier.release (frontier.release target))
        (rest.foldl Tables.lower (tables.lower target))
      refine Mirrors.foldl_lower (h.lower (htargets target List.mem_cons_self)) ?_
      intro other hother
      rw [contains_pending_release]
      exact htargets other (List.mem_cons_of_mem _ hother)

theorem contains_pending
    {graph : Graph} {frontier : Frontier}
    (h : Frontier.Invariant graph frontier)
    (id : String) :
    frontier.pending.contains id = graph.hasNode id := by
  rw [KeyMap.contains, h.pending]
  cases graph.hasNode id <;> rfl

/-- **One round.** The ready node is on record, and so are the targets of its edges. -/
theorem Mirrors.step
    {graph : Graph} {frontier : Frontier} {tables : Tables}
    (hwell : graph.WellFormed)
    (hinvariant : Frontier.Invariant graph frontier)
    (h : Mirrors graph frontier tables) :
    (frontier.step graph = none ∧ tables.step = none) ∨
    ∃ next later,
      frontier.step graph = some next ∧
      tables.step = some later ∧
      Mirrors graph next later := by
  unfold Frontier.step Tables.step
  rw [h.ready]
  cases hentries : frontier.ready.entries with
  | nil => exact .inl ⟨rfl, rfl⟩
  | cons entry rest =>
      obtain ⟨id, mark⟩ := entry
      have hready : frontier.ready.contains id = true := by
        refine (frontier.ready.contains_iff id).2 ⟨mark, ?_⟩
        rw [← KeyMap.mem_entries_iff, hentries]
        exact List.mem_cons_self
      obtain ⟨node, hnode⟩ := Graph.hasNode_iff.1 ((hinvariant.ready id).1 hready).1
      have hlisted :
          tables.successors.get? id = some ((graph.outgoing id).map Edge.target) := by
        rw [h.successors, hnode, Option.map_some]
      have htargets :
          tables.successors.getD id [] = (graph.outgoing id).map Edge.target := by
        rw [KeyMap.getD, hlisted, Option.getD_some]
      refine .inr ⟨_, _, rfl, rfl, ?_⟩
      rw [htargets]
      refine Mirrors.foldl_lower ?_ ?_
      · refine ⟨h.degrees, ?_, rfl, congrArg (· ++ [id]) h.order⟩
        intro other
        dsimp only
        rw [KeyMap.get?_insert]
        split
        · next heq =>
            rw [← heq, hnode, Option.map_some]
        · exact h.successors other
      · intro target htarget
        obtain ⟨edge, hedge, rfl⟩ := List.mem_map.1 htarget
        rw [contains_pending hinvariant]
        exact hwell.hasNode_target (hwell.get?_id (List.mem_filter.1 hedge).1)

/-- **All rounds.** -/
theorem mirrors_advance
    {graph : Graph}
    (hwell : graph.WellFormed) :
    ∀ (rounds : Nat) {frontier : Frontier} {tables : Tables},
      Frontier.Invariant graph frontier →
      Mirrors graph frontier tables →
      Mirrors graph (Frontier.advance graph rounds frontier) (advance rounds tables)
  | 0, _, _, _, h => h
  | rounds + 1, frontier, tables, hinvariant, h => by
      unfold Frontier.advance Tables.advance
      rcases h.step hwell hinvariant with ⟨hnone, hnone'⟩ |
        ⟨next, later, hnext, hlater, hmirrors⟩
      · rw [hnone, hnone']
        exact h
      · rw [hnext, hlater]
        exact mirrors_advance hwell rounds (hinvariant.step hnext).1 hmirrors

theorem Mirrors.keys_eq
    {graph : Graph} {frontier : Frontier} {tables : Tables}
    (h : Mirrors graph frontier tables)
    (hinvariant : Frontier.Invariant graph frontier) :
    tables.degrees.keys = graph.nodes.keys ∧
    tables.successors.keys = graph.nodes.keys := by
  constructor
  · rw [h.degrees]
    exact KeyMap.keys_eq_of_contains_eq fun id => contains_pending hinvariant id
  · refine KeyMap.keys_eq_of_contains_eq fun id => ?_
    rw [KeyMap.contains, h.successors, Option.isSome_map]
    rfl

/-- **The keys of the tables are the nodes, at the start and after any number of
rounds**, and the rounds place what the loop on the frontier places. -/
theorem keys_advance
    {graph : Graph}
    (hwell : graph.WellFormed)
    (rounds : Nat) :
    (advance rounds (initial graph)).degrees.keys = graph.nodes.keys ∧
    (advance rounds (initial graph)).successors.keys = graph.nodes.keys ∧
    (advance rounds (initial graph)).order =
      (Frontier.advance graph rounds (Frontier.initial graph)).placed := by
  have hinvariant := Frontier.Invariant.initial graph
  have hmirrors := mirrors_advance hwell rounds hinvariant (mirrors_initial hwell)
  obtain ⟨hdegrees, hsuccessors⟩ := hmirrors.keys_eq (hinvariant.advance rounds)
  exact ⟨hdegrees, hsuccessors, hmirrors.order⟩

end Tables

end Schedule

end PhaseFlow
