import Mathlib.Data.List.Induction
import PhaseFlow.Proofs.Graph.WellFormed

/-!
# What identifies a stored edge

Edges are stored under their ids, and the id of an edge is a text made of its source,
its target and its stream, with `->` and `:` between them. Two triples can make the same
text. The module says what is stored after a history of operations, and how far this is
what the triples alone would give.

* `Operation.fate` says what an operation makes of each stored edge, `Graph.inserted?`
  which edge an accepted operation adds.
* `Ledger.record` keeps the last inserted edge of each key, for a key of one's choice.
* The ledger by ids is what the graph stores (`storedBy_id_apply`). The ledger by
  triples is what the graph stores exactly as long as no operation collides
  (`storedBy_triple_apply_iff`).
* Names without separators never collide (`triple_eq_of_idOfTriple_eq`).

Main statement: `stored_edges_follow_triples_iff`.
-/

namespace PhaseFlow

namespace Graph

/-! ## One operation -/

/-- The edge that a graph stores for an accepted operation that adds one. -/
def inserted? (graph : Graph) : Operation → Option Edge
  | .addEdge source target config now =>
      (graph.addEdge source target config now).toOption.map Prod.snd
  | .insertEdge edge => (graph.insertEdge edge).toOption.map Prod.snd
  | _ => none

/-- What an operation that adds no edge makes of a stored edge. -/
def Operation.fate (graph : Graph) (edge : Edge) : Operation → Option Edge
  | .removeNode id => if graph.hasNode id && edge.touches id then none else some edge
  | .removeEdge id => if edge.id = id then none else some edge
  | .editEdge id change _ => some (if edge.id = id then change edge else edge)
  | .reset => some edge.reset
  | _ => some edge

theorem Operation.fate_eq_some
    {graph : Graph} {edge next : Edge} {operation : Operation}
    (h : operation.fate graph edge = some next) :
    next.id = edge.id ∧ next.triple = edge.triple := by
  cases operation with
  | removeNode id =>
      simp only [fate] at h
      split at h
      · cases h
      · cases h
        exact ⟨rfl, rfl⟩
  | removeEdge id =>
      simp only [fate] at h
      split at h
      · cases h
      · cases h
        exact ⟨rfl, rfl⟩
  | editEdge id change keeps =>
      simp only [fate, Option.some.injEq] at h
      subst h
      split
      · exact keeps edge
      · exact ⟨rfl, rfl⟩
  | _ =>
      cases h
      exact ⟨rfl, rfl⟩

theorem edges_insertNode
    {graph next : Graph} {node : Node}
    (h : graph.insertNode node = .ok next) :
    next.edges = graph.edges := by
  obtain ⟨-, -, rfl⟩ := insertNode_eq_ok_iff.1 h
  rfl

/-- An accepted insertion stores its edge under the id of the edge and touches no other
key. -/
theorem edges_of_inserted?
    {graph : Graph} {operation : Operation} {stored : Edge}
    (h : graph.inserted? operation = some stored) :
    (graph.apply operation).edges = graph.edges.insert stored.id stored := by
  have hinsert : ∀ {edge next},
      graph.insertEdge edge = .ok (next, stored) → next.edges = graph.edges.insert
        stored.id stored := by
    intro edge next hnext
    obtain ⟨-, -, -, rfl⟩ := insertEdge_eq_ok_iff.1 hnext
    rfl
  cases operation with
  | addEdge source target config now =>
      cases hadd : graph.addEdge source target config now with
      | error error => simp [inserted?, hadd, Except.toOption] at h
      | ok answer =>
          obtain ⟨next, found⟩ := answer
          simp only [inserted?, hadd, Except.toOption, Option.map_some,
            Option.some.injEq] at h
          subst h
          obtain ⟨stream, settings, -, -, -, hnext⟩ := addEdge_eq_ok hadd
          simp only [Graph.apply, attempt, hadd, Except.map]
          exact hinsert hnext
  | insertEdge edge =>
      cases hnext : graph.insertEdge edge with
      | error error => simp [inserted?, hnext, Except.toOption] at h
      | ok answer =>
          obtain ⟨next, found⟩ := answer
          simp only [inserted?, hnext, Except.toOption, Option.map_some,
            Option.some.injEq] at h
          subst h
          simp only [Graph.apply, attempt, hnext, Except.map]
          exact hinsert hnext
  | _ => cases h

/-- An operation that leaves the edges alone whenever it is accepted leaves them
alone. -/
theorem edges_apply_of_attempt
    {graph : Graph} {operation : Operation}
    (h : ∀ next, graph.attempt operation = .ok next → next.edges = graph.edges) :
    (graph.apply operation).edges = graph.edges := by
  unfold Graph.apply
  split
  · next next hnext => exact h next hnext
  · rfl

theorem removeNode_of_not_hasNode
    {graph : Graph} {id : String}
    (h : graph.hasNode id = false) :
    (graph.apply (.removeNode id)).edges = graph.edges := by
  apply edges_apply_of_attempt
  intro next hnext
  obtain ⟨⟨_, count⟩, hremove, rfl⟩ := Answer.map_eq_ok_iff.1 hnext
  obtain ⟨hnode, -⟩ := removeNode_eq_ok_iff.1 hremove
  have hnode' : graph.hasNode id = true := hnode
  rw [h] at hnode'
  cases hnode'

theorem get?_edges_removeNode
    (graph : Graph)
    (id key : String) :
    (graph.apply (.removeNode id)).edges.get? key =
      (graph.edges.get? key).bind fun edge =>
        Operation.fate graph edge (.removeNode id) := by
  cases hnode : graph.hasNode id with
  | false =>
      rw [removeNode_of_not_hasNode hnode]
      simp [Operation.fate, hnode]
  | true =>
      have hsome : (graph.nodes.get? id).isSome = true := hnode
      have hremove := removeNode_eq_ok_iff.2 ⟨hsome, rfl, rfl⟩
      simp only [Graph.apply, attempt, hremove, Except.map, KeyMap.get?_filter]
      cases graph.edges.get? key with
      | none => rfl
      | some edge =>
          by_cases htouches : edge.touches id = true <;>
            simp [Operation.fate, hnode, htouches]

theorem get?_edges_removeEdge
    {graph : Graph}
    (hgraph : graph.WellFormed)
    (key id : String) :
    (graph.apply (.removeEdge key)).edges.get? id =
      (graph.edges.get? id).bind fun edge =>
        Operation.fate graph edge (.removeEdge key) := by
  simp only [Graph.apply, attempt, removeEdge, KeyMap.get?_erase]
  cases hfound : graph.edges.get? id with
  | none => simp
  | some edge =>
      rw [Option.bind_some, Operation.fate, hgraph.edge_id hfound]
      by_cases hkey : key = id
      · simp [hkey]
      · simp [hkey, Ne.symm hkey]

theorem get?_edges_editEdge
    {graph : Graph}
    (hgraph : graph.WellFormed)
    (key : String)
    {change : Edge → Edge}
    (keeps : ∀ edge, (change edge).id = edge.id ∧ (change edge).triple = edge.triple)
    (id : String) :
    (graph.apply (.editEdge key change keeps)).edges.get? id =
      (graph.edges.get? id).bind fun edge =>
        Operation.fate graph edge (.editEdge key change keeps) := by
  simp only [Graph.apply, attempt, modifyEdge, KeyMap.get?_modify]
  cases hfound : graph.edges.get? id with
  | none =>
      by_cases hkey : key = id
      · subst hkey
        simp [hfound]
      · simp [hkey]
  | some edge =>
      rw [Option.bind_some, Operation.fate, hgraph.edge_id hfound]
      by_cases hkey : key = id
      · subst hkey
        simp [hfound]
      · simp [hkey, Ne.symm hkey]

/-- If the fate of every edge is to stay, it is enough that the operation, once
accepted, leaves the edges alone. -/
theorem get?_edges_of_attempt
    {graph : Graph} {operation : Operation}
    (hstays : ∀ edge, operation.fate graph edge = some edge)
    (h : ∀ next, graph.attempt operation = .ok next → next.edges = graph.edges)
    (id : String) :
    (graph.apply operation).edges.get? id =
      (graph.edges.get? id).bind fun edge => operation.fate graph edge := by
  rw [edges_apply_of_attempt h]
  simp only [hstays, Option.bind_fun_some]

/-- An operation that inserts no edge gives each stored edge its fate. -/
theorem get?_edges_of_inserted?_eq_none
    {graph : Graph}
    (hgraph : graph.WellFormed)
    {operation : Operation}
    (h : graph.inserted? operation = none)
    (id : String) :
    (graph.apply operation).edges.get? id =
      (graph.edges.get? id).bind fun edge => operation.fate graph edge := by
  cases operation with
  | addNode node phase config executor now =>
      refine get?_edges_of_attempt (fun _ => rfl) (fun next hnext => ?_) id
      obtain ⟨given, -, -, hinsert⟩ := addNode_eq_ok hnext
      exact edges_insertNode hinsert
  | insertNode node =>
      refine get?_edges_of_attempt (fun _ => rfl) (fun next hnext => ?_) id
      exact edges_insertNode hnext
  | setExecutor node executor =>
      refine get?_edges_of_attempt (fun _ => rfl) (fun next hnext => ?_) id
      obtain ⟨-, rfl⟩ := setExecutor_eq_ok_iff.1 hnext
      rfl
  | addEdge source target config now =>
      -- An accepted insertion is excluded by `h`; a refused one changes nothing.
      refine get?_edges_of_attempt (fun _ => rfl) (fun next hnext => ?_) id
      obtain ⟨answer, hadd, -⟩ := Answer.map_eq_ok_iff.1 hnext
      simp [inserted?, hadd, Except.toOption] at h
  | insertEdge edge =>
      refine get?_edges_of_attempt (fun _ => rfl) (fun next hnext => ?_) id
      obtain ⟨answer, hinsert, -⟩ := Answer.map_eq_ok_iff.1 hnext
      simp [inserted?, hinsert, Except.toOption] at h
  | removeNode node => exact get?_edges_removeNode graph node id
  | removeEdge key => exact get?_edges_removeEdge hgraph key id
  | editEdge key change keeps => exact get?_edges_editEdge hgraph key keeps id
  | reset =>
      simp only [Graph.apply, attempt, Graph.reset, KeyMap.get?_map]
      cases graph.edges.get? id <;> rfl
  | editNode node change keeps => exact (Option.bind_fun_some _).symm
  | describe metadata => exact (Option.bind_fun_some _).symm
  | setState state => exact (Option.bind_fun_some _).symm

/-! ## What is stored under a key -/

/-- The id that a triple makes. -/
def idOfTriple (triple : String × String × String) : String :=
  Edge.idOf triple.1 triple.2.1 triple.2.2

/-- The edge of a graph that has a given key. -/
def storedBy
    {κ : Type} [DecidableEq κ]
    (key : Edge → κ)
    (graph : Graph)
    (k : κ) :
    Option Edge :=
  graph.edges.values.find? fun edge => key edge = k

theorem WellFormed.id_eq_idOfTriple
    {graph : Graph}
    (h : graph.WellFormed)
    {edge : Edge}
    (hedge : edge ∈ graph.edges.values) :
    edge.id = idOfTriple edge.triple :=
  h.edge_idOf (h.get?_id hedge)

theorem WellFormed.eq_of_id_eq
    {graph : Graph}
    (h : graph.WellFormed)
    {a b : Edge}
    (ha : a ∈ graph.edges.values)
    (hb : b ∈ graph.edges.values)
    (hid : a.id = b.id) :
    a = b := by
  have hget := h.get?_id ha
  rw [hid, h.get?_id hb] at hget
  exact (Option.some.inj hget).symm

theorem WellFormed.eq_of_triple_eq
    {graph : Graph}
    (h : graph.WellFormed)
    {a b : Edge}
    (ha : a ∈ graph.edges.values)
    (hb : b ∈ graph.edges.values)
    (htriple : a.triple = b.triple) :
    a = b := by
  apply h.eq_of_id_eq ha hb
  rw [h.id_eq_idOfTriple ha, h.id_eq_idOfTriple hb, htriple]

section StoredBy

variable {κ : Type} [DecidableEq κ] {key : Edge → κ} {graph : Graph}

/-- If the key tells the stored edges apart, the edge under a key is the stored edge of
this key. -/
theorem storedBy_eq_some_iff
    (hkey : ∀ a ∈ graph.edges.values, ∀ b ∈ graph.edges.values, key a = key b → a = b)
    {k : κ} {edge : Edge} :
    storedBy key graph k = some edge ↔ edge ∈ graph.edges.values ∧ key edge = k := by
  unfold storedBy
  constructor
  · intro h
    exact ⟨List.mem_of_find?_eq_some h, by simpa using List.find?_some h⟩
  · rintro ⟨hmem, rfl⟩
    cases hfind : graph.edges.values.find? fun other => decide (key other = key edge) with
    | none =>
        rw [List.find?_eq_none] at hfind
        exact absurd (hfind edge hmem) (by simp)
    | some other =>
        have hother : key other = key edge := by simpa using List.find?_some hfind
        rw [hkey other (List.mem_of_find?_eq_some hfind) edge hmem hother]

end StoredBy

theorem WellFormed.storedBy_id
    {graph : Graph}
    (h : graph.WellFormed)
    (id : String) :
    storedBy Edge.id graph id = graph.edges.get? id := by
  apply Option.ext
  intro edge
  rw [storedBy_eq_some_iff fun a ha b hb => h.eq_of_id_eq ha hb, KeyMap.mem_values_iff]
  constructor
  · rintro ⟨⟨key, hkey⟩, rfl⟩
    rwa [h.edge_id hkey]
  · intro hget
    exact ⟨⟨id, hget⟩, h.edge_id hget⟩

theorem WellFormed.storedBy_triple
    {graph : Graph}
    (h : graph.WellFormed)
    (triple : String × String × String) :
    storedBy Edge.triple graph triple =
      (graph.edges.get? (idOfTriple triple)).filter fun edge =>
        edge.triple = triple := by
  apply Option.ext
  intro edge
  rw [storedBy_eq_some_iff fun a ha b hb => h.eq_of_triple_eq ha hb,
    Option.filter_eq_some_iff]
  constructor
  · rintro ⟨hmem, rfl⟩
    rw [← h.id_eq_idOfTriple hmem]
    exact ⟨h.get?_id hmem, by simp⟩
  · rintro ⟨hget, htriple⟩
    exact ⟨(graph.edges.mem_values_iff edge).2 ⟨_, hget⟩, by simpa using htriple⟩

/-! ## Ledgers -/

/-- For each key the edge that was last inserted under it and not removed since. -/
abbrev Ledger (κ : Type) :=
  κ → Option Edge

/-- The ledger after an operation on a graph. -/
def Ledger.record
    {κ : Type} [DecidableEq κ]
    (key : Edge → κ)
    (graph : Graph)
    (ledger : Ledger κ)
    (operation : Operation) :
    Ledger κ :=
  match graph.inserted? operation with
  | some stored => fun k => if k = key stored then some stored else ledger k
  | none => fun k => (ledger k).bind fun edge => operation.fate graph edge

/-- The ledger after a history of operations. -/
def Ledger.after
    {κ : Type} [DecidableEq κ]
    (key : Edge → κ) :
    Graph → Ledger κ → List Operation → Ledger κ
  | _, ledger, [] => ledger
  | graph, ledger, operation :: rest =>
      Ledger.after key (graph.apply operation) (ledger.record key graph operation) rest

/-- An insertion that would take the place of a stored edge of another triple. -/
def Collides (graph : Graph) (operation : Operation) : Prop :=
  ∃ stored, graph.inserted? operation = some stored ∧
    ∃ old ∈ graph.edges.values, old.triple ≠ stored.triple ∧ old.id = stored.id

theorem Ledger.after_append
    {κ : Type} [DecidableEq κ]
    (key : Edge → κ) :
    ∀ (graph : Graph) (ledger : Ledger κ) (before later : List Operation),
      Ledger.after key graph ledger (before ++ later) =
        Ledger.after key (graph.after before) (Ledger.after key graph ledger before)
          later
  | _, _, [], _ => rfl
  | graph, ledger, operation :: rest, later =>
      Ledger.after_append key (graph.apply operation)
        (ledger.record key graph operation) rest later

/-- **The ledger by ids is what the graph stores.** -/
theorem storedBy_id_apply
    {graph : Graph}
    (h : graph.WellFormed)
    (operation : Operation) :
    storedBy Edge.id (graph.apply operation) =
      Ledger.record Edge.id graph (storedBy Edge.id graph) operation := by
  funext id
  rw [(h.apply operation).storedBy_id]
  unfold Ledger.record
  cases hinserted : graph.inserted? operation with
  | none => simp only [get?_edges_of_inserted?_eq_none h hinserted, h.storedBy_id]
  | some stored =>
      simp only [edges_of_inserted? hinserted, KeyMap.get?_insert, h.storedBy_id]
      by_cases hid : id = stored.id
      · simp [hid]
      · simp [hid, Ne.symm hid]

theorem id_of_inserted?
    {graph : Graph}
    (h : graph.WellFormed)
    {operation : Operation} {stored : Edge}
    (hinserted : graph.inserted? operation = some stored) :
    stored.id = idOfTriple stored.triple := by
  have hget : (graph.apply operation).edges.get? stored.id = some stored := by
    rw [edges_of_inserted? hinserted, KeyMap.get?_insert_self]
  exact (h.apply operation).edge_idOf hget

/-- An operation that inserts no edge keeps the ledger by triples right. -/
theorem storedBy_triple_of_inserted?_eq_none
    {graph : Graph}
    (h : graph.WellFormed)
    {operation : Operation}
    (hinserted : graph.inserted? operation = none) :
    storedBy Edge.triple (graph.apply operation) =
      Ledger.record Edge.triple graph (storedBy Edge.triple graph) operation := by
  funext triple
  rw [(h.apply operation).storedBy_triple, get?_edges_of_inserted?_eq_none h hinserted]
  simp only [Ledger.record, hinserted, h.storedBy_triple]
  cases graph.edges.get? (idOfTriple triple) with
  | none => rfl
  | some edge =>
      -- The fate of an edge keeps its triple, so filtering before and after is the same.
      cases hfate : operation.fate graph edge with
      | none =>
          by_cases htriple : edge.triple = triple <;>
            simp [Option.filter, hfate, htriple]
      | some next =>
          have hsame := (Operation.fate_eq_some hfate).2
          by_cases htriple : edge.triple = triple <;>
            simp [Option.filter, hfate, htriple, hsame]

/-- After an insertion the graph is asked for a triple by the id that the triple
makes. -/
theorem storedBy_triple_of_inserted?
    {graph : Graph}
    (h : graph.WellFormed)
    {operation : Operation} {stored : Edge}
    (hinserted : graph.inserted? operation = some stored)
    (triple : String × String × String) :
    storedBy Edge.triple (graph.apply operation) triple =
      (if stored.id = idOfTriple triple then
          some stored
        else graph.edges.get? (idOfTriple triple)).filter fun edge =>
        edge.triple = triple := by
  rw [(h.apply operation).storedBy_triple, edges_of_inserted? hinserted, KeyMap.get?_insert]

/-- **One more operation keeps the ledger by triples right exactly if it does not
collide.** -/
theorem storedBy_triple_apply_iff
    {graph : Graph}
    (h : graph.WellFormed)
    (operation : Operation) :
    storedBy Edge.triple (graph.apply operation) =
      Ledger.record Edge.triple graph (storedBy Edge.triple graph) operation ↔
      ¬ graph.Collides operation := by
  cases hinserted : graph.inserted? operation with
  | none =>
      refine iff_of_true (storedBy_triple_of_inserted?_eq_none h hinserted) ?_
      rintro ⟨stored, hstored, -⟩
      rw [hinserted] at hstored
      cases hstored
  | some stored =>
      constructor
      · rintro heq ⟨found, hfound, old, hold, hne, hid⟩
        rw [hinserted] at hfound
        cases hfound
        have hat := congrFun heq old.triple
        rw [storedBy_triple_of_inserted? h hinserted, ← h.id_eq_idOfTriple hold,
          if_pos hid.symm] at hat
        simp only [Ledger.record, hinserted, if_neg hne, h.storedBy_triple,
          ← h.id_eq_idOfTriple hold, h.get?_id hold] at hat
        simp [Option.filter, Ne.symm hne] at hat
      · intro hfree
        funext triple
        rw [storedBy_triple_of_inserted? h hinserted]
        simp only [Ledger.record, hinserted, h.storedBy_triple]
        by_cases htriple : triple = stored.triple
        · subst htriple
          simp [id_of_inserted? h hinserted]
        · rw [if_neg htriple]
          by_cases hid : stored.id = idOfTriple triple
          · rw [if_pos hid]
            cases hold : graph.edges.get? (idOfTriple triple) with
            | none => simp [Option.filter, Ne.symm htriple]
            | some old =>
                have hmem := (graph.edges.mem_values_iff old).2 ⟨_, hold⟩
                have hother : old.triple ≠ triple := by
                  rintro rfl
                  exact hfree ⟨stored, hinserted, old, hmem, htriple,
                    (h.edge_id hold).trans hid.symm⟩
                simp [Option.filter, Ne.symm htriple, hother]
          · rw [if_neg hid]

/-! ## Names without separators -/

/-- The source does not contain the arrow, and the target does not contain the colon. -/
def PlainEnds (edge : Edge) : Prop :=
  ¬ ['-', '>'] <:+: edge.source.toList ∧ ':' ∉ edge.target.toList

/-- A text without the arrow is known from any text that goes on with the arrow after
it. -/
theorem eq_of_append_arrow_eq
    {s s' rest rest' : List Char}
    (hs : ¬ ['-', '>'] <:+: s)
    (hs' : ¬ ['-', '>'] <:+: s')
    (h : s ++ '-' :: '>' :: rest = s' ++ '-' :: '>' :: rest') :
    s = s' ∧ rest = rest' := by
  rcases List.append_eq_append_iff.1 h with ⟨more, rfl, hmore⟩ | ⟨more, rfl, hmore⟩
  · -- `more` is what `s'` has beyond `s`; it would start with the arrow.
    match more with
    | [] => exact ⟨by simp, by simpa using hmore⟩
    | [c] => simp at hmore
    | c :: d :: tail =>
        simp only [List.cons_append, List.cons.injEq] at hmore
        obtain ⟨rfl, rfl, -⟩ := hmore
        exact absurd ⟨s, tail, by simp⟩ hs'
  · match more with
    | [] => exact ⟨by simp, by simpa using hmore.symm⟩
    | [c] => simp at hmore
    | c :: d :: tail =>
        simp only [List.cons_append, List.cons.injEq] at hmore
        obtain ⟨rfl, rfl, -⟩ := hmore
        exact absurd ⟨s', tail, by simp⟩ hs

/-- A text without a separator is known from any text that goes on with the separator
after it. -/
theorem eq_of_append_separator_eq
    {separator : Char} {s s' rest rest' : List Char}
    (hs : separator ∉ s)
    (hs' : separator ∉ s')
    (h : s ++ separator :: rest = s' ++ separator :: rest') :
    s = s' ∧ rest = rest' := by
  rcases List.append_eq_append_iff.1 h with ⟨more, rfl, hmore⟩ | ⟨more, rfl, hmore⟩
  · cases more with
    | nil => exact ⟨by simp, by simpa using hmore⟩
    | cons c tail =>
        simp only [List.cons_append, List.cons.injEq] at hmore
        exact absurd (by simp [← hmore.1]) hs'
  · cases more with
    | nil => exact ⟨by simp, by simpa using hmore.symm⟩
    | cons c tail =>
        simp only [List.cons_append, List.cons.injEq] at hmore
        exact absurd (by simp [← hmore.1]) hs

/-- Different triples with plain ends make different ids. -/
theorem triple_eq_of_idOfTriple_eq
    {a b : Edge}
    (ha : PlainEnds a)
    (hb : PlainEnds b)
    (h : idOfTriple a.triple = idOfTriple b.triple) :
    a.triple = b.triple := by
  have hlists := congrArg String.toList h
  simp only [idOfTriple, Edge.idOf, Edge.triple, String.toList_append] at hlists
  have hshape : ∀ s t r : List Char, s ++ "->".toList ++ t ++ ":".toList ++ r =
      s ++ '-' :: '>' :: (t ++ ':' :: r) := by
    intro s t r
    simp
  rw [hshape, hshape] at hlists
  obtain ⟨hsource, hrest⟩ := eq_of_append_arrow_eq ha.1 hb.1 hlists
  obtain ⟨htarget, hstream⟩ := eq_of_append_separator_eq ha.2 hb.2 hrest
  simp only [Edge.triple, Prod.mk.injEq]
  exact ⟨String.toList_injective hsource, String.toList_injective htarget,
    String.toList_injective hstream⟩

/-! ## Histories -/

theorem storedBy_id_after
    {graph : Graph}
    (h : graph.WellFormed) :
    ∀ history : List Operation,
      storedBy Edge.id (graph.after history) =
        Ledger.after Edge.id graph (storedBy Edge.id graph) history := by
  intro history
  induction history generalizing graph with
  | nil => rfl
  | cons operation rest ih =>
      rw [Ledger.after, ← storedBy_id_apply h operation]
      exact ih (h.apply operation)

/-- The ledger by triples is right all along a history exactly if no operation of it
collides. -/
theorem storedBy_triple_after_iff
    {graph : Graph}
    (h : graph.WellFormed)
    (history : List Operation) :
    (∀ before,
        before <+: history →
        storedBy Edge.triple (graph.after before) =
          Ledger.after Edge.triple graph (storedBy Edge.triple graph) before) ↔
      ∀ before operation,
        before ++ [operation] <+: history →
        ¬ (graph.after before).Collides operation := by
  have hstep : ∀ before operation,
      storedBy Edge.triple (graph.after before) =
          Ledger.after Edge.triple graph (storedBy Edge.triple graph) before →
        (storedBy Edge.triple (graph.after (before ++ [operation])) =
            Ledger.after Edge.triple graph (storedBy Edge.triple graph)
              (before ++ [operation]) ↔
          ¬ (graph.after before).Collides operation) := by
    intro before operation hbefore
    rw [← storedBy_triple_apply_iff (h.after before) operation, after_append,
      Ledger.after_append, ← hbefore]
    rfl
  constructor
  · intro hright before operation hprefix
    have hbefore := hright before ((List.prefix_append before [operation]).trans hprefix)
    exact (hstep before operation hbefore).1 (hright _ hprefix)
  · intro hfree before
    induction before using List.reverseRecOn with
    | nil => exact fun _ => rfl
    | append_singleton before operation ih =>
        intro hprefix
        have hbefore := ih ((List.prefix_append before [operation]).trans hprefix)
        exact (hstep before operation hbefore).2 (hfree before operation hprefix)

theorem mem_edges_apply_of_inserted?
    {graph : Graph}
    (h : graph.WellFormed)
    {operation : Operation} {stored old : Edge}
    (hinserted : graph.inserted? operation = some stored)
    (hold : old ∈ graph.edges.values)
    (hne : old ≠ stored) :
    old ∈ (graph.apply operation).edges.values ↔ old.id ≠ stored.id := by
  have hedges := edges_of_inserted? hinserted
  constructor
  · intro hmem hid
    have hget := (h.apply operation).get?_id hmem
    rw [hedges, KeyMap.get?_insert, if_pos hid.symm] at hget
    exact hne (Option.some.inj hget).symm
  · intro hid
    refine ((graph.apply operation).edges.mem_values_iff old).2 ⟨old.id, ?_⟩
    rw [hedges, KeyMap.get?_insert, if_neg (Ne.symm hid)]
    exact h.get?_id hold

/-- **How far the stored edges follow the triples.** An insertion keeps every stored
edge of another triple exactly if it does not collide with one. After any history the
graph stores the last edge inserted under each id and not removed since, and these are
the last edges inserted under each triple exactly as long as no operation of the history
has collided. Edges with plain ends never collide. -/
theorem stored_edges_follow_triples_iff
    {graph : Graph}
    (h : graph.Reachable) :
    (∀ operation stored,
        graph.inserted? operation = some stored →
        ((∀ old ∈ graph.edges.values,
              old.triple ≠ stored.triple →
              old ∈ (graph.apply operation).edges.values) ↔
            ¬ graph.Collides operation)) ∧
    (∀ history,
        storedBy Edge.id (graph.after history) =
          Ledger.after Edge.id graph (storedBy Edge.id graph) history) ∧
    (∀ history,
        (∀ before,
            before <+: history →
            storedBy Edge.triple (graph.after before) =
              Ledger.after Edge.triple graph (storedBy Edge.triple graph)
                before) ↔
          ∀ before operation,
            before ++ [operation] <+: history →
            ¬ (graph.after before).Collides operation) ∧
    (∀ operation stored,
        graph.inserted? operation = some stored →
        PlainEnds stored →
        (∀ old ∈ graph.edges.values, PlainEnds old) →
        ¬ graph.Collides operation) := by
  have hwell := h.wellFormed
  refine ⟨?_, storedBy_id_after hwell, storedBy_triple_after_iff hwell, ?_⟩
  · intro operation stored hinserted
    have hmem : ∀ old ∈ graph.edges.values, old.triple ≠ stored.triple →
        (old ∈ (graph.apply operation).edges.values ↔ old.id ≠ stored.id) := by
      intro old hold hne
      exact mem_edges_apply_of_inserted? hwell hinserted hold fun heq => hne (by rw [heq])
    constructor
    · rintro hkept ⟨found, hfound, old, hold, hne, hid⟩
      obtain rfl : stored = found := Option.some.inj (hinserted.symm.trans hfound)
      exact (hmem old hold hne).1 (hkept old hold hne) hid
    · intro hfree old hold hne
      exact (hmem old hold hne).2 fun hid => hfree ⟨stored, hinserted, old, hold, hne, hid⟩
  · rintro operation stored hinserted hplain hplains ⟨found, hfound, old, hold, hne, hid⟩
    obtain rfl : stored = found := Option.some.inj (hinserted.symm.trans hfound)
    rw [id_of_inserted? hwell hinserted, hwell.id_eq_idOfTriple hold] at hid
    exact hne (triple_eq_of_idOfTriple_eq (hplains old hold) hplain hid)

/-- Three nodes `a`, `b` and `b:c`, and the stream `c:d` from `a` to `b`. -/
def colonGraph : Graph :=
  (Graph.create "g" "colons" ⟨0⟩).after
    [.addNode "a" "source" .null .passThrough ⟨0⟩,
      .addNode "b" "sink" .null .passThrough ⟨0⟩,
      .addNode "b:c" "sink" .null .passThrough ⟨0⟩,
      .insertEdge (Edge.fresh "a" "b" "c:d" {} ⟨0⟩)]

theorem reachable_colonGraph : colonGraph.Reachable :=
  (Reachable.create "colons" ⟨0⟩ (by decide)).after _

/-- The stream `d` from `a` to `b:c`, whose id is the one of the stream of
`colonGraph`. -/
def colonEdge : Edge :=
  Edge.fresh "a" "b:c" "d" {} ⟨0⟩

theorem inserted?_colonEdge :
    colonGraph.inserted? (.insertEdge colonEdge) = some colonEdge :=
  rfl

theorem stored_edges_follow_triples_iff_colonGraph :
    colonGraph.Reachable ∧
    ((∀ old ∈ colonGraph.edges.values,
          old.triple ≠ colonEdge.triple →
          old ∈ (colonGraph.apply (.insertEdge colonEdge)).edges.values) ↔
        ¬ colonGraph.Collides (.insertEdge colonEdge)) :=
  ⟨reachable_colonGraph,
    (stored_edges_follow_triples_iff reachable_colonGraph).1 _ _ inserted?_colonEdge⟩

/-- An insertion of one triple removes the stored edge of another one: the streams `c:d`
from `a` to `b` and `d` from `a` to `b:c` have the same id. -/
theorem edge_of_other_triple_replaced :
    colonGraph.Reachable ∧
    colonGraph.inserted? (.insertEdge colonEdge) = some colonEdge ∧
    ∃ old ∈ colonGraph.edges.values,
      old.triple ≠ colonEdge.triple ∧
      old ∉ (colonGraph.apply (.insertEdge colonEdge)).edges.values := by
  refine ⟨reachable_colonGraph, rfl, Edge.fresh "a" "b" "c:d" {} ⟨0⟩,
    List.mem_singleton.2 rfl,
    by decide, ?_⟩
  intro hmem
  have hedge : Edge.fresh "a" "b" "c:d" {} ⟨0⟩ = colonEdge := List.mem_singleton.1 hmem
  exact absurd (congrArg Edge.stream hedge) (by decide)

end Graph

end PhaseFlow
