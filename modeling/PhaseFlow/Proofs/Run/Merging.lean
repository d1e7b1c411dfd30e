import Mathlib.Data.List.Nodup
import PhaseFlow.Proofs.Document.RoundTrip
import PhaseFlow.Proofs.Graph.EdgeIdentity
import PhaseFlow.Proofs.Run.Answer

/-!
# Which outputs a merged input holds

A node with several active incoming edges reads an object with a field for each of them
that brings an output. A field is named for its stream, or for stream and source, joined
by `@`, if the stream is shared. Plain names and joined names live in one object, and a
stream may be named like a joined name: then two outputs are to fill one field, and the
one that comes last in the order of the edge ids stays.

* `exists_entries_object` says what an object keeps of a list of fields.
* `fieldName_eq_iff` says when two edges have one field name: exactly if they clash
  (`Clashes`).
* Streams without `@` never clash (`not_clashes_of_plain`).

Main statement: `merged_input_complete_iff`.
-/

namespace PhaseFlow

/-! ## What an object keeps of a list of fields -/

namespace Entries

variable {α : Type}

theorem perm_insert_of_fresh
    {key : String} {value : α} {entries : List (String × α)}
    (h : ∀ entry ∈ entries, entry.1 ≠ key) :
    (insert key value entries).Perm ((key, value) :: entries) := by
  induction entries with
  | nil => exact List.Perm.refl _
  | cons head rest ih =>
      obtain ⟨k, old⟩ := head
      have hne : k ≠ key := h (k, old) List.mem_cons_self
      by_cases hlt : key < k
      · rw [insert, if_pos hlt]
      · rw [insert, if_neg hlt, if_neg hne]
        have hrest := ih fun entry hentry => h entry (List.mem_cons_of_mem _ hentry)
        exact (hrest.cons (k, old)).trans (List.Perm.swap _ _ _)

theorem Ascending.nodup_keys
    {entries : List (String × α)}
    (h : Ascending entries) :
    (entries.map Prod.fst).Nodup :=
  (⟨entries, h⟩ : KeyMap α).nodup_keys

/-- Fields with distinct names are all kept. -/
theorem perm_foldl_insert
    (fields : List (String × α)) :
    ∀ entries : List (String × α),
      ((entries ++ fields).map Prod.fst).Nodup →
      (fields.foldl (fun entries field => insert field.1 field.2 entries)
          entries).Perm (entries ++ fields) := by
  induction fields with
  | nil => simp
  | cons field rest ih =>
      intro entries hnodup
      have hfresh : ∀ entry ∈ entries, entry.1 ≠ field.1 := by
        intro entry hentry heq
        rw [List.map_append, List.nodup_append] at hnodup
        exact hnodup.2.2 entry.1 (List.mem_map_of_mem hentry) field.1 (by simp) heq
      have hinsert : (insert field.1 field.2 entries).Perm (field :: entries) :=
        perm_insert_of_fresh hfresh
      have hperm :
          (insert field.1 field.2 entries ++ rest).Perm (entries ++ field :: rest) :=
        (hinsert.append_right rest).trans List.perm_middle.symm
      exact (ih _ ((hperm.map Prod.fst).nodup_iff.2 hnodup)).trans hperm

end Entries

namespace Json

/-- **An object keeps all of its fields exactly if their keys differ.** -/
theorem exists_entries_object
    (fields : List (String × Json)) :
    ∃ entries,
      object fields = .obj entries ∧
      Entries.Ascending entries ∧
      (entries.Perm fields ↔ (fields.map Prod.fst).Nodup) := by
  have horder := Entries.Ascending.foldl_insert fields [] List.Pairwise.nil
  refine ⟨_, rfl, horder, ?_, ?_⟩
  · intro hperm
    exact (hperm.map Prod.fst).nodup_iff.1 horder.nodup_keys
  · intro hnodup
    exact Entries.perm_foldl_insert fields [] hnodup

end Json

namespace Run

variable {graph : Graph} {flow : DataFlow} {id : String}

/-! ## Field names -/

/-- The active edges into a node whose sources have an output, in the order of their
ids. -/
def contributing (graph : Graph) (flow : DataFlow) (id : String) : List Edge :=
  (activeIncoming graph id).filter fun edge => flow.contains edge.source

/-- Another one of the edges has the same stream. -/
def SharesStream (edges : List Edge) (edge : Edge) : Prop :=
  ∃ other ∈ edges, other ≠ edge ∧ other.stream = edge.stream

/-- The name that is made of stream and source. -/
def joinedName (edge : Edge) : String :=
  edge.stream ++ "@" ++ edge.source

/-- The stream of the first edge is shared, and its joined name is the stream of the
second edge or, if that is shared as well, the joined name of the second edge. -/
def Clashes (edges : List Edge) (a b : Edge) : Prop :=
  a.stream ≠ b.stream ∧ SharesStream edges a ∧
    (¬ SharesStream edges b ∧ joinedName a = b.stream ∨
      SharesStream edges b ∧ joinedName a = joinedName b)

theorem mem_contributing
    {edge : Edge} :
    edge ∈ contributing graph flow id ↔
      edge ∈ graph.edges.values ∧
      edge.target = id ∧
      edge.active = true ∧
      flow.contains edge.source = true := by
  rw [contributing, List.mem_filter, mem_activeIncoming, and_assoc, and_assoc]

theorem nodup_contributing
    (hgraph : graph.WellFormed) :
    (contributing graph flow id).Nodup := by
  have hvalues : graph.edges.values.Nodup := by
    refine List.Nodup.of_map Edge.id ?_
    rw [hgraph.map_id_values]
    exact graph.edges.nodup_keys
  exact ((hvalues.filter _).filter _).filter _

/-- A stream is counted more than once exactly if another edge shares it. -/
theorem one_lt_countP_iff
    {edges : List Edge}
    (hnodup : edges.Nodup)
    {edge : Edge}
    (hedge : edge ∈ edges) :
    (1 < edges.countP fun other => other.stream = edge.stream) ↔
      SharesStream edges edge := by
  have hmem : edge ∈ edges.filter fun other => other.stream = edge.stream :=
    List.mem_filter.2 ⟨hedge, by simp⟩
  have hpos := List.length_pos_of_mem hmem
  have hone : (edges.filter fun other => other.stream = edge.stream) ≠ [edge] ↔
      1 < (edges.filter fun other => other.stream = edge.stream).length := by
    constructor
    · intro hne
      by_contra hlt
      obtain ⟨only, honly⟩ :=
        List.length_eq_one_iff.1 (Nat.le_antisymm (Nat.le_of_not_lt hlt) hpos)
      rw [honly, List.mem_singleton] at hmem
      exact hne (hmem ▸ honly)
    · intro hlt heq
      rw [heq] at hlt
      exact Nat.lt_irrefl 1 hlt
  rw [List.countP_eq_length_filter, ← hone, (hnodup.filter _).ne_singleton_iff,
    or_iff_right (List.ne_nil_of_mem hmem)]
  simp only [List.mem_filter, decide_eq_true_eq]
  constructor
  · rintro ⟨other, ⟨hother, hstream⟩, hne⟩
    exact ⟨other, hother, hne, hstream⟩
  · rintro ⟨other, hother, hne, hstream⟩
    exact ⟨other, ⟨hother, hstream⟩, hne⟩

theorem fieldName_of_shared
    {edges : List Edge}
    (hnodup : edges.Nodup)
    {edge : Edge}
    (hedge : edge ∈ edges)
    (h : SharesStream edges edge) :
    fieldName edges edge = joinedName edge := by
  rw [fieldName, if_pos ((one_lt_countP_iff hnodup hedge).2 h)]
  rfl

theorem fieldName_of_not_shared
    {edges : List Edge}
    (hnodup : edges.Nodup)
    {edge : Edge}
    (hedge : edge ∈ edges)
    (h : ¬ SharesStream edges edge) :
    fieldName edges edge = edge.stream := by
  rw [fieldName, if_neg fun hlt => h ((one_lt_countP_iff hnodup hedge).1 hlt)]

/-- Edges of one stream have one joined name only if they have one source. -/
theorem source_eq_of_joinedName_eq
    {a b : Edge}
    (hstream : a.stream = b.stream)
    (h : joinedName a = joinedName b) :
    a.source = b.source := by
  have hlists := congrArg String.toList h
  simp only [joinedName, hstream, String.toList_append, List.append_assoc,
    List.append_cancel_left_eq] at hlists
  exact String.toList_injective hlists

/-- **Two edges have one field name exactly if they clash.** -/
theorem fieldName_eq_iff
    (hgraph : graph.WellFormed)
    {a b : Edge}
    (ha : a ∈ contributing graph flow id)
    (hb : b ∈ contributing graph flow id)
    (hne : a ≠ b) :
    fieldName (contributing graph flow id) a =
      fieldName (contributing graph flow id) b ↔
      Clashes (contributing graph flow id) a b ∨
      Clashes (contributing graph flow id) b a := by
  have hnodup : (contributing graph flow id).Nodup := nodup_contributing hgraph
  by_cases hstream : a.stream = b.stream
  · -- Both share the stream, and there is one edge only from each source.
    have hshared : SharesStream (contributing graph flow id) a :=
      ⟨b, hb, hne.symm, hstream.symm⟩
    have hshared' : SharesStream (contributing graph flow id) b := ⟨a, ha, hne, hstream⟩
    rw [fieldName_of_shared hnodup ha hshared, fieldName_of_shared hnodup hb hshared']
    constructor
    · intro hname
      obtain ⟨hmem, htarget, -⟩ := mem_contributing.1 ha
      obtain ⟨hmem', htarget', -⟩ := mem_contributing.1 hb
      refine absurd (hgraph.eq_of_triple_eq hmem hmem' ?_) hne
      rw [Edge.triple, Edge.triple, source_eq_of_joinedName_eq hstream hname, hstream,
        htarget, htarget']
    · rintro (⟨hother, -⟩ | ⟨hother, -⟩)
      · exact absurd hstream hother
      · exact absurd hstream.symm hother
  · by_cases hshared : SharesStream (contributing graph flow id) a <;>
      by_cases hshared' : SharesStream (contributing graph flow id) b
    · rw [fieldName_of_shared hnodup ha hshared, fieldName_of_shared hnodup hb hshared']
      simp [Clashes, hstream, Ne.symm hstream, hshared, hshared', eq_comm]
    · rw [fieldName_of_shared hnodup ha hshared, fieldName_of_not_shared hnodup hb hshared']
      simp [Clashes, hstream, hshared, hshared']
    · rw [fieldName_of_not_shared hnodup ha hshared, fieldName_of_shared hnodup hb hshared']
      simp [Clashes, Ne.symm hstream, hshared, hshared', eq_comm]
    · rw [fieldName_of_not_shared hnodup ha hshared,
        fieldName_of_not_shared hnodup hb hshared']
      simp [Clashes, hstream, hshared, hshared']

/-- **Streams without the separator do not clash.** -/
theorem not_clashes_of_plain
    {edges : List Edge} {a b : Edge}
    (ha : '@' ∉ a.stream.toList)
    (hb : '@' ∉ b.stream.toList) :
    ¬ Clashes edges a b := by
  rintro ⟨hstream, -, ⟨-, hname⟩ | ⟨-, hname⟩⟩
  · rw [← hname] at hb
    exact hb (by simp [joinedName])
  · have hlists := congrArg String.toList hname
    have hshape : ∀ edge : Edge, (joinedName edge).toList =
        edge.stream.toList ++ '@' :: edge.source.toList := by
      intro edge
      simp [joinedName]
    rw [hshape, hshape] at hlists
    exact hstream (String.toList_injective (Graph.eq_of_append_separator_eq ha hb hlists).1)

/-! ## Merged inputs -/

/-- The outputs that arrive at a node, each with the field name of its edge. -/
def namedOutputs
    (graph : Graph)
    (flow : DataFlow)
    (id : String) :
    List (String × Json) :=
  (contributing graph flow id).map fun edge =>
    (fieldName (contributing graph flow id) edge, flow.getD edge.source .null)

/-- Where several edges come in, the input is an object of named outputs. -/
theorem assembleInput_of_several
    (hmany : 2 ≤ (activeIncoming graph id).length) :
    assembleInput graph flow id = .object (namedOutputs graph flow id) := by
  unfold assembleInput namedOutputs contributing
  match activeIncoming graph id, hmany with
  | edge :: second :: rest, _ => rfl

/-- The names are distinct exactly if no two contributing edges clash. -/
theorem nodup_names_iff
    (hgraph : graph.WellFormed) :
    ((namedOutputs graph flow id).map Prod.fst).Nodup ↔
      ∀ a ∈ contributing graph flow id,
        ∀ b ∈ contributing graph flow id,
          ¬ Clashes (contributing graph flow id) a b := by
  rw [namedOutputs, List.map_map, List.nodup_map_iff_inj_on (nodup_contributing hgraph)]
  constructor
  · intro hinj a ha b hb hclash
    have hne : a ≠ b := by
      rintro rfl
      exact hclash.1 rfl
    exact hne (hinj a ha b hb ((fieldName_eq_iff hgraph ha hb hne).2 (Or.inl hclash)))
  · intro hfree a ha b hb hname
    by_contra hne
    rcases (fieldName_eq_iff hgraph ha hb hne).1 hname with hclash | hclash
    · exact hfree a ha b hb hclash
    · exact hfree b hb a ha hclash

/-- Of several items of one name, an object holds the last one. -/
theorem find?_foldl_named
    {α : Type}
    (name : α → String)
    (value : α → Json)
    (key : String)
    (items : List α) :
    (items.map fun item => (name item, value item)).foldl
      (fun found field => if field.1 = key then some field.2 else found) none =
      (items.reverse.find? fun item => name item = key).map value := by
  induction items using List.reverseRecOn with
  | nil => rfl
  | append_singleton rest last ih =>
      rw [List.map_append, List.foldl_append, ih, List.reverse_append]
      by_cases hlast : name last = key <;> simp [hlast]

/-- **A merged input holds every output that arrives exactly if no two edges clash.**
Whatever the streams are called, a field holds the output of the last edge of its name;
streams without `@` do not clash. -/
theorem merged_input_complete_iff
    (hgraph : graph.Reachable)
    (flow : DataFlow)
    {id : String}
    (hmany : 2 ≤ (activeIncoming graph id).length) :
    ∃ fields,
      assembleInput graph flow id = .obj fields ∧
      Entries.Ascending fields ∧
      (∀ key,
          Entries.find? key fields =
            ((contributing graph flow id).reverse.find? fun edge =>
                fieldName (contributing graph flow id) edge = key).map fun edge
              => flow.getD edge.source .null) ∧
      (fields.Perm (namedOutputs graph flow id) ↔
          ∀ a ∈ contributing graph flow id,
            ∀ b ∈ contributing graph flow id,
              ¬ Clashes (contributing graph flow id) a b) ∧
      ((∀ edge ∈ contributing graph flow id, '@' ∉ edge.stream.toList) →
        fields.Perm (namedOutputs graph flow id)) := by
  obtain ⟨fields, hfields, horder, hperm⟩ :=
    Json.exists_entries_object (namedOutputs graph flow id)
  have hcomplete := hperm.trans (nodup_names_iff hgraph.wellFormed)
  refine ⟨fields, (assembleInput_of_several hmany).trans hfields, horder, ?_, hcomplete, ?_⟩
  · intro key
    have hfield := Document.field?_object (namedOutputs graph flow id) key
    rw [hfields, namedOutputs, find?_foldl_named] at hfield
    exact hfield
  · intro hplain
    exact hcomplete.2 fun a ha b hb => not_clashes_of_plain (hplain a ha) (hplain b hb)

/-- Two streams `x` into one node, from `a` and `b`, and a third stream that is called
`x@a`. -/
def crowded : Graph :=
  (Graph.create "g" "crowded" ⟨0⟩).after
    [.addNode "a" "" .null .passThrough ⟨0⟩, .addNode "b" "" .null .passThrough ⟨0⟩,
      .addNode "c" "" .null .passThrough ⟨0⟩, .addNode "sink" "" .null .passThrough ⟨0⟩,
      .addEdge "a" "sink" (.object [("stream", .str "x")]) ⟨0⟩,
      .addEdge "b" "sink" (.object [("stream", .str "x")]) ⟨0⟩,
      .addEdge "c" "sink" (.object [("stream", .str "x@a")]) ⟨0⟩]

theorem reachable_crowded : crowded.Reachable :=
  (Graph.Reachable.create "crowded" ⟨0⟩ (by decide)).after _

/-- The outputs of `a` and `b`. -/
def earlyFlow : DataFlow :=
  KeyMap.ofList [("a", .int 1), ("b", .int 2)]

/-- The outputs of `a`, `b` and `c`. -/
def lateFlow : DataFlow :=
  earlyFlow.insert "c" (.int 3)

theorem merged_input_complete_iff_crowded :
    crowded.Reachable ∧
    2 ≤ (activeIncoming crowded "sink").length ∧
    (∀ edge ∈ contributing crowded earlyFlow "sink", '@' ∉ edge.stream.toList) ∧
    ∃ fields,
      assembleInput crowded earlyFlow "sink" = .obj fields ∧
      fields.Perm (namedOutputs crowded earlyFlow "sink") := by
  have hmany : 2 ≤ (activeIncoming crowded "sink").length := by decide
  have hstreams : (contributing crowded earlyFlow "sink").map Edge.stream = ["x", "x"] := rfl
  have hplain :
      ∀ edge ∈ contributing crowded earlyFlow "sink", '@' ∉ edge.stream.toList := by
    intro edge hedge
    have hmem := List.mem_map_of_mem (f := Edge.stream) hedge
    rw [hstreams] at hmem
    have hstream : edge.stream = "x" := by simpa using hmem
    rw [hstream]
    decide
  obtain ⟨fields, hfields, -, -, -, hperm⟩ :=
    merged_input_complete_iff reachable_crowded earlyFlow hmany
  exact ⟨reachable_crowded, hmany, hplain, fields, hfields, hperm hplain⟩

/-- An output is lost: three edges bring outputs, and the object has two fields. -/
theorem output_lost_by_clash :
    crowded.Reachable ∧
    2 ≤ (activeIncoming crowded "sink").length ∧
    (contributing crowded lateFlow "sink").map Edge.source = ["a", "b", "c"] ∧
    assembleInput crowded lateFlow "sink" =
      .obj [("x@a", .int 3), ("x@b", .int 2)] ∧
    ¬ ∃ fields,
        assembleInput crowded lateFlow "sink" = .obj fields ∧
        fields.Perm (namedOutputs crowded lateFlow "sink") := by
  have hfields : assembleInput crowded lateFlow "sink" =
      .obj [("x@a", .int 3), ("x@b", .int 2)] := rfl
  refine ⟨reachable_crowded, by decide, rfl, hfields, ?_⟩
  rintro ⟨fields, hother, hperm⟩
  rw [hfields] at hother
  cases hother
  exact absurd hperm.length_eq (by decide)

end Run

end PhaseFlow
