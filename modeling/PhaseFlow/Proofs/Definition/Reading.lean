import Mathlib.Data.List.Forall2
import PhaseFlow.Definition.Reader
import PhaseFlow.Proofs.Answer

/-!
# What a definition that is read looks like

Reading answers a definition or a fault of it. The definition that is answered can be
relied on: it has phases, their names are there and differ, configurations are objects,
and dependencies and edges name phases only.

* `Definition.Sound` says this (`sound_of_validate`).
* `Definition.WrittenBy` says where the phases and edges come from
  (`written_of_ofJson`).
-/

namespace PhaseFlow

namespace Answer

universe u v w

variable {ε : Type u} {α : Type v} {β : Type w}

/-- Answers are collected exactly if there is one for every item. -/
theorem mapM_eq_ok_iff
    {f : α → Except ε β} {items : List α} {results : List β} :
    items.mapM f = .ok results ↔
      List.Forall₂ (fun item result => f item = .ok result) items results := by
  induction items generalizing results with
  | nil => cases results <;> simp [pure, Except.pure]
  | cons item rest ih =>
      rw [List.mapM_cons]
      cases hitem : f item with
      | error fault => cases results <;> simp [bind, Except.bind, hitem]
      | ok value =>
          cases hrest : rest.mapM f with
          | error fault => cases results <;> simp [bind, Except.bind, ← ih, hitem, hrest]
          | ok values =>
              cases results <;>
                simp [bind, Except.bind, pure, Except.pure, ← ih, hitem, hrest]

theorem mapM_congr
    {f g : α → Except ε β} {items : List α}
    (h : ∀ item ∈ items, f item = g item) :
    items.mapM f = items.mapM g := by
  induction items with
  | nil => rfl
  | cons item rest ih =>
      rw [List.mapM_cons, List.mapM_cons, h item List.mem_cons_self,
        ih fun later hlater => h later (List.mem_cons_of_mem _ hlater)]

/-- Checks pass exactly if each of them does. -/
theorem forM_eq_ok_iff
    {f : α → Except ε PUnit} {items : List α} :
    items.forM f = .ok ⟨⟩ ↔ ∀ item ∈ items, f item = .ok ⟨⟩ := by
  induction items with
  | nil => simp [pure, Except.pure]
  | cons item rest ih =>
      have hcons : (item :: rest).forM f = (f item >>= fun _ => rest.forM f) := rfl
      rw [hcons]
      cases hitem : f item with
      | error fault => simp [bind, Except.bind, hitem]
      | ok value => simpa [bind, Except.bind, hitem] using ih

/-- What every single answer has, the answers to all items have. -/
theorem forall_of_mapM
    {f : α → Except ε β} {items : List α} {results : List β} {p : β → Prop}
    (h : items.mapM f = .ok results)
    (hsingle : ∀ {item result}, f item = .ok result → p result) :
    ∀ result ∈ results, p result := by
  induction mapM_eq_ok_iff.1 h with
  | nil => exact fun result hmem => by cases hmem
  | cons hitem hrest ih =>
      exact List.forall_mem_cons.2 ⟨hsingle hitem, ih (mapM_eq_ok_iff.2 hrest)⟩

end Answer

/-- Where a phase comes from. The references in its configuration are replaced. -/
structure PhaseEntry.WrittenBy
    (phase : PhaseEntry)
    (environment : Environment)
    (entry : Json) : Prop where
  name : entry.field? "name" = some (.str phase.name)
  config :
    phase.config =
      ((entry.field? "config").map environment.expandJson).getD .emptyObject
  executor :
    ((entry.field? "executor").or (phase.config.field? "executor")).getD (.str "") =
      .str phase.executor
  dependencies : ((entry.field? "dependencies").map Json.elements).getD [] =
    phase.dependencies.map .str

/-- Where an explicit edge comes from. -/
structure EdgeEntry.WrittenBy (edge : EdgeEntry) (entry : Json) : Prop where
  source : entry.field? "source" = some (.str edge.source)
  target : entry.field? "target" = some (.str edge.target)
  config : edge.config = Definition.edgeConfig entry

theorem EdgeEntry.WrittenBy.isObject
    {edge : EdgeEntry} {entry : Json}
    (h : edge.WrittenBy entry) :
    edge.config.isObject = true := by
  rw [h.config]
  cases entry <;> rfl

/-- Where the phases and the explicit edges of a definition come from. -/
structure Definition.WrittenBy
    (definition : Definition)
    (environment : Environment)
    (document : Json) : Prop where
  phases :
    ∃ entries,
      document.field? "phases" = some (.arr entries) ∧
      List.Forall₂ (fun entry phase => PhaseEntry.WrittenBy phase environment entry)
        entries definition.phases
  edges : List.Forall₂ (fun entry edge => EdgeEntry.WrittenBy edge entry)
    (((document.field? "edges").map Json.elements).getD []) definition.edges

namespace Definition

/-- A name is the name of a phase. -/
def Names (definition : Definition) (name : String) : Prop :=
  ∃ phase ∈ definition.phases, phase.name = name

/-- A definition that fits together. -/
structure Sound (definition : Definition) : Prop where
  phases_ne_nil : definition.phases ≠ []
  name_ne_empty : ∀ phase ∈ definition.phases, phase.name ≠ ""
  nodup : (definition.phases.map PhaseEntry.name).Nodup
  config : ∀ phase ∈ definition.phases, phase.config.isObject = true
  dependency :
    ∀ phase ∈ definition.phases, ∀ name ∈ phase.dependencies, definition.Names name
  ends :
    ∀ edge ∈ definition.edges,
      definition.Names edge.source ∧ definition.Names edge.target
  edgeConfig : ∀ edge ∈ definition.edges, edge.config.isObject = true

/-! ## Parts -/

theorem eq_str_of_asText
    {value : Json} {text : String}
    (h : value.asText = .ok text) :
    value = .str text := by
  cases value <;> cases h
  rfl

theorem eq_str_of_access
    {value : Json} {text : String}
    (h : access value.asText = .ok text) :
    value = .str text :=
  eq_str_of_asText (Answer.mapError_eq_ok_iff.1 h)

/-- The configuration of a phase is an object, the empty one if it is absent. -/
theorem config_of_configOf
    {environment : Environment} {name : String} {entry config : Json}
    (h : configOf environment name entry = .ok config) :
    config =
      ((entry.field? "config").map environment.expandJson).getD .emptyObject ∧
    config.isObject = true := by
  unfold configOf at h
  split at h
  · next hfield =>
      cases h
      rw [hfield]
      exact ⟨rfl, rfl⟩
  · next found hfield =>
      split at h
      · next hobject =>
          cases h
          rw [hfield]
          refine ⟨rfl, ?_⟩
          cases found <;> first | rfl | cases hobject
      · cases h

/-- The executor beside the configuration wins over the one inside. -/
theorem executor_of_executorOf
    {entry config : Json} {executor : String}
    (h : executorOf entry config = .ok executor) :
    ((entry.field? "executor").or (config.field? "executor")).getD (.str "") =
      .str executor := by
  unfold executorOf textField at h
  split at h
  · next found hfound =>
      rw [hfound, eq_str_of_access h]
      rfl
  · next hnone =>
      rw [hnone, Option.none_or]
      split at h
      · next hinner =>
          cases h
          rw [hinner]
          rfl
      · next found hfound =>
          rw [hfound, eq_str_of_access h]
          rfl

theorem dependencies_of_dependenciesOf
    {name : String} {entry : Json} {dependencies : List String}
    (h : dependenciesOf name entry = .ok dependencies) :
    ((entry.field? "dependencies").map Json.elements).getD [] =
      dependencies.map .str := by
  unfold dependenciesOf at h
  split at h
  · next hnone =>
      cases h
      rw [hnone]
      rfl
  · next items hitems =>
      rw [hitems]
      have htexts :
          List.Forall₂ (fun item text => item = Json.str text) items dependencies :=
        (Answer.mapM_eq_ok_iff.1 (Answer.mapError_eq_ok_iff.1 h)).imp fun _ _ =>
          eq_str_of_asText
      have heq : List.Forall₂ Eq items (dependencies.map .str) :=
        List.forall₂_map_right_iff.2 htexts
      rwa [List.forall₂_eq_eq_eq] at heq
  · cases h

/-- **A phase is written by its entry.** -/
theorem written_of_readPhase
    {environment : Environment} {entry : Json} {phase : PhaseEntry}
    (h : readPhase environment entry = .ok phase) :
    phase.WrittenBy environment entry ∧ phase.config.isObject = true := by
  unfold readPhase at h
  split at h
  · cases h
  · next found hfound =>
      obtain ⟨name, hname, h⟩ := Answer.bind_eq_ok_iff.1 h
      obtain ⟨category, -, h⟩ := Answer.bind_eq_ok_iff.1 h
      obtain ⟨config, hconfig, h⟩ := Answer.bind_eq_ok_iff.1 h
      obtain ⟨executor, hexecutor, h⟩ := Answer.bind_eq_ok_iff.1 h
      obtain ⟨dependencies, hdependencies, h⟩ := Answer.bind_eq_ok_iff.1 h
      cases h
      obtain ⟨hexpanded, hobject⟩ := config_of_configOf hconfig
      refine ⟨⟨?_, hexpanded, executor_of_executorOf hexecutor,
        dependencies_of_dependenciesOf hdependencies⟩, hobject⟩
      rw [hfound, eq_str_of_access hname]

/-- An edge that is read comes from its entry. -/
theorem written_of_readEdge
    {entry : Json} {edge : EdgeEntry}
    (h : readEdge entry = .ok edge) :
    edge.WrittenBy entry := by
  unfold readEdge at h
  split at h
  · next hsource htarget =>
      obtain ⟨source, hsourceText, h⟩ := Answer.bind_eq_ok_iff.1 h
      obtain ⟨target, htargetText, h⟩ := Answer.bind_eq_ok_iff.1 h
      cases h
      exact ⟨eq_str_of_access hsourceText ▸ hsource,
        eq_str_of_access htargetText ▸ htarget, rfl⟩
  · cases h

theorem written_of_readPhases
    {environment : Environment} {document : Json} {phases : List PhaseEntry}
    (h : readPhases environment document = .ok phases) :
    (∃ entries,
        document.field? "phases" = some (.arr entries) ∧
        List.Forall₂
          (fun entry phase => PhaseEntry.WrittenBy phase environment entry)
          entries phases) ∧
    ∀ phase ∈ phases, phase.config.isObject = true := by
  unfold readPhases at h
  split at h
  · cases h
  · next entries hentries =>
      have hread := Answer.mapM_eq_ok_iff.1 h
      exact ⟨⟨entries, hentries, hread.imp fun _ _ hphase =>
        (written_of_readPhase hphase).1⟩,
        Answer.forall_of_mapM h fun hphase => (written_of_readPhase hphase).2⟩
  · cases h

theorem written_of_readEdges
    {document : Json} {edges : List EdgeEntry}
    (h : readEdges document = .ok edges) :
    List.Forall₂ (fun entry edge => EdgeEntry.WrittenBy edge entry)
      (((document.field? "edges").map Json.elements).getD []) edges ∧
    ∀ edge ∈ edges, edge.config.isObject = true := by
  unfold readEdges at h
  split at h
  · next hnone =>
      cases h
      rw [hnone]
      exact ⟨.nil, fun edge hedge => by cases hedge⟩
  · next entries hentries =>
      rw [hentries]
      exact ⟨(Answer.mapM_eq_ok_iff.1 h).imp fun _ _ hedge => written_of_readEdge hedge,
        Answer.forall_of_mapM h fun hedge => (written_of_readEdge hedge).isObject⟩

/-! ## Names -/

/-- The names are accepted exactly if none is empty and none is listed twice. -/
theorem checkNames_eq_ok_iff
    {seen names : List String} :
    checkNames seen names = .ok () ↔
      names.Nodup ∧ ∀ name ∈ names, name ≠ "" ∧ name ∉ seen := by
  induction names generalizing seen with
  | nil => simp [checkNames]
  | cons name rest ih =>
      rw [checkNames]
      split
      · next hempty => simp [hempty]
      · next hname =>
          split
          · next hseen => simp [List.contains_iff_mem.1 hseen]
          · next hseen =>
              rw [ih, List.nodup_cons, List.forall_mem_cons]
              have hnot : name ∉ seen := fun hmem => hseen (List.contains_iff_mem.2 hmem)
              constructor
              · rintro ⟨hnodup, hrest⟩
                refine ⟨⟨fun hmem => (hrest name hmem).2 List.mem_cons_self, hnodup⟩,
                  ⟨hname, hnot⟩, fun other hother => ⟨(hrest other hother).1, fun hmem =>
                    (hrest other hother).2 (List.mem_cons_of_mem _ hmem)⟩⟩
              · rintro ⟨⟨hfresh, hnodup⟩, -, hrest⟩
                refine ⟨hnodup, fun other hother => ⟨(hrest other hother).1, fun hmem => ?_⟩⟩
                rcases List.mem_cons.1 hmem with rfl | hmem
                · exact hfresh hother
                · exact (hrest other hother).2 hmem

/-- An accepted phase depends on phases only. -/
theorem mem_of_checkDependencies
    {names : List String} {phase : PhaseEntry}
    (h : checkDependencies names phase = .ok ()) :
    ∀ name ∈ phase.dependencies, name ∈ names := by
  unfold checkDependencies at h
  split at h
  · next hfind =>
      intro name hname
      simpa using List.find?_eq_none.1 hfind name hname
  · cases h

theorem mem_of_checkEdge
    {names : List String} {edge : EdgeEntry}
    (h : checkEdge names edge = .ok ()) :
    edge.source ∈ names ∧ edge.target ∈ names := by
  unfold checkEdge at h
  split at h
  · cases h
  · next hsource =>
      split at h
      · cases h
      · next htarget => exact ⟨by simpa using hsource, by simpa using htarget⟩

/-- **What passes the checks fits together.** -/
theorem sound_of_validate
    {definition : Definition}
    (h : validate definition = .ok ())
    (hconfig : ∀ phase ∈ definition.phases, phase.config.isObject = true)
    (hedge : ∀ edge ∈ definition.edges, edge.config.isObject = true) :
    definition.Sound := by
  have hnames :
      ∀ {name},
        name ∈ definition.phases.map PhaseEntry.name → definition.Names name := by
    intro name hname
    obtain ⟨phase, hphase, rfl⟩ := List.mem_map.1 hname
    exact ⟨phase, hphase, rfl⟩
  unfold validate at h
  split at h
  · cases h
  · next hphases =>
      obtain ⟨⟨⟩, hcheck, h⟩ := Answer.bind_eq_ok_iff.1 h
      obtain ⟨⟨⟩, hdependencies, hedges⟩ := Answer.bind_eq_ok_iff.1 h
      obtain ⟨hnodup, hnonempty⟩ := checkNames_eq_ok_iff.1 hcheck
      exact {
        phases_ne_nil := fun hnil => hphases (by rw [hnil]; rfl)
        name_ne_empty := fun phase hphase => (hnonempty _ (List.mem_map_of_mem hphase)).1
        nodup := hnodup
        config := hconfig
        dependency := fun phase hphase name hname =>
          hnames (mem_of_checkDependencies (Answer.forM_eq_ok_iff.1 hdependencies
            phase hphase) name hname)
        ends := fun edge hmem =>
          (mem_of_checkEdge (Answer.forM_eq_ok_iff.1 hedges edge hmem)).imp hnames hnames
        edgeConfig := hedge }

/-- Which values are written is not for a document to say. -/
theorem writer_of_readOptions
    {document : Json} {options : RunOptions}
    (h : readOptions document = .ok options) :
    options.writer = {} := by
  unfold readOptions at h
  split at h
  · cases h
    rfl
  · obtain ⟨parallel, -, h⟩ := Answer.bind_eq_ok_iff.1 h
    obtain ⟨monitor, -, h⟩ := Answer.bind_eq_ok_iff.1 h
    obtain ⟨retry, -, h⟩ := Answer.bind_eq_ok_iff.1 h
    cases h
    rfl

/-- The parts of a definition that is read. -/
structure ReadFrom
    (definition : Definition)
    (environment : Environment)
    (document : Json) : Prop where
  phases : readPhases environment document = .ok definition.phases
  edges : readEdges document = .ok definition.edges
  options : readOptions document = .ok definition.options
  valid : validate definition = .ok ()

theorem readFrom_of_ofJson
    {environment : Environment} {document : Json} {definition : Definition}
    (h : ofJson environment document = .ok definition) :
    definition.ReadFrom environment document := by
  obtain ⟨parts, hparts, h⟩ := Answer.bind_eq_ok_iff.1 h
  obtain ⟨⟨⟩, hvalid, h⟩ := Answer.bind_eq_ok_iff.1 h
  cases h
  unfold readParts at hparts
  split at hparts
  · cases hparts
  · obtain ⟨name, -, hparts⟩ := Answer.bind_eq_ok_iff.1 hparts
    obtain ⟨description, -, hparts⟩ := Answer.bind_eq_ok_iff.1 hparts
    obtain ⟨phases, hphases, hparts⟩ := Answer.bind_eq_ok_iff.1 hparts
    obtain ⟨edges, hedges, hparts⟩ := Answer.bind_eq_ok_iff.1 hparts
    obtain ⟨options, hoptions, hparts⟩ := Answer.bind_eq_ok_iff.1 hparts
    obtain ⟨logging, -, hparts⟩ := Answer.bind_eq_ok_iff.1 hparts
    cases hparts
    exact ⟨hphases, hedges, hoptions, hvalid⟩

/-- **A definition that is read fits together**, and is written by the document. -/
theorem written_of_ofJson
    {environment : Environment} {document : Json} {definition : Definition}
    (h : ofJson environment document = .ok definition) :
    definition.Sound ∧ definition.WrittenBy environment document := by
  have hread := readFrom_of_ofJson h
  obtain ⟨hwritten, hconfig⟩ := written_of_readPhases hread.phases
  obtain ⟨hwritten', hconfig'⟩ := written_of_readEdges hread.edges
  exact ⟨sound_of_validate hread.valid hconfig hconfig', hwritten, hwritten'⟩

end Definition

end PhaseFlow
