import PhaseFlow.Document.Import
import PhaseFlow.Proofs.Definition.Building

/-!
# What is wrong with a document that is refused

Reading a document of any shape answers a graph or a fault of the document. A fault that
is answered is one that the document has, and a graph is answered for no document with a
defect.

* `Document.HasFault` says of every fault what it means for a document to have it. No
  other error of a graph takes part: what else a graph could raise would be a fault
  `refused (.reported ..)`, which no document has.
* `Document.Defective` lists what must be refused.
* `NodeRead`, `NodesPlaced` and `EdgesPlaced` say what the accepted entries have in
  common, one entry after the other.

Main statement: `reading_fails_as_reading_iff`.
-/

namespace PhaseFlow

open Answer (Meets)

/-- The values inside a value, itself among them. -/
inductive Json.Within (whole : Json) : Json → Prop
  | self : Within whole whole
  | field
      {part value : Json} {key : String}
      (hpart : Within whole part)
      (hfield : part.field? key = some value) :
      Within whole value
  | item
      {part value : Json}
      (hpart : Within whole part)
      (hitem : value ∈ part.elements) :
      Within whole value

/-- A status has its name, and no other text is the name of a status. -/
theorem NodeStatus.ofName_cases
    (text : String) :
    (∃ status : NodeStatus,
        status.name = text ∧ NodeStatus.ofName text = .ok status) ∨
    ((∀ status : NodeStatus, status.name ≠ text) ∧
      NodeStatus.ofName text = .error (.unknownStatus text)) := by
  by_cases hknown : ∃ status : NodeStatus, status.name = text
  · obtain ⟨status, rfl⟩ := hknown
    exact .inl ⟨status, rfl, ofName_name status⟩
  · have hunknown : ∀ status : NodeStatus, status.name ≠ text := fun status heq =>
      hknown ⟨status, heq⟩
    have hidle : text ≠ "idle" := (hunknown .idle).symm
    have hrunning : text ≠ "running" := (hunknown .running).symm
    have hcompleted : text ≠ "completed" := (hunknown .completed).symm
    have herror : text ≠ "error" := (hunknown .error).symm
    refine .inr ⟨hunknown, ?_⟩
    rw [NodeStatus.ofName, if_neg hidle, if_neg hrunning, if_neg hcompleted, if_neg herror]

namespace Document

/-! ## Faults -/

/-- An entry names an id. -/
def Identifies (entry : Json) (id : String) : Prop :=
  entry.field? "id" = some (.str id)

/-- A node entry names the id of an earlier one. -/
def SharesId (document : Json) (id : String) : Prop :=
  ∃ before second later, entriesOf document "nodes" = before ++ second :: later ∧
    Identifies second id ∧ ∃ first ∈ before, Identifies first id

/-- An edge starts or ends at an id that no node entry names. -/
def MissesEnd (document : Json) (id : String) : Prop :=
  ∃ edge ∈ entriesOf document "edges",
    (edge.field? "source" = some (.str id) ∨ edge.field? "target" = some (.str id)) ∧
      ∀ node ∈ entriesOf document "nodes", ¬ Identifies node id

/-- The executor that an entry names is not known. -/
def NamesUnknownExecutor
    (registry : Registry)
    (entry : Json)
    (name : String) :
    Prop :=
  entry.field? "executor" = some (.str name) ∧ name ≠ "" ∧ registry.isRegistered name = false

/-- The status of an entry is not known. -/
def NamesUnknownStatus (entry : Json) (text : String) : Prop :=
  entry.field? "status" = some (.str text) ∧ ∀ status : NodeStatus, status.name ≠ text

/-- What is at fault with the settings of an edge. -/
inductive SettingsFault (config : Json) : ConfigurationFault → Prop
  | kind
      (hobject : config.isObject = false)
      (hnull : config.isNull = false) :
      SettingsFault config .streamSettingsNotObject
  | stream
      {fault : ConfigurationFault}
      (h : Graph.StreamFault config fault) :
      SettingsFault config fault

/-- A part of a document is of a kind that was not asked for, or lacks a field. -/
inductive Misread (document : Json) : Json.AccessError → Prop
  | kind
      {part : Json}
      (hpart : document.Within part)
      {expected : String}
      (hother : expected ≠ part.kindName) :
      Misread document (.wrongKind expected part.kindName)
  | missing
      {part : Json}
      (hpart : document.Within part)
      (hobject : part.isObject = true)
      {key : String}
      (hnone : part.field? key = none) :
      Misread document (.missingField key)

/-- A document has a fault. -/
inductive HasFault (registry : Registry) (document : Json) : DocumentFault → Prop
  | notObject (h : document.isObject = false) : HasFault registry document .notObject
  | unsupportedFormat
      {value : Json}
      (h : document.field? "format" = some value)
      (hother : value ≠ .str format) :
      HasFault registry document (.unsupportedFormat value)
  | malformed
      {cause : Json.AccessError}
      (h : Misread document cause) :
      HasFault registry document (.malformed cause)
  | nodeConfig
      {entry config : Json} {id : String}
      (hentry : entry ∈ entriesOf document "nodes")
      (hid : Identifies entry id)
      (hfield : entry.field? "config" = some config)
      (hother : config.isObject = false) :
      HasFault registry document (.nodeConfigNotObject id)
  | executor
      {entry : Json} {id name : String}
      (hentry : entry ∈ entriesOf document "nodes")
      (hid : Identifies entry id)
      (h : NamesUnknownExecutor registry entry name) :
      HasFault registry document (.badNode id (.unknownExecutor name registry.names))
  | status
      {entry : Json} {id text : String}
      (hentry : entry ∈ entriesOf document "nodes")
      (hid : Identifies entry id)
      (h : NamesUnknownStatus entry text) :
      HasFault registry document (.badNode id (.unknownStatus text))
  | settings
      {entry config : Json} {source target : String}
      (hentry : entry ∈ entriesOf document "edges")
      (hsource : entry.field? "source" = some (.str source))
      (htarget : entry.field? "target" = some (.str target))
      (hfield : entry.field? "config" = some config)
      {fault : ConfigurationFault}
      (h : SettingsFault config fault) :
      HasFault registry document (.badEdge source target fault)
  | duplicateNode
      {id : String}
      (h : SharesId document id) :
      HasFault registry document (.duplicateNode id)
  | danglingEdge
      {id : String}
      (h : MissesEnd document id) :
      HasFault registry document (.danglingEdge id)
  | emptyId
      {entry : Json}
      (hentry : entry ∈ entriesOf document "nodes")
      (hid : Identifies entry "") :
      HasFault registry document (.refused .emptyNodeId)

/-- What a document must not contain. -/
inductive Defective (registry : Registry) (document : Json) : Prop
  | sharedId {id : String} (h : SharesId document id)
  | emptyId
      {entry : Json}
      (hentry : entry ∈ entriesOf document "nodes")
      (hid : Identifies entry "")
  | missingEnd {id : String} (h : MissesEnd document id)
  | executor
      {entry : Json} {name : String}
      (hentry : entry ∈ entriesOf document "nodes")
      (h : NamesUnknownExecutor registry entry name)
  | status
      {entry : Json} {text : String}
      (hentry : entry ∈ entriesOf document "nodes")
      (h : NamesUnknownStatus entry text)
  | backpressure
      {entry config : Json} {text : String}
      (hentry : entry ∈ entriesOf document "edges")
      (hfield : entry.field? "config" = some config)
      (htext : config.field? "backpressure" = some (.str text))
      (hunknown : ∀ policy : Backpressure, policy.name ≠ text)

/-! ## Fields -/

section Fields

variable {registry : Registry} {document value : Json}

/-- The entries of a document are values inside it. -/
theorem within_entriesOf
    {key : String} {entry : Json}
    (h : entry ∈ entriesOf document key) :
    document.Within entry := by
  unfold entriesOf at h
  cases hfield : document.field? key with
  | none =>
      rw [hfield] at h
      cases h
  | some items =>
      rw [hfield] at h
      exact .item (.field .self hfield) h

/-- A value of another kind is misread. -/
theorem meets_mismatch
    {α : Type} {promised : α → Prop}
    (h : document.Within value)
    {expected : String}
    (hother : expected ≠ value.kindName) :
    Meets promised (Misread document) (Json.mismatch expected value) :=
  .kind h hother

theorem meets_asText
    (h : document.Within value) :
    Meets (fun text => value = .str text) (Misread document) value.asText := by
  cases value with
  | str text => exact rfl
  | _ => exact meets_mismatch h (by simp [Json.kindName])

theorem meets_asBool
    (h : document.Within value) :
    Meets (fun _ => True) (Misread document) value.asBool := by
  cases value with
  | bool flag => exact trivial
  | _ => exact meets_mismatch h (by simp [Json.kindName])

theorem meets_asInt
    (h : document.Within value) :
    Meets (fun _ => True) (Misread document) value.asInt := by
  cases value with
  | int number => exact trivial
  | float number => exact trivial
  | _ => exact meets_mismatch h (by simp [Json.kindName])

theorem meets_asWord
    (h : document.Within value) :
    Meets (fun _ => True) (Misread document) value.asWord :=
  (meets_asInt h).map fun _ _ => trivial

theorem meets_asSignedWord
    (h : document.Within value) :
    Meets (fun _ => True) (Misread document) value.asSignedWord :=
  (meets_asInt h).map fun _ _ => trivial

theorem meets_asAny :
    Meets (fun result => value = result) (Misread document) value.asAny :=
  rfl

theorem meets_mapM_asText
    {items : List Json}
    (h : ∀ item ∈ items, document.Within item) :
    Meets (fun _ => True) (Misread document) (items.mapM Json.asText) := by
  induction items with
  | nil => exact trivial
  | cons item rest ih =>
      rw [List.mapM_cons]
      refine (meets_asText (h item List.mem_cons_self)).bind fun text _ => ?_
      exact (ih fun other hother => h other (List.mem_cons_of_mem _ hother)).bind fun
        _ _ => trivial

theorem meets_asTexts
    (h : document.Within value) :
    Meets (fun _ => True) (Misread document) value.asTexts := by
  cases value with
  | arr items => exact meets_mapM_asText fun item hitem => .item h hitem
  | _ => exact meets_mismatch h (by simp [Json.kindName])

/-- A required field that is read as it should be. -/
theorem meets_field
    {α : Type} {read : Json → Except Json.AccessError α}
    {reads : Json → α → Prop}
    (h : document.Within value)
    (key : String)
    (hread :
        ∀ {found},
          document.Within found → Meets (reads found) (Misread document) (read found)) :
    Meets
      (fun result =>
          ∃ found, value.field? key = some found ∧ reads found result)
      (HasFault registry document) (access (value.field key read)) := by
  refine Meets.mapError ?_ fun _ => HasFault.malformed
  cases value with
  | obj fields =>
      unfold Json.field
      dsimp only
      split
      · next found hfound =>
          exact (hread (.field h hfound)).imp
            (fun _ hreads => ⟨found, hfound, hreads⟩) fun _ => id
      · next hnone => exact .missing h rfl hnone
  | _ => exact meets_mismatch h (by simp [Json.kindName])

/-- A field that may be absent, read as it should be. -/
theorem meets_fieldOr
    {α : Type} {read : Json → Except Json.AccessError α}
    {reads : Json → α → Prop}
    (h : document.Within value)
    (key : String)
    (fallback : α)
    (hread :
        ∀ {found},
          document.Within found → Meets (reads found) (Misread document) (read found)) :
    Meets (fun result =>
        (value.field? key = none ∧ result = fallback) ∨
        ∃ found, value.field? key = some found ∧ reads found result)
      (HasFault registry document) (access (value.fieldOr key fallback read)) := by
  refine Meets.mapError ?_ fun _ => HasFault.malformed
  cases value with
  | obj fields =>
      unfold Json.fieldOr
      dsimp only
      split
      · next found hfound =>
          exact (hread (.field h hfound)).imp
            (fun _ hreads => .inr ⟨found, hfound, hreads⟩) fun _ => id
      · next hnone => exact .inl ⟨hnone, rfl⟩
  | _ => exact meets_mismatch h (by simp [Json.kindName])

theorem meets_text
    (h : document.Within value)
    (key : String) :
    Meets (fun text => value.field? key = some (.str text))
      (HasFault registry document) (access (value.field key Json.asText)) :=
  (meets_field h key meets_asText).imp (fun _ ⟨_, hfound, heq⟩ => heq ▸ hfound) fun _ => id

theorem meets_instantField
    (h : document.Within value)
    (key : String)
    (fallback : Instant) :
    Meets (fun _ => True) (HasFault registry document)
      (instantField value key fallback) := by
  unfold instantField
  split
  · exact trivial
  · next found hfound =>
      exact ((meets_asSignedWord (.field h hfound)).mapError fun _ => HasFault.malformed).map
        fun _ _ => trivial

theorem meets_optionalInstant
    (h : document.Within value)
    (key : String) :
    Meets (fun _ => True) (HasFault registry document)
      (optionalInstant value key) := by
  unfold optionalInstant
  split
  · exact trivial
  · exact trivial
  · next found _ hfound =>
      exact ((meets_asSignedWord (.field h hfound)).mapError fun _ => HasFault.malformed).map
        fun _ _ => trivial

end Fields

/-! ## Parts -/

section Parts

variable {registry : Registry} {document entry : Json}

/-- What makes a node entry acceptable, whatever stands beside it. -/
structure NodeRead (registry : Registry) (entry : Json) (id : String) : Prop where
  id : Identifies entry id
  executor : ∀ name, ¬ NamesUnknownExecutor registry entry name
  status : ∀ text, ¬ NamesUnknownStatus entry text

/-- What makes an edge entry acceptable, whatever stands beside it. -/
structure EdgeRead (entry : Json) (edge : Edge) : Prop where
  source : entry.field? "source" = some (.str edge.source)
  target : entry.field? "target" = some (.str edge.target)
  policy : ∀ {config text}, entry.field? "config" = some config →
    config.field? "backpressure" = some (.str text) →
      ∃ policy : Backpressure, policy.name = text

/-- The executor of a node is known, or the document names one that is not. -/
theorem meets_resolve
    (hentry : entry ∈ entriesOf document "nodes")
    {id name : String}
    (hid : Identifies entry id)
    (hname :
        entry.field? "executor" = none ∧ name = Capability.passThroughName ∨
        entry.field? "executor" = some (.str name)) :
    Meets (fun _ => ∀ other, ¬ NamesUnknownExecutor registry entry other)
      (HasFault registry document)
      ((registry.resolve name).mapError (.badNode id)) := by
  rcases registry.resolve_cases name with
    ⟨hfinds, capability, hresolve⟩ | ⟨⟨hne, hunregistered⟩, hresolve⟩
  · rw [hresolve]
    rintro other ⟨hother, hne, hunregistered⟩
    rcases hname with ⟨hnone, -⟩ | hsome
    · rw [hnone] at hother
      cases hother
    · rw [hsome, Option.some.injEq, Json.str.injEq] at hother
      subst hother
      rcases hfinds with hempty | hregistered
      · exact hne hempty
      · rw [hunregistered] at hregistered
        cases hregistered
  · rw [hresolve]
    rcases hname with ⟨-, rfl⟩ | hsome
    · rw [registry.isRegistered_passThroughName] at hunregistered
      cases hunregistered
    · exact .executor hentry hid ⟨hsome, hne, hunregistered⟩

theorem meets_status
    (hentry : entry ∈ entriesOf document "nodes")
    {id text : String}
    (hid : Identifies entry id)
    (htext :
        entry.field? "status" = none ∧ text = "idle" ∨
        entry.field? "status" = some (.str text)) :
    Meets (fun _ => ∀ other, ¬ NamesUnknownStatus entry other)
      (HasFault registry document)
      ((NodeStatus.ofName text).mapError (.badNode id)) := by
  rcases NodeStatus.ofName_cases text with ⟨status, hstatus, hok⟩ | ⟨hunknown, herror⟩
  · rw [hok]
    rintro other ⟨hother, hunknown⟩
    rcases htext with ⟨hnone, -⟩ | hsome
    · rw [hnone] at hother
      cases hother
    · rw [hsome, Option.some.injEq, Json.str.injEq] at hother
      exact hunknown status (hstatus.trans hother)
  · rw [herror]
    rcases htext with ⟨-, rfl⟩ | hsome
    · exact absurd rfl (hunknown .idle)
    · exact .status hentry hid ⟨hsome, hunknown⟩

/-- **A node entry is read**, or the document has the fault that is answered. -/
theorem meets_toNode
    (hentry : entry ∈ entriesOf document "nodes")
    (now : Instant) :
    Meets (fun node => NodeRead registry entry node.id)
      (HasFault registry document) (toNode registry now entry) := by
  have hwithin := within_entriesOf hentry
  unfold toNode
  refine (meets_text hwithin "id").bind fun id hid => ?_
  refine (meets_fieldOr hwithin "phase" "" meets_asText).bind fun phase _ => ?_
  refine (meets_fieldOr hwithin "config" .emptyObject fun _ => meets_asAny).bind
    fun config hconfig => ?_
  split
  · next hother =>
      rcases hconfig with ⟨-, rfl⟩ | ⟨_, hfound, rfl⟩
      · cases hother
      · exact HasFault.nodeConfig hentry hid hfound (by simpa using hother)
  refine (meets_fieldOr hwithin "executor" _ meets_asText).bind fun name hname => ?_
  refine (meets_resolve hentry hid
      (hname.imp_right fun ⟨_, hfound, heq⟩ => heq ▸ hfound)).bind
    fun capability hexecutor => ?_
  refine (meets_fieldOr hwithin "status" "idle" meets_asText).bind fun text htext => ?_
  refine (meets_status hentry hid
      (htext.imp_right fun ⟨_, hfound, heq⟩ => heq ▸ hfound)).bind
    fun status hstatus => ?_
  refine (meets_instantField hwithin "created_at" now).bind fun createdAt _ => ?_
  refine (meets_optionalInstant hwithin "last_run").bind fun lastRun _ => ?_
  refine (meets_fieldOr hwithin "run_count" 0 meets_asWord).bind fun runs _ => ?_
  refine (meets_fieldOr hwithin "error_count" 0 meets_asWord).bind fun errors _ => ?_
  exact ⟨hid, hexecutor, hstatus⟩

theorem meets_ofJson
    (config : Json) :
    Meets (fun _ =>
        ∀ text,
          config.field? "backpressure" = some (.str text) →
          ∃ policy : Backpressure, policy.name = text) (SettingsFault config)
      (StreamSettings.ofJson config) := by
  unfold StreamSettings.ofJson
  split
  · exact fun text htext => by cases htext
  · next fields =>
      have hsize : Meets (fun _ => True) (SettingsFault (.obj fields))
          (StreamSettings.bufferSizeOf (.obj fields)) := by
        rcases Graph.bufferSizeOf_cases (.obj fields) with ⟨⟨size, hok⟩, -⟩ |
          ⟨herror, hfault⟩
        · rw [hok]
          exact trivial
        · rw [herror]
          exact .stream hfault
      have hpolicy :
          Meets (fun _ =>
              ∀ text,
                ¬ Graph.StreamFault (.obj fields) (.unknownBackpressure text))
            (SettingsFault (.obj fields))
            (StreamSettings.backpressureOf (.obj fields)) := by
        rcases Graph.backpressureOf_cases (.obj fields) with
          ⟨⟨policy, hok⟩, hnone, -⟩ | ⟨fault, herror, hfault⟩
        · rw [hok]
          exact hnone
        · rw [herror]
          exact .stream hfault
      have hmultiplex : Meets (fun _ => True) (SettingsFault (.obj fields))
          (StreamSettings.multiplexOf (.obj fields)) := by
        rcases Graph.multiplexOf_cases (.obj fields) with ⟨⟨flag, hok⟩, -⟩ | ⟨herror, hfault⟩
        · rw [hok]
          exact trivial
        · rw [herror]
          exact .stream hfault
      refine hsize.bind fun size _ =>
        hpolicy.bind fun policy hnone => hmultiplex.bind fun flag _ => ?_
      intro text htext
      by_contra hunknown
      exact hnone text (.policy htext fun other hother => hunknown ⟨other, hother⟩)
  · next hnull hobject =>
      refine .kind ?_ ?_
      · cases config <;> first | rfl | exact absurd rfl (hobject _)
      · cases config <;> first | rfl | exact absurd rfl hnull

/-- **An edge entry is read**, or the document has the fault that is answered. -/
theorem meets_toEdge
    (hentry : entry ∈ entriesOf document "edges")
    (now : Instant) :
    Meets (EdgeRead entry) (HasFault registry document) (toEdge now entry) := by
  have hwithin := within_entriesOf hentry
  unfold toEdge
  refine (meets_text hwithin "source").bind fun source hsource => ?_
  refine (meets_text hwithin "target").bind fun target htarget => ?_
  refine (meets_fieldOr hwithin "stream" _ meets_asText).bind fun stream _ => ?_
  refine (meets_fieldOr hwithin "config" .emptyObject fun _ => meets_asAny).bind
    fun config hconfig => ?_
  have hsettings : Meets (fun _ => ∀ {found text}, entry.field? "config" = some found →
        found.field? "backpressure" = some (.str text) →
          ∃ policy : Backpressure, policy.name = text)
      (HasFault registry document)
        ((StreamSettings.ofJson config).mapError (.badEdge source target)) := by
    rcases hconfig with ⟨hnone, rfl⟩ | ⟨_, hfound, rfl⟩
    · exact fun {_ _} hfound => by rw [hnone] at hfound; cases hfound
    · refine ((meets_ofJson _).mapError fun fault hfault =>
        HasFault.settings hentry hsource htarget hfound hfault).imp
          (fun _ hpolicy other text hother => ?_) fun _ => id
      rw [hfound, Option.some.injEq] at hother
      subst hother
      exact hpolicy text
  refine hsettings.bind fun settings hpolicy => ?_
  refine (meets_fieldOr hwithin "active" true meets_asBool).bind fun active _ => ?_
  refine (meets_fieldOr hwithin "messages_passed" 0 meets_asWord).bind fun messages _ => ?_
  refine (meets_fieldOr hwithin "bytes_transferred" 0 meets_asWord).bind fun bytes _ => ?_
  refine (meets_instantField hwithin "created_at" now).bind fun createdAt _ => ?_
  exact ⟨hsource, htarget, hpolicy⟩

theorem meets_toMetadata
    (now : Instant) :
    Meets (fun _ => True) (HasFault registry document) (toMetadata now document) := by
  unfold toMetadata
  split
  · exact trivial
  · next found hfound =>
      have hwithin : document.Within found := .field .self hfound
      refine (meets_fieldOr hwithin "name" "" meets_asText).bind fun name _ => ?_
      refine (meets_fieldOr hwithin "version" _ meets_asText).bind fun version _ => ?_
      exact (meets_instantField hwithin "created_at" now).bind fun createdAt _ => trivial

/-- The state of the latest run is read, or misread. -/
theorem meets_toState :
    Meets (fun _ => True) (HasFault registry document) (toState document) := by
  unfold toState
  split
  · exact trivial
  · next found hfound =>
      have hwithin : document.Within found := .field .self hfound
      refine (meets_fieldOr hwithin "running" false meets_asBool).bind fun running _ => ?_
      refine (meets_fieldOr hwithin "current_phase" "" meets_asText).bind fun phase _ => ?_
      refine (meets_fieldOr hwithin "execution_order" [] meets_asTexts).bind fun order
        _ => ?_
      exact (meets_fieldOr hwithin "last_error" "" meets_asText).bind fun error _ => trivial

theorem meets_checkFormat :
    Meets (fun _ => True) (HasFault registry document) (checkFormat document) := by
  unfold checkFormat
  split
  · exact trivial
  · next value hvalue =>
      split
      · exact trivial
      · next hother =>
          refine .unsupportedFormat hvalue fun heq => hother ?_
          simp [heq, Json.isText]

end Parts

/-! ## Entries -/

section Entries

variable {registry : Registry} {document entry : Json}
variable {before later : List Json} {graph : Graph}

/-- An entry has one id. -/
theorem Identifies.eq
    {id other : String}
    (h : Identifies entry id)
    (hother : Identifies entry other) :
    id = other := by
  rw [Identifies, h, Option.some.injEq, Json.str.injEq] at hother
  exact hother

/-- A graph whose nodes are those of some entries. -/
structure NodesPlaced
    (registry : Registry)
    (entries : List Json)
    (graph : Graph) : Prop where
  hasNode : ∀ id, graph.hasNode id = true ↔ ∃ entry ∈ entries, Identifies entry id
  read : ∀ entry ∈ entries, ∃ id, id ≠ "" ∧ NodeRead registry entry id
  distinct :
    entries.Pairwise fun first second =>
      ∀ id, Identifies first id → ¬ Identifies second id

/-- An entry that is read and has a free id is placed. -/
theorem NodesPlaced.insert
    (h : NodesPlaced registry before graph)
    {node : Node}
    (hread : NodeRead registry entry node.id)
    (hid : node.id ≠ "")
    (hfresh : ¬ graph.hasNode node.id = true) :
    NodesPlaced registry (before ++ [entry])
      { graph with nodes := graph.nodes.insert node.id node } where
  hasNode id := by
    have hentry : Identifies entry id ↔ node.id = id :=
      ⟨fun hother => hread.id.eq hother, fun heq => heq ▸ hread.id⟩
    simp only [List.mem_append, List.mem_singleton, or_and_right, exists_or,
      exists_eq_left, hentry]
    rw [Graph.hasNode, KeyMap.contains_insert, Bool.or_eq_true, decide_eq_true_iff, or_comm]
    exact or_congr_left (h.hasNode id)
  read :=
    List.forall_mem_append.2
      ⟨h.read, List.forall_mem_singleton.2 ⟨node.id, hid, hread⟩⟩
  distinct := by
    refine List.pairwise_append.2 ⟨h.distinct, List.pairwise_singleton _ _, ?_⟩
    intro first hfirst second hsecond id hfirstId hsecondId
    rw [List.mem_singleton] at hsecond
    subst hsecond
    obtain rfl := hread.id.eq hsecondId
    exact hfresh ((h.hasNode _).2 ⟨first, hfirst, hfirstId⟩)

/-- **The node of an entry is placed** among those of the earlier entries, or the
document has the fault that is answered. -/
theorem meets_addNode
    (hsplit : entriesOf document "nodes" = before ++ entry :: later)
    (h : NodesPlaced registry before graph)
    (now : Instant) :
    Meets (NodesPlaced registry (before ++ [entry]))
      (HasFault registry document) (addNode registry now graph entry) := by
  have hentry : entry ∈ entriesOf document "nodes" := hsplit ▸ by simp
  unfold addNode
  refine (meets_toNode hentry now).bind fun node hread => ?_
  unfold Graph.insertNode
  split
  · next hempty =>
      have hid : Identifies entry "" := hempty ▸ hread.id
      exact HasFault.emptyId hentry hid
  · next hid =>
      split
      · next hpresent =>
          exact HasFault.duplicateNode
            ⟨before, entry, later, hsplit, hread.id, (h.hasNode node.id).1 hpresent⟩
      · next hfresh => exact h.insert hread hid hfresh

/-- A graph to which the edges of some entries have been added. -/
structure EdgesPlaced
    (nodes : Graph)
    (entries : List Json)
    (graph : Graph) : Prop where
  hasNode : ∀ id, graph.hasNode id = nodes.hasNode id
  read :
    ∀ entry ∈ entries,
      ∃ edge,
        EdgeRead entry edge ∧
        nodes.hasNode edge.source = true ∧
        nodes.hasNode edge.target = true

/-- **The edge of an entry is placed** between nodes, or the document has the fault that
is answered. -/
theorem meets_addEdge
    {nodes : Graph}
    (hnodes : NodesPlaced registry (entriesOf document "nodes") nodes)
    (hentry : entry ∈ entriesOf document "edges")
    (h : EdgesPlaced nodes before graph)
    (now : Instant) :
    Meets (EdgesPlaced nodes (before ++ [entry])) (HasFault registry document)
      (addEdge now graph entry) := by
  have hmisses : ∀ {id}, (entry.field? "source" = some (.str id) ∨
      entry.field? "target" = some (.str id)) → graph.nodes.get? id = none →
        MissesEnd document id := by
    intro id hend hnone
    refine ⟨entry, hentry, hend, fun node hnode hid => ?_⟩
    have hpresent : graph.hasNode id = true :=
      (h.hasNode id).trans ((hnodes.hasNode id).2 ⟨node, hnode, hid⟩)
    rw [Graph.hasNode, KeyMap.contains, hnone] at hpresent
    cases hpresent
  have hpresent :
      ∀ {id node}, graph.nodes.get? id = some node → nodes.hasNode id = true := by
    intro id node hsome
    rw [← h.hasNode, Graph.hasNode, KeyMap.contains, hsome]
    rfl
  unfold addEdge
  refine (meets_toEdge hentry now).bind fun edge hread => ?_
  unfold Graph.insertEdge Graph.nodeFor
  cases hsource : graph.nodes.get? edge.source with
  | none => exact HasFault.danglingEdge (hmisses (.inl hread.source) hsource)
  | some source =>
      cases htarget : graph.nodes.get? edge.target with
      | none => exact HasFault.danglingEdge (hmisses (.inr hread.target) htarget)
      | some target =>
          exact ⟨h.hasNode, List.forall_mem_append.2 ⟨h.read,
            List.forall_mem_singleton.2 ⟨edge, hread, hpresent hsource, hpresent htarget⟩⟩⟩

/-- A document all of whose entries have been placed has no defect. -/
theorem not_defective
    {nodes : Graph}
    (hnodes : NodesPlaced registry (entriesOf document "nodes") nodes)
    (hedges : EdgesPlaced nodes (entriesOf document "edges") graph) :
    ¬ Defective registry document := by
  intro hdefective
  cases hdefective with
  | sharedId h =>
      obtain ⟨before, second, later, hsplit, hsecond, first, hfirst, hid⟩ := h
      have hdistinct := hnodes.distinct
      rw [hsplit, List.pairwise_append] at hdistinct
      exact hdistinct.2.2 first hfirst second List.mem_cons_self _ hid hsecond
  | emptyId hentry hid =>
      obtain ⟨id, hne, hread⟩ := hnodes.read _ hentry
      exact hne (hread.id.eq hid)
  | missingEnd h =>
      obtain ⟨entry, hentry, hend, hmissing⟩ := h
      obtain ⟨edge, hread, hsource, htarget⟩ := hedges.read entry hentry
      rcases hend with hend | hend
      · rw [hread.source, Option.some.injEq, Json.str.injEq] at hend
        obtain ⟨node, hnode, hid⟩ := (hnodes.hasNode _).1 hsource
        exact hmissing node hnode (hend ▸ hid)
      · rw [hread.target, Option.some.injEq, Json.str.injEq] at hend
        obtain ⟨node, hnode, hid⟩ := (hnodes.hasNode _).1 htarget
        exact hmissing node hnode (hend ▸ hid)
  | executor hentry h =>
      obtain ⟨id, -, hread⟩ := hnodes.read _ hentry
      exact hread.executor _ h
  | status hentry h =>
      obtain ⟨id, -, hread⟩ := hnodes.read _ hentry
      exact hread.status _ h
  | backpressure hentry hfield htext hunknown =>
      obtain ⟨edge, hread, -, -⟩ := hedges.read _ hentry
      obtain ⟨policy, hpolicy⟩ := hread.policy hfield htext
      exact hunknown policy hpolicy

end Entries

/-! ## The whole document -/

/-- A graph is answered for a document without defects, and a fault for a document that
has it. -/
theorem meets_toGraph?
    (registry : Registry)
    (freshId : String)
    (now : Instant)
    (document : Json) :
    Meets (fun _ => ¬ Defective registry document) (HasFault registry document)
      (toGraph? registry freshId now document) := by
  unfold toGraph?
  split
  · next hother => exact HasFault.notObject (by simpa using hother)
  refine meets_checkFormat.bind fun _ _ => ?_
  refine (meets_toMetadata now).bind fun metadata _ => ?_
  refine (meets_fieldOr .self "id" freshId meets_asText).bind fun id _ => ?_
  refine meets_toState.bind fun state _ => ?_
  have hempty :
      NodesPlaced registry []
        { Graph.restore freshId id metadata with state := state } :=
    ⟨fun id => ⟨fun hnode => (by cases hnode), fun ⟨_, hmem, _⟩ => (by cases hmem)⟩,
      fun _ hmem => (by cases hmem), .nil⟩
  refine (Meets.foldlM (NodesPlaced registry)
    (fun before entry later graph hsplit hplaced => meets_addNode hsplit hplaced now)
      hempty).bind fun nodes hnodes => ?_
  refine (Meets.foldlM (EdgesPlaced nodes)
    (fun before entry later graph hsplit hplaced =>
        meets_addEdge hnodes (hsplit ▸ by simp) hplaced now)
      ⟨fun _ => rfl, fun _ hmem => (by cases hmem)⟩).imp (fun graph hedges => ?_)
        fun _ hfault => hfault
  exact not_defective hnodes hedges

/-- The answer to reading a document: a graph, if the document has no defect, or the
error of reading for a fault that the document has. -/
def Answers
    (registry : Registry)
    (document : Json)
    (answer : Result Graph) :
    Prop :=
  (∃ graph, answer = .ok graph ∧ ¬ Defective registry document) ∨
    ∃ fault, answer = .error (.document fault) ∧ (Error.document fault).operation =
      "import" ∧
      HasFault registry document fault

/-- **A document whose format can be shown** is answered by a graph, or by the error of
reading for a fault that it has; if it has a defect, then it is refused. -/
theorem answers_toGraph
    (registry : Registry)
    (freshId : String)
    (now : Instant)
    {document : Json} {writer : Json.Writer}
    (h : formatObjection writer document = none) :
    Answers registry document (toGraph registry freshId now document writer) ∧
    (Defective registry document →
      ∃ fault,
        toGraph registry freshId now document writer = .error (.document fault)) := by
  have hmeets := meets_toGraph? registry freshId now document
  rw [toGraph_of_formatObjection h]
  cases hread : toGraph? registry freshId now document with
  | ok graph =>
      rw [hread] at hmeets
      exact ⟨.inl ⟨graph, rfl, hmeets⟩, fun hdefective => absurd hdefective hmeets⟩
  | error fault =>
      rw [hread] at hmeets
      exact ⟨.inr ⟨fault, rfl, rfl, hmeets⟩, fun _ => ⟨fault, rfl⟩⟩

/-! ## Errors that are passed on -/

/-- Whatever error is answered, it is an error of reading. -/
def FailsAsReading (answer : Result Graph) : Prop :=
  ∀ error, answer = .error error →
    ∃ fault, error = .document fault ∧ error.operation = "import"

theorem Answers.failsAsReading
    {registry : Registry} {document : Json} {answer : Result Graph}
    (h : Answers registry document answer) :
    FailsAsReading answer := by
  rintro error rfl
  rcases h with ⟨graph, hgraph, -⟩ | ⟨fault, hfault, hoperation, -⟩
  · cases hgraph
  · cases hfault
    exact ⟨fault, rfl, hoperation⟩

/-- A fault of the JSON library is no fault of reading. -/
theorem not_failsAsReading_json
    (fault : JsonFault) :
    ¬ FailsAsReading (.error (.json fault)) := by
  intro h
  obtain ⟨other, heq, -⟩ := h _ rfl
  cases heq

/-- A document fails as reading exactly if its format can be shown where it is
refused. -/
theorem failsAsReading_toGraph_iff
    (registry : Registry)
    (freshId : String)
    (now : Instant)
    (document : Json)
    (writer : Json.Writer) :
    FailsAsReading (toGraph registry freshId now document writer) ↔
      formatObjection writer document = none := by
  constructor
  · intro h
    cases hobjection : formatObjection writer document with
    | none => rfl
    | some words =>
        rw [toGraph, hobjection] at h
        exact absurd h (not_failsAsReading_json _)
  · exact fun h => (answers_toGraph registry freshId now h).1.failsAsReading

/-- What is answered to bytes, by how they are read. -/
theorem graphOfBytes_eq (registry : Registry) (freshId : String) (now : Instant)
    (bytes : ByteArray) (nulEnds : Bool) (writer : Json.Writer) :
    graphOfBytes registry freshId now bytes nulEnds writer =
      match Json.parse nulEnds bytes with
      | .error .malformed => .error (.document .notJson)
      | .error .outOfRange => .error (.json .numberOutOfRange)
      | .ok document => toGraph registry freshId now document writer := by
  unfold graphOfBytes
  cases Json.parse nulEnds bytes with
  | ok document => rfl
  | error fault => cases fault <;> rfl

/-- **When reading fails only as reading.** Whatever the shape of a document, the answer
is a graph or an error of reading that names a fault of the document, and a document
with a defect is refused, unless the JSON library objects to showing a format that is
refused. So it is with every byte string, unless it holds a number that is out of range.
The errors of the library are passed on. -/
theorem reading_fails_as_reading_iff (registry : Registry) (freshId : String) (now : Instant)
    (writer : Json.Writer) (nulEnds : Bool) :
    (∀ document, formatObjection writer document = none →
      Answers registry document (toGraph registry freshId now document writer) ∧
        (Defective registry document →
          ∃ fault, toGraph registry freshId now document writer = .error
            (.document fault))) ∧
    (∀ document, FailsAsReading (toGraph registry freshId now document writer) ↔
      formatObjection writer document = none) ∧
    ∀ bytes,
      (graphOfBytes registry freshId now bytes nulEnds writer =
        match Json.parse nulEnds bytes with
        | .error .malformed => .error (.document .notJson)
        | .error .outOfRange => .error (.json .numberOutOfRange)
        | .ok document => toGraph registry freshId now document writer) ∧
      (FailsAsReading (graphOfBytes registry freshId now bytes nulEnds writer) ↔
        Json.parse nulEnds bytes ≠ .error .outOfRange ∧
          ∀ document, Json.parse nulEnds bytes = .ok document →
            formatObjection writer document = none) := by
  refine ⟨fun document h => answers_toGraph registry freshId now h, fun document =>
    failsAsReading_toGraph_iff registry freshId now document writer, fun bytes =>
      ⟨graphOfBytes_eq registry freshId now bytes nulEnds writer, ?_⟩⟩
  rw [graphOfBytes_eq]
  cases Json.parse nulEnds bytes with
  | ok document => simp [failsAsReading_toGraph_iff]
  | error fault =>
      cases fault with
      | outOfRange => simp [not_failsAsReading_json]
      | malformed =>
          refine iff_of_true ?_ ⟨nofun, nofun⟩
          rintro error ⟨⟩
          exact ⟨.notJson, rfl, rfl⟩

/-- A document with two nodes of one id. -/
def twins : Json :=
  .obj [("nodes", .arr [.obj [("id", .str "a")], .obj [("id", .str "a")]])]

theorem reading_fails_as_reading_iff_twins :
    formatObjection {} twins = none ∧
    Defective .builtin twins ∧
    ∃ fault, toGraph .builtin "fresh" ⟨0⟩ twins = .error (.document fault) := by
  have hformat : formatObjection {} twins = none := rfl
  have hdefective : Defective .builtin twins :=
    .sharedId ⟨[.obj [("id", .str "a")]], _, [], rfl, rfl, _, List.mem_singleton_self _, rfl⟩
  have hread := (reading_fails_as_reading_iff .builtin "fresh" ⟨0⟩ {} false).1 twins hformat
  exact ⟨hformat, hdefective, hread.2 hdefective⟩

/-- A number that is out of range is met with an error of the JSON library, and not with
an error of reading. -/
theorem out_of_range_number_escapes :
    graphOfText .builtin "fresh" ⟨0⟩ "\x7b\"x\":1e400\x7d" =
      .error (.json .numberOutOfRange) ∧
    ¬ FailsAsReading (graphOfText .builtin "fresh" ⟨0⟩ "\x7b\"x\":1e400\x7d") := by
  have hparse : Json.parse false "\x7b\"x\":1e400\x7d".toUTF8 = .error .outOfRange := by
    have hfault : (match Json.parse false "\x7b\"x\":1e400\x7d".toUTF8 with
        | .error .outOfRange => true
        | _ => false) = true := by
      decide +kernel
    generalize Json.parse false "\x7b\"x\":1e400\x7d".toUTF8 = parsed at hfault
    split at hfault
    · rfl
    · cases hfault
  have hread : graphOfText .builtin "fresh" ⟨0⟩ "\x7b\"x\":1e400\x7d" =
      .error (.json .numberOutOfRange) := by
    rw [graphOfText, graphOfBytes, hparse]
    rfl
  rw [hread]
  exact ⟨rfl, not_failsAsReading_json _⟩

end Document

end PhaseFlow
