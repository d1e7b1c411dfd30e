import PhaseFlow.Proofs.Run.Record
import PhaseFlow.Proofs.Schedule.Cycle

/-!
# How a run ends

A run ends in one of six ways: it is refused for a reserved id, it finds a cycle, it
stops at a phase whose settings are refused, whose input the JSON library does not
write, or that failed for good, or it returns a result (`Ending`). Nothing else can
happen to it, whatever the phases do.

Main statement: `ending_of_run`.
-/

namespace PhaseFlow

open Answer (Meets)

/-! ## Settings that are refused -/

theorem RetryPolicy.operation_of_setting
    (config : Json)
    (key : String)
    (fallback : Nat) :
    Meets (fun _ => True) (fun fault => fault.operation = "retry-policy")
      (setting config key fallback) := by
  unfold setting
  split
  · exact trivial
  · exact trivial
  · split
    · exact rfl
    · exact trivial
  · split
    · exact rfl
    · exact trivial
  · split
    · exact trivial
    · exact rfl
  · exact rfl

theorem RetryPolicy.operation_of_ofConfig
    (config : Json)
    (defaults : RetryPolicy) :
    Meets (fun _ => True) (fun fault => fault.operation = "retry-policy")
      (ofConfig config defaults) := by
  unfold ofConfig
  split
  · refine (operation_of_setting config "retries" defaults.retries).bind fun _ _ => ?_
    refine (operation_of_setting config "restart_delay" defaults.delay).bind fun _ _ => ?_
    exact (operation_of_setting config "timeout" defaults.timeout).bind fun _ _ => trivial
  · exact trivial

namespace Run

variable {options : RunOptions} {graph : Graph} {input : Json}
variable {observers : Observers} {now : Instant}

/-- The retry settings of a node are refused. -/
def Misconfigured
    (options : RunOptions)
    (graph : Graph)
    (id : String)
    (fault : ConfigurationFault) :
    Prop :=
  ∃ node, graph.nodes.get? id = some node ∧
    RetryPolicy.ofConfig node.config options.retry = .error fault

theorem Misconfigured.operation
    {id : String} {fault : ConfigurationFault}
    (h : Misconfigured options graph id fault) :
    fault.operation = "retry-policy" := by
  obtain ⟨node, -, hfault⟩ := h
  have hoperation := RetryPolicy.operation_of_ofConfig node.config options.retry
  rw [hfault] at hoperation
  exact hoperation

/-! ## Endings -/

/-- The report of a run that was refused because of the reserved id. -/
def refused (graph : Graph) : Report :=
  { outcome := refuse (.reservedNode inputKey), graph := graph }

/-- The ways in which a run ends. -/
inductive Ending (options : RunOptions) (graph : Graph) : Report → Prop
  | reserved
      (hnode : graph.hasNode inputKey = true) :
      Ending options graph (refused graph)
  | cyclic
      (hnode : graph.hasNode inputKey = false)
      (hcycle : graph.HasCycle)
      (remaining : List String) :
      Ending options graph (unordered graph (.cycle remaining))
  | misconfigured
      {report : Report}
      (hnode : graph.hasNode inputKey = false)
      (hacyclic : ¬ graph.HasCycle)
      {id : String} {fault : ConfigurationFault}
      (hid : id ∈ Log.dispatchedIn report.events)
      (hfault : Misconfigured options graph id fault)
      (houtcome : report.outcome = .error (.configuration fault)) :
      Ending options graph report
  | unwritten
      {report : Report}
      (hnode : graph.hasNode inputKey = false)
      (hacyclic : ¬ graph.HasCycle)
      {id : String} {data : Json} {words : String}
      (hid : id ∈ Log.dispatchedIn report.events)
      (hwords : options.writer.objection data = some words)
      (houtcome : report.outcome = .error (.json (.unwritable words))) :
      Ending options graph report
  | failed
      {report : Report}
      (hnode : graph.hasNode inputKey = false)
      (hacyclic : ¬ graph.HasCycle)
      {id lastError : String} {attempts : Nat}
      (hid : id ∈ Log.dispatchedIn report.events)
      (houtcome : report.outcome = .error (.phaseFailed id lastError attempts)) :
      Ending options graph report
  | returned
      {report : Report}
      (hnode : graph.hasNode inputKey = false)
      (hacyclic : ¬ graph.HasCycle)
      {result : RunResult}
      (houtcome : report.outcome = .ok result) :
      Ending options graph report

/-- The errors that an execution answers. -/
theorem answer_eq_error
    {graphId : String} {node : Node} {error : Error}
    (h : answer options graphId node input = .error error) :
    (∃ fault,
        RetryPolicy.ofConfig node.config options.retry = .error fault ∧
        error = .configuration fault) ∨
    (∃ words,
        options.writer.objection input = some words ∧
        error = .json (.unwritable words)) ∨
    ∃ lastError attempts, error = .phaseFailed node.id lastError attempts := by
  have hconfig : (invocation options graphId node input).config = node.config := rfl
  unfold answer at h
  cases hpolicy : RetryPolicy.ofConfig node.config options.retry with
  | error fault =>
      rw [Execution.run_of_refused (hconfig ▸ hpolicy)] at h
      exact .inl ⟨fault, rfl, (Except.error.inj h).symm⟩
  | ok policy =>
      cases hobjection : options.writer.objection input with
      | some words =>
          rw [Execution.run_of_unwritten (hconfig ▸ hpolicy) hobjection] at h
          exact .inr (.inl ⟨words, rfl, (Except.error.inj h).symm⟩)
      | none =>
          have hwrites :
              (invocation options graphId node input).writer.Writes input :=
            hobjection
          rw [Execution.run_of_writes (hconfig ▸ hpolicy) hwrites {} 0] at h
          dsimp only at h
          cases houtcome :
            (Execution.withPolicy (invocation options graphId node input) policy
              {} 0).outcome with
          | ok done =>
              rw [houtcome] at h
              cases h
          | error failure =>
              rw [houtcome] at h
              exact .inr
                (.inr
                    ⟨failure.lastError, failure.attempts, (Except.error.inj h).symm⟩)

/-- **A run ends in one of six ways.** -/
theorem ending_of_run
    (hwell : graph.WellFormed)
    (input : Json)
    (options : RunOptions)
    (observers : Observers)
    (now : Instant) :
    Ending options graph (run graph input options observers now) := by
  cases hinput : graph.hasNode inputKey with
  | true =>
      rw [run, if_pos hinput]
      exact .reserved hinput
  | false =>
      cases horder : Schedule.executionOrder graph with
      | error error =>
          obtain ⟨remaining, rfl⟩ := Schedule.cycle_of_executionOrder horder
          have hcycle : graph.HasCycle := by
            by_contra hacyclic
            rw [Schedule.executionOrder_of_not_hasCycle hwell hacyclic] at horder
            cases horder
          simp only [run, hinput, horder, Bool.false_eq_true, if_false]
          exact .cyclic hinput hcycle remaining
      | ok order =>
          have hacyclic := Schedule.not_hasCycle_of_executionOrder hwell horder
          obtain ⟨levels, outcomes, ended, -, htranscript, hend⟩ :=
            course_of_order options input observers now hwell hinput horder
          rcases hend with ⟨-, -, hrun⟩ | ⟨error, hstops, hrun⟩
          · rw [hrun]
            exact .returned hinput hacyclic rfl
          · -- The error is the answer of the node at which the run stops.
            obtain ⟨outcome, houtcome, hfatal⟩ := hstops.exists_fatal
            obtain ⟨hresult, -⟩ := fatal?_eq_some_iff.1 hfatal
            obtain ⟨node, hnode, hanswer⟩ := htranscript.solves.answers outcome houtcome
            have hdispatched :
                outcome.id ∈ Log.dispatchedIn (aborted ended error).events := by
              rw [(htranscript.recorded_aborted error).dispatched]
              exact List.mem_map_of_mem houtcome
            have hid : node.id = outcome.id := hwell.node_id hnode
            rw [hrun]
            rcases answer_eq_error (hanswer.symm.trans hresult) with
              ⟨fault, hfault, rfl⟩ | ⟨words, hwords, rfl⟩ | ⟨lastError, attempts, rfl⟩
            · exact .misconfigured hinput hacyclic hdispatched ⟨node, hnode, hfault⟩ rfl
            · exact .unwritten hinput hacyclic hdispatched hwords rfl
            · exact .failed hinput hacyclic (hid ▸ hdispatched) rfl

/-- What keeps a run from coming to an end without a phase having failed. -/
inductive Obstructed
    (options : RunOptions)
    (graph : Graph)
    (report : Report) : Prop
  | cycle (hcycle : graph.HasCycle)
  | reserved (hnode : graph.hasNode inputKey = true)
  | settings
      {id : String} {fault : ConfigurationFault}
      (hid : id ∈ Log.dispatchedIn report.events)
      (hfault : Misconfigured options graph id fault)
      (houtcome : report.outcome = .error (.configuration fault))

theorem Obstructed.exists_fault
    {report : Report}
    (h : Obstructed options graph report)
    (hnode : graph.hasNode inputKey = false)
    (hacyclic : ¬ graph.HasCycle) :
    ∃ fault, report.outcome = .error (.configuration fault) := by
  cases h with
  | cycle hcycle => exact absurd hcycle hacyclic
  | reserved hreserved => cases hnode.symm.trans hreserved
  | settings hid hfault houtcome => exact ⟨_, houtcome⟩

/-- A run that complains of a reserved id has not begun. -/
theorem Ending.eq_refused
    {report : Report}
    (h : Ending options graph report)
    {id : String}
    (houtcome : report.outcome = refuse (.reservedNode id)) :
    report = refused graph := by
  cases h with
  | reserved hnode => rfl
  | cyclic hnode hcycle remaining => cases houtcome
  | misconfigured hnode hacyclic hid hfault hother =>
      have hoperation := hfault.operation
      cases houtcome.symm.trans hother
      have hne : (ConfigurationFault.reservedNode id).operation ≠ "retry-policy" := by
        simp [ConfigurationFault.operation]
      exact absurd hoperation hne
  | unwritten hnode hacyclic hid hwords hother => cases houtcome.symm.trans hother
  | failed hnode hacyclic hid hother => cases houtcome.symm.trans hother
  | returned hnode hacyclic hother => cases houtcome.symm.trans hother

/-- A run that complains of a cycle has executed nothing. -/
theorem Ending.eq_unordered
    {report : Report}
    (h : Ending options graph report)
    {remaining : List String}
    (houtcome : report.outcome = .error (.cycle remaining)) :
    report = unordered graph (.cycle remaining) := by
  cases h with
  | reserved hnode => cases houtcome
  | cyclic hnode hcycle found =>
      cases houtcome
      rfl
  | misconfigured hnode hacyclic hid hfault hother => cases houtcome.symm.trans hother
  | unwritten hnode hacyclic hid hwords hother => cases houtcome.symm.trans hother
  | failed hnode hacyclic hid hother => cases houtcome.symm.trans hother
  | returned hnode hacyclic hother => cases houtcome.symm.trans hother

end Run

end PhaseFlow
