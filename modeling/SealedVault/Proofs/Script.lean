import SealedVault.Proofs.Pipeline
import SealedVault.Proofs.Source

/-!
This module contains the comparison of scripts with single-key commands. Main statement:
`dispatch_script_eq_replay`, so a script does what its commands do one after the other, up to the
first one that fails, on any store.
-/

namespace SealedVault

namespace Instruction

/-- The command that does on its own what an instruction does in a script. -/
def command : Instruction → Command
  | store key value => .set key value
  | load key _ => .get key
  | delete key => .delete key

/-- What a script reports of an instruction whose command has been answered. -/
def loads (reply : Option Reply) : Instruction → List Load
  | load key _ =>
    match reply with
    | some (.value value) => [⟨key, value⟩]
    | _ => []
  | _ => []

end Instruction

namespace Pipeline

variable (setup : Setup) (pipeline : Pipeline)

def Outcome.error? (outcome : Outcome α) : Option VaultError :=
  match outcome.result with
  | .ok _ => none
  | .error e => some e

theorem Outcome.error?_eq_some_iff {outcome : Outcome α} {e : VaultError} :
    outcome.error? = some e ↔ outcome.result = .error e := by
  obtain ⟨result, after, events⟩ := outcome
  cases result with
  | ok value => exact ⟨nofun, nofun⟩
  | error e' => exact ⟨fun h => congrArg _ (Option.some.inj h), fun h => by cases h; rfl⟩

theorem Outcome.error?_eq_none_iff {outcome : Outcome α} :
    outcome.error? = none ↔ ∃ value, outcome.result = .ok value := by
  obtain ⟨result, after, events⟩ := outcome
  cases result with
  | ok value => exact ⟨fun _ => ⟨value, rfl⟩, fun _ => rfl⟩
  | error e => exact ⟨nofun, nofun⟩

theorem Outcome.error?_map (outcome : Outcome α) (f : α → β) :
    (outcome.map f).error? = outcome.error? := by
  obtain ⟨result, after, events⟩ := outcome
  cases result with
  | ok _ => rfl
  | error e => rfl

theorem error?_set (key value : String) :
    (pipeline.set setup key value).error? =
      (overflow? key value).map fun size => .bytecode (.operandTooLong size) := by
  cases hover : overflow? key value with
  | some size =>
    rw [set_of_overflow _ _ hover]
    rfl
  | none =>
    rw [set_of_fits _ _ hover]
    rfl

theorem error?_delete (key : String) :
    (pipeline.delete key).error? =
      if Bytecode.maxOperand < key.utf8ByteSize then
        some (.bytecode (.operandTooLong key.utf8ByteSize))
      else none := by
  split
  · next hkey =>
    rw [delete_of_oversized _ hkey]
    rfl
  · next hkey =>
    rw [delete_of_fits _ (Nat.not_lt.1 hkey)]
    rfl

/--
The failure for which an instruction ends a script. A value that is not recoverable is none, as it
only counts as absent.
-/
def failure? : Instruction → Option VaultError
  | .store key value => (pipeline.set setup key value).error?
  | .delete key => (pipeline.delete key).error?
  | .load key _ => (pipeline.get setup key).error?.filter (!·.isUnrecoverable)

/-- Processes the commands of a program one after the other, up to the first one that fails. -/
def replay (pipeline : Pipeline) : List Instruction → Except VaultError (List Load) × Pipeline
  | [] => (.ok [], pipeline)
  | instruction :: rest =>
    let dispatched := pipeline.dispatch setup instruction.command
    match pipeline.failure? setup instruction with
    | some e => (.error e, dispatched.pipeline)
    | none =>
      let (result, after) := dispatched.pipeline.replay rest
      (result.map (instruction.loads dispatched.reply ++ ·), after)

theorem pipeline_step (instruction : Instruction) :
    (pipeline.step setup instruction).pipeline =
      (pipeline.dispatch setup instruction.command).pipeline := by
  cases instruction with
  | store key value => rfl
  | delete key => rfl
  | load key target =>
    unfold Instruction.command
    rw [pipeline_dispatch_get]
    unfold step
    dsimp only
    split
    · rfl
    · split
      · rfl
      · rfl

theorem result_step (instruction : Instruction) :
    (pipeline.step setup instruction).result =
      match pipeline.failure? setup instruction with
      | some e => .error e
      | none => .ok (instruction.loads (pipeline.dispatch setup instruction.command).reply) := by
  cases instruction with
  | store key value =>
    simp only [step, failure?, Outcome.error?, Outcome.map]
    cases (pipeline.set setup key value).result with
    | ok _ => rfl
    | error e => rfl
  | delete key =>
    simp only [step, failure?, Outcome.error?, Outcome.map]
    cases (pipeline.delete key).result with
    | ok _ => rfl
    | error e => rfl
  | load key target =>
    simp only [failure?, Outcome.error?, Instruction.command]
    cases hget : (pipeline.get setup key).result with
    | ok value =>
      rw [step_of_get_eq_ok _ _ _ hget, reply_dispatch_get_of_ok _ _ hget]
      rfl
    | error e =>
      rw [reply_dispatch_get_of_error _ _ hget]
      -- A value that is not recoverable counts as absent, as it does in the reply
      simp only [step, hget]
      cases hread : e.isUnrecoverable with
      | true => simp [Option.filter, hread, Instruction.loads]
      | false => simp [Option.filter, hread]

theorem steps_eq_replay (program : List Instruction) :
    (pipeline.steps setup program).result = (pipeline.replay setup program).1 ∧
      (pipeline.steps setup program).pipeline = (pipeline.replay setup program).2 := by
  induction program generalizing pipeline with
  | nil => exact ⟨rfl, rfl⟩
  | cons instruction rest ih =>
    have hstep := result_step setup pipeline instruction
    rw [replay, ← pipeline_step]
    cases hfailure : pipeline.failure? setup instruction with
    | some e =>
      rw [hfailure] at hstep
      rw [steps_cons_of_error _ _ _ hstep]
      exact ⟨rfl, rfl⟩
    | none =>
      rw [hfailure] at hstep
      rw [steps_cons_of_ok _ _ _ hstep]
      obtain ⟨hresult, hafter⟩ := ih (pipeline.step setup instruction).pipeline
      dsimp only
      rw [hresult, hafter]
      exact ⟨rfl, rfl⟩

/-- The failures that the log tells of. -/
def Dispatched.errors (dispatched : Dispatched) : List Event :=
  dispatched.events.toList.filter (·.level = .error)

theorem errors_perform (instruction : Instruction) :
    (pipeline.perform instruction).events.toList.filter (·.level = .error) = [] := by
  rw [List.filter_eq_nil_iff]
  intro event hmem
  rw [level_of_mem_perform _ (Array.mem_toList_iff.1 hmem)]
  decide

theorem errors_report {outcome : Outcome Unit} (command : Command)
    (h : outcome.events.toList.filter (·.level = .error) = []) :
    (outcome.report command).errors = (outcome.error?.map command.failureEvent).toList := by
  obtain ⟨result, after, events⟩ := outcome
  unfold Dispatched.errors Outcome.report
  dsimp only at h ⊢
  rw [Array.toList_append, List.filter_append, h]
  cases result with
  | ok _ => rfl
  | error e => rfl

theorem errors_dispatch (command : Command) :
    (pipeline.dispatch setup command).errors = (pipeline.handle setup command).errors := by
  unfold Dispatched.errors dispatch
  dsimp only
  rw [Array.toList_append, List.filter_append]
  rfl

theorem errors_dispatch_command (instruction : Instruction) :
    (pipeline.dispatch setup instruction.command).errors =
      ((pipeline.failure? setup instruction).map instruction.command.failureEvent).toList := by
  rw [errors_dispatch]
  cases instruction with
  | store key value =>
    apply errors_report
    rw [set_eq]
    apply errors_perform
  | delete key =>
    apply errors_report
    apply errors_perform
  | load key target =>
    have hevents := errors_perform pipeline (.load key none)
    rw [← events_get setup] at hevents
    unfold Dispatched.errors
    simp only [Instruction.command, failure?, Outcome.error?, handle]
    cases hget : (pipeline.get setup key).result with
    | ok value => exact hevents
    | error e =>
      dsimp only
      rw [Array.toList_push, List.filter_append, hevents]
      cases hread : e.isUnrecoverable with
      | true => simp [Command.readFailureEvent, Option.filter, hread]
      | false => simp [Command.readFailureEvent, Option.filter, hread, Command.failureEvent]

theorem failure?_load_of_present {key entry : String} (target : Option String)
    (hkey : key.utf8ByteSize ≤ Bytecode.maxOperand)
    (hentry : pipeline.store.get? key = some entry) :
    (pipeline.failure? setup (.load key target)).isSome = true ↔
      Envelope.Unreadable (pipeline.session.activeKey setup.supply) entry := by
  rw [Session.unreadable_iff]
  simp only [failure?, Outcome.error?]
  cases hdecrypt : (pipeline.session.decrypt setup.supply entry).1 with
  | ok text =>
    rw [result_get_of_decrypt_eq_ok _ hkey hentry hdecrypt]
    simp
  | error e =>
    rw [result_get_of_decrypt_eq_error _ hkey hentry hdecrypt]
    cases hauth : e.isAuthenticationFailure with
    | true => simp [Option.filter, VaultError.isUnrecoverable, hauth]
    | false => simp [Option.filter, VaultError.isUnrecoverable, hauth]

theorem failure?_load_iff {key : String} (target : Option String)
    (hkey : key.utf8ByteSize ≤ Bytecode.maxOperand) :
    (pipeline.failure? setup (.load key target)).isSome = true ↔
      ∃ entry, pipeline.store.get? key = some entry ∧
        Envelope.Unreadable (pipeline.session.activeKey setup.supply) entry := by
  cases hentry : pipeline.store.get? key with
  | none =>
    simp only [failure?, Outcome.error?]
    rw [get_of_absent _ _ hkey hentry]
    simp
  | some entry =>
    rw [failure?_load_of_present _ _ target hkey hentry]
    simp

/--
A script replies and leaves behind what its commands do one after the other up to the first failure.
An instruction fails exactly if its command logs an error, and then with that error; a load does if
the stored text is not readable.
-/
theorem dispatch_script_eq_replay (source : String) :
    let run := pipeline.dispatch setup (.script source)
    match Source.parse setup.config.maxScriptLines.toNat source with
    | .error e => run.reply = some (.loads (.error (.source e))) ∧ run.pipeline = pipeline
    | .ok program =>
      run.reply = some (.loads (pipeline.replay setup program).1) ∧
        run.pipeline = (pipeline.replay setup program).2 ∧
        (∀ before : Pipeline, ∀ instruction ∈ program,
          (before.dispatch setup instruction.command).errors =
            ((before.failure? setup instruction).map instruction.command.failureEvent).toList) ∧
        ∀ (before : Pipeline) (key : String) (target : Option String),
          .load key target ∈ program →
          ((before.failure? setup (.load key target)).isSome = true ↔
            ∃ entry, before.store.get? key = some entry ∧
              Envelope.Unreadable (before.session.activeKey setup.supply) entry) := by
  simp only [dispatch, handle]
  cases hparse : Source.parse setup.config.maxScriptLines.toNat source with
  | error e =>
    rw [script_of_parse_eq_error _ _ hparse]
    exact ⟨rfl, rfl⟩
  | ok program =>
    obtain ⟨hresult, hafter⟩ := steps_eq_replay setup pipeline program
    rw [script_eq_steps _ _ hparse, hresult]
    refine ⟨rfl, hafter, ?_, ?_⟩
    · intro before instruction _
      exact errors_dispatch_command setup before instruction
    · intro before key target hmem
      have hkey := Source.encodable_of_parse hparse hmem key (by simp [Instruction.operands])
      exact failure?_load_iff setup before target hkey

end Pipeline

end SealedVault
