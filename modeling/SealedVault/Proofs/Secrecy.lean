import Mathlib.Data.List.Forall2
import SealedVault.Proofs.Log
import SealedVault.Proofs.Reference
import SealedVault.Proofs.Script

/-!
This module contains two runs side by side, of commands that differ in their values alone. Main
statements: `Twins.dispatch`, so such commands leave the same events and stores of the same keys
behind, and `log_eq_of_resembles`, so the logs of the two runs are equal.
-/

namespace SealedVault

/-- The instructions do the same, apart from targets and from values of equal size. -/
inductive Instruction.Resembles : Instruction → Instruction → Prop where
  | store (key : String) {value other : String} (h : value.utf8ByteSize = other.utf8ByteSize) :
    Resembles (.store key value) (.store key other)
  | load (key : String) (target other : Option String) :
    Resembles (.load key target) (.load key other)
  | delete (key : String) : Resembles (.delete key) (.delete key)

/-- The commands are equal, or they differ in values of equal size. -/
inductive Command.Resembles (maxLines : Nat) : Command → Command → Prop where
  | refl (command : Command) : Resembles maxLines command command
  | set (key : String) {value other : String} (h : value.utf8ByteSize = other.utf8ByteSize) :
    Resembles maxLines (.set key value) (.set key other)
  | script {source other : String} {program twin : List Instruction}
    (hsource : Source.parse maxLines source = .ok program)
    (hother : Source.parse maxLines other = .ok twin)
    (h : List.Forall₂ Instruction.Resembles program twin) :
    Resembles maxLines (.script source) (.script other)

theorem Instruction.resembles_refl (instruction : Instruction) :
    instruction.Resembles instruction := by
  cases instruction with
  | store key value => exact .store key rfl
  | load key target => exact .load key target target
  | delete key => exact .delete key

theorem Command.Resembles.name_eq {maxLines : Nat} {command resembling : Command}
    (h : command.Resembles maxLines resembling) : command.name = resembling.name := by
  cases h with
  | refl => rfl
  | set => rfl
  | script => rfl

namespace Pipeline

/-- Every text in the store is an envelope under the key of the session. -/
def Sealed (setup : Setup) (pipeline : Pipeline) : Prop :=
  ∃ values, Mirrors (pipeline.session.activeKey setup.supply) pipeline.store values

section Sealed

variable {setup : Setup} {pipeline : Pipeline} (h : pipeline.Sealed setup)
include h

theorem sealed_set (key value : String) : (pipeline.set setup key value).pipeline.Sealed setup := by
  obtain ⟨values, hmirrors⟩ := h
  cases hover : Reference.overflow? key value with
  | some size => exact ⟨_, mirrors_set_of_overflow hmirrors hover⟩
  | none => exact ⟨_, mirrors_set_of_fits hmirrors hover⟩

theorem sealed_get (key : String) : (pipeline.get setup key).pipeline.Sealed setup := by
  obtain ⟨values, hmirrors⟩ := h
  exact ⟨values, mirrors_get hmirrors key⟩

theorem sealed_delete (key : String) : (pipeline.delete key).pipeline.Sealed setup := by
  obtain ⟨values, hmirrors⟩ := h
  exact ⟨_, mirrors_delete hmirrors key⟩

theorem exists_result_get {key : String} (hkey : key.utf8ByteSize ≤ Bytecode.maxOperand) :
    ∃ value, (pipeline.get setup key).result = .ok value := by
  obtain ⟨values, hmirrors⟩ := h
  exact ⟨_, get_of_mirrors hmirrors hkey⟩

end Sealed

/-- Two pipelines that know the same keys, and can open what they hold under them. -/
structure Twins (setup other : Setup) (pipeline twin : Pipeline) : Prop where
  sealed_left : pipeline.Sealed setup
  sealed_right : twin.Sealed other
  alike : pipeline.store.Alike twin.store

/-- Two steps that leave twins behind, and of which the log tells the same. -/
structure Outcome.Twins (setup other : Setup) (outcome : Outcome α) (twin : Outcome β) :
    Prop where
  error?_eq : outcome.error? = twin.error?
  events_eq : outcome.events = twin.events
  pipelines : Pipeline.Twins setup other outcome.pipeline twin.pipeline

variable {setup other : Setup} {pipeline twin : Pipeline}

theorem Outcome.Twins.map {outcome : Outcome α} {twin : Outcome β}
    (h : outcome.Twins setup other twin) (f : α → γ) (g : β → δ) :
    (outcome.map f).Twins setup other (twin.map g) where
  error?_eq := by rw [error?_map, error?_map, h.error?_eq]
  events_eq := h.events_eq
  pipelines := h.pipelines

namespace Outcome.Twins

variable {outcome : Outcome α} {twin : Outcome β}

-- The pipelines and events are variables here, so that nothing tempts the kernel to compute them

theorem succeed (h : outcome.Twins setup other twin) (a : γ) (b : δ) :
    Outcome.Twins setup other ⟨.ok a, outcome.pipeline, outcome.events⟩
      ⟨.ok b, twin.pipeline, twin.events⟩ where
  error?_eq := rfl
  events_eq := h.events_eq
  pipelines := h.pipelines

theorem fail (h : outcome.Twins setup other twin) (e : VaultError) :
    Outcome.Twins (α := γ) (β := δ) setup other ⟨.error e, outcome.pipeline, outcome.events⟩
      ⟨.error e, twin.pipeline, twin.events⟩ where
  error?_eq := rfl
  events_eq := h.events_eq
  pipelines := h.pipelines

theorem prepend (h : outcome.Twins setup other twin) {next : Outcome γ} {nextTwin : Outcome δ}
    (hnext : next.Twins setup other nextTwin) (f : γ → ε) (g : δ → ζ) :
    Outcome.Twins setup other ⟨next.result.map f, next.pipeline, outcome.events ++ next.events⟩
      ⟨nextTwin.result.map g, nextTwin.pipeline, twin.events ++ nextTwin.events⟩ where
  error?_eq := (hnext.map f g).error?_eq
  events_eq := by rw [h.events_eq, hnext.events_eq]
  pipelines := hnext.pipelines

end Outcome.Twins

theorem overflow?_congr (key : String) {value text : String}
    (h : value.utf8ByteSize = text.utf8ByteSize) : overflow? key value = overflow? key text := by
  unfold overflow?
  rw [h]

theorem executedEvent_congr (offset : Nat) {a b : Instruction} (hopcode : a.opcode = b.opcode)
    (hkey : a.key = b.key) :
    Interpreter.executedEvent offset a = Interpreter.executedEvent offset b := by
  unfold Interpreter.executedEvent
  rw [hopcode, hkey]

theorem events_perform (pipeline twin : Pipeline) {a b : Instruction}
    (hopcode : a.opcode = b.opcode) (hkey : a.key = b.key) (hfits : a.Encodable ↔ b.Encodable) :
    (pipeline.perform a).events = (twin.perform b).events := by
  by_cases ha : a.Encodable
  · rw [perform_of_encodable _ ha, perform_of_encodable _ (hfits.1 ha)]
    exact congrArg (#[].push ·) (executedEvent_congr 0 hopcode hkey)
  · cases hencode : a.encode with
    | ok bytes => exact absurd (Instruction.encode_eq_ok_iff.1 hencode).1 ha
    | error e =>
      cases hother : b.encode with
      | ok bytes => exact absurd (hfits.2 (Instruction.encode_eq_ok_iff.1 hother).1) ha
      | error e' =>
        rw [perform_of_encode_eq_error _ hencode, perform_of_encode_eq_error _ hother]

theorem events_perform_store (pipeline twin : Pipeline) (key : String) {value text : String}
    (h : value.utf8ByteSize = text.utf8ByteSize) :
    (pipeline.perform (.store key value)).events = (twin.perform (.store key text)).events := by
  apply events_perform
  · rfl
  · rfl
  · simp [Instruction.Encodable, Instruction.operands, h]

namespace Twins

variable (h : Twins setup other pipeline twin)
include h

theorem set (key : String) {value text : String} (hsize : value.utf8ByteSize = text.utf8ByteSize) :
    (pipeline.set setup key value).Twins setup other (twin.set other key text) where
  error?_eq := by rw [error?_set, error?_set, overflow?_congr key hsize]
  events_eq := by
    rw [set_eq, set_eq]
    apply events_perform_store
    unfold envelopeOf
    rw [Envelope.utf8ByteSize_spell, Envelope.utf8ByteSize_spell, hsize]
  pipelines := by
    refine ⟨sealed_set h.sealed_left key value, sealed_set h.sealed_right key text, ?_⟩
    rw [store_set, store_set, overflow?_congr key hsize]
    split
    · exact h.alike
    · exact h.alike.insert key _ _

theorem delete (key : String) :
    (pipeline.delete key).Twins setup other (twin.delete key) := by
  have hleft := sealed_delete h.sealed_left key
  have hright := sealed_delete h.sealed_right key
  by_cases hkey : Bytecode.maxOperand < key.utf8ByteSize
  · rw [delete_of_oversized _ hkey] at hleft ⊢
    rw [delete_of_oversized _ hkey] at hright ⊢
    exact ⟨rfl, rfl, hleft, hright, h.alike⟩
  · rw [delete_of_fits _ (Nat.not_lt.1 hkey)] at hleft ⊢
    rw [delete_of_fits _ (Nat.not_lt.1 hkey)] at hright ⊢
    exact ⟨rfl, rfl, hleft, hright, h.alike.erase key⟩

theorem get (key : String) : (pipeline.get setup key).Twins setup other (twin.get other key) where
  error?_eq := by
    by_cases hkey : Bytecode.maxOperand < key.utf8ByteSize
    · rw [get_of_oversized _ _ hkey, get_of_oversized _ _ hkey]
      rfl
    · obtain ⟨value, hvalue⟩ := exists_result_get h.sealed_left (Nat.not_lt.1 hkey)
      obtain ⟨text, htext⟩ := exists_result_get h.sealed_right (Nat.not_lt.1 hkey)
      unfold Outcome.error?
      rw [hvalue, htext]
  events_eq := by
    rw [events_get, events_get]
    exact events_perform _ _ rfl rfl Iff.rfl
  pipelines := by
    refine ⟨sealed_get h.sealed_left key, sealed_get h.sealed_right key, ?_⟩
    rw [store_get, store_get]
    exact h.alike

theorem step {instruction resembling : Instruction} (hlike : instruction.Resembles resembling) :
    (pipeline.step setup instruction).Twins setup other (twin.step other resembling) := by
  cases hlike with
  | store key hsize => exact (h.set key hsize).map _ _
  | delete key => exact (h.delete key).map _ _
  | load key target remark =>
    by_cases hkey : Bytecode.maxOperand < key.utf8ByteSize
    · rw [step_load_of_oversized _ _ _ hkey, step_load_of_oversized _ _ _ hkey]
      exact ⟨rfl, rfl, h⟩
    · obtain ⟨value, hvalue⟩ := exists_result_get h.sealed_left (Nat.not_lt.1 hkey)
      obtain ⟨text, htext⟩ := exists_result_get h.sealed_right (Nat.not_lt.1 hkey)
      rw [step_of_get_eq_ok _ _ _ hvalue, step_of_get_eq_ok _ _ _ htext]
      exact (h.get key).succeed _ _

end Twins

theorem Twins.steps (h : Twins setup other pipeline twin) {program resembling : List Instruction}
    (hlike : List.Forall₂ Instruction.Resembles program resembling) :
    (pipeline.steps setup program).Twins setup other (twin.steps other resembling) := by
  induction hlike generalizing pipeline twin with
  | nil => exact ⟨rfl, rfl, h⟩
  | @cons first second _ _ hfirst _ ih =>
    have hstep := h.step hfirst
    have hother := hstep.error?_eq
    cases herror : (pipeline.step setup first).error? with
    | some e =>
      rw [herror] at hother
      have hleft := Outcome.error?_eq_some_iff.1 herror
      have hright := Outcome.error?_eq_some_iff.1 hother.symm
      rw [steps_cons_of_error _ _ _ hleft, steps_cons_of_error _ _ _ hright]
      exact hstep.fail e
    | none =>
      rw [herror] at hother
      obtain ⟨loads, hleft⟩ := Outcome.error?_eq_none_iff.1 herror
      obtain ⟨found, hright⟩ := Outcome.error?_eq_none_iff.1 hother.symm
      rw [steps_cons_of_ok _ _ _ hleft, steps_cons_of_ok _ _ _ hright]
      exact hstep.prepend (ih hstep.pipelines) (loads ++ ·) (found ++ ·)

theorem Twins.script (h : Twins setup other pipeline twin) (hconfig : setup.config = other.config)
    {source text : String}
    (hlike : (Command.script source).Resembles setup.config.maxScriptLines.toNat (.script text)) :
    (pipeline.script setup source).Twins setup other (twin.script other text) := by
  cases hlike with
  | script hsource htext hprograms =>
    rw [script_eq_steps _ _ hsource]
    rw [hconfig] at htext
    rw [script_eq_steps _ _ htext]
    exact h.steps hprograms
  | refl =>
    cases hsource : Source.parse setup.config.maxScriptLines.toNat source with
    | error e =>
      rw [script_of_parse_eq_error _ _ hsource]
      rw [hconfig] at hsource
      rw [script_of_parse_eq_error _ _ hsource]
      exact ⟨rfl, rfl, h⟩
    | ok program =>
      rw [script_eq_steps _ _ hsource]
      rw [hconfig] at hsource
      rw [script_eq_steps _ _ hsource]
      exact h.steps (List.forall₂_same.2 fun instruction _ => instruction.resembles_refl)

/-- Two commands that leave twins behind, and of which the log tells the same. -/
structure Dispatched.Twins (setup other : Setup) (dispatched twin : Dispatched) : Prop where
  events_eq : dispatched.events = twin.events
  pipelines : Pipeline.Twins setup other dispatched.pipeline twin.pipeline

/-- What the log tells of an outcome, if all of its failures are logged. -/
def Outcome.logged (failureEvent : VaultError → Event) (outcome : Outcome α) : Array Event :=
  outcome.events ++ (outcome.error?.map failureEvent).toArray

theorem Outcome.Twins.logged_eq {outcome : Outcome α} {twin : Outcome β}
    (h : outcome.Twins setup other twin) (failureEvent : VaultError → Event) :
    outcome.logged failureEvent = twin.logged failureEvent := by
  unfold logged
  rw [h.events_eq, h.error?_eq]

theorem events_report (outcome : Outcome Unit) (command : Command) :
    (outcome.report command).events = outcome.logged command.failureEvent := by
  obtain ⟨result, after, events⟩ := outcome
  cases result with
  | ok _ => rfl
  | error e => rfl

theorem Outcome.Twins.report {outcome twin : Outcome Unit} (h : outcome.Twins setup other twin)
    {command resembling : Command} (hlogged : command.failureEvent = resembling.failureEvent) :
    (outcome.report command).Twins setup other (twin.report resembling) where
  events_eq := by rw [events_report, events_report, h.logged_eq, hlogged]
  pipelines := h.pipelines

theorem events_handle_get (setup : Setup) (pipeline : Pipeline) (key : String) :
    (pipeline.handle setup (.get key)).events =
      (pipeline.get setup key).logged (Command.readFailureEvent key) := by
  simp only [handle]
  generalize pipeline.get setup key = outcome
  obtain ⟨result, after, events⟩ := outcome
  cases result with
  | ok _ => exact Array.append_empty.symm
  | error e => exact Array.push_eq_append

theorem events_handle_script (setup : Setup) (pipeline : Pipeline) (source : String) :
    (pipeline.handle setup (.script source)).events =
      (pipeline.script setup source).logged (Command.script source).failureEvent := by
  simp only [handle]
  generalize pipeline.script setup source = outcome
  obtain ⟨result, after, events⟩ := outcome
  cases result with
  | ok _ => rfl
  | error e => rfl

theorem exists_clear_eq (pipeline : Pipeline) (h : setup.restorer = .resetStore) :
    ∃ restorations, pipeline.clear setup =
      ⟨{ pipeline with store := .empty, restorations }, none,
        #[Restorer.recreatingEvent pipeline.store]⟩ := by
  unfold clear
  rw [h]
  exact ⟨_, rfl⟩

namespace Twins

variable (h : Twins setup other pipeline twin)
include h

theorem handle_get (key : String) :
    (pipeline.handle setup (.get key)).Twins setup other (twin.handle other (.get key)) where
  events_eq := by rw [events_handle_get, events_handle_get, (h.get key).logged_eq]
  pipelines := by
    have := (h.get key).pipelines
    rw [← pipeline_dispatch_get, ← pipeline_dispatch_get] at this
    exact this

section Clear

variable (hsetup : setup.restorer = .resetStore) (hother : other.restorer = .resetStore)
include hsetup hother

theorem clear : (pipeline.clear setup).Twins setup other (twin.clear other) := by
  obtain ⟨_, hclear⟩ := exists_clear_eq pipeline hsetup
  obtain ⟨_, htwin⟩ := exists_clear_eq twin hother
  rw [hclear, htwin]
  refine ⟨?_, ⟨.empty, .empty _⟩, ⟨.empty, .empty _⟩, .refl .empty⟩
  unfold Restorer.recreatingEvent
  rw [h.alike.size_eq]

variable (hconfig : setup.config = other.config) {command resembling : Command}
  (hlike : command.Resembles setup.config.maxScriptLines.toNat resembling)
include hconfig hlike

theorem handle :
    (pipeline.handle setup command).Twins setup other (twin.handle other resembling) := by
  cases command with
  | set key value =>
    cases hlike with
    | refl => exact (h.set key rfl).report rfl
    | set _ hsize => exact (h.set key hsize).report rfl
  | get key =>
    cases hlike with
    | refl => exact h.handle_get key
  | delete key =>
    cases hlike with
    | refl => exact (h.delete key).report rfl
  | clear =>
    cases hlike with
    | refl => exact h.clear hsetup hother
  | flush =>
    cases hlike with
    | refl => exact ⟨rfl, h⟩
  | script source =>
    obtain ⟨text, rfl⟩ : ∃ text, resembling = .script text := by
      cases hlike with
      | refl => exact ⟨source, rfl⟩
      | script => exact ⟨_, rfl⟩
    have hscript := h.script hconfig hlike
    refine ⟨?_, hscript.pipelines⟩
    rw [events_handle_script, events_handle_script, hscript.logged_eq]
    rfl

theorem dispatch :
    (pipeline.dispatch setup command).Twins setup other (twin.dispatch other resembling) := by
  have hhandle := h.handle hsetup hother hconfig hlike
  refine ⟨?_, hhandle.pipelines⟩
  have hevent : command.dispatchEvent = resembling.dispatchEvent := by
    unfold Command.dispatchEvent
    rw [hlike.name_eq]
  simp only [Pipeline.dispatch]
  rw [hevent, hhandle.events_eq]

end Clear

end Twins

section Runs

variable (h : Twins setup other pipeline twin) (hsetup : setup.restorer = .resetStore)
  (hother : other.restorer = .resetStore) (hconfig : setup.config = other.config)
  {commands resembling : List Command}
  (hlike : List.Forall₂ (Command.Resembles setup.config.maxScriptLines.toNat) commands resembling)
include h hsetup hother hconfig hlike

theorem Twins.after :
    Twins setup other (pipeline.after setup commands) (twin.after other resembling) := by
  induction hlike generalizing pipeline twin with
  | nil => exact h
  | cons hfirst _ ih => exact ih (h.dispatch hsetup hother hconfig hfirst).pipelines

theorem Twins.events_eq :
    pipeline.events setup commands = twin.events other resembling := by
  induction hlike generalizing pipeline twin with
  | nil => rfl
  | cons hfirst _ ih =>
    have hdispatch := h.dispatch hsetup hother hconfig hfirst
    rw [events, events, hdispatch.events_eq, ih hdispatch.pipelines]

end Runs

theorem twins_new (setup other : Setup) : Twins setup other .new .new where
  sealed_left := ⟨.empty, .empty _⟩
  sealed_right := ⟨.empty, .empty _⟩
  alike := .refl .empty

end Pipeline

namespace Vault

/--
The log tells nothing of a value but its size, and nothing of the session key and the initialisation
vectors. The closing event is part of it.
-/
theorem log_eq_of_resembles {config : Config} {left right : Supply} {moves others : List Move}
    {vault other : Vault} (runs : Runs ⟨config, left, .resetStore⟩ .new moves vault)
    (hother : Runs ⟨config, right, .resetStore⟩ .new others other)
    (hlike : List.Forall₂ (Command.Resembles config.maxScriptLines.toNat)
      (submitted moves) (submitted others))
    (hqueue : vault.queue.length = other.queue.length) (hstatus : vault.status = other.status) :
    vault.log = other.log := by
  obtain ⟨record, hrecord⟩ := exists_recorded_of_runs runs
  obtain ⟨twin, htwin⟩ := exists_recorded_of_runs hother
  have hleft := Consistent.of_recorded hrecord
  have hright := Consistent.of_recorded htwin
  rw [hleft.submitted_eq, hright.submitted_eq] at hlike
  -- The commands that were processed are equally many, so they resemble each other one by one
  have hlength : record.dispatched.length = twin.dispatched.length := by
    have := hlike.length_eq
    simp only [List.length_append, List.length_map] at this
    omega
  have hdispatched := List.forall₂_take_append _ _ _ hlike
  rw [← hlength, List.take_left] at hdispatched
  have hnew := Pipeline.twins_new ⟨config, left, .resetStore⟩ ⟨config, right, .resetStore⟩
  have hafter := hnew.after rfl rfl rfl hdispatched
  rw [← hleft.pipeline_eq, ← hright.pipeline_eq] at hafter
  have hclosing : vault.closing = other.closing := by
    unfold closing finishedEvent
    rw [hstatus, hafter.alike.size_eq]
  rw [log_of_recorded hrecord, log_of_recorded htwin, hclosing,
    hnew.events_eq rfl rfl rfl hdispatched]

/-- Two vaults with other keys, given other values of the same sizes, until they finish. -/
theorem log_eq_of_resembles_finished :
    let setup (i : Nat) : Setup := ⟨default, .numbered i, .resetStore⟩
    let moves (value source : String) : List Move :=
      [.submit (.set "key" value), .submit (.script source), .dropHandle, .process, .process,
        .finish]
    ∃ vault other,
      Runs (setup 0) .new (moves "one" "STOREFAV key 12") vault ∧
        Runs (setup 1) .new (moves "two" "STOREFAV key 34") other ∧
        vault.status = .finished ∧ vault.log = other.log := by
  intro setup moves
  have exists_runs (i : Nat) (value source : String) :
      ∃ vault, Runs (setup i) .new (moves value source) vault ∧
        vault.queue = [] ∧ vault.status = .finished := by
    refine ⟨_, .cons (.submit _ _ Nat.one_pos) (.cons (.submit _ _ Nat.one_pos)
      (.cons (.dropHandle _ Nat.one_pos) (.cons (.process _ _ rfl) (.cons (.process _ _ rfl)
      (.cons (.finish _ _ rfl) (.nil _)))))), rfl, rfl⟩
  obtain ⟨vault, runs, hqueue, hstatus⟩ := exists_runs 0 "one" "STOREFAV key 12"
  obtain ⟨other, hruns, hempty, hfinished⟩ := exists_runs 1 "two" "STOREFAV key 34"
  refine ⟨vault, other, runs, hruns, hstatus, ?_⟩
  apply log_eq_of_resembles runs hruns
  · have hset : (Command.set "key" "one").Resembles 10000 (.set "key" "two") := .set "key" rfl
    have hsource : Source.parse 10000 "STOREFAV key 12" = .ok [.store "key" "12"] := rfl
    have htwin : Source.parse 10000 "STOREFAV key 34" = .ok [.store "key" "34"] := rfl
    have hscript := Command.Resembles.script hsource htwin (.cons (.store "key" rfl) .nil)
    exact .cons hset (.cons hscript .nil)
  · rw [hqueue, hempty]
  · rw [hstatus, hfinished]

end Vault

end SealedVault
