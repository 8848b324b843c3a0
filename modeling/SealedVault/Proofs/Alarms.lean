import SealedVault.Proofs.Opening
import SealedVault.Proofs.Restoration
import SealedVault.Proofs.Secrecy

/-!
This module contains the warnings and the errors in the log. Main statements: `length_warnings_steps`,
so a script warns once for every load that it rejects, and `alarms_dispatch`, so whatever goes wrong
with a command is logged once, and nothing else is.
-/

namespace SealedVault

/-- One event if the condition holds, and none otherwise. -/
def OneIff (events : List Event) (condition : Prop) : Prop :=
  (condition → events.length = 1) ∧ (¬ condition → events = [])

theorem OneIff.not_of_eq_nil {events : List Event} {condition : Prop} (h : OneIff events condition)
    (hnil : events = []) : ¬ condition := by
  intro hcondition
  have := h.1 hcondition
  rw [hnil] at this
  cases this

theorem oneIff_toList {event? : Option Event} {condition : Prop}
    (h : event?.isSome = true ↔ condition) : OneIff event?.toList condition := by
  unfold OneIff
  rw [← h]
  cases event? with
  | none => exact ⟨nofun, fun _ => rfl⟩
  | some event => exact ⟨fun _ => rfl, fun hnone => absurd rfl hnone⟩

/-- The events of a level, in order. -/
def eventsOf (level : Level) (events : Array Event) : List Event :=
  events.toList.filter (·.level = level)

section EventsOf

variable {level : Level}

theorem eventsOf_append (events more : Array Event) :
    eventsOf level (events ++ more) = eventsOf level events ++ eventsOf level more := by
  unfold eventsOf
  rw [Array.toList_append, List.filter_append]

theorem eventsOf_eq_nil {events : Array Event} (h : ∀ event ∈ events, event.level ≠ level) :
    eventsOf level events = [] := by
  unfold eventsOf
  rw [List.filter_eq_nil_iff]
  intro event hmem
  simpa using h event (Array.mem_toList_iff.1 hmem)

end EventsOf

/-- What may be logged before a command fails: any warnings are about stored values. -/
structure Event.Benign (event : Event) : Prop where
  ne_error : event.level ≠ .error
  of_warn : event.level = .warn → event.message = "stored value not recoverable"

/-- The restorer logs no warning and no error of its own. -/
def Restorer.Quiet (restorer : Restorer) : Prop :=
  ∀ calls store event, .log event ∈ (restorer calls store).actions →
    event.level ≠ .warn ∧ event.level ≠ .error

theorem Restorer.quiet_resetStore : resetStore.Quiet := by
  intro calls store event hmem
  simp only [resetStore, List.mem_cons, Action.log.injEq, reduceCtorEq, List.not_mem_nil,
    or_false] at hmem
  rw [hmem]
  dsimp only [recreatingEvent]
  decide

namespace Envelope

/-- The stored text is canonical Base64, of bytes that the key does not authenticate. -/
def Rejected (key : Key) (entry : String) : Prop :=
  ∃ bytes, entry = Base64.encode bytes ∧ (bytes.length < 28 ∨ Forged key bytes)

theorem rejected_iff_isOk {key : Key} {entry : String} :
    Rejected key entry ↔
      ((Base64.decode? entry).any fun bytes => !(openUnder key bytes).isOk) = true := by
  simp only [Rejected, ← Base64.decode?_eq_some_iff, ← openUnder_eq_error_iff]
  cases Base64.decode? entry with
  | none => simp
  | some bytes =>
    simp only [Option.some.injEq, exists_eq_left', Option.any_some]
    cases openUnder key bytes with
    | error e => simp [Except.isOk, Except.toBool]
    | ok plaintext => simp [Except.isOk, Except.toBool]

instance (key : Key) (entry : String) : Decidable (Rejected key entry) :=
  decidable_of_iff _ rejected_iff_isOk.symm

/-- Three bytes are too few for an envelope. -/
theorem rejected_of_short (key : Key) : Rejected key "AAAA" :=
  ⟨[0, 0, 0], rfl, .inl (by decide)⟩

end Envelope

theorem utf8ByteSize_replicate (n : Nat) :
    (String.ofList (List.replicate n 'k')).utf8ByteSize = n := by
  unfold String.utf8ByteSize
  rw [String.toByteArray_ofList]
  induction n with
  | zero => rfl
  | succ n ih =>
    rw [List.replicate_succ, Base64.size_utf8Encode_cons, ih, Nat.add_comm]
    rfl

theorem Session.rejected_iff (session : Session) (supply : Supply) {entry : String} :
    Envelope.Rejected (session.activeKey supply) entry ↔
      ∃ e, (session.decrypt supply entry).1 = .error e ∧ e.isAuthenticationFailure = true := by
  constructor
  · rintro ⟨bytes, rfl, hbytes⟩
    obtain ⟨reason, hreason⟩ := decrypt_encode_of_rejected hbytes
    exact ⟨_, hreason, rfl⟩
  · rintro ⟨e, he, hauth⟩
    have hverdict := verdict_decrypt session supply entry
    rw [he] at hverdict
    cases hverdict with
    | misspelled => cases hauth
    | rejected bytes reason hentry hbytes => exact ⟨bytes, hentry, hbytes⟩
    | garbled => cases hauth

namespace Pipeline

def Dispatched.warnings (dispatched : Dispatched) : List Event :=
  eventsOf .warn dispatched.events

theorem eventsOf_error (dispatched : Dispatched) :
    eventsOf .error dispatched.events = dispatched.errors := by
  rfl

variable (setup : Setup) (pipeline : Pipeline)

/-- The key has an entry that the session does not authenticate. -/
def Rejects (key : String) : Prop :=
  ∃ entry, pipeline.store.get? key = some entry ∧
    Envelope.Rejected (pipeline.session.activeKey setup.supply) entry

/-- The key has an entry that the session cannot read for any other reason. -/
def Misreads (key : String) : Prop :=
  ∃ entry, pipeline.store.get? key = some entry ∧
    Envelope.Unreadable (pipeline.session.activeKey setup.supply) entry

instance (key : String) : Decidable (pipeline.Rejects setup key) :=
  inferInstanceAs (Decidable (∃ entry ∈ pipeline.store.get? key, Envelope.Rejected _ entry))

/-- The warning that is due if a key is read now. -/
def warning? (key : String) : Option Event :=
  ((pipeline.get setup key).error?.filter (·.isUnrecoverable)).map (Command.readFailureEvent key)

theorem isSome_warning?_iff {key : String} (hkey : key.utf8ByteSize ≤ Bytecode.maxOperand) :
    (pipeline.warning? setup key).isSome = true ↔ pipeline.Rejects setup key := by
  unfold warning? Rejects
  cases hentry : pipeline.store.get? key with
  | none =>
    rw [get_of_absent _ _ hkey hentry]
    simp [Outcome.error?]
  | some entry =>
    simp only [Option.some.injEq, exists_eq_left', Session.rejected_iff, Outcome.error?]
    cases hdecrypt : (pipeline.session.decrypt setup.supply entry).1 with
    | ok text =>
      rw [result_get_of_decrypt_eq_ok _ hkey hentry hdecrypt]
      simp
    | error e =>
      rw [result_get_of_decrypt_eq_error _ hkey hentry hdecrypt]
      cases hauth : e.isAuthenticationFailure with
      | true => simp [Option.filter, VaultError.isUnrecoverable, hauth]
      | false => simp [Option.filter, VaultError.isUnrecoverable, hauth]

theorem warning?_of_oversized {key : String} (hkey : Bytecode.maxOperand < key.utf8ByteSize) :
    pipeline.warning? setup key = none := by
  unfold warning?
  rw [get_of_oversized _ _ hkey]
  rfl

theorem warning?_eq_some {key : String} {event : Event}
    (h : pipeline.warning? setup key = some event) :
    event.level = .warn ∧ event.message = "stored value not recoverable" := by
  obtain ⟨e, he, rfl⟩ := Option.map_eq_some_iff.1 h
  obtain ⟨-, hread⟩ := Option.filter_eq_some_iff.1 he
  unfold Command.readFailureEvent
  rw [if_pos hread]
  exact ⟨rfl, rfl⟩

theorem warnings_warning? (key : String) :
    eventsOf .warn (pipeline.warning? setup key).toArray =
      (pipeline.warning? setup key).toList := by
  cases hwarning : pipeline.warning? setup key with
  | none => rfl
  | some event => simp [eventsOf, (warning?_eq_some _ _ hwarning).1]

theorem benign_of_mem_perform {instruction : Instruction} {event : Event}
    (h : event ∈ (pipeline.perform instruction).events) : event.Benign := by
  have hlevel := level_of_mem_perform pipeline h
  constructor
  · rw [hlevel]
    decide
  · intro hwarn
    rw [hlevel] at hwarn
    cases hwarn

theorem warnings_perform (instruction : Instruction) :
    eventsOf .warn (pipeline.perform instruction).events = [] := by
  apply eventsOf_eq_nil
  intro event hmem
  rw [level_of_mem_perform _ hmem]
  decide

theorem warnings_logged (outcome : Outcome α) (command : Command) :
    eventsOf .warn (outcome.logged command.failureEvent) = eventsOf .warn outcome.events := by
  unfold Outcome.logged
  rw [eventsOf_append]
  cases outcome.error? with
  | none => exact List.append_nil _
  | some e => exact List.append_nil _

theorem warnings_dispatch (command : Command) :
    (pipeline.dispatch setup command).warnings =
      eventsOf .warn (pipeline.handle setup command).events := by
  unfold Dispatched.warnings dispatch
  rw [eventsOf_append]
  rfl

theorem warnings_dispatch_set (key value : String) :
    (pipeline.dispatch setup (.set key value)).warnings = [] := by
  rw [warnings_dispatch, handle, events_report, warnings_logged, set_eq]
  apply warnings_perform

theorem warnings_dispatch_delete (key : String) :
    (pipeline.dispatch setup (.delete key)).warnings = [] := by
  rw [warnings_dispatch, handle, events_report, warnings_logged]
  apply warnings_perform

theorem warnings_dispatch_get (key : String) :
    (pipeline.dispatch setup (.get key)).warnings = (pipeline.warning? setup key).toList := by
  rw [warnings_dispatch, events_handle_get, Outcome.logged, eventsOf_append, events_get,
    warnings_perform, List.nil_append]
  unfold warning?
  cases (pipeline.get setup key).error? with
  | none => rfl
  | some e =>
    cases hread : e.isUnrecoverable with
    | true => simp [eventsOf, Command.readFailureEvent, Option.filter, hread]
    | false =>
      simp [eventsOf, Command.readFailureEvent, Command.failureEvent, Option.filter, hread]

/-- A load of a script warns as a get does, but does not tell of its failure. -/
theorem events_step_load (key : String) (target : Option String) :
    (pipeline.step setup (.load key target)).events =
      (pipeline.get setup key).events ++ (pipeline.warning? setup key).toArray := by
  unfold step warning? Outcome.error?
  dsimp only
  generalize pipeline.get setup key = outcome
  obtain ⟨result, after, events⟩ := outcome
  cases result with
  | ok value => exact Array.append_empty.symm
  | error e =>
    dsimp only
    cases hread : e.isUnrecoverable with
    | true => simp [Option.filter, hread]
    | false => simp [Option.filter, hread]

theorem benign_of_mem_step {instruction : Instruction} {event : Event}
    (h : event ∈ (pipeline.step setup instruction).events) : event.Benign := by
  cases instruction with
  | store key value =>
    simp only [step, set_eq, Outcome.map] at h
    exact benign_of_mem_perform _ h
  | delete key => exact benign_of_mem_perform pipeline h
  | load key target =>
    rw [events_step_load, events_get, Array.mem_append] at h
    obtain h | h := h
    · exact benign_of_mem_perform pipeline h
    · obtain ⟨hlevel, hmessage⟩ := warning?_eq_some _ _ (Option.mem_toArray.1 h)
      refine ⟨?_, fun _ => hmessage⟩
      rw [hlevel]
      decide

/-- The instructions of a program that are run, each with what it is run on. -/
def trail (pipeline : Pipeline) : List Instruction → List (Pipeline × Instruction)
  | [] => []
  | instruction :: rest =>
    let next := pipeline.step setup instruction
    (pipeline, instruction) ::
      match next.error? with
      | some _ => []
      | none => next.pipeline.trail rest

/-- The instruction is a load of an entry that the session does not authenticate. -/
def RejectsLoad (setup : Setup) : Pipeline × Instruction → Prop
  | (pipeline, .load key _) => pipeline.Rejects setup key
  | _ => False

instance (setup : Setup) (run : Pipeline × Instruction) : Decidable (RejectsLoad setup run) :=
  match run with
  | (pipeline, .load key _) => inferInstanceAs (Decidable (pipeline.Rejects setup key))
  | (_, .store ..) => .isFalse id
  | (_, .delete _) => .isFalse id

theorem length_warnings_step {instruction : Instruction} (hfits : instruction.Encodable) :
    (eventsOf .warn (pipeline.step setup instruction).events).length =
      if RejectsLoad setup (pipeline, instruction) then 1 else 0 := by
  cases instruction with
  | store key value =>
    simp only [step, set_eq, Outcome.map]
    rw [warnings_perform]
    rfl
  | delete key =>
    simp only [step, delete, Outcome.map]
    rw [warnings_perform]
    rfl
  | load key target =>
    have hkey := hfits key List.mem_cons_self
    have hwarning : _ ↔ RejectsLoad setup (pipeline, .load key target) :=
      isSome_warning?_iff setup pipeline hkey
    rw [events_step_load, eventsOf_append, events_get, warnings_perform, List.nil_append,
      warnings_warning?]
    simp only [← hwarning]
    cases pipeline.warning? setup key with
    | none => rfl
    | some event => rfl

theorem length_warnings_steps {program : List Instruction}
    (hprogram : ∀ instruction ∈ program, instruction.Encodable) :
    (eventsOf .warn (pipeline.steps setup program).events).length =
      (pipeline.trail setup program).countP (RejectsLoad setup ·) := by
  induction program generalizing pipeline with
  | nil => rfl
  | cons instruction rest ih =>
    rw [List.forall_mem_cons] at hprogram
    obtain ⟨hfits, hrest⟩ := hprogram
    have hstep := length_warnings_step setup pipeline hfits
    rw [trail, List.countP_cons]
    simp only [decide_eq_true_eq]
    cases herror : (pipeline.step setup instruction).error? with
    | some e =>
      rw [steps_cons_of_error _ _ _ (Outcome.error?_eq_some_iff.1 herror), hstep]
      exact (Nat.zero_add _).symm
    | none =>
      obtain ⟨loads, hresult⟩ := Outcome.error?_eq_none_iff.1 herror
      rw [steps_cons_of_ok _ _ _ hresult]
      dsimp only
      rw [eventsOf_append, List.length_append, hstep, ih _ hrest, Nat.add_comm]

theorem benign_of_mem_script {source : String} {event : Event}
    (h : event ∈ (pipeline.script setup source).events) : event.Benign :=
  of_mem_script (fun _ _ _ => benign_of_mem_step setup _) h

theorem warnings_dispatch_script (source : String) :
    (pipeline.dispatch setup (.script source)).warnings =
      eventsOf .warn (pipeline.script setup source).events := by
  rw [warnings_dispatch, events_handle_script, warnings_logged]

theorem errors_dispatch_script (source : String) :
    (pipeline.dispatch setup (.script source)).errors =
      ((pipeline.script setup source).error?.map (Command.script source).failureEvent).toList := by
  have hevents : eventsOf .error (pipeline.script setup source).events = [] := by
    apply eventsOf_eq_nil
    intro event hmem
    exact (benign_of_mem_script _ _ hmem).ne_error
  rw [errors_dispatch, ← eventsOf_error, events_handle_script, Outcome.logged, eventsOf_append,
    hevents]
  cases (pipeline.script setup source).error? with
  | none => rfl
  | some e => rfl

end Pipeline

namespace Plan

theorem mem_of_mem_logged {actions : List Action} {event : Event} (h : event ∈ logged actions) :
    .log event ∈ actions := by
  fun_induction logged actions with
  | case1 => cases h
  | case2 other rest ih =>
    rcases List.mem_cons.1 h with rfl | hmem
    · exact List.mem_cons_self
    · exact List.mem_cons_of_mem _ (ih hmem)
  | case3 action rest _ ih => exact List.mem_cons_of_mem _ (ih h)

variable (plan : Plan) (limit : Duration) (store : Store)

theorem exists_logged_eq :
    ∃ before rest, plan.actions = before ++ rest ∧
      (plan.run limit store).1.events.toList = logged before := by
  by_cases h : limit.nanoseconds < waited plan.actions
  · obtain ⟨before, duration, rest, hactions, hwaited, hlimit⟩ := exists_wait limit h
    exact ⟨before, _, hactions, (plan.run_of_limit_lt limit store hactions hwaited hlimit).2.1⟩
  · exact ⟨plan.actions, [], (List.append_nil _).symm,
      (plan.run_of_waited_le limit store (Nat.not_lt.1 h)).2.1⟩

theorem run_ne_done_iff :
    (plan.run limit store).2 ≠ .done ↔
      limit.nanoseconds < waited plan.actions ∨ plan.ending ≠ .done := by
  by_cases h : limit.nanoseconds < waited plan.actions
  · obtain ⟨before, duration, rest, hactions, hwaited, hlimit⟩ := exists_wait limit h
    rw [(plan.run_of_limit_lt limit store hactions hwaited hlimit).2.2]
    exact ⟨fun _ => .inl h, fun _ => nofun⟩
  · rw [(plan.run_of_waited_le limit store (Nat.not_lt.1 h)).2.2]
    simp only [h, false_or]
    cases plan.ending with
    | done => exact ⟨fun hne => absurd rfl hne, fun hne => absurd rfl hne⟩
    | failed message => exact ⟨fun _ => nofun, fun _ => nofun⟩
    | panicked message => exact ⟨fun _ => nofun, fun _ => nofun⟩
    | never => exact ⟨fun _ => nofun, fun _ => nofun⟩

end Plan

namespace Pipeline

section Clear

variable {setup : Setup} (h : setup.restorer.Quiet) (pipeline : Pipeline)
include h

theorem eventsOf_dispatch_clear {level : Level} (hlevel : level = .warn ∨ level = .error) :
    eventsOf level (pipeline.dispatch setup .clear).events =
      ((pipeline.plan setup).run setup.config.operationTimeout
        pipeline.store).2.failureEvents.filter (·.level = level) := by
  obtain ⟨-, hevents⟩ := dispatch_clear setup pipeline
  obtain ⟨before, rest, hactions, hlogged⟩ :=
    (pipeline.plan setup).exists_logged_eq setup.config.operationTimeout pipeline.store
  have hquiet : (Plan.logged before).filter (·.level = level) = [] := by
    rw [List.filter_eq_nil_iff]
    intro event hmem
    have hlog : .log event ∈ (pipeline.plan setup).actions := by
      rw [hactions]
      exact List.mem_append_left _ (Plan.mem_of_mem_logged hmem)
    obtain ⟨hwarn, herror⟩ := h _ _ _ hlog
    obtain rfl | rfl := hlevel
    · simpa using hwarn
    · simpa using herror
  have hdispatch : ¬ Command.clear.dispatchEvent.level = level := by
    obtain rfl | rfl := hlevel
    · decide
    · decide
  unfold eventsOf
  rw [hevents, hlogged, List.filter_cons_of_neg (by simpa using hdispatch), List.filter_append,
    hquiet, List.nil_append]

theorem warnings_dispatch_clear : (pipeline.dispatch setup .clear).warnings = [] := by
  unfold Dispatched.warnings
  rw [eventsOf_dispatch_clear h pipeline (.inl rfl)]
  cases ((pipeline.plan setup).run _ _).2 with
  | done => rfl
  | failed error => rfl
  | panicked message => rfl

theorem oneIff_errors_dispatch_clear :
    OneIff (pipeline.dispatch setup .clear).errors
      (setup.config.operationTimeout.nanoseconds < Plan.waited (pipeline.plan setup).actions ∨
        (pipeline.plan setup).ending ≠ .done) := by
  rw [← Plan.run_ne_done_iff _ _ pipeline.store, ← eventsOf_error,
    eventsOf_dispatch_clear h pipeline (.inr rfl)]
  cases ((pipeline.plan setup).run _ _).2 with
  | done => exact ⟨fun hne => absurd rfl hne, fun _ => rfl⟩
  | failed error => exact ⟨fun _ => rfl, fun hne => absurd nofun hne⟩
  | panicked message => exact ⟨fun _ => rfl, fun hne => absurd nofun hne⟩

end Clear

variable (setup : Setup) (pipeline : Pipeline)

theorem message_of_mem_warnings (h : setup.restorer.Quiet) {command : Command} {event : Event}
    (hmem : event ∈ (pipeline.dispatch setup command).warnings) :
    event.message = "stored value not recoverable" := by
  cases command with
  | set key value =>
    rw [warnings_dispatch_set] at hmem
    cases hmem
  | delete key =>
    rw [warnings_dispatch_delete] at hmem
    cases hmem
  | clear =>
    rw [warnings_dispatch_clear h] at hmem
    cases hmem
  | flush => cases hmem
  | get key =>
    rw [warnings_dispatch_get] at hmem
    exact (warning?_eq_some _ _ (Option.mem_toList.1 hmem)).2
  | script source =>
    rw [warnings_dispatch_script] at hmem
    obtain ⟨hevent, hlevel⟩ := List.mem_filter.1 hmem
    apply (benign_of_mem_script _ _ (Array.mem_toList_iff.1 hevent)).of_warn
    simpa using hlevel

theorem haltedEvent_not_mem (h : setup.restorer.Quiet) (command : Command) (byte : UInt8)
    (offset : Nat) :
    Interpreter.haltedEvent byte offset ∉ (pipeline.dispatch setup command).events := by
  intro hmem
  have hwarning : Interpreter.haltedEvent byte offset ∈
      (pipeline.dispatch setup command).warnings :=
    List.mem_filter.2 ⟨Array.mem_toList_iff.2 hmem, rfl⟩
  have hmessage : "unknown opcode, halting" = "stored value not recoverable" :=
    message_of_mem_warnings _ _ h hwarning
  exact absurd hmessage (by decide)

theorem oneIff_errors_dispatch_command (instruction : Instruction) {condition : Prop}
    (h : (pipeline.failure? setup instruction).isSome = true ↔ condition) :
    OneIff (pipeline.dispatch setup instruction.command).errors condition := by
  rw [errors_dispatch_command]
  apply oneIff_toList
  rw [Option.isSome_map, h]

theorem isSome_failure?_delete_iff (key : String) :
    (pipeline.failure? setup (.delete key)).isSome = true ↔ 65535 < key.utf8ByteSize := by
  rw [failure?, error?_delete]
  split
  · next hkey => exact iff_of_true rfl hkey
  · next hkey => exact iff_of_false Bool.false_ne_true hkey

theorem isSome_failure?_load_iff (key : String) (target : Option String) :
    (pipeline.failure? setup (.load key target)).isSome = true ↔
      65535 < key.utf8ByteSize ∨ pipeline.Misreads setup key := by
  by_cases hkey : 65535 < key.utf8ByteSize
  · have hget := get_of_oversized setup pipeline hkey
    rw [failure?, hget]
    exact iff_of_true rfl (.inl hkey)
  · rw [failure?_load_iff _ _ _ (Nat.not_lt.1 hkey)]
    simp only [hkey, false_or]
    rfl

theorem oneIff_warnings_dispatch_get (key : String) :
    OneIff (pipeline.dispatch setup (.get key)).warnings
      (key.utf8ByteSize ≤ 65535 ∧ pipeline.Rejects setup key) := by
  rw [warnings_dispatch_get]
  apply oneIff_toList
  by_cases hkey : key.utf8ByteSize ≤ 65535
  · rw [isSome_warning?_iff _ _ hkey]
    exact ⟨fun h => ⟨hkey, h⟩, And.right⟩
  · rw [warning?_of_oversized _ _ (Nat.not_le.1 hkey)]
    exact iff_of_false Bool.false_ne_true fun h => hkey h.1

/-- A get that neither warns nor fails finds what is there. -/
theorem get?_eq_none_of_reply {key : String} (hkey : key.utf8ByteSize ≤ 65535)
    (hreply : (pipeline.dispatch setup (.get key)).reply = some (.value none))
    (hwarnings : (pipeline.dispatch setup (.get key)).warnings = [])
    (herrors : (pipeline.dispatch setup (.get key)).errors = []) :
    pipeline.store.get? key = none := by
  cases hentry : pipeline.store.get? key with
  | none => rfl
  | some entry =>
    cases hdecrypt : (pipeline.session.decrypt setup.supply entry).1 with
    | ok text =>
      rw [reply_dispatch_get_of_ok _ _ (result_get_of_decrypt_eq_ok _ hkey hentry hdecrypt)]
        at hreply
      cases hreply
    | error e =>
      cases hauth : e.isAuthenticationFailure with
      | true =>
        have hrejected := (pipeline.session.rejected_iff setup.supply).2 ⟨e, hdecrypt, hauth⟩
        have hget := oneIff_warnings_dispatch_get setup pipeline key
        exact absurd ⟨hkey, entry, hentry, hrejected⟩ (hget.not_of_eq_nil hwarnings)
      | false =>
        have hmisread := (pipeline.session.unreadable_iff setup.supply).2 ⟨e, hdecrypt, hauth⟩
        have hget := oneIff_errors_dispatch_command setup pipeline (.load key none)
          (isSome_failure?_load_iff setup pipeline key none)
        exact absurd (.inr ⟨entry, hentry, hmisread⟩) (hget.not_of_eq_nil herrors)

theorem oneIff_errors_dispatch_script (source : String) :
    OneIff (pipeline.dispatch setup (.script source)).errors
      (∃ e, (pipeline.dispatch setup (.script source)).reply = some (.loads (.error e))) := by
  rw [errors_dispatch_script]
  apply oneIff_toList
  show _ ↔ ∃ e, some (Reply.loads (pipeline.script setup source).result) = _
  rw [Option.isSome_map, Outcome.error?]
  cases (pipeline.script setup source).result with
  | ok loads =>
    apply iff_of_false Bool.false_ne_true
    rintro ⟨e, he⟩
    cases he
  | error e => exact iff_of_true rfl ⟨e, rfl⟩

theorem dispatch_set_of_fits {key value : String} (h : overflow? key value = none) :
    (pipeline.dispatch setup (.set key value)).errors = [] ∧
      (pipeline.dispatch setup (.set key value)).pipeline.store =
        pipeline.store.insert key (pipeline.envelopeOf setup value) := by
  have herrors := errors_dispatch_command setup pipeline (.store key value)
  rw [failure?, error?_set, h] at herrors
  refine ⟨herrors, ?_⟩
  show (pipeline.set setup key value).pipeline.store = _
  rw [set_of_fits _ _ h]

theorem dispatch_set_of_overflow {key value : String} {size : Nat}
    (h : overflow? key value = some size) :
    (pipeline.dispatch setup (.set key value)).errors.length = 1 ∧
      (pipeline.dispatch setup (.set key value)).pipeline.store = pipeline.store := by
  have herrors := errors_dispatch_command setup pipeline (.store key value)
  rw [failure?, error?_set, h] at herrors
  refine ⟨congrArg List.length herrors, ?_⟩
  show (pipeline.set setup key value).pipeline.store = _
  rw [set_of_overflow _ _ h]
  rfl

/--
What goes wrong with a command is told by one error, or for a value that is not recoverable by one
warning, and the log tells of nothing else that way. The restorer is free to fail as it likes.
-/
theorem alarms_dispatch (h : setup.restorer.Quiet) (command : Command) :
    let dispatched := pipeline.dispatch setup command
    (∀ byte offset, Interpreter.haltedEvent byte offset ∉ dispatched.events) ∧
    match command with
    | .set key value =>
      dispatched.warnings = [] ∧
        if key.utf8ByteSize ≤ 65535 ∧ 4 * ((value.utf8ByteSize + 28 + 2) / 3) ≤ 65535 then
          dispatched.errors = [] ∧
            dispatched.pipeline.store = pipeline.store.insert key (pipeline.envelopeOf setup value)
        else
          dispatched.errors.length = 1 ∧ dispatched.pipeline.store = pipeline.store
    | .delete key =>
      dispatched.warnings = [] ∧ OneIff dispatched.errors (65535 < key.utf8ByteSize)
    | .clear =>
      dispatched.warnings = [] ∧
        OneIff dispatched.errors
          (setup.config.operationTimeout.nanoseconds < Plan.waited (pipeline.plan setup).actions ∨
            (pipeline.plan setup).ending ≠ .done)
    | .flush => dispatched.warnings = [] ∧ dispatched.errors = []
    | .get key =>
      OneIff dispatched.warnings (key.utf8ByteSize ≤ 65535 ∧ pipeline.Rejects setup key) ∧
        OneIff dispatched.errors (65535 < key.utf8ByteSize ∨ pipeline.Misreads setup key) ∧
        (key.utf8ByteSize ≤ 65535 → dispatched.reply = some (.value none) →
          dispatched.warnings = [] → dispatched.errors = [] → pipeline.store.get? key = none)
    | .script source =>
      OneIff dispatched.errors (∃ e, dispatched.reply = some (.loads (.error e))) ∧
        match Source.parse setup.config.maxScriptLines.toNat source with
        | .error _ => dispatched.warnings = []
        | .ok program =>
          dispatched.warnings.length =
            (pipeline.trail setup program).countP (RejectsLoad setup ·) := by
  refine ⟨haltedEvent_not_mem setup pipeline h command, ?_⟩
  cases command with
  | set key value =>
    refine ⟨warnings_dispatch_set setup pipeline key value, ?_⟩
    split
    · next hfits => exact dispatch_set_of_fits setup pipeline (overflow?_eq_none_iff.2 hfits)
    · next hfits =>
      cases hover : overflow? key value with
      | none => exact absurd (overflow?_eq_none_iff.1 hover) hfits
      | some size => exact dispatch_set_of_overflow setup pipeline hover
  | delete key =>
    refine ⟨warnings_dispatch_delete setup pipeline key, ?_⟩
    exact oneIff_errors_dispatch_command setup pipeline (.delete key)
      (isSome_failure?_delete_iff setup pipeline key)
  | clear => exact ⟨warnings_dispatch_clear h pipeline, oneIff_errors_dispatch_clear h pipeline⟩
  | flush => exact ⟨rfl, rfl⟩
  | get key =>
    refine ⟨oneIff_warnings_dispatch_get setup pipeline key, ?_, ?_⟩
    · exact oneIff_errors_dispatch_command setup pipeline (.load key none)
        (isSome_failure?_load_iff setup pipeline key none)
    · exact get?_eq_none_of_reply setup pipeline
  | script source =>
    refine ⟨oneIff_errors_dispatch_script setup pipeline source, ?_⟩
    rw [warnings_dispatch_script]
    cases hparse : Source.parse setup.config.maxScriptLines.toNat source with
    | error e =>
      rw [script_of_parse_eq_error _ _ hparse]
      rfl
    | ok program =>
      rw [script_eq_steps _ _ hparse]
      exact length_warnings_steps setup pipeline fun _ hmem =>
        Source.encodable_of_parse hparse hmem

theorem alarms_dispatch_short :
    let setup : Setup := ⟨default, .numbered 0, .resetStore⟩
    let pipeline : Pipeline := ⟨Store.empty.insert "key" "AAAA", .new, #[]⟩
    setup.restorer.Quiet ∧ (pipeline.dispatch setup (.get "key")).warnings.length = 1 := by
  intro setup pipeline
  have hget := (alarms_dispatch setup pipeline Restorer.quiet_resetStore (.get "key")).2.1
  exact ⟨Restorer.quiet_resetStore, hget.1 ⟨by decide, "AAAA", rfl, Envelope.rejected_of_short _⟩⟩

/--
A restorer can leave a text under a key that is too long for bytecode. A get does not come to read
the text then, so that it fails with an error and does not warn.
-/
theorem not_oneIff_warnings_of_long_key :
    let key := String.ofList (List.replicate 65536 'k')
    let setup : Setup :=
      ⟨default, .numbered 0, .ofPlans [⟨[.edit (.insert key "AAAA")], .done⟩]⟩
    let pipeline := Pipeline.new.after setup [.clear]
    let dispatched := pipeline.dispatch setup (.get key)
    setup.restorer.Quiet ∧ pipeline.Rejects setup key ∧ dispatched.warnings = [] ∧
      ¬ OneIff dispatched.warnings (pipeline.Rejects setup key) := by
  intro key setup pipeline dispatched
  have hquiet : setup.restorer.Quiet := by
    intro calls store event hmem
    cases calls with
    | zero => simp [setup, Restorer.ofPlans] at hmem
    | succ n => simp [setup, Restorer.ofPlans] at hmem
  have hstore : pipeline.store = Store.empty.insert key "AAAA" := rfl
  have hrejects : pipeline.Rejects setup key := by
    refine ⟨"AAAA", ?_, Envelope.rejected_of_short _⟩
    rw [hstore, Store.get?_insert, if_pos rfl]
  have hkey : Bytecode.maxOperand < key.utf8ByteSize := by
    rw [utf8ByteSize_replicate]
    decide
  have hwarnings : dispatched.warnings = [] := by
    rw [warnings_dispatch_get, warning?_of_oversized _ _ hkey]
    rfl
  exact ⟨hquiet, hrejects, hwarnings, fun h => h.not_of_eq_nil hwarnings hrejects⟩

end Pipeline

end SealedVault
