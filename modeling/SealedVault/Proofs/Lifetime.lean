import SealedVault.Proofs.Alarms
import SealedVault.Proofs.Containment
import SealedVault.Proofs.Log

/-!
This module contains the life of a vault, from its first handle to its closing event. Main
statements: `routine_of_mem_dispatch`, which lists all that a command can log, and
`lifetime_of_runs`, so a vault takes and processes commands as long as somebody can queue one,
leaves every reply under its ticket, and then stops with one last event.
-/

namespace SealedVault

/-- The events of a vault that is in use, apart from those of its restorer. -/
inductive Event.Routine : Event → Prop where
  | dispatched (command : Command) : Routine command.dispatchEvent
  | executed (offset : Nat) (instruction : Instruction) :
    Routine (Interpreter.executedEvent offset instruction)
  | unread (key : String) (e : VaultError) : Routine (Command.readFailureEvent key e)
  | failed (command : Command) (e : VaultError) : Routine (command.failureEvent e)
  | panicked (command : Command) (message : Option String) : Routine (command.panicEvent message)

/-- The event with which a vault stops that has so many entries. -/
def Event.closing (entries : Nat) : Event where
  level := .debug
  message := "command queue closed, dropping session"
  fields := [("entries", .number entries)]

/-- The event has the text of the one with which a vault stops. -/
def Event.isClosing (event : Event) : Bool :=
  event.message = "command queue closed, dropping session"

theorem Event.Routine.isClosing_eq {event : Event} (h : event.Routine) :
    event.isClosing = false := by
  cases h with
  | dispatched command => rfl
  | executed offset instruction =>
    cases instruction with
    | store key value => rfl
    | load key target => rfl
    | delete key => rfl
  | unread key e =>
    unfold Command.readFailureEvent
    split
    · rfl
    · rfl
  | failed command e => rfl
  | panicked command message => rfl

namespace Pipeline

section Routine

variable (setup : Setup) (pipeline : Pipeline) {event : Event}

theorem routine_of_mem_perform {instruction : Instruction}
    (h : event ∈ (pipeline.perform instruction).events) : event.Routine := by
  cases hencode : instruction.encode with
  | error e =>
    rw [perform_of_encode_eq_error _ hencode] at h
    exact absurd h (Array.not_mem_empty event)
  | ok bytes =>
    rw [perform_of_encodable _ (Instruction.encode_eq_ok_iff.1 hencode).1] at h
    simp only [Progress.apply, Progress.start, List.push_toArray, List.nil_append,
      List.mem_toArray, List.mem_singleton] at h
    rw [h]
    exact .executed 0 instruction

theorem routine_of_mem_step {instruction : Instruction}
    (h : event ∈ (pipeline.step setup instruction).events) : event.Routine := by
  cases instruction with
  | store key value =>
    simp only [step, set_eq, Outcome.map] at h
    exact routine_of_mem_perform _ h
  | delete key => exact routine_of_mem_perform pipeline h
  | load key target =>
    rw [events_step_load, events_get, Array.mem_append] at h
    obtain h | h := h
    · exact routine_of_mem_perform pipeline h
    · obtain ⟨e, -, rfl⟩ := Option.map_eq_some_iff.1 (Option.mem_toArray.1 h)
      exact .unread key e

theorem routine_of_mem_script {source : String}
    (h : event ∈ (pipeline.script setup source).events) : event.Routine :=
  of_mem_script (fun _ _ _ => routine_of_mem_step setup _) h

theorem routine_of_mem_logged {outcome : Outcome α} {failureEvent : VaultError → Event}
    (h : event ∈ outcome.logged failureEvent)
    (hevents : event ∈ outcome.events → event.Routine)
    (hfailure : ∀ e, (failureEvent e).Routine) : event.Routine := by
  rw [Outcome.logged, Array.mem_append] at h
  obtain h | h := h
  · exact hevents h
  · obtain ⟨e, -, rfl⟩ := Option.map_eq_some_iff.1 (Option.mem_toArray.1 h)
    exact hfailure e

theorem routine_of_mem_clear (h : event ∈ (pipeline.dispatch setup .clear).events) :
    event.Routine ∨ .log event ∈ (pipeline.plan setup).actions := by
  obtain ⟨-, hevents⟩ := dispatch_clear setup pipeline
  obtain ⟨before, rest, hactions, hlogged⟩ :=
    (pipeline.plan setup).exists_logged_eq setup.config.operationTimeout pipeline.store
  rw [← Array.mem_toList_iff, hevents, hlogged, List.mem_cons, List.mem_append] at h
  obtain rfl | h | h := h
  · exact .inl (.dispatched .clear)
  · right
    rw [hactions]
    exact List.mem_append_left _ (Plan.mem_of_mem_logged h)
  · left
    revert h
    cases ((pipeline.plan setup).run _ _).2 with
    | done => exact nofun
    | failed e =>
      intro h
      rw [List.mem_singleton.1 h]
      exact .failed .clear e
    | panicked message =>
      intro h
      rw [List.mem_singleton.1 h]
      exact .panicked .clear message

theorem routine_of_mem_dispatch {command : Command}
    (h : event ∈ (pipeline.dispatch setup command).events) :
    event.Routine ∨ .log event ∈ (pipeline.plan setup).actions := by
  have of_handle (hhandle : event ∈ (pipeline.handle setup command).events → event.Routine) :
      event.Routine ∨ .log event ∈ (pipeline.plan setup).actions := by
    rw [Pipeline.dispatch, Array.mem_append] at h
    obtain h | h := h
    · rw [Array.mem_singleton.1 h]
      exact .inl (.dispatched command)
    · exact .inl (hhandle h)
  cases command with
  | clear => exact routine_of_mem_clear setup pipeline h
  | flush => exact of_handle fun hmem => absurd hmem (Array.not_mem_empty event)
  | set key value =>
    apply of_handle
    intro hmem
    rw [handle, events_report, set_eq] at hmem
    exact routine_of_mem_logged hmem (routine_of_mem_perform _) (.failed _)
  | delete key =>
    apply of_handle
    intro hmem
    rw [handle, events_report] at hmem
    exact routine_of_mem_logged hmem (routine_of_mem_perform pipeline) (.failed _)
  | get key =>
    apply of_handle
    intro hmem
    rw [events_handle_get] at hmem
    refine routine_of_mem_logged hmem ?_ (.unread key)
    rw [events_get]
    exact routine_of_mem_perform pipeline
  | script source =>
    apply of_handle
    intro hmem
    rw [events_handle_script] at hmem
    exact routine_of_mem_logged hmem (routine_of_mem_script setup pipeline) (.failed _)

theorem isClosing_of_mem_events
    (hrestorer : ∀ calls store event, .log event ∈ (setup.restorer calls store).actions →
      event.isClosing = false)
    {commands : List Command} (h : event ∈ pipeline.events setup commands) :
    event.isClosing = false := by
  induction commands generalizing pipeline with
  | nil => exact absurd h (Array.not_mem_empty event)
  | cons command rest ih =>
    rw [events, Array.mem_append] at h
    obtain h | h := h
    · obtain hroutine | hlog := routine_of_mem_dispatch setup pipeline h
      · exact hroutine.isClosing_eq
      · exact hrestorer _ _ _ hlog
    · exact ih _ h

theorem filter_isClosing_events
    (hrestorer : ∀ calls store event, .log event ∈ (setup.restorer calls store).actions →
      event.isClosing = false)
    (commands : List Command) :
    (pipeline.events setup commands).toList.filter (·.isClosing) = [] := by
  rw [List.filter_eq_nil_iff]
  intro event hmem
  rw [isClosing_of_mem_events setup pipeline hrestorer (Array.mem_toList_iff.1 hmem)]
  exact Bool.false_ne_true

end Routine

end Pipeline

namespace Vault

variable {setup : Setup} {moves : List Move} {record : Record} {vault after : Vault}

theorem Runs.concat {move : Move} {next : Vault} (runs : Runs setup vault moves next)
    (step : Step setup next move after) : Runs setup vault (moves ++ [move]) after := by
  induction runs with
  | nil vault => exact .cons step (.nil after)
  | cons first rest ih => exact .cons first (ih step)

theorem frame_of_runs_process {times : Nat}
    (runs : Runs setup vault (List.replicate times .process) after) :
    after.handles = vault.handles ∧ after.status = vault.status := by
  induction times generalizing vault with
  | zero =>
    cases runs
    exact ⟨rfl, rfl⟩
  | succ times ih =>
    rw [List.replicate_succ] at runs
    cases runs with
    | cons step rest =>
      cases step with
      | process _ hprocess =>
        obtain ⟨request, queue, -, -, rfl⟩ := process?_eq_some_iff.1 hprocess
        have hrest := ih rest
        exact hrest

theorem isClosed_eq_false_iff : vault.isClosed = false ↔ vault.status = .running := by
  unfold isClosed
  simp

/-- A vault without handles gets through its queue and stops. -/
theorem exists_runs_finish (hopen : vault.isClosed = false) (hhandles : vault.handles = 0) :
    ∃ after, Runs setup vault (List.replicate vault.queue.length .process ++ [.finish]) after ∧
      after.isClosed = true := by
  rw [isClosed_eq_false_iff] at hopen
  obtain ⟨drained, runs, hqueue⟩ := exists_runs_process setup hopen
  obtain ⟨hkept, hstatus⟩ := frame_of_runs_process runs
  have hfinish := finish?_eq_some_iff.2
    ⟨hstatus.trans hopen, hqueue, hkept.trans hhandles, rfl⟩
  exact ⟨_, runs.concat (.finish drained _ hfinish), rfl⟩

namespace Consistent

variable (h : Consistent setup moves record vault)
include h

theorem isClosed_eq (hhandles : 0 < vault.handles) : vault.isClosed = false :=
  isClosed_eq_false_iff.2 (h.running hhandles)

/-- What the vault is when a caller has queued a command. -/
theorem submit_eq (hhandles : 0 < vault.handles) (command : Command) :
    (vault.submit command).1 ≠ .refused ∧
      (vault.submit command).2.queue.map (·.command) =
        vault.queue.map (·.command) ++ [command] ∧
      (vault.submit command).2.log = vault.log ∧
      ∀ ticket, (vault.submit command).1 = .ticket ticket →
        (vault.submit command).2.slots[ticket]? = some .waiting := by
  have hrunning := h.running hhandles
  cases hanswered : command.isAnswered with
  | true =>
    rw [submit_of_isAnswered hrunning hanswered]
    refine ⟨nofun, ?_, rfl, ?_⟩
    · rw [List.map_append, Request.map_command_number]
    · intro ticket hticket
      cases hticket
      exact Array.getElem?_push_size
  | false =>
    rw [submit_of_not_isAnswered hrunning hanswered]
    refine ⟨nofun, ?_, rfl, nofun⟩
    rw [List.map_append, Request.map_command_number]

theorem drained_of_isClosed (hclosed : vault.isClosed = true) :
    vault.queue = [] ∧ vault.handles = 0 := by
  obtain hstatus | hdrained := h.status
  · rw [isClosed_eq_false_iff.2 hstatus] at hclosed
    cases hclosed
  · exact hdrained

theorem dispatched_of_isClosed (hclosed : vault.isClosed = true) :
    record.dispatched = submitted moves := by
  rw [h.submitted_eq, (h.drained_of_isClosed hclosed).1, List.map_nil, List.append_nil]

theorem isClosed_of_poll {ticket : Nat} {reply : Reply}
    (hpoll : (vault.poll ticket).1 = some reply) : reply.isClosed = false :=
  h.isClosed_of_mem_sent (h.slot ticket _ (Vault.poll_fst_eq_some_iff.1 hpoll)).1

theorem slot_ne_waiting (hclosed : vault.isClosed = true) (ticket : Nat) :
    vault.slots[ticket]? ≠ some .waiting := by
  intro hslot
  have hlt := (Array.getElem?_eq_some_iff.1 hslot).1
  have hle := (h.slot ticket _ hslot).1
  rw [h.size_slots] at hlt
  rw [h.length_sent, h.dispatched_of_isClosed hclosed] at hle
  omega

end Consistent

/--
Every processed command that has a reply got the one that is computed for it. The reply lies under
its ticket, unless its caller has it already or gave the ticket up.
-/
theorem Serial.answered (h : Serial setup moves record vault) {before rest : List Command}
    {command : Command} (hdispatched : record.dispatched = before ++ command :: rest)
    (hanswered : command.isAnswered = true) :
    let ticket := before.countP (·.isAnswered)
    ∃ reply, ((Pipeline.new.after setup before).dispatch setup command).reply = some reply ∧
      (.forget ticket ∈ moves ∨ (ticket, reply) ∈ record.received ∨
        (vault.poll ticket).1 = some reply) := by
  intro ticket
  obtain ⟨reply, hreply⟩ : ∃ reply,
      ((Pipeline.new.after setup before).dispatch setup command).reply = some reply := by
    rw [← Option.isSome_iff_exists, Pipeline.isSome_reply_dispatch, hanswered]
  have hsubmitted :
      submitted moves = before ++ command :: (rest ++ vault.queue.map (·.command)) := by
    rw [h.submitted_eq, hdispatched, List.append_assoc, List.cons_append]
  have hsent := h.mem_sent_iff before command _ hsubmitted hanswered
  refine ⟨reply, hreply, ?_⟩
  by_cases hforget : .forget ticket ∈ moves
  · exact .inl hforget
  · right
    by_cases hserved : ticket ∈ record.served
    · -- What arrived had been sent, and only one reply is sent for a ticket
      left
      obtain ⟨⟨ticket, found⟩, hreceived, rfl⟩ := List.mem_map.1 hserved
      obtain ⟨-, hfound⟩ := (hsent found).1 (h.received_subset hreceived)
      rw [hreply] at hfound
      cases hfound
      exact hreceived
    · right
      apply (h.poll_fst ticket hforget hserved reply).2
      apply (hsent reply).2
      refine ⟨?_, hreply⟩
      rw [hdispatched, List.length_append, List.length_cons]
      omega

theorem status_of_step {move : Move} (step : Step setup vault move after) :
    move ≠ .finish ∧ after.status = vault.status ∨
      move = .finish ∧ vault.status = .running ∧ after.status = .finished := by
  cases step with
  | submit command _ => exact .inl ⟨nofun, by rw [submit_snd]⟩
  | poll ticket => exact .inl ⟨nofun, by rw [poll_snd]⟩
  | forget ticket => exact .inl ⟨nofun, rfl⟩
  | cloneHandle _ => exact .inl ⟨nofun, rfl⟩
  | dropHandle _ => exact .inl ⟨nofun, rfl⟩
  | process _ hprocess =>
    obtain ⟨request, queue, -, -, rfl⟩ := process?_eq_some_iff.1 hprocess
    exact .inl ⟨nofun, rfl⟩
  | finish _ hfinish =>
    obtain ⟨hstatus, -, -, rfl⟩ := finish?_eq_some_iff.1 hfinish
    exact .inr ⟨rfl, hstatus, rfl⟩

theorem drained_of_step {move : Move} (step : Step setup vault move after)
    (hopen : vault.isClosed = false) (hclosed : after.isClosed = true) :
    vault.handles = 0 ∧ vault.queue = [] := by
  rw [isClosed_eq_false_iff] at hopen
  obtain ⟨-, hstatus⟩ | ⟨rfl, -, -⟩ := status_of_step step
  · rw [isClosed, hstatus, hopen] at hclosed
    cases hclosed
  · cases step with
    | finish _ hfinish =>
      obtain ⟨-, hqueue, hhandles, -⟩ := finish?_eq_some_iff.1 hfinish
      exact ⟨hhandles, hqueue⟩

/-- A vault stops at most once, and nothing starts it again. -/
theorem status_of_recorded (h : Recorded setup moves record vault) :
    vault.status = .running ∧ moves.count .finish = 0 ∨
      vault.status = .finished ∧ moves.count .finish = 1 := by
  induction h with
  | new => exact .inl ⟨rfl, rfl⟩
  | step before step ih =>
    next moves record vault after move =>
    rw [List.count_append]
    obtain ⟨hmove, hstatus⟩ | ⟨rfl, hrunning, hfinished⟩ := status_of_step step
    · have : [move].count .finish = 0 := List.count_eq_zero.2 fun hmem =>
        hmove (List.mem_singleton.1 hmem).symm
      rw [hstatus, this]
      exact ih
    · obtain ⟨-, hcount⟩ | ⟨hstatus, -⟩ := ih
      · rw [hcount]
        exact .inr ⟨hfinished, rfl⟩
      · rw [hrunning] at hstatus
        cases hstatus

theorem count_finish_of_recorded (h : Recorded setup moves record vault) :
    moves.count .finish = if vault.isClosed then 1 else 0 := by
  unfold isClosed
  obtain ⟨hstatus, hcount⟩ | ⟨hstatus, hcount⟩ := status_of_recorded h
  · rw [hstatus, hcount]
    rfl
  · rw [hstatus, hcount]
    rfl

theorem closing_of_recorded (h : Recorded setup moves record vault) :
    vault.closing = if vault.isClosed then #[.closing vault.pipeline.store.size] else #[] := by
  unfold closing isClosed
  obtain ⟨hstatus, -⟩ | ⟨hstatus, -⟩ := status_of_recorded h
  · rw [hstatus]
    rfl
  · rw [hstatus]
    rfl

/-- What becomes of a vault as its moves go on. -/
structure Lifetime (setup : Setup) (moves : List Move) (record : Record) (vault : Vault) :
    Prop where
  /-- As long as there is a handle, the vault is open and queues what it is given. -/
  submit : 0 < vault.handles → vault.isClosed = false ∧ ∀ command,
    (vault.submit command).1 ≠ .refused ∧
      (vault.submit command).2.queue.map (·.command) =
        vault.queue.map (·.command) ++ [command] ∧
      (vault.submit command).2.log = vault.log ∧
      ∀ ticket, (vault.submit command).1 = .ticket ticket →
        (vault.submit command).2.slots[ticket]? = some .waiting
  /-- The move that stops the vault finds no handle and no command. -/
  step : ∀ move after, Step setup vault move after → vault.isClosed = false →
    after.isClosed = true → vault.handles = 0 ∧ vault.queue = []
  /-- What is processed is what callers queued, and what is sent is what they find. -/
  serial : Serial setup moves record vault
  /-- A command that is processed leaves its reply to its caller, whatever becomes of the vault. -/
  answered : ∀ before command rest, record.dispatched = before ++ command :: rest →
    command.isAnswered = true →
      let ticket := before.countP (·.isAnswered)
      ∃ reply, ((Pipeline.new.after setup before).dispatch setup command).reply = some reply ∧
        (.forget ticket ∈ moves ∨ (ticket, reply) ∈ record.received ∨
          (vault.poll ticket).1 = some reply)
  /-- When the vault has stopped, all that was ever queued is processed and answered. -/
  stopped : vault.isClosed = true → vault.handles = 0 ∧ vault.queue = [] ∧
    record.dispatched = submitted moves ∧
    record.sent.map (·.1) = List.range ((submitted moves).countP (·.isAnswered)) ∧
    ∀ ticket : Nat, vault.slots[ticket]? ≠ some .waiting
  isClosed_of_mem_sent : ∀ entry ∈ record.sent, entry.2.isClosed = false
  /-- No caller who asks for a reply is told that the vault is closed. -/
  isClosed_of_poll : ∀ ticket reply, (vault.poll ticket).1 = some reply → reply.isClosed = false
  /-- Nothing keeps a vault that nobody has a handle to from going on to its end. -/
  exists_runs_finish : vault.handles = 0 → vault.isClosed = false →
    ∃ after, Runs setup vault (List.replicate vault.queue.length .process ++ [.finish]) after ∧
      after.isClosed = true
  count_finish : moves.count .finish = if vault.isClosed then 1 else 0
  /-- The closing event counts what is in the store, and comes after the events of all commands. -/
  log_eq : vault.log = Pipeline.new.events setup record.dispatched ++
    if vault.isClosed then #[.closing vault.pipeline.store.size] else #[]
  /-- There is no second one, unless the restorer logs one that is just like it. -/
  filter_log : (∀ calls store event, .log event ∈ (setup.restorer calls store).actions →
      event.isClosing = false) →
    vault.log.toList.filter (·.isClosing) =
      if vault.isClosed then [.closing vault.pipeline.store.size] else []

/-- A vault stops when it may and not before, whatever restorer there is. -/
theorem lifetime_of_runs (runs : Runs setup .new moves vault) :
    ∃ record, Recorded setup moves record vault ∧ Lifetime setup moves record vault := by
  obtain ⟨record, hrecord⟩ := exists_recorded_of_runs runs
  have h := Consistent.of_recorded hrecord
  have hserial := serial_of_recorded hrecord
  have hlog := log_of_recorded hrecord
  rw [closing_of_recorded hrecord] at hlog
  refine ⟨record, hrecord, ?_⟩
  constructor
  · exact fun hhandles => ⟨h.isClosed_eq hhandles, h.submit_eq hhandles⟩
  · exact fun move after => drained_of_step
  · exact hserial
  · exact fun before command rest => hserial.answered
  · intro hclosed
    obtain ⟨hqueue, hhandles⟩ := h.drained_of_isClosed hclosed
    have hdispatched := h.dispatched_of_isClosed hclosed
    refine ⟨hhandles, hqueue, hdispatched, ?_, h.slot_ne_waiting hclosed⟩
    rw [h.map_fst_sent, hdispatched]
  · exact fun entry => h.isClosed_of_mem_sent
  · exact fun ticket reply => h.isClosed_of_poll
  · exact fun hhandles hopen => exists_runs_finish hopen hhandles
  · exact count_finish_of_recorded hrecord
  · exact hlog
  · intro hrestorer
    rw [hlog, Array.toList_append, List.filter_append,
      Pipeline.filter_isClosing_events setup _ hrestorer, List.nil_append]
    split
    · rfl
    · rfl

/--
The restorer hangs and then panics, and the last handle is dropped before that. What it has put
under the key is no envelope, so the reply that is left in the end tells that there is no value.
-/
theorem lifetime_of_runs_clear :
    let setup : Setup := ⟨default, .numbered 0, .ofPlans
      [⟨[.edit (.insert "key" "text")], .never⟩, ⟨[], .panicked none⟩]⟩
    let moves : List Move :=
      [.cloneHandle, .submit .clear, .dropHandle, .submit .clear, .submit (.get "key"),
        .dropHandle, .process, .process, .process, .finish]
    ∃ vault record, Runs setup .new moves vault ∧ vault.isClosed = true ∧
      (vault.poll 0).1 = some (.value none) ∧ Lifetime setup moves record vault := by
  intro setup moves
  obtain ⟨vault, runs, hclosed, hpoll⟩ : ∃ vault, Runs setup .new moves vault ∧
      vault.isClosed = true ∧ (vault.poll 0).1 = some (.value none) := by
    refine ⟨_, .cons (.cloneHandle _ ?_) (.cons (.submit _ _ ?_) (.cons (.dropHandle _ ?_)
      (.cons (.submit _ _ ?_) (.cons (.submit _ _ ?_) (.cons (.dropHandle _ ?_)
      (.cons (.process _ _ rfl) (.cons (.process _ _ rfl) (.cons (.process _ _ rfl)
      (.cons (.finish _ _ rfl) (.nil _)))))))))), rfl, ?_⟩
    · exact Nat.one_pos
    · exact Nat.two_pos
    · exact Nat.two_pos
    · exact Nat.one_pos
    · exact Nat.one_pos
    · exact Nat.one_pos
    · with_unfolding_all rfl
  obtain ⟨record, -, hlifetime⟩ := lifetime_of_runs runs
  exact ⟨vault, record, runs, hclosed, hpoll, hlifetime⟩

end Vault

end SealedVault
