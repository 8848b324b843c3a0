import SealedVault.Proofs.Restoration
import SealedVault.Proofs.Serial

/-!
This module contains how far the effects of a restorer reach, which may do anything. Main statement:
`contained_of_runs`, so a restorer changes the store by what it does in time, and neither keeps
commands from being processed nor texts that the session sealed from being read.
-/

namespace SealedVault

/-- The reply of a vault that is closed, apart from values. -/
def Reply.isClosed : Reply → Bool
  | loads (.error .closed) => true
  | flushed (.error .closed) => true
  | _ => false

namespace Pipeline

variable (setup : Setup) (pipeline : Pipeline)

theorem result_perform_ne_closed (instruction : Instruction) :
    (pipeline.perform instruction).result ≠ .error .closed := by
  cases hencode : instruction.encode with
  | error e =>
    rw [perform_of_encode_eq_error _ hencode]
    exact nofun
  | ok bytes =>
    rw [perform_of_encodable _ (Instruction.encode_eq_ok_iff.1 hencode).1]
    exact nofun

theorem Outcome.map_ne_closed {outcome : Outcome α} (f : α → β)
    (h : outcome.result ≠ .error .closed) : (outcome.map f).result ≠ .error .closed := by
  obtain ⟨result, after, events⟩ := outcome
  unfold map
  cases result with
  | ok _ => exact nofun
  | error e => exact fun heq => h (by cases heq; rfl)

theorem result_get_ne_closed (key : String) :
    (pipeline.get setup key).result ≠ .error .closed := by
  apply get_cases (P := fun outcome => outcome.result ≠ .error .closed)
  · exact fun _ => nofun
  · exact fun _ => nofun
  · intro entry events
    cases (pipeline.session.decrypt setup.supply entry).1 with
    | ok text => exact nofun
    | error e => exact nofun

theorem result_step_ne_closed (instruction : Instruction) :
    (pipeline.step setup instruction).result ≠ .error .closed := by
  cases instruction with
  | store key value =>
    apply Outcome.map_ne_closed
    rw [set_eq]
    apply Outcome.map_ne_closed
    apply result_perform_ne_closed
  | delete key =>
    apply Outcome.map_ne_closed
    apply Outcome.map_ne_closed
    apply result_perform_ne_closed
  | load key target =>
    have hget := result_get_ne_closed setup pipeline key
    unfold step
    dsimp only
    split
    · next hresult =>
      unfold Outcome.map
      rw [hresult]
      exact nofun
    · next e hresult =>
      split
      · exact nofun
      · intro heq
        cases heq
        exact hget hresult

theorem result_steps_ne_closed (program : List Instruction) :
    (pipeline.steps setup program).result ≠ .error .closed := by
  induction program generalizing pipeline with
  | nil => exact nofun
  | cons instruction rest ih =>
    have hstep := result_step_ne_closed setup pipeline instruction
    cases hresult : (pipeline.step setup instruction).result with
    | error e =>
      rw [steps_cons_of_error _ _ _ hresult, ← hresult]
      exact hstep
    | ok loads =>
      rw [steps_cons_of_ok _ _ _ hresult]
      exact Outcome.map_ne_closed (loads ++ ·) (ih _)

theorem result_script_ne_closed (source : String) :
    (pipeline.script setup source).result ≠ .error .closed := by
  cases hparse : Source.parse setup.config.maxScriptLines.toNat source with
  | error e =>
    rw [script_of_parse_eq_error _ _ hparse]
    exact nofun
  | ok program =>
    rw [script_eq_steps _ _ hparse]
    apply result_steps_ne_closed

theorem isClosed_loads {result : Except VaultError (List Load)} (h : result ≠ .error .closed) :
    (Reply.loads result).isClosed = false := by
  unfold Reply.isClosed
  split
  · next heq =>
    cases heq
    exact absurd rfl h
  · next heq => cases heq
  · rfl

/-- No command that is processed is told that the vault is closed. -/
theorem isClosed_reply_dispatch (command : Command) {reply : Reply}
    (h : (pipeline.dispatch setup command).reply = some reply) : reply.isClosed = false := by
  cases command with
  | set key value => cases h
  | delete key => cases h
  | clear => cases h
  | flush =>
    cases h
    rfl
  | script source =>
    cases h
    exact isClosed_loads (result_script_ne_closed setup pipeline source)
  | get key =>
    cases hget : (pipeline.get setup key).result with
    | ok value =>
      rw [reply_dispatch_get_of_ok _ _ hget] at h
      cases h
      rfl
    | error e =>
      rw [reply_dispatch_get_of_error _ _ hget] at h
      cases h
      rfl

theorem isClosed_of_mem_replies (commands : List Command) {reply : Reply}
    (h : reply ∈ pipeline.replies setup commands) : reply.isClosed = false := by
  induction commands generalizing pipeline with
  | nil => cases h
  | cons command rest ih =>
    rw [replies, List.mem_append, Option.mem_toList] at h
    obtain hfirst | hrest := h
    · exact isClosed_reply_dispatch setup pipeline command hfirst
    · exact ih _ hrest

theorem activeKey_after (commands : List Command) :
    (pipeline.after setup commands).session.activeKey setup.supply =
      pipeline.session.activeKey setup.supply := by
  induction commands generalizing pipeline with
  | nil => rfl
  | cons command rest ih => exact (ih _).trans (activeKey_dispatch setup pipeline command)

theorem reply_dispatch_get_of_spell {key text : String} {iv : Iv}
    (hkey : key.utf8ByteSize ≤ Bytecode.maxOperand)
    (hentry : pipeline.store.get? key =
      some (Envelope.spell (pipeline.session.activeKey setup.supply) iv text)) :
    (pipeline.dispatch setup (.get key)).reply = some (.value (some text)) := by
  apply reply_dispatch_get_of_ok
  apply result_get_of_decrypt_eq_ok _ hkey hentry
  apply Session.decrypt_spell

theorem reply_dispatch_get_of_foreign {key entry : String}
    (hentry : pipeline.store.get? key = some entry)
    (hforeign : ∀ iv text,
      entry ≠ Envelope.spell (pipeline.session.activeKey setup.supply) iv text) :
    (pipeline.dispatch setup (.get key)).reply = some (.value none) := by
  by_cases hkey : Bytecode.maxOperand < key.utf8ByteSize
  · apply reply_dispatch_get_of_error
    rw [get_of_oversized _ _ hkey]
  · cases hdecrypt : (pipeline.session.decrypt setup.supply entry).1 with
    | ok text =>
      obtain ⟨iv, heq⟩ := (Session.decrypt_eq_ok_iff _ _).1 hdecrypt
      exact absurd heq (hforeign iv text)
    | error e =>
      apply reply_dispatch_get_of_error
      exact result_get_of_decrypt_eq_error _ (Nat.not_lt.1 hkey) hentry hdecrypt

end Pipeline

namespace Vault

variable {setup : Setup} {moves : List Move} {record : Record} {vault : Vault}

theorem exists_runs_process (setup : Setup) (hstatus : vault.status = .running) :
    ∃ after, Runs setup vault (List.replicate vault.queue.length .process) after ∧
      after.queue = [] := by
  generalize hlength : vault.queue.length = length
  induction length generalizing vault with
  | zero => exact ⟨vault, .nil vault, List.eq_nil_of_length_eq_zero hlength⟩
  | succ length ih =>
    obtain ⟨request, queue, hqueue⟩ := List.exists_cons_of_length_eq_add_one hlength
    obtain ⟨next, hprocess, hrunning⟩ : ∃ next, vault.process? setup = some next ∧
        next.status = .running :=
      ⟨_, process?_eq_some_iff.2 ⟨request, queue, hstatus, hqueue, rfl⟩, hstatus⟩
    have := length_queue_of_process? hprocess
    obtain ⟨after, runs, hempty⟩ := ih hrunning (by omega)
    exact ⟨after, .cons (.process vault next hprocess) runs, hempty⟩

theorem submitted_append_process (moves : List Move) (times : Nat) :
    submitted (moves ++ List.replicate times .process) = submitted moves := by
  induction times with
  | zero => rw [List.replicate_zero, List.append_nil]
  | succ times ih =>
    rw [List.replicate_succ', ← List.append_assoc, submitted_concat_of_eq_nil _ _ rfl, ih]

theorem Consistent.isClosed_of_mem_sent (h : Consistent setup moves record vault)
    {entry : Nat × Reply} (hsent : entry ∈ record.sent) : entry.2.isClosed = false := by
  have hreply := h.mem_sent_iff.1 hsent
  exact Pipeline.isClosed_of_mem_replies _ _ _ (List.mem_of_getElem? hreply)

/-- What a restorer cannot do to a vault, whatever it does to the store. -/
structure Contained (setup : Setup) (moves : List Move) (vault : Vault) : Prop where
  cleared : ∀ pipeline : Pipeline,
    pipeline.Cleared setup (pipeline.dispatch setup .clear)
  /-- The commands in the queue can all be processed, and every ticket gets its reply. -/
  process : ∃ record after,
    let processes : List Move := List.replicate vault.queue.length .process
    Runs setup vault processes after ∧ Recorded setup (moves ++ processes) record after ∧
      Serial setup (moves ++ processes) record after ∧ after.queue = [] ∧
      record.dispatched = submitted moves ∧
      after.pipeline = vault.pipeline.after setup (vault.queue.map (·.command)) ∧
      record.sent.map (·.1) = List.range ((submitted moves).countP (·.isAnswered)) ∧
      ∀ entry ∈ record.sent, entry.2.isClosed = false
  /-- What the session sealed at any time is read as it was, under whatever key it is found. -/
  reply_of_sealed : ∀ (earlier : List Command) (key text : String),
    key.utf8ByteSize ≤ Bytecode.maxOperand →
    vault.pipeline.store.get? key =
      some ((Pipeline.new.after setup earlier).session.encrypt setup.supply text).1 →
    (vault.pipeline.dispatch setup (.get key)).reply = some (.value (some text))
  /-- Anything but an envelope under the key of the session is not read at all. -/
  reply_of_foreign : ∀ key entry : String, vault.pipeline.store.get? key = some entry →
    (∀ iv text, entry ≠ Envelope.spell (setup.supply.key 0) iv text) →
    (vault.pipeline.dispatch setup (.get key)).reply = some (.value none)

theorem Recorded.exists_process (h : Recorded setup moves record vault) :
    ∃ record after,
      let processes : List Move := List.replicate vault.queue.length .process
      Runs setup vault processes after ∧ Recorded setup (moves ++ processes) record after ∧
        after.queue = [] := by
  obtain hstatus | ⟨hempty, -⟩ := (Consistent.of_recorded h).status
  · obtain ⟨after, runs, hempty⟩ := exists_runs_process setup hstatus
    obtain ⟨record, hrecord⟩ := exists_recorded_of_runs_of_recorded runs h
    exact ⟨record, after, runs, hrecord, hempty⟩
  · refine ⟨record, vault, ?_⟩
    rw [hempty, List.length_nil, List.replicate_zero]
    dsimp only
    rw [List.append_nil]
    exact ⟨.nil vault, h, rfl⟩

/-- A run is contained whatever restorer there is. -/
theorem contained_of_runs (runs : Runs setup .new moves vault) : Contained setup moves vault := by
  obtain ⟨before, hbefore⟩ := exists_recorded_of_runs runs
  have hserial := serial_of_recorded hbefore
  have hkey : vault.pipeline.session.activeKey setup.supply = setup.supply.key 0 := by
    rw [hserial.pipeline_eq, Pipeline.activeKey_after]
    exact Session.activeKey_new setup.supply
  constructor
  · exact Pipeline.cleared_dispatch setup
  · obtain ⟨record, after, hruns, hrecord, hempty⟩ := hbefore.exists_process
    -- What was submitted was processed or is in the queue, and the queue is empty now
    have hafter := serial_of_recorded hrecord
    have hdispatched := hafter.submitted_eq
    rw [hempty, List.map_nil, List.append_nil, submitted_append_process] at hdispatched
    refine ⟨record, after, hruns, hrecord, hafter, hempty, hdispatched.symm, ?_, ?_, ?_⟩
    · rw [hafter.pipeline_eq, ← hdispatched, hserial.submitted_eq, Pipeline.after_append,
        hserial.pipeline_eq]
    · rw [hafter.map_fst_sent, ← hdispatched]
    · exact fun entry => (Consistent.of_recorded hrecord).isClosed_of_mem_sent
  · intro earlier key text hsize hentry
    rw [Session.encrypt_fst, Pipeline.activeKey_after] at hentry
    apply Pipeline.reply_dispatch_get_of_spell _ _ hsize
    rw [hkey]
    exact hentry
  · intro key entry hentry hforeign
    rw [← hkey] at hforeign
    exact Pipeline.reply_dispatch_get_of_foreign _ _ hentry hforeign

/-- A restorer that writes, waits for too long and would panic in the end. -/
theorem contained_of_runs_clear :
    let setup : Setup := ⟨default, .numbered 0, .ofPlans
      [⟨[.edit (.insert "key" "text"), .wait (.ofMilliseconds 6000), .edit .reset],
        .panicked none⟩]⟩
    let moves : List Move := [.submit .clear, .submit .flush, .process]
    ∃ vault, Runs setup .new moves vault ∧ Contained setup moves vault := by
  intro setup moves
  obtain ⟨vault, runs⟩ : ∃ vault, Runs setup .new moves vault := by
    refine ⟨_, .cons (.submit _ _ ?_) (.cons (.submit _ _ ?_) (.cons (.process _ _ rfl) (.nil _)))⟩
    · exact Nat.one_pos
    · exact Nat.one_pos
  exact ⟨vault, runs, contained_of_runs runs⟩

end Vault

end SealedVault
