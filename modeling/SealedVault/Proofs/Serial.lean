import SealedVault.Proofs.Neglect

/-!
This module contains what callers can rely on, whatever the order of the moves. Main statement:
`serial_of_runs`, so commands take effect in the order in which they were queued, and the reply to a
command depends on nothing but the commands before it.
-/

namespace SealedVault.Vault

variable {setup : Setup} {moves : List Move} {record : Record} {vault : Vault}

namespace Consistent

theorem submitted_eq (h : Consistent setup moves record vault) :
    submitted moves = record.dispatched ++ vault.queue.map (·.command) := by
  obtain ⟨commands, hsubmitted, hqueue⟩ := h.pending
  rw [hqueue, Request.map_command_number, hsubmitted]

theorem exists_process? (h : Consistent setup moves record vault) (hqueue : vault.queue ≠ []) :
    ∃ after, vault.process? setup = some after := by
  obtain hstatus | ⟨hempty, -⟩ := h.status
  · obtain ⟨request, queue, hcons⟩ := List.exists_cons_of_ne_nil hqueue
    exact ⟨_, process?_eq_some_iff.2 ⟨request, queue, hstatus, hcons, rfl⟩⟩
  · exact absurd hempty hqueue

theorem map_fst_sent (h : Consistent setup moves record vault) :
    record.sent.map (·.1) = List.range (record.dispatched.countP (·.isAnswered)) := by
  rw [h.sent_eq, ← Pipeline.length_replies setup .new]
  apply List.ext_getElem
  · rw [List.length_map, List.length_mapIdx, List.length_range]
  · intro i _ _
    rw [List.getElem_map, List.getElem_mapIdx, List.getElem_range]

theorem map_snd_sent (h : Consistent setup moves record vault) :
    record.sent.map (·.2) <+: Pipeline.new.replies setup (submitted moves) := by
  have hsent : record.sent.map (·.2) = Pipeline.new.replies setup record.dispatched := by
    rw [h.sent_eq]
    apply List.ext_getElem
    · rw [List.length_map, List.length_mapIdx]
    · intro i _ _
      rw [List.getElem_map, List.getElem_mapIdx]
  rw [hsent, h.submitted_eq, Pipeline.replies_append]
  apply List.prefix_append

theorem mem_sent_iff_of_submitted (h : Consistent setup moves record vault)
    {before rest : List Command} {command : Command}
    (hsubmitted : submitted moves = before ++ command :: rest)
    (hanswered : command.isAnswered = true) (reply : Reply) :
    (before.countP (·.isAnswered), reply) ∈ record.sent ↔
      before.length < record.dispatched.length ∧
        ((Pipeline.new.after setup before).dispatch setup command).reply = some reply := by
  rw [h.submitted_eq, List.append_eq_append_iff] at hsubmitted
  obtain ⟨more, hbefore, -⟩ | ⟨more, hdispatched, hrest⟩ := hsubmitted
  · -- The command is still in the queue, and so are all commands with later tickets
    constructor
    · intro hsent
      have := h.lt_of_mem_sent hsent
      rw [h.length_sent, hbefore, List.countP_append] at this
      omega
    · rintro ⟨hlt, -⟩
      rw [hbefore, List.length_append] at hlt
      omega
  · cases more with
    | nil =>
      rw [List.append_nil] at hdispatched
      constructor
      · intro hsent
        have := h.lt_of_mem_sent hsent
        rw [h.length_sent, hdispatched] at this
        omega
      · rintro ⟨hlt, -⟩
        rw [hdispatched] at hlt
        omega
    | cons first more =>
      cases hrest
      rw [h.mem_sent_iff, hdispatched, Pipeline.getElem?_replies _ _ _ _ hanswered,
        List.length_append, List.length_cons]
      constructor
      · exact fun hreply => ⟨by omega, hreply⟩
      · exact And.right

theorem submit_fst (h : Consistent setup moves record vault) (hhandles : 0 < vault.handles)
    (command : Command) :
    (vault.submit command).1 =
      if command.isAnswered then .ticket ((submitted moves).countP (·.isAnswered))
      else .queued := by
  cases hanswered : command.isAnswered with
  | true =>
    rw [submit_of_isAnswered (h.running hhandles) hanswered, if_pos rfl, h.size_slots]
  | false =>
    rw [submit_of_not_isAnswered (h.running hhandles) hanswered, if_neg Bool.false_ne_true]

theorem poll_fst_eq_some_iff (h : Consistent setup moves record vault) {ticket : Nat}
    (hforget : .forget ticket ∉ moves) (hserved : ticket ∉ record.served) (reply : Reply) :
    (vault.poll ticket).1 = some reply ↔ (ticket, reply) ∈ record.sent := by
  rw [Vault.poll_fst_eq_some_iff]
  constructor
  · intro hslot
    exact (h.slot ticket _ hslot).1
  · intro hsent
    have hlt := h.lt_of_mem_sent hsent
    have hbound : ticket < vault.slots.size := Nat.lt_of_lt_of_le hlt h.length_sent_le
    have hslot := Array.getElem?_eq_getElem hbound
    have hexplains := h.slot ticket _ hslot
    rw [hslot]
    -- The reply was sent, so its slot is not waiting any more
    cases hfound : vault.slots[ticket] with
    | waiting =>
      rw [hfound] at hexplains
      have := hexplains.1
      omega
    | forgotten =>
      rw [hfound] at hexplains
      obtain hforgotten | hreceived := hexplains
      · exact absurd hforgotten hforget
      · exact absurd hreceived hserved
    | delivered found =>
      rw [hfound] at hexplains
      have := h.mem_sent_iff.1 hexplains.1
      rw [h.mem_sent_iff.1 hsent] at this
      cases this
      rfl

end Consistent

/-- What the moves of a run so far have to do with each other. -/
structure Serial (setup : Setup) (moves : List Move) (record : Record) (vault : Vault) : Prop where
  /-- No command is lost, doubled or put out of order. -/
  submitted_eq : submitted moves = record.dispatched ++ vault.queue.map (·.command)
  /-- Nothing keeps the first command in the queue from being processed. -/
  exists_process? : vault.queue ≠ [] → ∃ after, vault.process? setup = some after
  pipeline_eq : vault.pipeline = Pipeline.new.after setup record.dispatched
  /-- A reply is sent for every processed command that has replies, and only once. -/
  map_fst_sent :
    record.sent.map (·.1) = List.range (record.dispatched.countP (·.isAnswered))
  /-- All there will ever be to reply is settled by what is submitted, and in which order. -/
  map_snd_sent : record.sent.map (·.2) <+: Pipeline.new.replies setup (submitted moves)
  /-- The reply to a command is computed on what exactly the commands before it left. -/
  mem_sent_iff : ∀ before command rest, submitted moves = before ++ command :: rest →
    command.isAnswered = true → ∀ reply,
      (before.countP (·.isAnswered), reply) ∈ record.sent ↔
        before.length < record.dispatched.length ∧
          ((Pipeline.new.after setup before).dispatch setup command).reply = some reply
  /-- The ticket for a command is fixed when it is queued. -/
  submit_fst : 0 < vault.handles → ∀ command,
    (vault.submit command).1 =
      if command.isAnswered then .ticket ((submitted moves).countP (·.isAnswered)) else .queued
  /-- Nothing but the reply that was sent arrives, however late it is asked for. -/
  poll_fst : ∀ ticket, .forget ticket ∉ moves → ticket ∉ record.served → ∀ reply,
    (vault.poll ticket).1 = some reply ↔ (ticket, reply) ∈ record.sent
  received_subset : record.received ⊆ record.sent
  nodup_served : record.served.Nodup

theorem serial_of_recorded (h : Recorded setup moves record vault) :
    Serial setup moves record vault := by
  have h := Consistent.of_recorded h
  constructor
  · exact h.submitted_eq
  · exact h.exists_process?
  · exact h.pipeline_eq
  · exact h.map_fst_sent
  · exact h.map_snd_sent
  · intro before command rest hsubmitted hanswered reply
    exact h.mem_sent_iff_of_submitted hsubmitted hanswered reply
  · exact h.submit_fst
  · intro ticket hforget hserved reply
    exact h.poll_fst_eq_some_iff hforget hserved reply
  · exact h.received_subset
  · exact h.nodup_served

/--
Any run of a vault is serial. To take the moves out that look after ignored tickets changes no other
ticket, no command and no reply that is sent.
-/
theorem serial_of_runs (runs : Runs setup .new moves vault) :
    ∃ record, Recorded setup moves record vault ∧ Serial setup moves record vault ∧
      ∀ ignored : Nat → Bool, ∃ slots : Array Slot,
        Recorded setup (moves.filter fun move => !move.concerns ignored) (record.neglect ignored)
          { vault with slots } ∧
        ∀ ticket, ignored ticket = false → slots[ticket]? = vault.slots[ticket]? := by
  obtain ⟨record, hrecord⟩ := exists_recorded_of_runs runs
  refine ⟨record, hrecord, serial_of_recorded hrecord, ?_⟩
  intro ignored
  obtain ⟨slots, hagree, hneglect⟩ := hrecord.neglect ignored
  exact ⟨slots, hneglect, hagree.getElem?_eq⟩

/-- Two commands of which the second has a reply, for which its caller asks when it is there. -/
theorem serial_of_runs_set_get :
    let setup : Setup := ⟨default, .numbered 0, .resetStore⟩
    let moves : List Move :=
      [.submit (.set "key" "value"), .submit (.get "key"), .dropHandle, .process, .process,
        .poll 0]
    ∃ vault record, Runs setup .new moves vault ∧ Recorded setup moves record vault ∧
      Serial setup moves record vault := by
  intro setup moves
  obtain ⟨vault, runs⟩ : ∃ vault, Runs setup .new moves vault := by
    refine ⟨_, .cons (.submit _ _ ?_) (.cons (.submit _ _ ?_) (.cons (.dropHandle _ ?_)
      (.cons (.process _ _ rfl) (.cons (.process _ _ rfl) (.cons (.poll _ _) (.nil _))))))⟩
    · exact Nat.one_pos
    · exact Nat.one_pos
    · exact Nat.one_pos
  obtain ⟨record, hrecord, hserial, -⟩ := serial_of_runs runs
  exact ⟨vault, record, runs, hrecord, hserial⟩

end SealedVault.Vault
