import SealedVault.Proofs.Queue

/-!
This module contains runs together with what was observed of them. Main statement:
`Consistent.of_recorded`, so the replies that were sent are those to the commands that were
processed, in order, and every slot tells what became of its reply.
-/

namespace SealedVault.Vault

/-- The commands that were queued. -/
def submitted (moves : List Move) : List Command :=
  moves.filterMap fun
    | .submit command => some command
    | _ => none

/-- What was observed of a vault: what it worked on, and which replies were sent and arrived. -/
structure Record where
  dispatched : List Command
  sent : List (Nat × Reply)
  received : List (Nat × Reply)

namespace Record

def empty : Record :=
  ⟨[], [], []⟩

def dispatch (record : Record) (request : Request) (reply : Option Reply) : Record :=
  { record with
    dispatched := record.dispatched ++ [request.command]
    sent := record.sent ++
      match request.ticket, reply with
      | some ticket, some reply => [(ticket, reply)]
      | _, _ => [] }

def receive (record : Record) (ticket : Nat) (reply : Reply) : Record :=
  { record with received := record.received ++ [(ticket, reply)] }

/-- Takes down what a move is going to do. -/
def extend (setup : Setup) (record : Record) (vault : Vault) : Move → Record
  | .process =>
    match vault.queue with
    | [] => record
    | request :: _ =>
      record.dispatch request (vault.pipeline.dispatch setup request.command).reply
  | .poll ticket =>
    match (vault.poll ticket).1 with
    | none => record
    | some reply => record.receive ticket reply
  | _ => record

end Record

/-- A run from a new vault, with what was observed of it. -/
inductive Recorded (setup : Setup) : List Move → Record → Vault → Prop where
  | new : Recorded setup [] .empty .new
  | step {moves : List Move} {record : Record} {vault after : Vault} {move : Move}
    (before : Recorded setup moves record vault) (step : Step setup vault move after) :
    Recorded setup (moves ++ [move]) (record.extend setup vault move) after

variable {setup : Setup} {moves : List Move} {record : Record} {vault after : Vault}

theorem exists_recorded_of_runs_of_recorded {more : List Move} (runs : Runs setup vault more after)
    (h : Recorded setup moves record vault) :
    ∃ record, Recorded setup (moves ++ more) record after := by
  induction runs generalizing moves record with
  | nil vault =>
    rw [List.append_nil]
    exact ⟨record, h⟩
  | cons step rest ih =>
    rw [List.append_cons]
    exact ih (h.step step)

theorem exists_recorded_of_runs (runs : Runs setup .new moves vault) :
    ∃ record, Recorded setup moves record vault := by
  have := exists_recorded_of_runs_of_recorded runs .new
  rwa [List.nil_append] at this

theorem submitted_concat (moves : List Move) (move : Move) :
    submitted (moves ++ [move]) = submitted moves ++ submitted [move] := by
  unfold submitted
  rw [List.filterMap_append]

theorem submitted_concat_of_eq_nil (moves : List Move) (move : Move) (h : submitted [move] = []) :
    submitted (moves ++ [move]) = submitted moves := by
  rw [submitted_concat, h, List.append_nil]

namespace Record

/-- The tickets whose replies arrived. -/
def served (record : Record) : List Nat :=
  record.received.map (·.1)

theorem mem_served_receive {ticket i : Nat} {reply : Reply} :
    i ∈ (record.receive ticket reply).served ↔ i ∈ record.served ∨ i = ticket := by
  unfold served receive
  rw [List.map_append, List.mem_append]
  exact or_congr_right List.mem_singleton

/-- What the slot of a ticket tells. -/
def Explains (moves : List Move) (record : Record) (ticket : Nat) : Slot → Prop
  | .waiting => record.sent.length ≤ ticket ∧ ticket ∉ record.served
  | .delivered reply => (ticket, reply) ∈ record.sent ∧ ticket ∉ record.served
  | .forgotten => .forget ticket ∈ moves ∨ ticket ∈ record.served

end Record

theorem Record.Explains.concat {ticket : Nat} {slot : Slot}
    (h : record.Explains moves ticket slot) (move : Move) :
    record.Explains (moves ++ [move]) ticket slot := by
  cases slot with
  | waiting => exact h
  | delivered reply => exact h
  | forgotten => exact h.imp_left (List.mem_append_left _)

/-- What holds after every run, of the vault itself and of what was observed of it. -/
structure Consistent (setup : Setup) (moves : List Move) (record : Record) (vault : Vault) :
    Prop where
  pipeline_eq : vault.pipeline = Pipeline.new.after setup record.dispatched
  sent_eq : record.sent = (Pipeline.new.replies setup record.dispatched).mapIdx Prod.mk
  pending : ∃ commands, submitted moves = record.dispatched ++ commands ∧
    vault.queue = Request.number record.sent.length commands
  size_slots : vault.slots.size = (submitted moves).countP (·.isAnswered)
  status : vault.status = .running ∨ vault.queue = [] ∧ vault.handles = 0
  slot : ∀ ticket slot, vault.slots[ticket]? = some slot → record.Explains moves ticket slot
  received_subset : record.received ⊆ record.sent
  nodup_served : record.served.Nodup

namespace Consistent

theorem new (setup : Setup) : Consistent setup [] .empty .new where
  pipeline_eq := rfl
  sent_eq := rfl
  pending := ⟨[], rfl, rfl⟩
  size_slots := rfl
  status := .inl rfl
  slot ticket slot h := by
    simp [Vault.new] at h
  received_subset := List.Subset.refl []
  nodup_served := List.nodup_nil

theorem running (h : Consistent setup moves record vault) (hhandles : 0 < vault.handles) :
    vault.status = .running := by
  obtain hstatus | ⟨-, hnone⟩ := h.status
  · exact hstatus
  · omega

theorem length_sent (h : Consistent setup moves record vault) :
    record.sent.length = record.dispatched.countP (·.isAnswered) := by
  rw [h.sent_eq, List.length_mapIdx, Pipeline.length_replies]

/-- A move by which no command is queued or processed, no slot changes and no reply arrives. -/
theorem frame (h : Consistent setup moves record vault) {move : Move}
    (hmove : submitted [move] = []) (hpipeline : after.pipeline = vault.pipeline)
    (hqueue : after.queue = vault.queue) (hslots : after.slots = vault.slots)
    (hstatus : after.status = .running ∨ after.queue = [] ∧ after.handles = 0) :
    Consistent setup (moves ++ [move]) record after where
  pipeline_eq := hpipeline.trans h.pipeline_eq
  sent_eq := h.sent_eq
  pending := by
    rw [submitted_concat_of_eq_nil moves move hmove, hqueue]
    exact h.pending
  size_slots := by
    rw [submitted_concat_of_eq_nil moves move hmove, hslots]
    exact h.size_slots
  status := hstatus
  slot ticket slot hslot := by
    rw [hslots] at hslot
    exact (h.slot ticket slot hslot).concat move
  received_subset := h.received_subset
  nodup_served := h.nodup_served

theorem mem_sent_iff (h : Consistent setup moves record vault) {ticket : Nat} {reply : Reply} :
    (ticket, reply) ∈ record.sent ↔
      (Pipeline.new.replies setup record.dispatched)[ticket]? = some reply := by
  rw [h.sent_eq, List.mem_mapIdx]
  constructor
  · rintro ⟨i, hi, heq⟩
    cases heq
    exact List.getElem?_eq_getElem hi
  · intro hreply
    obtain ⟨hi, rfl⟩ := List.getElem?_eq_some_iff.1 hreply
    exact ⟨ticket, hi, rfl⟩

theorem lt_of_mem_sent (h : Consistent setup moves record vault) {ticket : Nat} {reply : Reply}
    (hsent : (ticket, reply) ∈ record.sent) : ticket < record.sent.length := by
  rw [h.sent_eq, List.length_mapIdx]
  exact (List.getElem?_eq_some_iff.1 (h.mem_sent_iff.1 hsent)).1

theorem lt_of_mem_served (h : Consistent setup moves record vault) {ticket : Nat}
    (hserved : ticket ∈ record.served) : ticket < record.sent.length := by
  obtain ⟨⟨ticket, reply⟩, hreceived, rfl⟩ := List.mem_map.1 hserved
  exact h.lt_of_mem_sent (h.received_subset hreceived)

theorem length_sent_le (h : Consistent setup moves record vault) :
    record.sent.length ≤ vault.slots.size := by
  obtain ⟨commands, hsubmitted, -⟩ := h.pending
  rw [h.size_slots, h.length_sent, hsubmitted, List.countP_append]
  omega

theorem queue_submit (h : Consistent setup moves record vault) (command : Command) :
    ∃ commands, submitted (moves ++ [.submit command]) = record.dispatched ++ commands ∧
      vault.queue ++ Request.number vault.slots.size [command] =
        Request.number record.sent.length commands := by
  obtain ⟨commands, hsubmitted, hqueue⟩ := h.pending
  refine ⟨commands ++ [command], ?_, ?_⟩
  · rw [submitted_concat, hsubmitted, List.append_assoc]
    rfl
  · have := h.length_sent
    have := h.size_slots
    rw [hsubmitted, List.countP_append] at this
    rw [Request.number_concat, hqueue]
    congr 2
    omega

theorem submit (h : Consistent setup moves record vault) (command : Command)
    (hhandles : 0 < vault.handles) :
    Consistent setup (moves ++ [.submit command]) record (vault.submit command).2 := by
  have hsize := h.size_slots
  have hrunning := h.running hhandles
  cases hanswered : command.isAnswered with
  | true =>
    rw [submit_of_isAnswered hrunning hanswered]
    refine { h with
      pending := h.queue_submit command, size_slots := ?_, status := .inl hrunning, slot := ?_ }
    · rw [Array.size_push, hsize, submitted_concat, List.countP_append]
      simp [submitted, hanswered]
    · intro ticket slot hslot
      rw [Array.getElem?_push] at hslot
      split at hslot
      · next heq =>
        cases hslot
        have hle := h.length_sent_le
        refine ⟨heq ▸ hle, fun hserved => ?_⟩
        have := h.lt_of_mem_served hserved
        omega
      · exact (h.slot ticket slot hslot).concat _
  | false =>
    rw [submit_of_not_isAnswered hrunning hanswered]
    refine { h with
      pending := h.queue_submit command, size_slots := ?_, status := .inl hrunning, slot := ?_ }
    · rw [hsize, submitted_concat, List.countP_append]
      simp [submitted, hanswered]
    · intro ticket slot hslot
      exact (h.slot ticket slot hslot).concat _

/-- A move of a caller by which no more than slots change, and replies arrive. -/
theorem of_slots (h : Consistent setup moves record vault) {move : Move}
    (hmove : submitted [move] = []) {slots : Array Slot} {received : List (Nat × Reply)}
    (hsize : slots.size = vault.slots.size)
    (hslot : ∀ ticket slot, slots[ticket]? = some slot →
      Record.Explains (moves ++ [move]) { record with received } ticket slot)
    (hsubset : received ⊆ record.sent) (hnodup : (received.map (·.1)).Nodup) :
    Consistent setup (moves ++ [move]) { record with received } { vault with slots } := by
  have hsubmitted := submitted_concat_of_eq_nil moves move hmove
  refine { h with
    pending := ?_, size_slots := ?_, slot := hslot, received_subset := hsubset,
    nodup_served := hnodup }
  · rw [hsubmitted]
    exact h.pending
  · rw [hsize, hsubmitted, h.size_slots]

theorem forget (h : Consistent setup moves record vault) (ticket : Nat) :
    Consistent setup (moves ++ [.forget ticket]) record (vault.forget ticket) := by
  apply h.of_slots rfl
  · rw [Array.size_setIfInBounds]
  · intro i slot hslot
    have hslot : (vault.forget ticket).slots[i]? = some slot := hslot
    rw [getElem?_forget] at hslot
    split at hslot
    · next heq =>
      rw [Option.map_eq_some_iff] at hslot
      obtain ⟨_, _, rfl⟩ := hslot
      left
      rw [heq]
      exact List.mem_append_right _ List.mem_cons_self
    · exact (h.slot i slot hslot).concat _
  · exact h.received_subset
  · exact h.nodup_served

theorem poll_of_none (h : Consistent setup moves record vault) {ticket : Nat}
    (hreply : (vault.poll ticket).1 = none) :
    Consistent setup (moves ++ [.poll ticket]) record (vault.poll ticket).2 := by
  rw [poll_snd_of_none hreply]
  exact h.frame rfl rfl rfl rfl h.status

theorem poll_of_some (h : Consistent setup moves record vault) {ticket : Nat} {reply : Reply}
    (hreply : (vault.poll ticket).1 = some reply) :
    Consistent setup (moves ++ [.poll ticket])
      (record.receive ticket reply) (vault.poll ticket).2 := by
  have hslot := poll_fst_eq_some_iff.1 hreply
  obtain ⟨hsent, hfresh⟩ := h.slot ticket _ hslot
  rw [poll_snd]
  apply h.of_slots rfl
  · rw [size_poll]
  · intro i slot hi
    rw [getElem?_poll] at hi
    split at hi
    · next heq =>
      rw [← heq, hslot] at hi
      cases hi
      right
      exact Record.mem_served_receive.2 (.inr heq.symm)
    · next hne =>
      have hkept : i ∈ (record.receive ticket reply).served ↔ i ∈ record.served := by
        rw [Record.mem_served_receive]
        exact or_iff_left (Ne.symm hne)
      have := (h.slot i slot hi).concat (.poll ticket)
      cases slot with
      | waiting => exact ⟨this.1, mt hkept.1 this.2⟩
      | delivered earlier => exact ⟨this.1, mt hkept.1 this.2⟩
      | forgotten => exact this.imp_right hkept.2
  · intro entry hentry
    obtain hentry | hentry := List.mem_append.1 hentry
    · exact h.received_subset hentry
    · rw [List.mem_singleton.1 hentry]
      exact hsent
  · rw [List.map_append, List.nodup_append]
    refine ⟨h.nodup_served, List.pairwise_singleton _ _, ?_⟩
    -- The slot of a ticket that was served is empty, so no ticket is served twice
    rintro i hi j hj rfl
    have hj : i = ticket := List.mem_singleton.1 hj
    rw [hj] at hi
    exact hfresh hi

/-- The first command in the queue is processed, whether or not there is a reply to it. -/
theorem of_dispatch (h : Consistent setup moves record vault) {request : Request}
    {commands : List Command} {reply : Option Reply} {slots : Array Slot}
    (hstatus : vault.status = .running)
    (hsubmitted : submitted moves = record.dispatched ++ request.command :: commands)
    (hreply : (vault.pipeline.dispatch setup request.command).reply = reply)
    (hsent : (record.dispatch request reply).sent =
      record.sent ++ reply.toList.map (record.sent.length, ·))
    (hsize : slots.size = vault.slots.size)
    (hslot : ∀ ticket slot, slots[ticket]? = some slot →
      (record.dispatch request reply).Explains (moves ++ [.process]) ticket slot)
    (log : Array Event) :
    Consistent setup (moves ++ [.process]) (record.dispatch request reply)
      { vault with
        pipeline := (vault.pipeline.dispatch setup request.command).pipeline
        queue := Request.number (record.dispatch request reply).sent.length commands
        slots
        log } := by
  have hmoves := submitted_concat_of_eq_nil moves .process rfl
  have hlength := h.length_sent
  have hpipeline := h.pipeline_eq
  rw [hpipeline] at hreply ⊢
  refine { h with
    pipeline_eq := ?_, sent_eq := ?_, pending := ⟨commands, ?_, rfl⟩, size_slots := ?_,
    status := .inl hstatus, slot := hslot, received_subset := ?_ }
  · exact (Pipeline.after_concat setup .new record.dispatched request.command).symm
  · have hdispatched :
        (record.dispatch request reply).dispatched = record.dispatched ++ [request.command] := rfl
    rw [hsent, hdispatched, Pipeline.replies_concat, hreply, List.mapIdx_append, ← h.sent_eq,
      Pipeline.length_replies, ← hlength]
    cases reply with
    | none => rfl
    | some reply => simp
  · rw [hmoves, hsubmitted]
    exact List.append_cons record.dispatched request.command commands
  · rw [hsize, hmoves, h.size_slots]
  · exact fun entry hentry => List.mem_append_left _ (h.received_subset hentry)

theorem process_of_isAnswered (h : Consistent setup moves record vault) {command : Command}
    {commands : List Command} {reply : Reply} (hstatus : vault.status = .running)
    (hsubmitted : submitted moves = record.dispatched ++ command :: commands)
    (hreply : (vault.pipeline.dispatch setup command).reply = some reply) (log : Array Event) :
    let ticket := record.sent.length
    Consistent setup (moves ++ [.process])
      (record.dispatch ⟨command, some ticket⟩ (some reply))
      { vault with
        pipeline := (vault.pipeline.dispatch setup command).pipeline
        queue := Request.number (ticket + 1) commands
        slots := deliver vault.slots (some ticket) (some reply)
        log := log } := by
  intro ticket
  have hlength :
      (record.dispatch ⟨command, some ticket⟩ (some reply)).sent.length = ticket + 1 := by
    unfold Record.dispatch
    rw [List.length_append]
    rfl
  rw [← hlength]
  apply h.of_dispatch hstatus hsubmitted hreply rfl
  · rw [size_deliver]
  · intro i slot hslot
    rw [getElem?_deliver] at hslot
    -- The reply goes to the first ticket that none was sent for, and leaves the others as they are
    split at hslot
    · next heq =>
      obtain ⟨found, hfound, rfl⟩ := Option.map_eq_some_iff.1 hslot
      have := (h.slot i found hfound).concat .process
      cases found with
      | waiting => exact ⟨List.mem_append_right _ (by simp [heq]), this.2⟩
      | delivered earlier => exact ⟨List.mem_append_left _ this.1, this.2⟩
      | forgotten => exact this
    · next hne =>
      have := (h.slot i slot hslot).concat .process
      cases slot with
      | waiting =>
        obtain ⟨hle, hfresh⟩ := this
        refine ⟨?_, hfresh⟩
        rw [hlength]
        omega
      | delivered earlier => exact ⟨List.mem_append_left _ this.1, this.2⟩
      | forgotten => exact this

theorem process_of_not_isAnswered (h : Consistent setup moves record vault) {command : Command}
    {commands : List Command} (hstatus : vault.status = .running)
    (hsubmitted : submitted moves = record.dispatched ++ command :: commands)
    (hreply : (vault.pipeline.dispatch setup command).reply = none) (log : Array Event) :
    Consistent setup (moves ++ [.process]) (record.dispatch ⟨command, none⟩ none)
      { vault with
        pipeline := (vault.pipeline.dispatch setup command).pipeline
        queue := Request.number record.sent.length commands
        log := log } := by
  have hsent : (record.dispatch ⟨command, none⟩ none).sent = record.sent := List.append_nil _
  rw [← hsent]
  apply h.of_dispatch hstatus hsubmitted hreply rfl rfl
  intro i slot hslot
  have := (h.slot i slot hslot).concat .process
  cases slot with
  | waiting =>
    refine ⟨?_, this.2⟩
    rw [hsent]
    exact this.1
  | delivered earlier => exact ⟨List.mem_append_left _ this.1, this.2⟩
  | forgotten => exact this

theorem process (h : Consistent setup moves record vault)
    (hprocess : vault.process? setup = some after) :
    Consistent setup (moves ++ [.process]) (record.extend setup vault .process) after := by
  obtain ⟨request, queue, hstatus, hqueue, rfl⟩ := process?_eq_some_iff.1 hprocess
  obtain ⟨commands, hsubmitted, hnumber⟩ := h.pending
  unfold Record.extend
  rw [hqueue] at hnumber ⊢
  dsimp only
  cases commands with
  | nil => cases hnumber
  | cons command rest =>
    have hreply := Pipeline.isSome_reply_dispatch setup vault.pipeline command
    rw [Request.number] at hnumber
    cases hanswered : command.isAnswered with
    | true =>
      rw [hanswered, if_pos rfl] at hnumber
      cases hnumber
      rw [hanswered, Option.isSome_iff_exists] at hreply
      obtain ⟨reply, hreply⟩ := hreply
      have := h.process_of_isAnswered hstatus hsubmitted hreply
      dsimp only
      rw [hreply]
      apply this
    | false =>
      rw [hanswered, if_neg Bool.false_ne_true] at hnumber
      cases hnumber
      rw [hanswered, Option.isSome_eq_false_iff, Option.isNone_iff_eq_none] at hreply
      have := h.process_of_not_isAnswered hstatus hsubmitted hreply
      dsimp only
      rw [hreply]
      apply this

theorem step (h : Consistent setup moves record vault) {move : Move}
    (step : Step setup vault move after) :
    Consistent setup (moves ++ [move]) (record.extend setup vault move) after := by
  cases step with
  | submit command hhandles => exact h.submit command hhandles
  | forget ticket => exact h.forget ticket
  | process _ hprocess => exact h.process hprocess
  | cloneHandle hhandles => exact h.frame rfl rfl rfl rfl (.inl (h.running hhandles))
  | dropHandle hhandles => exact h.frame rfl rfl rfl rfl (.inl (h.running hhandles))
  | finish _ hfinish =>
    obtain ⟨-, hqueue, hhandles, rfl⟩ := finish?_eq_some_iff.1 hfinish
    exact h.frame rfl rfl rfl rfl (.inr ⟨hqueue, hhandles⟩)
  | poll ticket =>
    unfold Record.extend
    dsimp only
    cases hreply : (vault.poll ticket).1 with
    | none => exact h.poll_of_none hreply
    | some reply => exact h.poll_of_some hreply

theorem of_recorded (h : Recorded setup moves record vault) :
    Consistent setup moves record vault := by
  induction h with
  | new => exact .new setup
  | step _ step ih => exact ih.step step

end Consistent

end SealedVault.Vault
