import SealedVault.Proofs.History

/-!
This module contains what changes in a run if callers leave some of their tickets alone. Main
statement: `Recorded.neglect`, so nothing changes but the slots of these tickets.
-/

namespace SealedVault.Vault

/-- The move looks after an ignored ticket. -/
def Move.concerns (ignored : Nat → Bool) : Move → Bool
  | poll ticket => ignored ticket
  | forget ticket => ignored ticket
  | _ => false

/-- What was observed apart from the replies for ignored tickets. -/
def Record.neglect (ignored : Nat → Bool) (record : Record) : Record :=
  { record with received := record.received.filter fun entry => !ignored entry.1 }

/-- The slots differ at most for ignored tickets. -/
structure Agree (ignored : Nat → Bool) (slots others : Array Slot) : Prop where
  size_eq : others.size = slots.size
  getElem?_eq : ∀ ticket, ignored ticket = false → others[ticket]? = slots[ticket]?

variable {setup : Setup} {ignored : Nat → Bool} {moves : List Move} {record : Record}
  {vault after : Vault} {slots others : Array Slot}

namespace Agree

theorem refl (ignored : Nat → Bool) (slots : Array Slot) : Agree ignored slots slots :=
  ⟨rfl, fun _ _ => rfl⟩

theorem push (h : Agree ignored slots others) (slot : Slot) :
    Agree ignored (slots.push slot) (others.push slot) where
  size_eq := by
    rw [Array.size_push, Array.size_push, h.size_eq]
  getElem?_eq ticket hticket := by
    rw [Array.getElem?_push, Array.getElem?_push, h.size_eq, h.getElem?_eq ticket hticket]

theorem deliver (h : Agree ignored slots others) (ticket : Option Nat) (reply : Option Reply) :
    Agree ignored (deliver slots ticket reply) (deliver others ticket reply) where
  size_eq := by
    rw [size_deliver, size_deliver, h.size_eq]
  getElem?_eq i hi := by
    cases ticket with
    | none => exact h.getElem?_eq i hi
    | some ticket =>
      cases reply with
      | none => exact h.getElem?_eq i hi
      | some reply => rw [getElem?_deliver, getElem?_deliver, h.getElem?_eq i hi]

/-- What happens to the slot of an ignored ticket does not matter. -/
theorem left (h : Agree ignored slots others) {ticket : Nat} (hticket : ignored ticket = true)
    {changed : Array Slot} (hsize : changed.size = slots.size)
    (hchanged : ∀ i, ticket ≠ i → changed[i]? = slots[i]?) : Agree ignored changed others where
  size_eq := by
    rw [h.size_eq, hsize]
  getElem?_eq i hi := by
    rw [h.getElem?_eq i hi, hchanged i]
    intro heq
    rw [← heq, hticket] at hi
    cases hi

theorem poll (h : Agree ignored vault.slots others) (ticket : Nat) :
    Agree ignored (vault.poll ticket).2.slots
      ({ vault with slots := others }.poll ticket).2.slots where
  size_eq := by
    rw [size_poll, size_poll, h.size_eq]
  getElem?_eq i hi := by
    rw [getElem?_poll, getElem?_poll, h.getElem?_eq i hi]

theorem poll_fst (h : Agree ignored vault.slots others) {ticket : Nat}
    (hticket : ignored ticket = false) :
    ({ vault with slots := others }.poll ticket).1 = (vault.poll ticket).1 := by
  rw [Vault.poll_fst, Vault.poll_fst, h.getElem?_eq ticket hticket]

theorem forget (h : Agree ignored vault.slots others) (ticket : Nat) :
    Agree ignored (vault.forget ticket).slots
      ({ vault with slots := others }.forget ticket).slots where
  size_eq := by
    unfold Vault.forget
    rw [Array.size_setIfInBounds, Array.size_setIfInBounds, h.size_eq]
  getElem?_eq i hi := by
    rw [getElem?_forget, getElem?_forget, h.getElem?_eq i hi]

theorem submit (h : Agree ignored vault.slots others) (command : Command) :
    ∃ slots, Agree ignored (vault.submit command).2.slots slots ∧
      { vault with slots := others }.submit command =
        ((vault.submit command).1, { (vault.submit command).2 with slots }) := by
  unfold Vault.submit
  split
  · next hclosed =>
    rw [if_pos (show isClosed { vault with slots := others } = true from hclosed)]
    cases command.refusal? with
    | none => exact ⟨others, h, rfl⟩
    | some reply =>
      refine ⟨others.push (.delivered reply), h.push _, ?_⟩
      dsimp only
      rw [h.size_eq]
  · next hclosed =>
    rw [if_neg (show ¬ isClosed { vault with slots := others } = true from hclosed)]
    cases command.refusal? with
    | none => exact ⟨others, h, rfl⟩
    | some reply =>
      refine ⟨others.push .waiting, h.push _, ?_⟩
      dsimp only
      rw [h.size_eq]

theorem step_of_concerns (h : Agree ignored vault.slots others) {move : Move}
    (step : Step setup vault move after) (hmove : move.concerns ignored = true) :
    Agree ignored after.slots others ∧
      { after with slots := others } = { vault with slots := others } ∧
      (record.extend setup vault move).neglect ignored = record.neglect ignored := by
  cases step with
  | submit command _ => cases hmove
  | cloneHandle _ => cases hmove
  | dropHandle _ => cases hmove
  | process _ _ => cases hmove
  | finish _ _ => cases hmove
  | forget ticket =>
    refine ⟨?_, rfl, rfl⟩
    apply h.left hmove
    · exact Array.size_setIfInBounds
    · intro i hi
      rw [getElem?_forget, if_neg hi]
  | poll ticket =>
    refine ⟨?_, ?_, ?_⟩
    · apply h.left hmove
      · rw [size_poll]
      · intro i hi
        rw [getElem?_poll, if_neg hi]
    · rw [poll_snd]
    · unfold Record.extend
      dsimp only
      split
      · rfl
      · unfold Record.neglect Record.receive
        have hmove : ignored ticket = true := hmove
        simp [hmove]

theorem step (h : Agree ignored vault.slots others) {move : Move}
    (step : Step setup vault move after) (hmove : move.concerns ignored = false) :
    ∃ slots, Agree ignored after.slots slots ∧
      Step setup { vault with slots := others } move { after with slots } ∧
      (record.neglect ignored).extend setup { vault with slots := others } move =
        (record.extend setup vault move).neglect ignored := by
  cases step with
  | submit command hhandles =>
    obtain ⟨slots, hagree, hsubmit⟩ := h.submit command
    refine ⟨slots, hagree, ?_, rfl⟩
    have hstep : Step setup _ (.submit command) _ :=
      .submit { vault with slots := others } command hhandles
    rwa [hsubmit] at hstep
  | cloneHandle hhandles => exact ⟨others, h, .cloneHandle _ hhandles, rfl⟩
  | dropHandle hhandles => exact ⟨others, h, .dropHandle _ hhandles, rfl⟩
  | forget ticket => exact ⟨_, h.forget ticket, .forget _ ticket, rfl⟩
  | poll ticket =>
    have hmove : ignored ticket = false := hmove
    refine ⟨_, h.poll ticket, ?_, ?_⟩
    · have hstep : Step setup _ (.poll ticket) _ := .poll { vault with slots := others } ticket
      rw [poll_snd] at hstep
      rwa [poll_snd vault]
    · unfold Record.extend
      dsimp only
      rw [h.poll_fst hmove]
      split
      · rfl
      · unfold Record.neglect Record.receive
        simp [hmove]
  | process _ hprocess =>
    obtain ⟨request, queue, hstatus, hqueue, rfl⟩ := process?_eq_some_iff.1 hprocess
    refine ⟨_, h.deliver _ _, .process _ _ ?_, ?_⟩
    · exact process?_eq_some_iff.2 ⟨request, queue, hstatus, hqueue, rfl⟩
    · unfold Record.extend
      dsimp only
      rw [hqueue]
      rfl
  | finish _ hfinish =>
    obtain ⟨hstatus, hqueue, hhandles, rfl⟩ := finish?_eq_some_iff.1 hfinish
    refine ⟨others, h, .finish _ _ ?_, rfl⟩
    exact finish?_eq_some_iff.2 ⟨hstatus, hqueue, hhandles, rfl⟩

end Agree

theorem Recorded.neglect (h : Recorded setup moves record vault) (ignored : Nat → Bool) :
    ∃ slots, Agree ignored vault.slots slots ∧
      Recorded setup (moves.filter fun move => !move.concerns ignored) (record.neglect ignored)
        { vault with slots } := by
  induction h with
  | new => exact ⟨_, .refl ignored _, .new⟩
  | step before step ih =>
    next move =>
    obtain ⟨others, hagree, hbefore⟩ := ih
    rw [List.filter_append]
    cases hmove : move.concerns ignored with
    | true =>
      -- The run without ignored tickets stays where it is
      obtain ⟨hafter, hvault, hrecord⟩ := hagree.step_of_concerns step hmove
      refine ⟨others, hafter, ?_⟩
      rw [hrecord, hvault, List.filter_cons_of_neg (by simp [hmove]), List.filter_nil,
        List.append_nil]
      exact hbefore
    | false =>
      obtain ⟨slots, hafter, hstep, hrecord⟩ := hagree.step step hmove
      refine ⟨slots, hafter, ?_⟩
      rw [← hrecord, List.filter_cons_of_pos (by simp [hmove]), List.filter_nil]
      exact hbefore.step hstep

end SealedVault.Vault
