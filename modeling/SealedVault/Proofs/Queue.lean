import SealedVault.Proofs.Sequence
import SealedVault.Vault.Step

/-!
This module contains what the single moves do to a vault: to its queue, and to the slot of every
ticket. Main statements: `process?_eq_some_iff`, `getElem?_deliver` and `getElem?_poll`.
-/

namespace SealedVault

namespace Slot

def fill (reply : Reply) : Slot → Slot
  | waiting => delivered reply
  | delivered earlier => delivered earlier
  | forgotten => forgotten

def take : Slot → Slot
  | waiting => waiting
  | _ => forgotten

def reply? : Slot → Option Reply
  | delivered reply => some reply
  | _ => none

end Slot

/-- Commands as they wait in the queue, with tickets from `ticket` on. -/
def Request.number (ticket : Nat) : List Command → List Request
  | [] => []
  | command :: rest =>
    if command.isAnswered then ⟨command, some ticket⟩ :: number (ticket + 1) rest
    else ⟨command, none⟩ :: number ticket rest

theorem Request.number_concat (ticket : Nat) (commands : List Command) (command : Command) :
    number ticket (commands ++ [command]) =
      number ticket commands ++ number (ticket + commands.countP (·.isAnswered)) [command] := by
  induction commands generalizing ticket with
  | nil => rfl
  | cons first rest ih =>
    rw [List.cons_append, number, number, List.countP_cons]
    cases first.isAnswered with
    | true =>
      rw [if_pos rfl, if_pos rfl, if_pos rfl, ih, List.cons_append, Nat.add_right_comm,
        Nat.add_assoc ticket]
    | false =>
      rw [if_neg Bool.false_ne_true, if_neg Bool.false_ne_true, if_neg Bool.false_ne_true, ih,
        List.cons_append, Nat.add_zero]

@[simp]
theorem Request.map_command_number (ticket : Nat) (commands : List Command) :
    (number ticket commands).map (·.command) = commands := by
  induction commands generalizing ticket with
  | nil => rfl
  | cons command rest ih =>
    rw [number]
    split
    · rw [List.map_cons, ih]
    · rw [List.map_cons, ih]

namespace Vault

variable {setup : Setup} {vault after : Vault}

section Change

variable {slots : Array Slot} {ticket : Nat} (change : Slot → Slot) (i : Nat)

theorem getElem?_setIfInBounds_of_getElem?_eq_some {slot : Slot} (h : slots[ticket]? = some slot) :
    (slots.setIfInBounds ticket (change slot))[i]? =
      if ticket = i then slots[i]?.map change else slots[i]? := by
  rw [Array.getElem?_setIfInBounds]
  split
  · next heq =>
    have := (Array.getElem?_eq_some_iff.1 h).1
    rw [if_pos this, ← heq, h]
    rfl
  · rfl

theorem getElem?_of_fixed (h : ∀ slot, slots[ticket]? = some slot → change slot = slot) :
    slots[i]? = if ticket = i then slots[i]?.map change else slots[i]? := by
  split
  · next heq =>
    rw [heq] at h
    cases hslot : slots[i]? with
    | none => rfl
    | some slot => rw [Option.map_some, h slot hslot]
  · rfl

end Change

theorem getElem?_deliver (slots : Array Slot) (ticket : Nat) (reply : Reply) (i : Nat) :
    (deliver slots (some ticket) (some reply))[i]? =
      if ticket = i then slots[i]?.map (·.fill reply) else slots[i]? := by
  unfold deliver
  dsimp only
  split
  · next hslot => exact getElem?_setIfInBounds_of_getElem?_eq_some (·.fill reply) i hslot
  · next hslot =>
    apply getElem?_of_fixed
    intro slot hfound
    cases slot with
    | waiting => exact absurd hfound hslot
    | delivered earlier => rfl
    | forgotten => rfl

theorem size_deliver (slots : Array Slot) (ticket : Option Nat) (reply : Option Reply) :
    (deliver slots ticket reply).size = slots.size := by
  unfold deliver
  split
  · split
    · rw [Array.size_setIfInBounds]
    · rfl
  · rfl

theorem poll_fst (vault : Vault) (ticket : Nat) :
    (vault.poll ticket).1 = vault.slots[ticket]?.bind (·.reply?) := by
  unfold poll
  split
  · next hslot => rw [hslot]; rfl
  · next hslot =>
    cases hfound : vault.slots[ticket]? with
    | none => rfl
    | some slot =>
      cases slot with
      | delivered reply => exact absurd hfound (hslot reply)
      | waiting => rfl
      | forgotten => rfl

theorem poll_fst_eq_some_iff {ticket : Nat} {reply : Reply} :
    (vault.poll ticket).1 = some reply ↔ vault.slots[ticket]? = some (.delivered reply) := by
  rw [poll_fst, Option.bind_eq_some_iff]
  constructor
  · rintro ⟨slot, hslot, hreply⟩
    cases slot with
    | waiting => cases hreply
    | forgotten => cases hreply
    | delivered found =>
      cases hreply
      exact hslot
  · intro hslot
    exact ⟨_, hslot, rfl⟩

theorem poll_snd_of_none {ticket : Nat} (h : (vault.poll ticket).1 = none) :
    (vault.poll ticket).2 = vault := by
  unfold poll at h ⊢
  split
  · next hslot =>
    rw [hslot] at h
    cases h
  · rfl

theorem poll_snd (vault : Vault) (ticket : Nat) :
    (vault.poll ticket).2 = { vault with slots := (vault.poll ticket).2.slots } := by
  unfold poll
  split
  · rfl
  · rfl

theorem getElem?_poll (vault : Vault) (ticket i : Nat) :
    (vault.poll ticket).2.slots[i]? =
      if ticket = i then vault.slots[i]?.map (·.take) else vault.slots[i]? := by
  unfold poll
  split
  · next hslot => exact getElem?_setIfInBounds_of_getElem?_eq_some (·.take) i hslot
  · next hslot =>
    apply getElem?_of_fixed
    intro slot hfound
    cases slot with
    | delivered reply => exact absurd hfound (hslot reply)
    | waiting => rfl
    | forgotten => rfl

theorem size_poll (vault : Vault) (ticket : Nat) :
    (vault.poll ticket).2.slots.size = vault.slots.size := by
  unfold poll
  split
  · rw [Array.size_setIfInBounds]
  · rfl

theorem getElem?_forget (vault : Vault) (ticket i : Nat) :
    (vault.forget ticket).slots[i]? =
      if ticket = i then vault.slots[i]?.map fun _ => .forgotten else vault.slots[i]? := by
  unfold forget
  dsimp only
  rw [Array.getElem?_setIfInBounds]
  split
  · split
    · next hbound => rw [Array.getElem?_eq_getElem (by omega)]; rfl
    · next hbound => rw [Array.getElem?_eq_none (by omega)]; rfl
  · rfl

theorem submit_of_isAnswered {command : Command} (hopen : vault.status = .running)
    (h : command.isAnswered = true) :
    vault.submit command = (.ticket vault.slots.size, { vault with
      queue := vault.queue ++ Request.number vault.slots.size [command]
      slots := vault.slots.push .waiting }) := by
  have hopen : vault.isClosed = false := by
    unfold isClosed
    rw [hopen]
    rfl
  unfold submit Request.number
  rw [hopen, h]
  unfold Command.isAnswered at h
  split
  · contradiction
  · split
    · next hrefusal => rw [hrefusal] at h; cases h
    · rfl

theorem submit_of_not_isAnswered {command : Command} (hopen : vault.status = .running)
    (h : command.isAnswered = false) :
    vault.submit command = (.queued, { vault with
      queue := vault.queue ++ Request.number vault.slots.size [command] }) := by
  have hopen : vault.isClosed = false := by
    unfold isClosed
    rw [hopen]
    rfl
  unfold submit Request.number
  rw [hopen, h]
  unfold Command.isAnswered at h
  split
  · contradiction
  · split
    · rfl
    · next hrefusal => rw [hrefusal] at h; cases h

theorem submit_snd (vault : Vault) (command : Command) :
    (vault.submit command).2 =
      { vault with
        queue := (vault.submit command).2.queue
        slots := (vault.submit command).2.slots
        log := (vault.submit command).2.log } := by
  unfold submit
  split
  · split
    · rfl
    · rfl
  · split
    · rfl
    · rfl

theorem process?_eq_some_iff :
    vault.process? setup = some after ↔
      ∃ request queue, vault.status = .running ∧ vault.queue = request :: queue ∧
        let dispatched := vault.pipeline.dispatch setup request.command
        after = { vault with
          pipeline := dispatched.pipeline
          queue
          slots := deliver vault.slots request.ticket dispatched.reply
          log := vault.log ++ dispatched.events } := by
  unfold process?
  constructor
  · intro h
    split at h
    · next request queue hstatus hqueue =>
      cases h
      exact ⟨request, queue, hstatus, hqueue, rfl⟩
    · cases h
  · rintro ⟨request, queue, hstatus, hqueue, rfl⟩
    rw [hstatus, hqueue]

theorem finish?_eq_some_iff :
    vault.finish? = some after ↔
      vault.status = .running ∧ vault.queue = [] ∧ vault.handles = 0 ∧
        after = { vault with
          status := .finished
          log := vault.log.push (finishedEvent vault.pipeline.store) } := by
  unfold finish?
  rw [Option.ite_none_right_eq_some]
  constructor
  · rintro ⟨⟨hstatus, hqueue, hhandles⟩, hafter⟩
    cases hafter
    exact ⟨hstatus, hqueue, hhandles, rfl⟩
  · rintro ⟨hstatus, hqueue, hhandles, rfl⟩
    exact ⟨⟨hstatus, hqueue, hhandles⟩, rfl⟩

end Vault

end SealedVault
