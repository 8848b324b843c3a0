import SealedVault.Proofs.Serial

/-!
This module contains what the log of a vault holds after a run. Main statement: `log_of_recorded`,
so the log holds the events of the commands that were processed, in order, and then the closing
event if the vault is finished.
-/

namespace SealedVault

namespace Pipeline

variable (setup : Setup) (pipeline : Pipeline)

/-- The events of some commands that are processed one after the other. -/
def events (pipeline : Pipeline) : List Command → Array Event
  | [] => #[]
  | command :: rest =>
    let dispatched := pipeline.dispatch setup command
    dispatched.events ++ dispatched.pipeline.events rest

theorem events_concat (before : List Command) (command : Command) :
    pipeline.events setup (before ++ [command]) =
      pipeline.events setup before ++
        ((pipeline.after setup before).dispatch setup command).events := by
  induction before generalizing pipeline with
  | nil => exact Array.append_empty.trans Array.empty_append.symm
  | cons first rest ih =>
    rw [List.cons_append, events, events, ih, Array.append_assoc]
    rfl

end Pipeline

namespace Vault

variable {setup : Setup} {moves : List Move} {record : Record} {vault after : Vault}

/-- What the log holds last. -/
def closing (vault : Vault) : Array Event :=
  if vault.status = .finished then #[finishedEvent vault.pipeline.store] else #[]

theorem log_submit (command : Command) (hstatus : vault.status = .running) :
    (vault.submit command).2.log = vault.log ∧ (vault.submit command).2.closing = #[] := by
  cases hanswered : command.isAnswered with
  | true =>
    rw [submit_of_isAnswered hstatus hanswered, closing, hstatus]
    exact ⟨rfl, rfl⟩
  | false =>
    rw [submit_of_not_isAnswered hstatus hanswered, closing, hstatus]
    exact ⟨rfl, rfl⟩

theorem log_of_recorded (h : Recorded setup moves record vault) :
    vault.log = Pipeline.new.events setup record.dispatched ++ vault.closing := by
  induction h with
  | new => rfl
  | step before step ih =>
    next moves record vault after move =>
    have hbefore := Consistent.of_recorded before
    cases step with
    | submit command hhandles =>
      have hrunning := hbefore.running hhandles
      obtain ⟨hlog, hclosing⟩ := log_submit command hrunning
      rw [closing, hrunning] at ih
      rw [hlog, hclosing]
      exact ih
    | poll ticket =>
      unfold Record.extend
      dsimp only
      rw [poll_snd]
      split
      · exact ih
      · exact ih
    | forget ticket => exact ih
    | cloneHandle hhandles => exact ih
    | dropHandle hhandles => exact ih
    | process _ hprocess =>
      obtain ⟨request, queue, hstatus, hqueue, rfl⟩ := process?_eq_some_iff.1 hprocess
      unfold Record.extend
      rw [hqueue]
      dsimp only [Record.dispatch]
      rw [closing, hstatus] at ih ⊢
      rw [Pipeline.events_concat, ← hbefore.pipeline_eq, ih]
      rfl
    | finish _ hfinish =>
      obtain ⟨hstatus, -, -, rfl⟩ := finish?_eq_some_iff.1 hfinish
      rw [closing, hstatus] at ih
      unfold Record.extend
      dsimp only
      rw [ih]
      rfl

end Vault

end SealedVault
