import SealedVault.Proofs.Alarms
import SealedVault.Proofs.History
import SealedVault.Proofs.Provenance
import SealedVault.Proofs.Sharing

/-!
This module contains the initialisation vectors that a session draws. Main statements:
`Fresh.of_runs`, so every draw belongs to one encryption and no other, `ivsDrawn_dispatch`, so a
command draws once for each instruction that seals a value, and `vectors_of_runs`, which says both
of whole runs, of sessions and of vaults.
-/

namespace SealedVault

namespace Envelope

/-- The first bytes of a spelled envelope. -/
def vector? (entry : String) : Option Bytes :=
  (Base64.decode? entry).map (·.take Iv.size)

theorem vector?_spell (key : Key) (iv : Iv) (text : String) :
    vector? (spell key iv text) = some iv.bytes := by
  unfold vector? spell
  rw [Base64.decode?_encode, Option.map_some, sealUnder, Iv.size, ← iv.size_eq,
    List.take_left]

end Envelope

namespace Session

def Call.isEncrypt : Call → Bool
  | encrypt _ => true
  | decrypt _ => false

namespace Task

/-- The number of the vector that a call has drawn. -/
def draw? : Task → Option Nat
  | sealing _ _ draw => some draw
  | sealed _ draw _ => some draw
  | _ => none

def envelope? : Task → Option String
  | sealed _ _ envelope => some envelope
  | _ => none

def needsDraw : Task → Bool
  | holding (.encrypt _) _ => true
  | _ => false

theorem Advances.draw?_eq {supply : Supply} {session after : Session} {task next : Task}
    (h : Advances supply session task after next) :
    task.needsDraw = true ∧ task.draw? = none ∧ next.draw? = some session.ivsDrawn ∧
        after.ivsDrawn = session.ivsDrawn + 1 ∨
      task.needsDraw = false ∧ next.draw? = task.draw? ∧ after.ivsDrawn = session.ivsDrawn := by
  cases h with
  | receive => exact .inr ⟨rfl, rfl, rfl⟩
  | draw => exact .inr ⟨rfl, rfl, rfl⟩
  | publish => exact .inr ⟨rfl, rfl, rfl⟩
  | drawVector => exact .inl ⟨rfl, rfl, rfl, rfl⟩
  | decrypt => exact .inr ⟨rfl, rfl, rfl⟩
  | encrypt => exact .inr ⟨rfl, rfl, rfl⟩

theorem eq_sealed_of_envelope? {task : Task} {envelope : String}
    (h : task.envelope? = some envelope) : ∃ text draw, task = .sealed text draw envelope := by
  cases task with
  | sealed text draw other =>
    cases h
    exact ⟨text, draw, rfl⟩
  | _ => cases h

theorem draw?_of_canAbandon {task : Task} (h : task.canAbandon = true) : task.draw? = none := by
  cases task with
  | waiting call => rfl
  | drawing call => rfl
  | _ => cases h

end Task

namespace Shared

variable {supply : Supply} {shared after : Shared} {moves : List Move}

def draws (shared : Shared) : List Nat :=
  shared.tasks.filterMap (·.draw?)

def envelopes (shared : Shared) : List String :=
  shared.tasks.filterMap (·.envelope?)

/-- The move takes the next draw. -/
def takesDraw (shared : Shared) : Move → Bool
  | .advance index => shared.tasks[index]?.any (·.needsDraw)
  | _ => false

theorem draws_replace_perm {before behind : List Task} {task next : Task} {draw : Nat}
    {session other : Session} (htask : task.draw? = none) (hnext : next.draw? = some draw) :
    (draws ⟨other, before ++ next :: behind⟩).Perm
      (draws ⟨session, before ++ task :: behind⟩ ++ [draw]) := by
  unfold draws
  simp only [List.filterMap_append, List.filterMap_cons, htask, hnext]
  apply List.perm_middle.trans
  apply (List.perm_append_singleton draw _).symm

theorem draws_replace {before behind : List Task} {task next : Task} {session other : Session}
    (h : next.draw? = task.draw?) :
    draws ⟨other, before ++ next :: behind⟩ = draws ⟨session, before ++ task :: behind⟩ := by
  unfold draws
  simp only [List.filterMap_append, List.filterMap_cons, h]

/-- A move takes the next draw, or none, and no call gives a draw back. -/
theorem draws_of_step {move : Move} (step : Step supply shared move after) :
    shared.takesDraw move = true ∧ after.draws.Perm (shared.draws ++ [shared.session.ivsDrawn]) ∧
        after.session.ivsDrawn = shared.session.ivsDrawn + 1 ∨
      shared.takesDraw move = false ∧ after.draws = shared.draws ∧
        after.session.ivsDrawn = shared.session.ivsDrawn := by
  cases step with
  | start call =>
    refine .inr ⟨rfl, ?_, rfl⟩
    unfold draws
    rw [List.filterMap_append]
    apply List.append_nil
  | enter before behind call hkey hfree => exact .inr ⟨rfl, draws_replace rfl, rfl⟩
  | abandon before behind hpending =>
    exact .inr ⟨rfl, draws_replace (Task.draw?_of_canAbandon hpending).symm, rfl⟩
  | @advance session _ task _ before behind hadvance =>
    have htakes : takesDraw ⟨session, before ++ task :: behind⟩ (.advance before.length) =
        task.needsDraw := by
      dsimp only [takesDraw]
      rw [List.getElem?_append_right (Nat.le_refl _), Nat.sub_self]
      rfl
    rw [htakes]
    obtain ⟨hneeds, htask, hnext, hivs⟩ | ⟨hneeds, hdraw, hivs⟩ :=
      (Task.advances_of_advance? hadvance).draw?_eq
    · exact .inl ⟨hneeds, draws_replace_perm htask hnext, hivs⟩
    · exact .inr ⟨hneeds, draws_replace hdraw, hivs⟩

theorem draws_perm_of_runs (runs : Runs supply .new moves shared) :
    shared.draws.Perm (List.range shared.session.ivsDrawn) := by
  induction runs with
  | nil => exact List.Perm.nil
  | concat _ step ih =>
    obtain ⟨-, hdraws, hivs⟩ | ⟨-, hdraws, hivs⟩ := draws_of_step step
    · rw [hivs, List.range_succ]
      apply hdraws.trans
      apply ih.append_right
    · rw [hdraws, hivs]
      exact ih

theorem nodup_draws_of_runs (runs : Runs supply .new moves shared) : shared.draws.Nodup := by
  rw [(draws_perm_of_runs runs).nodup_iff]
  apply List.nodup_range

theorem lt_of_mem_draws {draw : Nat} (runs : Runs supply .new moves shared)
    (hmem : draw ∈ shared.draws) : draw < shared.session.ivsDrawn := by
  rw [(draws_perm_of_runs runs).mem_iff] at hmem
  apply List.mem_range.1 hmem

def DistinctVectors (supply : Supply) (session : Session) : Prop :=
  ∀ m n, m < session.ivsDrawn → n < session.ivsDrawn →
    (supply.iv m).bytes = (supply.iv n).bytes → m = n

/-- How the calls of a session have used the vectors that it drew. -/
structure Fresh (supply : Supply) (shared : Shared) : Prop where
  /-- Each draw belongs to one encryption, and no encryption shares its own. -/
  draws_perm : shared.draws.Perm (List.range shared.session.ivsDrawn)
  /-- Nothing draws but an encryption that is about to seal, and that draws once. -/
  step : ∀ move after, Step supply shared move after →
    after.session.ivsDrawn =
      shared.session.ivsDrawn + if shared.takesDraw move then 1 else 0
  vector : ∀ text draw envelope, .sealed text draw envelope ∈ shared.tasks →
    Envelope.vector? envelope = some (supply.iv draw).bytes
  pairwise : DistinctVectors supply shared.session →
    shared.envelopes.Pairwise fun one other =>
      Envelope.vector? one ≠ Envelope.vector? other ∧ one ≠ other

theorem vector?_of_sound {text envelope : String} {draw : Nat}
    (h : Task.Sound supply (.sealed text draw envelope)) :
    Envelope.vector? envelope = some (supply.iv draw).bytes := by
  rw [show envelope = _ from h, Envelope.vector?_spell]

theorem Fresh.of_runs (runs : Runs supply .new moves shared) : Fresh supply shared where
  draws_perm := draws_perm_of_runs runs
  step := by
    intro move after step
    obtain ⟨htakes, -, hivs⟩ | ⟨htakes, -, hivs⟩ := draws_of_step step
    · rw [htakes, hivs]
      rfl
    · rw [htakes, hivs]
      rfl
  vector := by
    intro text draw envelope hmem
    apply vector?_of_sound
    apply ((Sound.new supply).of_runs runs).task _ hmem
  pairwise := by
    intro hdistinct
    have hsound := ((Sound.new supply).of_runs runs).task
    have hnodup := nodup_draws_of_runs runs
    unfold draws List.Nodup at hnodup
    unfold envelopes
    rw [List.pairwise_filterMap] at hnodup ⊢
    -- Two envelopes with the same vector would come from two calls with the same draw
    refine List.Pairwise.imp_of_mem ?_ hnodup
    intro task twin hmem htwin hdraws one hone other hother
    obtain ⟨text, m, rfl⟩ := Task.eq_sealed_of_envelope? hone
    obtain ⟨same, n, rfl⟩ := Task.eq_sealed_of_envelope? hother
    have hm : m < shared.session.ivsDrawn :=
      lt_of_mem_draws runs (List.mem_filterMap.2 ⟨_, hmem, rfl⟩)
    have hn : n < shared.session.ivsDrawn :=
      lt_of_mem_draws runs (List.mem_filterMap.2 ⟨_, htwin, rfl⟩)
    have hvectors : Envelope.vector? one ≠ Envelope.vector? other := by
      rw [vector?_of_sound (hsound _ hmem), vector?_of_sound (hsound _ htwin)]
      intro heq
      apply hdraws m rfl n rfl
      apply hdistinct m n hm hn (Option.some.inj heq)
    refine ⟨hvectors, ?_⟩
    rintro rfl
    apply hvectors rfl

theorem serial_append (shared : Shared) (calls more : List Call) :
    shared.serial supply (calls ++ more) = (shared.serial supply calls).serial supply more := by
  unfold serial
  rw [List.foldl_append]

theorem ivsDrawn_serial (shared : Shared) (calls : List Call) :
    (shared.serial supply calls).session.ivsDrawn =
      shared.session.ivsDrawn + calls.countP (·.isEncrypt) := by
  induction calls generalizing shared with
  | nil => rfl
  | cons call rest ih =>
    have hrest := ih (shared.perform supply call)
    cases call with
    | encrypt text =>
      rw [List.countP_cons_of_pos rfl]
      apply hrest.trans
      dsimp only [perform]
      rw [ivsDrawn_encrypt]
      omega
    | decrypt entry =>
      rw [List.countP_cons_of_neg Bool.false_ne_true]
      apply hrest.trans
      dsimp only [perform]
      rw [decrypt, ivsDrawn_withKey]

theorem mem_perform {task : Task} (h : task ∈ shared.tasks) (call : Call) :
    task ∈ (shared.perform supply call).tasks := by
  cases call with
  | encrypt text => exact List.mem_append_left _ h
  | decrypt entry => exact List.mem_append_left _ h

theorem mem_serial {task : Task} (h : task ∈ shared.tasks) (calls : List Call) :
    task ∈ (shared.serial supply calls).tasks := by
  induction calls generalizing shared with
  | nil => exact h
  | cons call rest ih => exact ih (mem_perform h call)

end Shared

end Session

namespace Pipeline

open Session (Call Shared)

variable (setup : Setup)

/-- What an instruction asks of the session when it is run. -/
def call? (pipeline : Pipeline) : Instruction → Option Call
  | .store _ value => some (.encrypt value)
  | .load key _ =>
    if key.utf8ByteSize ≤ Bytecode.maxOperand then (pipeline.store.get? key).map .decrypt else none
  | .delete _ => none

/-- The instructions that a command runs. A single-key command is a program of one instruction. -/
def trailOf (pipeline : Pipeline) : Command → List (Pipeline × Instruction)
  | .set key value => pipeline.trail setup [.store key value]
  | .get key => pipeline.trail setup [.load key none]
  | .delete key => pipeline.trail setup [.delete key]
  | .clear => []
  | .flush => []
  | .script source =>
    match Source.parse setup.config.maxScriptLines.toNat source with
    | .error _ => []
    | .ok program => pipeline.trail setup program

def callsIn (trail : List (Pipeline × Instruction)) : List Call :=
  trail.flatMap fun run => (run.1.call? run.2).toList

def calls (pipeline : Pipeline) : List Command → List Call
  | [] => []
  | command :: rest =>
    callsIn (pipeline.trailOf setup command) ++
      (pipeline.dispatch setup command).pipeline.calls rest

variable (pipeline : Pipeline)

theorem session_set (key value : String) :
    (pipeline.set setup key value).pipeline.session =
      (pipeline.session.encrypt setup.supply value).2 := by
  rw [set_eq]
  apply session_perform

theorem session_delete (key : String) :
    (pipeline.delete key).pipeline.session = pipeline.session := by
  apply session_perform

theorem session_get {key : String} (target : Option String) {shared : Shared}
    (h : shared.session = pipeline.session) :
    (shared.serial setup.supply (pipeline.call? (.load key target)).toList).session =
      (pipeline.get setup key).pipeline.session := by
  rw [call?]
  by_cases hkey : key.utf8ByteSize ≤ Bytecode.maxOperand
  · rw [if_pos hkey]
    cases hentry : pipeline.store.get? key with
    | none =>
      rw [get_of_absent _ _ hkey hentry]
      apply h
    | some entry =>
      rw [get_of_present _ _ hkey hentry, opened, ← h]
      rfl
  · rw [if_neg hkey, get_of_oversized _ _ (Nat.not_le.1 hkey)]
    apply h

/-- The session is the one that the calls made, and each entry is left over or came out of a call. -/
structure Kept (left : String → String → Prop) (shared : Shared) (pipeline : Pipeline) : Prop where
  session : shared.session = pipeline.session
  entry : ∀ key entry, pipeline.store.get? key = some entry →
    (∃ text draw, .sealed text draw entry ∈ shared.tasks) ∨ left key entry

namespace Kept

variable (setup : Setup) {left : String → String → Prop} {shared : Shared} {pipeline : Pipeline}

theorem set (h : Kept left shared pipeline) (key value : String) :
    Kept left (shared.perform setup.supply (.encrypt value))
      (pipeline.set setup key value).pipeline where
  session := by
    rw [session_set, ← h.session]
    rfl
  entry := by
    intro name entry hentry
    have of_kept (hkept : pipeline.store.get? name = some entry) :
        (∃ text draw, .sealed text draw entry ∈
          (shared.perform setup.supply (.encrypt value)).tasks) ∨ left name entry := by
      apply (h.entry name entry hkept).imp_left
      rintro ⟨text, draw, hmem⟩
      exact ⟨text, draw, Shared.mem_perform hmem _⟩
    rw [store_set] at hentry
    split at hentry
    · apply of_kept hentry
    · rw [Store.get?_insert] at hentry
      split at hentry
      · left
        cases hentry
        refine ⟨value, shared.session.ivsDrawn, ?_⟩
        rw [envelopeOf, ← Session.encrypt_fst, ← h.session]
        apply List.mem_append_right
        apply List.mem_singleton_self
      · apply of_kept hentry

theorem get (h : Kept left shared pipeline) (key : String) (target : Option String) :
    Kept left (shared.serial setup.supply (pipeline.call? (.load key target)).toList)
      (pipeline.get setup key).pipeline where
  session := session_get setup pipeline target h.session
  entry := by
    intro name entry hentry
    rw [store_get] at hentry
    apply (h.entry name entry hentry).imp_left
    rintro ⟨text, draw, hmem⟩
    exact ⟨text, draw, Shared.mem_serial hmem _⟩

theorem delete (h : Kept left shared pipeline) (key : String) :
    Kept left shared (pipeline.delete key).pipeline where
  session := by
    rw [session_delete]
    apply h.session
  entry := by
    intro name entry hentry
    by_cases hkey : key.utf8ByteSize ≤ Bytecode.maxOperand
    · rw [delete_of_fits _ hkey, Store.get?_erase] at hentry
      split at hentry
      · cases hentry
      · apply h.entry name entry hentry
    · rw [delete_of_oversized _ (Nat.not_le.1 hkey)] at hentry
      apply h.entry name entry hentry

theorem step (h : Kept left shared pipeline) (instruction : Instruction) :
    Kept left (shared.serial setup.supply (pipeline.call? instruction).toList)
      (pipeline.step setup instruction).pipeline := by
  rw [pipeline_step]
  cases instruction with
  | store key value => apply h.set
  | delete key => apply h.delete
  | load key target =>
    unfold Instruction.command
    rw [pipeline_dispatch_get]
    apply h.get

theorem steps (h : Kept left shared pipeline) (program : List Instruction) :
    Kept left (shared.serial setup.supply (callsIn (pipeline.trail setup program)))
      (pipeline.steps setup program).pipeline := by
  induction program generalizing shared pipeline with
  | nil => exact h
  | cons instruction rest ih =>
    have hstep := h.step setup instruction
    rw [trail, callsIn, List.flatMap_cons, Shared.serial_append]
    cases herror : (pipeline.step setup instruction).error? with
    | some e =>
      rw [steps_cons_of_error _ _ _ (Outcome.error?_eq_some_iff.1 herror)]
      exact hstep
    | none =>
      obtain ⟨loads, hresult⟩ := Outcome.error?_eq_none_iff.1 herror
      rw [steps_cons_of_ok _ _ _ hresult]
      exact ih hstep

theorem program (h : Kept left shared pipeline) (instruction : Instruction) :
    Kept left (shared.serial setup.supply (callsIn (pipeline.trail setup [instruction])))
      (pipeline.dispatch setup instruction.command).pipeline := by
  have := h.steps setup [instruction]
  rw [pipeline_steps_singleton, pipeline_step] at this
  exact this

theorem dispatch (h : Kept left shared pipeline) (command : Command)
    (hclear : command = .clear → ∀ key entry,
      (pipeline.dispatch setup command).pipeline.store.get? key = some entry → left key entry) :
    Kept left (shared.serial setup.supply (callsIn (pipeline.trailOf setup command)))
      (pipeline.dispatch setup command).pipeline := by
  cases command with
  | set key value => exact h.program setup (.store key value)
  | get key => exact h.program setup (.load key none)
  | delete key => exact h.program setup (.delete key)
  | clear => exact ⟨h.session, fun key entry hentry => .inr (hclear rfl key entry hentry)⟩
  | flush => exact h
  | script source =>
    show Kept left _ (pipeline.script setup source).pipeline
    rw [trailOf]
    cases hparse : Source.parse setup.config.maxScriptLines.toNat source with
    | error e =>
      rw [script_of_parse_eq_error _ _ hparse]
      exact h
    | ok program =>
      rw [script_eq_steps _ _ hparse]
      exact h.steps setup program

theorem mono {other : String → String → Prop} (h : Kept left shared pipeline)
    (himp : ∀ key entry, left key entry → other key entry) : Kept other shared pipeline where
  session := h.session
  entry key entry hentry := (h.entry key entry hentry).imp_right (himp key entry)

end Kept

/-- The entry stood in the store when it had been restored, after some of the commands. -/
def Left (commands : List Command) (key entry : String) : Prop :=
  ∃ before behind, commands = before ++ .clear :: behind ∧
    (new.after setup (before ++ [.clear])).store.get? key = some entry

theorem kept_after_append (before commands : List Command) {shared : Shared}
    (h : Kept (Left setup before) shared (new.after setup before)) :
    Kept (Left setup (before ++ commands))
      (shared.serial setup.supply ((new.after setup before).calls setup commands))
      (new.after setup (before ++ commands)) := by
  induction commands generalizing before shared with
  | nil =>
    rw [List.append_nil]
    exact h
  | cons command rest ih =>
    -- What was left over after some commands was so after more of them
    have hlater : Kept (Left setup (before ++ [command])) shared (new.after setup before) := by
      apply h.mono
      rintro key entry ⟨front, back, rfl, hentry⟩
      exact ⟨front, back ++ [command], by simp, hentry⟩
    have hstep := hlater.dispatch setup command (by
      rintro rfl key entry hentry
      refine ⟨before, [], rfl, ?_⟩
      rw [after_concat]
      exact hentry)
    rw [calls, Shared.serial_append, List.append_cons]
    rw [← after_concat] at hstep ⊢
    exact ih (before ++ [command]) hstep

theorem kept_after (commands : List Command) :
    Kept (Left setup commands) (Shared.new.serial setup.supply (new.calls setup commands))
      (new.after setup commands) := by
  apply kept_after_append setup [] commands
  exact ⟨rfl, nofun⟩

theorem countP_callsIn (trail : List (Pipeline × Instruction)) :
    (callsIn trail).countP (·.isEncrypt) = trail.countP (·.2.opcode = .store) := by
  induction trail with
  | nil => rfl
  | cons run rest ih =>
    obtain ⟨pipeline, instruction⟩ := run
    rw [callsIn, List.flatMap_cons, List.countP_append, List.countP_cons, Nat.add_comm]
    rw [callsIn] at ih
    rw [ih]
    apply congrArg
    cases instruction with
    | store key value => rfl
    | delete key => rfl
    | load key target =>
      rw [call?]
      split
      · cases pipeline.store.get? key with
        | none => rfl
        | some entry => rfl
      · rfl

/-- A command draws once for each store that it runs, also for one that fails. -/
theorem ivsDrawn_dispatch (command : Command) :
    (pipeline.dispatch setup command).pipeline.session.ivsDrawn =
      pipeline.session.ivsDrawn +
        (pipeline.trailOf setup command).countP (·.2.opcode = .store) := by
  have start : Kept (fun _ _ => True) ⟨pipeline.session, []⟩ pipeline :=
    ⟨rfl, fun _ _ _ => .inr trivial⟩
  have hsession := (start.dispatch setup command fun _ _ _ _ => trivial).session
  rw [← hsession, Shared.ivsDrawn_serial, countP_callsIn]

theorem not_left_of_resetStore (hrestorer : setup.restorer = .resetStore)
    (commands : List Command) (key entry : String) : ¬ Left setup commands key entry := by
  rintro ⟨before, behind, -, hentry⟩
  obtain ⟨_, hclear⟩ := exists_clear_eq (new.after setup before) hrestorer
  rw [after_concat, dispatch, handle, hclear] at hentry
  cases hentry

end Pipeline

namespace Vault

open Session (Shared)

variable {setup : Setup} {moves : List Move} {record : Record} {vault after : Vault}

def sealings (setup : Setup) (vault : Vault) : Move → Nat
  | .process =>
    match vault.queue with
    | [] => 0
    | request :: _ =>
      (vault.pipeline.trailOf setup request.command).countP (·.2.opcode = .store)
  | _ => 0

theorem ivsDrawn_of_step {move : Move} (step : Step setup vault move after) :
    after.pipeline.session.ivsDrawn =
      vault.pipeline.session.ivsDrawn + vault.sealings setup move := by
  cases step with
  | submit command _ =>
    rw [submit_snd]
    rfl
  | poll ticket =>
    rw [poll_snd]
    rfl
  | forget ticket => rfl
  | cloneHandle _ => rfl
  | dropHandle _ => rfl
  | process _ hprocess =>
    obtain ⟨request, queue, -, hqueue, rfl⟩ := process?_eq_some_iff.1 hprocess
    rw [sealings, hqueue]
    apply Pipeline.ivsDrawn_dispatch
  | finish _ hfinish =>
    obtain ⟨-, -, -, rfl⟩ := finish?_eq_some_iff.1 hfinish
    rfl

/-- The session of a vault, with all calls that its commands have made. -/
def Record.shared (setup : Setup) (record : Record) : Shared :=
  Shared.new.serial setup.supply (Pipeline.new.calls setup record.dispatched)

/-- Where the vectors of a vault have gone. -/
structure Accounted (setup : Setup) (record : Record) (vault : Vault) : Prop where
  session_eq : vault.pipeline.session = (record.shared setup).session
  fresh : (record.shared setup).Fresh setup.supply
  step : ∀ move after, Step setup vault move after →
    after.pipeline.session.ivsDrawn =
      vault.pipeline.session.ivsDrawn + vault.sealings setup move
  /-- Every entry starts with the vector that it was sealed under, unless the restorer left it. -/
  entry : ∀ key entry, vault.pipeline.store.get? key = some entry →
    (∃ text draw, .sealed text draw entry ∈ (record.shared setup).tasks ∧
      Envelope.vector? entry = some (setup.supply.iv draw).bytes) ∨
    Pipeline.Left setup record.dispatched key entry
  not_left : setup.restorer = .resetStore →
    ∀ key entry, ¬ Pipeline.Left setup record.dispatched key entry

/-- No draw is used twice, be it that calls come in turn or at once, or that they are commands. -/
theorem vectors_of_runs :
    (∀ supply moves shared, Shared.Runs supply .new moves shared → shared.Fresh supply) ∧
    ∀ setup moves vault, Runs setup .new moves vault →
      ∃ record, Recorded setup moves record vault ∧ Accounted setup record vault := by
  constructor
  · intro supply moves shared runs
    exact .of_runs runs
  · intro setup moves vault runs
    obtain ⟨record, hrecord⟩ := exists_recorded_of_runs runs
    have hpipeline := (Consistent.of_recorded hrecord).pipeline_eq
    have hkept := Pipeline.kept_after setup record.dispatched
    rw [← hpipeline] at hkept
    obtain ⟨moves, runs⟩ :
        ∃ moves, Shared.Runs setup.supply .new moves (record.shared setup) := by
      apply Shared.exists_runs_serial
      nofun
    have hfresh : (record.shared setup).Fresh setup.supply := .of_runs runs
    refine ⟨record, hrecord, hkept.session.symm, hfresh, ?_, ?_, ?_⟩
    · intro move after step
      apply ivsDrawn_of_step step
    · intro key entry hentry
      apply (hkept.entry key entry hentry).imp_left
      rintro ⟨text, draw, hmem⟩
      exact ⟨text, draw, hmem, hfresh.vector text draw entry hmem⟩
    · intro hrestorer
      apply Pipeline.not_left_of_resetStore setup hrestorer

/-- Two callers seal the same text at once, and a vault stores one text under two keys. -/
theorem vectors_of_runs_same_text :
    let supply := Supply.numbered 0
    let setup : Setup := ⟨default, supply, .resetStore⟩
    let turns : List Shared.Move :=
      [.start (.encrypt "text"), .start (.encrypt "text"), .enter 0, .advance 0, .advance 0,
        .advance 1, .advance 1, .advance 0, .advance 0, .advance 1]
    let moves : List Move :=
      [.submit (.set "a" "text"), .submit (.set "b" "text"), .process, .process]
    (∃ shared, Shared.Runs supply .new turns shared ∧ shared.Fresh supply ∧
      shared.draws = [1, 0] ∧ Shared.DistinctVectors supply shared.session) ∧
    ∃ vault record, Runs setup .new moves vault ∧ Recorded setup moves record vault ∧
      Accounted setup record vault := by
  intro supply setup turns moves
  constructor
  · let key := supply.key 0
    let call : Session.Call := .encrypt "text"
    have hfree : ∀ task ∈ [] ++ [Session.Task.waiting call],
        task.isDrawing = false ∧ task.isDrawn = false := by
      intro task hmem
      rw [List.mem_singleton.1 hmem]
      exact ⟨rfl, rfl⟩
    have drawn : Shared.Runs supply .new _ ⟨⟨some key, 1, 0⟩, [.holding call key, .waiting call]⟩ :=
      ((((Shared.Runs.nil.concat (.start .new call)).concat (.start _ call)).concat
        (.enter [] [.waiting call] call rfl hfree)).concat
        (.advance [] [.waiting call] rfl)).concat (.advance [] [.waiting call] rfl)
    have supplied : Shared.Runs supply .new _
        ⟨⟨some key, 1, 2⟩, [.sealing "text" key 1, .sealing "text" key 0]⟩ :=
      ((drawn.concat (.advance [.holding call key] [] rfl)).concat
        (.advance [.holding call key] [] rfl)).concat (.advance [] [.sealing "text" key 0] rfl)
    have runs := (supplied.concat (.advance [] [.sealing "text" key 0] rfl)).concat
      (.advance [.sealed "text" 1 _] [] rfl)
    have hdistinct : ∀ m < 2, ∀ n < 2, (supply.iv m).bytes = (supply.iv n).bytes → m = n := by
      decide
    exact ⟨_, runs, vectors_of_runs.1 supply turns _ runs, rfl,
      fun m n hm hn => hdistinct m hm n hn⟩
  · have runs : Runs setup .new moves _ :=
      .cons (.submit _ _ Nat.one_pos) (.cons (.submit _ _ Nat.one_pos)
        (.cons (.process _ _ rfl) (.cons (.process _ _ rfl) (.nil _))))
    obtain ⟨record, hrecord, haccounted⟩ := vectors_of_runs.2 setup moves _ runs
    exact ⟨_, record, runs, hrecord, haccounted⟩

end Vault

end SealedVault
