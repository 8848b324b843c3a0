import SealedVault.Pipeline.Dispatch
import SealedVault.Proofs.Bytecode
import SealedVault.Proofs.Session

/-!
This module contains what each command does to a pipeline. Main statements: one equation for every
outcome of `set`, `get` and `delete`, `script_eq_steps`, which runs a script by recursion over its
program, and `dispatch_induction`, so that whatever the single steps keep all commands keep.
-/

namespace SealedVault.Pipeline

variable (setup : Setup) (pipeline : Pipeline)

theorem perform_of_encodable {instruction : Instruction} (h : instruction.Encodable) :
    pipeline.perform instruction =
      let progress := (Progress.start pipeline.store).apply 0 instruction
      ⟨.ok progress.loads.toList, { pipeline with store := progress.store }, progress.events⟩ := by
  unfold perform
  rw [Instruction.encode_of_encodable h]
  dsimp only
  rw [execute_bytes h]

theorem perform_of_encode_eq_error {instruction : Instruction} {e : BytecodeError}
    (h : instruction.encode = .error e) :
    pipeline.perform instruction = ⟨.error (.bytecode e), pipeline, #[]⟩ := by
  unfold perform
  rw [h]

/-- The session after a value was sealed. -/
def sealed (value : String) : Pipeline :=
  { pipeline with session := (pipeline.session.encrypt setup.supply value).2 }

/-- The session after a stored text was opened, whether or not it opens. -/
def opened (entry : String) : Pipeline :=
  { pipeline with session := (pipeline.session.decrypt setup.supply entry).2 }

/-- The spelled envelope that is stored if a value is set now. -/
def envelopeOf (value : String) : String :=
  Envelope.spell (pipeline.session.activeKey setup.supply)
    (setup.supply.iv pipeline.session.ivsDrawn) value

/-- The size of the key or else of the envelope, if it is too long for bytecode. -/
def overflow? (key value : String) : Option Nat :=
  if Bytecode.maxOperand < key.utf8ByteSize then some key.utf8ByteSize
  else
    let size := Envelope.spelledSize value.utf8ByteSize
    if Bytecode.maxOperand < size then some size else none

theorem overflow?_eq_none_iff {key value : String} :
    overflow? key value = none ↔
      key.utf8ByteSize ≤ Bytecode.maxOperand ∧
        Envelope.spelledSize value.utf8ByteSize ≤ Bytecode.maxOperand := by
  unfold overflow?
  dsimp only
  split
  · next hkey => exact ⟨nofun, fun h => absurd h.1 (Nat.not_le.2 hkey)⟩
  · next hkey =>
    rw [Nat.not_lt] at hkey
    split
    · next hvalue => exact ⟨nofun, fun h => absurd h.2 (Nat.not_le.2 hvalue)⟩
    · next hvalue => exact ⟨fun _ => ⟨hkey, Nat.not_lt.1 hvalue⟩, fun _ => rfl⟩

/-- The longest value whose envelope fits bytecode has 49121 bytes. -/
theorem overflow?_eq_none_iff_le {key value : String} :
    overflow? key value = none ↔ key.utf8ByteSize ≤ 65535 ∧ value.utf8ByteSize ≤ 49121 := by
  simp only [overflow?_eq_none_iff, Envelope.spelledSize, Envelope.minSize, Iv.size,
    Cipher.Gcm.tagSize, Bytecode.maxOperand]
  omega

theorem overflow?_of_ne_none {key value : String} (h : overflow? key value ≠ none) :
    overflow? key value =
      some (if Bytecode.maxOperand < key.utf8ByteSize then key.utf8ByteSize
        else Envelope.spelledSize value.utf8ByteSize) := by
  unfold overflow? at h ⊢
  dsimp only at h ⊢
  split
  · rfl
  · next hkey =>
    rw [if_neg hkey] at h
    split
    · rfl
    · next hvalue => exact absurd (if_neg hvalue) h

theorem set_eq (key value : String) :
    pipeline.set setup key value =
      ((pipeline.sealed setup value).perform (.store key (pipeline.envelopeOf setup value))).map
        fun _ => () := by
  unfold envelopeOf
  rw [← Session.encrypt_fst]
  rfl

theorem encodable_store_of_fits {key value : String} (h : overflow? key value = none) :
    Instruction.Encodable (.store key (pipeline.envelopeOf setup value)) := by
  obtain ⟨hkey, hvalue⟩ := overflow?_eq_none_iff.1 h
  intro operand hmem
  simp only [Instruction.operands, List.mem_cons, List.not_mem_nil, or_false] at hmem
  rcases hmem with rfl | rfl
  · exact hkey
  · rw [envelopeOf, Envelope.utf8ByteSize_spell]
    exact hvalue

theorem set_of_fits {key value : String} (h : overflow? key value = none) :
    pipeline.set setup key value =
      let envelope := pipeline.envelopeOf setup value
      ⟨.ok (), { pipeline.sealed setup value with store := pipeline.store.insert key envelope },
        #[Interpreter.executedEvent 0 (.store key envelope)]⟩ := by
  rw [set_eq, perform_of_encodable _ (encodable_store_of_fits _ _ h)]
  rfl

theorem set_of_overflow {key value : String} {size : Nat} (h : overflow? key value = some size) :
    pipeline.set setup key value =
      ⟨.error (.bytecode (.operandTooLong size)), pipeline.sealed setup value, #[]⟩ := by
  have herror : Instruction.encode (.store key (pipeline.envelopeOf setup value)) =
      .error (.operandTooLong size) := by
    unfold overflow? at h
    unfold Instruction.encode envelopeOf
    simp only [Instruction.operands, List.find?_cons, Bytecode.isOversized,
      Envelope.utf8ByteSize_spell]
    split at h
    · next hkey =>
      cases h
      simp only [hkey, decide_true]
    · next hkey =>
      dsimp only at h
      split at h
      · next hvalue =>
        cases h
        simp only [hkey, hvalue, decide_true, decide_false, Envelope.utf8ByteSize_spell]
      · cases h
  rw [set_eq, perform_of_encode_eq_error _ herror]
  rfl

theorem encode_of_oversized (instruction : Instruction) {key : String}
    (hoperands : instruction.operands = [key]) (h : Bytecode.maxOperand < key.utf8ByteSize) :
    instruction.encode = .error (.operandTooLong key.utf8ByteSize) := by
  unfold Instruction.encode
  simp only [hoperands, List.find?_cons, Bytecode.isOversized, h, decide_true]

theorem get_of_oversized {key : String} (h : Bytecode.maxOperand < key.utf8ByteSize) :
    pipeline.get setup key =
      ⟨.error (.bytecode (.operandTooLong key.utf8ByteSize)), pipeline, #[]⟩ := by
  have herror := encode_of_oversized (.load key none) rfl h
  unfold get
  rw [perform_of_encode_eq_error _ herror]
  rfl

theorem get_of_absent {key : String} (h : key.utf8ByteSize ≤ Bytecode.maxOperand)
    (habsent : pipeline.store.get? key = none) :
    pipeline.get setup key =
      ⟨.ok none, pipeline, #[Interpreter.executedEvent 0 (.load key none)]⟩ := by
  have hfits := Instruction.encodable_of_fits (.load key none) rfl h
  unfold get
  rw [perform_of_encodable _ hfits]
  simp only [Progress.apply, Progress.start, habsent]
  rfl

theorem get_of_present {key entry : String} (h : key.utf8ByteSize ≤ Bytecode.maxOperand)
    (hpresent : pipeline.store.get? key = some entry) :
    pipeline.get setup key =
      ⟨((pipeline.session.decrypt setup.supply entry).1.map some).mapError .cipher,
        pipeline.opened setup entry, #[Interpreter.executedEvent 0 (.load key none)]⟩ := by
  have hfits := Instruction.encodable_of_fits (.load key none) rfl h
  unfold get
  rw [perform_of_encodable _ hfits]
  simp only [Progress.apply, Progress.start, hpresent]
  rfl

/-- Reading a key comes down to one of three outcomes. -/
theorem get_cases {P : Outcome (Option String) → Prop} {key : String}
    (hoversized : ∀ e, P ⟨.error (.bytecode e), pipeline, #[]⟩)
    (habsent : ∀ events, P ⟨.ok none, pipeline, events⟩)
    (hpresent : ∀ entry events, P
      ⟨((pipeline.session.decrypt setup.supply entry).1.map some).mapError .cipher,
        pipeline.opened setup entry, events⟩) :
    P (pipeline.get setup key) := by
  by_cases hkey : Bytecode.maxOperand < key.utf8ByteSize
  · rw [get_of_oversized _ _ hkey]
    apply hoversized
  · rw [Nat.not_lt] at hkey
    cases hentry : pipeline.store.get? key with
    | none =>
      rw [get_of_absent _ _ hkey hentry]
      apply habsent
    | some entry =>
      rw [get_of_present _ _ hkey hentry]
      apply hpresent

section Present

variable {pipeline} {key entry : String} (hkey : key.utf8ByteSize ≤ Bytecode.maxOperand)
  (hentry : pipeline.store.get? key = some entry)
include hkey hentry

theorem result_get_of_decrypt_eq_ok {text : String}
    (h : (pipeline.session.decrypt setup.supply entry).1 = .ok text) :
    (pipeline.get setup key).result = .ok (some text) := by
  rw [get_of_present _ _ hkey hentry, h]
  rfl

theorem result_get_of_decrypt_eq_error {e : CipherError}
    (h : (pipeline.session.decrypt setup.supply entry).1 = .error e) :
    (pipeline.get setup key).result = .error (.cipher e) := by
  rw [get_of_present _ _ hkey hentry, h]
  rfl

end Present

theorem delete_of_oversized {key : String} (h : Bytecode.maxOperand < key.utf8ByteSize) :
    pipeline.delete key =
      ⟨.error (.bytecode (.operandTooLong key.utf8ByteSize)), pipeline, #[]⟩ := by
  have herror := encode_of_oversized (.delete key) rfl h
  unfold delete
  rw [perform_of_encode_eq_error _ herror]
  rfl

theorem delete_of_fits {key : String} (h : key.utf8ByteSize ≤ Bytecode.maxOperand) :
    pipeline.delete key =
      ⟨.ok (), { pipeline with store := pipeline.store.erase key },
        #[Interpreter.executedEvent 0 (.delete key)]⟩ := by
  have hfits := Instruction.encodable_of_fits (.delete key) rfl h
  unfold delete
  rw [perform_of_encodable _ hfits]
  rfl

/-- What a program does, instruction by instruction, up to the first one that fails. -/
def steps (pipeline : Pipeline) : List Instruction → Outcome (List Load)
  | [] => ⟨.ok [], pipeline, #[]⟩
  | instruction :: rest =>
    let next := pipeline.step setup instruction
    match next.result with
    | .error e => ⟨.error e, next.pipeline, next.events⟩
    | .ok loads =>
      let more := steps next.pipeline rest
      ⟨more.result.map (loads ++ ·), more.pipeline, next.events ++ more.events⟩

theorem steps_cons_of_error {instruction : Instruction} {e : VaultError}
    (rest : List Instruction) (h : (pipeline.step setup instruction).result = .error e) :
    pipeline.steps setup (instruction :: rest) =
      ⟨.error e, (pipeline.step setup instruction).pipeline,
        (pipeline.step setup instruction).events⟩ := by
  rw [steps]
  simp only [h]

theorem steps_cons_of_ok {instruction : Instruction} {loads : List Load}
    (rest : List Instruction) (h : (pipeline.step setup instruction).result = .ok loads) :
    pipeline.steps setup (instruction :: rest) =
      let next := pipeline.step setup instruction
      let more := next.pipeline.steps setup rest
      ⟨more.result.map (loads ++ ·), more.pipeline, next.events ++ more.events⟩ := by
  rw [steps]
  simp only [h]

theorem script.foldl_advance_error (e : VaultError) (events : Array Event)
    (program : List Instruction) :
    program.foldl (advance setup) ⟨.error e, pipeline, events⟩ = ⟨.error e, pipeline, events⟩ := by
  induction program with
  | nil => rfl
  | cons instruction rest ih => exact ih

theorem script.foldl_advance_ok (loads : Array Load) (events : Array Event)
    (program : List Instruction) :
    program.foldl (advance setup) ⟨.ok loads, pipeline, events⟩ =
      let run := pipeline.steps setup program
      ⟨run.result.map loads.appendList, run.pipeline, events ++ run.events⟩ := by
  induction program generalizing pipeline loads events with
  | nil => simp [steps, Except.map]
  | cons instruction rest ih =>
    rw [List.foldl_cons, steps]
    simp only [advance]
    cases hresult : (pipeline.step setup instruction).result with
    | error e =>
      simp only [Except.map]
      rw [foldl_advance_error]
    | ok found =>
      simp only [Except.map]
      rw [ih]
      generalize (pipeline.step setup instruction).pipeline.steps setup rest = run
      obtain ⟨result, after, more⟩ := run
      cases result with
      | error e => simp [Except.map, Array.append_assoc]
      | ok behind => simp [Except.map, Array.append_assoc, ← Array.toList_inj]

theorem script_eq_steps {source : String} {program : List Instruction}
    (h : Source.parse setup.config.maxScriptLines.toNat source = .ok program) :
    pipeline.script setup source = pipeline.steps setup program := by
  unfold script
  rw [h]
  dsimp only
  rw [script.foldl_advance_ok]
  simp only [Outcome.map]
  generalize pipeline.steps setup program = run
  obtain ⟨result, after, events⟩ := run
  cases result with
  | error e => simp [Except.map]
  | ok loads => simp [Except.map]

theorem script_of_parse_eq_error {source : String} {e : SourceError}
    (h : Source.parse setup.config.maxScriptLines.toNat source = .error e) :
    pipeline.script setup source = ⟨.error (.source e), pipeline, #[]⟩ := by
  unfold script
  rw [h]

section Events

variable {setup pipeline} {P : Event → Prop} {event : Event}
  (hstep : ∀ pipeline instruction event, event ∈ (step setup pipeline instruction).events → P event)
include hstep

/-- What holds of the events of every instruction holds of those of a program. -/
theorem of_mem_steps {program : List Instruction}
    (h : event ∈ (pipeline.steps setup program).events) : P event := by
  induction program generalizing pipeline with
  | nil => exact absurd h (Array.not_mem_empty event)
  | cons instruction rest ih =>
    cases hresult : (pipeline.step setup instruction).result with
    | error e =>
      rw [steps_cons_of_error _ _ _ hresult] at h
      exact hstep _ _ _ h
    | ok loads =>
      rw [steps_cons_of_ok _ _ _ hresult, Array.mem_append] at h
      obtain h | h := h
      · exact hstep _ _ _ h
      · exact ih h

theorem of_mem_script {source : String}
    (h : event ∈ (pipeline.script setup source).events) : P event := by
  cases hparse : Source.parse setup.config.maxScriptLines.toNat source with
  | error e =>
    rw [script_of_parse_eq_error _ _ hparse] at h
    exact absurd h (Array.not_mem_empty event)
  | ok program =>
    rw [script_eq_steps _ _ hparse] at h
    exact of_mem_steps hstep h

end Events

section Induction

variable {setup} {P : Pipeline → Prop}
  (hset : ∀ pipeline key value, P pipeline → P (pipeline.set setup key value).pipeline)
  (hget : ∀ pipeline key, P pipeline → P (pipeline.get setup key).pipeline)
  (hdelete : ∀ pipeline key, P pipeline → P (pipeline.delete key).pipeline)
include hset hget hdelete

theorem step_induction {pipeline : Pipeline} (instruction : Instruction) (h : P pipeline) :
    P (pipeline.step setup instruction).pipeline := by
  cases instruction with
  | store key value => exact hset pipeline key value h
  | delete key => exact hdelete pipeline key h
  | load key target =>
    have := hget pipeline key h
    unfold step
    dsimp only
    split
    · exact this
    · split
      · exact this
      · exact this

theorem steps_induction {pipeline : Pipeline} (program : List Instruction) (h : P pipeline) :
    P (pipeline.steps setup program).pipeline := by
  induction program generalizing pipeline with
  | nil => exact h
  | cons instruction rest ih =>
    have hstep := step_induction hset hget hdelete instruction h
    rw [steps]
    dsimp only
    split
    · exact hstep
    · exact ih hstep

variable (hclear : ∀ pipeline, P pipeline → P (pipeline.clear setup).pipeline)
include hclear

theorem dispatch_induction {pipeline : Pipeline} (command : Command) (h : P pipeline) :
    P (pipeline.dispatch setup command).pipeline := by
  unfold dispatch
  cases command with
  | set key value => exact hset pipeline key value h
  | delete key => exact hdelete pipeline key h
  | clear => exact hclear pipeline h
  | flush => exact h
  | get key =>
    have := hget pipeline key h
    simp only [handle]
    split
    · exact this
    · exact this
  | script source =>
    simp only [handle]
    cases hparse : Source.parse setup.config.maxScriptLines.toNat source with
    | error e =>
      rw [script_of_parse_eq_error _ _ hparse]
      exact h
    | ok program =>
      -- Only the instructions of the program touch the pipeline, one after the other
      rw [script_eq_steps _ _ hparse]
      exact steps_induction hset hget hdelete program h

end Induction

theorem session_perform (instruction : Instruction) :
    (pipeline.perform instruction).pipeline.session = pipeline.session := by
  unfold perform
  split
  · rfl
  · rfl

theorem level_of_mem_perform {instruction : Instruction} {event : Event}
    (h : event ∈ (pipeline.perform instruction).events) : event.level = .trace := by
  cases hencode : instruction.encode with
  | error e =>
    rw [perform_of_encode_eq_error _ hencode] at h
    simp at h
  | ok bytes =>
    rw [perform_of_encodable _ (Instruction.encode_eq_ok_iff.1 hencode).1] at h
    simp only [Progress.apply, Progress.start, List.push_toArray, List.nil_append,
      List.mem_toArray, List.mem_singleton] at h
    rw [h]
    rfl

theorem events_get (key : String) :
    (pipeline.get setup key).events = (pipeline.perform (.load key none)).events := by
  unfold get
  dsimp only
  split
  · rfl
  · rfl
  · rfl

theorem session_clear : (pipeline.clear setup).pipeline.session = pipeline.session := by
  rfl

theorem activeKey_set (key value : String) :
    (pipeline.set setup key value).pipeline.session.activeKey setup.supply =
      pipeline.session.activeKey setup.supply := by
  rw [set_eq]
  unfold Outcome.map
  rw [session_perform]
  exact Session.activeKey_encrypt pipeline.session setup.supply value

theorem activeKey_get (key : String) :
    (pipeline.get setup key).pipeline.session.activeKey setup.supply =
      pipeline.session.activeKey setup.supply := by
  let SameKey (outcome : Outcome (Option String)) : Prop :=
    outcome.pipeline.session.activeKey setup.supply = pipeline.session.activeKey setup.supply
  apply get_cases (P := SameKey)
  · intro e
    rfl
  · intro events
    rfl
  · intro entry events
    exact Session.activeKey_decrypt pipeline.session setup.supply entry

theorem activeKey_delete (key : String) :
    (pipeline.delete key).pipeline.session.activeKey setup.supply =
      pipeline.session.activeKey setup.supply := by
  unfold delete Outcome.map
  rw [session_perform]

theorem store_set (key value : String) :
    (pipeline.set setup key value).pipeline.store =
      if (overflow? key value).isSome then pipeline.store
      else pipeline.store.insert key (pipeline.envelopeOf setup value) := by
  cases hover : overflow? key value with
  | some size =>
    rw [set_of_overflow _ _ hover]
    rfl
  | none =>
    rw [set_of_fits _ _ hover]
    rfl

theorem store_get (key : String) : (pipeline.get setup key).pipeline.store = pipeline.store := by
  apply get_cases (P := fun outcome => outcome.pipeline.store = pipeline.store)
  · intro e
    rfl
  · intro events
    rfl
  · intro entry events
    rfl

theorem result_step_store_of_fits {key value : String} (h : overflow? key value = none) :
    (pipeline.step setup (.store key value)).result = .ok [] := by
  simp only [step, set_of_fits _ _ h, Outcome.map, Except.map]

theorem result_step_delete_of_fits {key : String} (h : key.utf8ByteSize ≤ Bytecode.maxOperand) :
    (pipeline.step setup (.delete key)).result = .ok [] := by
  simp only [step, delete_of_fits _ h, Outcome.map, Except.map]

theorem step_of_get_eq_ok {key : String} {value : Option String} (target : Option String)
    (h : (pipeline.get setup key).result = .ok value) :
    pipeline.step setup (.load key target) =
      ⟨.ok [⟨key, value⟩], (pipeline.get setup key).pipeline, (pipeline.get setup key).events⟩ := by
  unfold step
  simp only [h, Outcome.map, Except.map]

theorem step_load_of_oversized {key : String} (target : Option String)
    (h : Bytecode.maxOperand < key.utf8ByteSize) :
    pipeline.step setup (.load key target) =
      ⟨.error (.bytecode (.operandTooLong key.utf8ByteSize)), pipeline, #[]⟩ := by
  simp only [step, get_of_oversized _ _ h]
  rfl

theorem pipeline_dispatch_get (key : String) :
    (pipeline.dispatch setup (.get key)).pipeline = (pipeline.get setup key).pipeline := by
  simp only [dispatch, handle]
  split
  · rfl
  · rfl

theorem reply_dispatch_get_of_ok {key : String} {value : Option String}
    (h : (pipeline.get setup key).result = .ok value) :
    (pipeline.dispatch setup (.get key)).reply = some (.value value) := by
  simp only [dispatch, handle, h]

theorem reply_dispatch_get_of_error {key : String} {e : VaultError}
    (h : (pipeline.get setup key).result = .error e) :
    (pipeline.dispatch setup (.get key)).reply = some (.value none) := by
  simp only [dispatch, handle, h]

/-- No command gives the session another key. -/
theorem activeKey_dispatch (command : Command) :
    (pipeline.dispatch setup command).pipeline.session.activeKey setup.supply =
      pipeline.session.activeKey setup.supply := by
  let SameKey (after : Pipeline) : Prop :=
    after.session.activeKey setup.supply = pipeline.session.activeKey setup.supply
  apply dispatch_induction (P := SameKey)
  · intro before key value h
    exact (activeKey_set setup before key value).trans h
  · intro before key h
    exact (activeKey_get setup before key).trans h
  · intro before key h
    exact (activeKey_delete setup before key).trans h
  · intro before h
    exact h
  · rfl

end SealedVault.Pipeline
