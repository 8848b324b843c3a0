import SealedVault.Proofs.Pipeline
import SealedVault.Proofs.Running

/-!
This module contains what the commands on one key do and leave alone. Main statements:
`ranAlone_of_isPlain`, so what is run for a command is its one instruction, whatever texts it
carries, and `commands_exact`, with the sizes up to which `set`, `get` and `delete` succeed.
-/

namespace SealedVault

theorem VaultError.message_operandTooLong (size : Nat) :
    (bytecode (.operandTooLong size)).message =
      s!"Bytecode error: Operand is {size} bytes, max 65535" := by
  have hfront : "Bytecode error: Operand is " = "Bytecode error: " ++ "Operand is " := rfl
  have hback : " bytes, max 65535" = " bytes, max " ++ toString Bytecode.maxOperand := rfl
  unfold message BytecodeError.message
  rw [hfront, hback]
  simp only [toString, String.append_assoc]

namespace Pipeline

/--
The bytes of the instruction hold nothing else, and all that happened to the store, with its events,
is one run of them to the end.
-/
def Outcome.RanAlone (outcome : Outcome α) (instruction : Instruction) (store : Store)
    (loads : List Load) : Prop :=
  ∃ bytes, instruction.encode = .ok bytes ∧ Bytecode.decode bytes = .ok [instruction] ∧
    execute bytes store =
      ⟨⟨outcome.pipeline.store, 1, loads.toArray, outcome.events⟩, .completed⟩

/-- An operand of `size` bytes is too long, and nothing is run. -/
structure Outcome.Refused (outcome : Outcome α) (store : Store) (size : Nat) : Prop where
  result_eq : outcome.result = .error (.bytecode (.operandTooLong size))
  store_eq : outcome.pipeline.store = store
  events_eq : outcome.events = #[]

theorem ranAlone_of_isPlain {outcome : Outcome α} {instruction : Instruction} {store : Store}
    (h : instruction.IsPlain) (hstore : outcome.pipeline.store = store.after [instruction])
    (hevents : outcome.events = #[Interpreter.executedEvent 0 instruction]) :
    outcome.RanAlone instruction store (store.loads [instruction]) := by
  refine ⟨instruction.bytes, Instruction.encode_of_encodable h.encodable, ?_, ?_⟩
  · refine Bytecode.decode_eq_ok_iff.2 ⟨List.forall_mem_singleton.2 h, ?_⟩
    rw [List.flatMap_singleton]
  · rw [execute_bytes h.encodable, hstore, hevents]
    cases instruction with
    | store key value => rfl
    | load key target => rfl
    | delete key => rfl

variable (setup : Setup) (pipeline : Pipeline)

theorem get_set_of_fits {key value : String} (h : overflow? key value = none) :
    ((pipeline.set setup key value).pipeline.get setup key).result = .ok (some value) := by
  have hkey := (overflow?_eq_none_iff.1 h).1
  have hactive := pipeline.session.activeKey_encrypt setup.supply value
  rw [set_of_fits _ _ h]
  apply result_get_of_decrypt_eq_ok _ hkey
  · exact (Store.get?_insert _ _ _ _).trans (if_pos rfl)
  · rw [envelopeOf, ← hactive]
    apply Session.decrypt_spell

theorem ranAlone_set {key value : String} (h : overflow? key value = none) :
    (pipeline.set setup key value).RanAlone (.store key (pipeline.envelopeOf setup value))
      pipeline.store [] := by
  refine ranAlone_of_isPlain ⟨encodable_store_of_fits setup pipeline h, rfl⟩ ?_ ?_
  · rw [set_of_fits _ _ h]
    rfl
  · rw [set_of_fits _ _ h]

theorem refused_set {key value : String} {size : Nat} (h : overflow? key value = some size) :
    (pipeline.set setup key value).Refused pipeline.store size := by
  rw [set_of_overflow _ _ h]
  exact ⟨rfl, rfl, rfl⟩

theorem ranAlone_delete {key : String} (h : key.utf8ByteSize ≤ Bytecode.maxOperand) :
    (pipeline.delete key).RanAlone (.delete key) pipeline.store [] := by
  refine ranAlone_of_isPlain ⟨Instruction.encodable_of_fits _ rfl h, rfl⟩ ?_ ?_
  · rw [delete_of_fits _ h]
    rfl
  · rw [delete_of_fits _ h]

theorem refused_delete {key : String} (h : Bytecode.maxOperand < key.utf8ByteSize) :
    (pipeline.delete key).Refused pipeline.store key.utf8ByteSize := by
  rw [delete_of_oversized _ h]
  exact ⟨rfl, rfl, rfl⟩

theorem ranAlone_get {key : String} (h : key.utf8ByteSize ≤ Bytecode.maxOperand) :
    (pipeline.get setup key).RanAlone (.load key none) pipeline.store
      [⟨key, pipeline.store.get? key⟩] := by
  refine ranAlone_of_isPlain ⟨Instruction.encodable_of_fits _ rfl h, rfl⟩ ?_ ?_
  · apply store_get
  · cases hentry : pipeline.store.get? key with
    | none => rw [get_of_absent _ _ h hentry]
    | some entry => rw [get_of_present _ _ h hentry]

theorem refused_get {key : String} (h : Bytecode.maxOperand < key.utf8ByteSize) :
    (pipeline.get setup key).Refused pipeline.store key.utf8ByteSize := by
  rw [get_of_oversized _ _ h]
  exact ⟨rfl, rfl, rfl⟩

/--
Each command on one key does what it says to its key and nothing to any other key, or it is refused
and changes nothing. It is refused exactly if its key or, when a value is set, the envelope of the
value is too long. What is run for it is one instruction, so no text is ever taken for another.
-/
theorem commands_exact (setup : Setup) (pipeline : Pipeline) (key value : String) :
    (let run := pipeline.set setup key value
      let envelope := pipeline.envelopeOf setup value
      if key.utf8ByteSize ≤ 65535 ∧ value.utf8ByteSize ≤ 49121 then
        run.result = .ok () ∧ run.RanAlone (.store key envelope) pipeline.store [] ∧
        (∀ other, run.pipeline.store.get? other =
          if other = key then some envelope else pipeline.store.get? other) ∧
        (run.pipeline.get setup key).result = .ok (some value)
      else
        run.Refused pipeline.store
          (if 65535 < key.utf8ByteSize then key.utf8ByteSize
            else 4 * ((value.utf8ByteSize + 28 + 2) / 3))) ∧
    (let run := pipeline.delete key
      if key.utf8ByteSize ≤ 65535 then
        run.result = .ok () ∧ run.RanAlone (.delete key) pipeline.store [] ∧
        ∀ other, run.pipeline.store.get? other =
          if other = key then none else pipeline.store.get? other
      else
        run.Refused pipeline.store key.utf8ByteSize) ∧
    (let run := pipeline.get setup key
      let entry := pipeline.store.get? key
      run.pipeline.store = pipeline.store ∧
      if key.utf8ByteSize ≤ 65535 then
        run.RanAlone (.load key none) pipeline.store [⟨key, entry⟩] ∧
        run.result =
          match entry with
          | none => .ok none
          | some envelope =>
            ((pipeline.session.decrypt setup.supply envelope).1.map some).mapError .cipher
      else
        run.Refused pipeline.store key.utf8ByteSize) ∧
    ∀ size : Nat, (VaultError.bytecode (.operandTooLong size)).message =
      s!"Bytecode error: Operand is {size} bytes, max 65535" := by
  refine ⟨?_, ?_, ⟨store_get setup pipeline key, ?_⟩, VaultError.message_operandTooLong⟩
  · intro run envelope
    split
    · next hsizes =>
      have hfits := overflow?_eq_none_iff_le.2 hsizes
      have hrun : run = _ := set_of_fits setup pipeline hfits
      refine ⟨congrArg Outcome.result hrun, ranAlone_set setup pipeline hfits, ?_,
        get_set_of_fits setup pipeline hfits⟩
      intro other
      rw [hrun]
      apply Store.get?_insert
    · next hsizes =>
      rw [← overflow?_eq_none_iff_le] at hsizes
      apply refused_set setup pipeline (overflow?_of_ne_none hsizes)
  · intro run
    split
    · next hkey =>
      have hrun : run = _ := delete_of_fits pipeline hkey
      refine ⟨congrArg Outcome.result hrun, ranAlone_delete pipeline hkey, ?_⟩
      intro other
      rw [hrun]
      apply Store.get?_erase
    · next hkey => apply refused_delete pipeline (Nat.not_le.1 hkey)
  · split
    · next hkey =>
      refine ⟨ranAlone_get setup pipeline hkey, ?_⟩
      cases hentry : pipeline.store.get? key with
      | none => rw [get_of_absent _ _ hkey hentry]
      | some entry => rw [get_of_present _ _ hkey hentry]
    · next hkey => apply refused_get setup pipeline (Nat.not_le.1 hkey)

end Pipeline

end SealedVault
