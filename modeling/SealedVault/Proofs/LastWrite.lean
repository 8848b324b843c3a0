import SealedVault.Proofs.Running
import SealedVault.Proofs.Store

/-!
This module contains what a program leaves in a store, told by the last write of each key. Main
statements: `lastWrite_iff`, so that write alone decides what is under its key, and
`execute_lastWrite`, which says so of every run, with its loads and the size of its store.
-/

namespace SealedVault

/-- The instruction puts a text under the key or removes the key. -/
def Instruction.Writes (key : String) : Instruction → Prop
  | store name _ => name = key
  | load .. => False
  | delete name => name = key

def Instruction.isLoad : Instruction → Bool
  | load .. => true
  | _ => false

/-- The text under a key after a program, as the last write of the key left it. -/
inductive LastWrite (store : Store) (program : List Instruction) (key : String) :
    Option String → Prop where
  | stored {before behind : List Instruction} {text : String}
    (hprogram : program = before ++ .store key text :: behind)
    (hbehind : ∀ instruction ∈ behind, ¬ instruction.Writes key) :
    LastWrite store program key (some text)
  | deleted {before behind : List Instruction}
    (hprogram : program = before ++ .delete key :: behind)
    (hbehind : ∀ instruction ∈ behind, ¬ instruction.Writes key) :
    LastWrite store program key none
  | unwritten (hprogram : ∀ instruction ∈ program, ¬ instruction.Writes key) :
    LastWrite store program key (store.get? key)

namespace Store

variable (store : Store) (program : List Instruction)

theorem after_append (before rest : List Instruction) :
    store.after (before ++ rest) = (store.after before).after rest := by
  induction before generalizing store with
  | nil => rfl
  | cons instruction before ih =>
    cases instruction with
    | store key value => apply ih
    | load key target => apply ih
    | delete key => apply ih

theorem loads_append (before rest : List Instruction) :
    store.loads (before ++ rest) = store.loads before ++ (store.after before).loads rest := by
  induction before generalizing store with
  | nil => rfl
  | cons instruction before ih =>
    cases instruction with
    | store key value => apply ih
    | load key target => exact congrArg (_ :: ·) (ih store)
    | delete key => apply ih

theorem length_loads : (store.loads program).length = program.countP (·.isLoad) := by
  induction program generalizing store with
  | nil => rfl
  | cons instruction rest ih =>
    cases instruction with
    | store key value => apply ih
    | load key target =>
      rw [loads, List.length_cons, ih, List.countP_cons]
      rfl
    | delete key => apply ih

theorem getElem?_loads (before : List Instruction) (key : String) (target : Option String)
    (rest : List Instruction) :
    (store.loads (before ++ .load key target :: rest))[before.countP (·.isLoad)]? =
      some ⟨key, (store.after before).get? key⟩ := by
  rw [loads_append, ← store.length_loads before, List.getElem?_append_right (Nat.le_refl _),
    Nat.sub_self]
  rfl

/-- Loads change nothing. -/
theorem after_filter_isLoad : store.after (program.filter (!·.isLoad)) = store.after program := by
  induction program generalizing store with
  | nil => rfl
  | cons instruction rest ih =>
    cases instruction with
    | store key value => apply ih
    | load key target => apply ih
    | delete key => apply ih

theorem get?_after_of_unwritten {program : List Instruction} {key : String}
    (h : ∀ instruction ∈ program, ¬ instruction.Writes key) :
    (store.after program).get? key = store.get? key := by
  induction program generalizing store with
  | nil => rfl
  | cons instruction rest ih =>
    rw [List.forall_mem_cons] at h
    obtain ⟨hfirst, hrest⟩ := h
    cases instruction with
    | store name value =>
      rw [after, ih _ hrest, get?_insert, if_neg (Ne.symm hfirst)]
    | load name target =>
      apply ih _ hrest
    | delete name =>
      rw [after, ih _ hrest, get?_erase, if_neg (Ne.symm hfirst)]

end Store

section LastWrite

variable {store : Store} {program : List Instruction} {key : String} {value : Option String}

theorem LastWrite.get?_after (h : LastWrite store program key value) :
    (store.after program).get? key = value := by
  cases h with
  | stored hprogram hbehind =>
    rw [hprogram, Store.after_append, Store.after, Store.get?_after_of_unwritten _ hbehind,
      Store.get?_insert, if_pos rfl]
  | deleted hprogram hbehind =>
    rw [hprogram, Store.after_append, Store.after, Store.get?_after_of_unwritten _ hbehind,
      Store.get?_erase, if_pos rfl]
  | unwritten hprogram => apply Store.get?_after_of_unwritten _ hprogram

theorem exists_lastWrite (store : Store) (program : List Instruction) (key : String) :
    ∃ value, LastWrite store program key value := by
  induction program with
  | nil => exact ⟨_, .unwritten nofun⟩
  | cons instruction rest ih =>
    obtain ⟨value, h⟩ := ih
    cases h with
    | @stored before behind text hprogram hbehind =>
      have hlonger : instruction :: rest = (instruction :: before) ++ .store key text :: behind :=
        congrArg (instruction :: ·) hprogram
      exact ⟨_, .stored hlonger hbehind⟩
    | @deleted before behind hprogram hbehind =>
      have hlonger : instruction :: rest = (instruction :: before) ++ .delete key :: behind :=
        congrArg (instruction :: ·) hprogram
      exact ⟨_, .deleted hlonger hbehind⟩
    | unwritten hrest =>
      -- No later instruction writes the key, so it is this one or none
      by_cases hfirst : instruction.Writes key
      · cases instruction with
        | store name text =>
          cases hfirst
          exact ⟨_, .stored (List.nil_append _).symm hrest⟩
        | load name target => cases hfirst
        | delete name =>
          cases hfirst
          exact ⟨_, .deleted (List.nil_append _).symm hrest⟩
      · exact ⟨_, .unwritten (List.forall_mem_cons.2 ⟨hfirst, hrest⟩)⟩

theorem lastWrite_iff :
    LastWrite store program key value ↔ (store.after program).get? key = value := by
  constructor
  · apply LastWrite.get?_after
  · rintro rfl
    obtain ⟨value, h⟩ := exists_lastWrite store program key
    rw [h.get?_after]
    exact h

/-- The keys of a store are as many as its entries. -/
theorem Store.exists_keys (store : Store) :
    ∃ keys : List String, keys.Nodup ∧ (∀ key, key ∈ keys ↔ ∃ text, store.get? key = some text) ∧
      store.size = keys.length := by
  refine ⟨store.entries.map Prod.fst, store.distinct, ?_, ?_⟩
  · intro key
    rw [← contains_iff, contains, Option.isSome_iff_exists]
  · rw [List.length_map]
    rfl

end LastWrite

namespace Bytecode

open Reader

theorem ReadableUpTo.exists_ends {bytes : Bytes} {size : Nat} {program : List Instruction}
    (h : ReadableUpTo bytes size program) :
    ∃ behind fault, (ofBytes bytes).Reads program behind ∧ behind.Ends fault := by
  let behind : Reader := ⟨(bytes.take size).length, bytes.drop size⟩
  have hreads : (ofBytes bytes).Reads program behind := reads_of_decode_take h.decode_take
  by_cases hrest : behind.rest = []
  · exact ⟨behind, none, hreads, .completed hrest⟩
  · cases hnext : behind.next with
    | error e => exact ⟨behind, some e, hreads, .faulted hrest hnext⟩
    | ok read =>
      obtain ⟨hinstruction, hpasses⟩ := next_eq_ok_iff.1 hnext
      exact absurd ⟨_, hpasses.rest_eq.symm⟩ (h.not_prefix read.1 hinstruction.encodable)

end Bytecode

/--
The last write of a key among the instructions that are run decides what is under it in the end,
and in the same way what each load delivers. Loads change nothing, and the size of the store is the
number of keys with a text.
-/
theorem execute_lastWrite (bytes : Bytes) (store : Store) :
    (∃ size program, Bytecode.ReadableUpTo bytes size program) ∧
    ∀ (size : Nat) (program : List Instruction), Bytecode.ReadableUpTo bytes size program →
      let run := execute bytes store
      run.executed = program.length ∧
      (∀ key value, run.store.get? key = value ↔ LastWrite store program key value) ∧
      run.loads.size = program.countP (·.isLoad) ∧
      (∀ (i : Nat) (key : String) (target : Option String),
        program[i]? = some (.load key target) →
          ∃ value, run.loads[(program.take i).countP (·.isLoad)]? = some ⟨key, value⟩ ∧
            LastWrite store (program.take i) key value) ∧
      (∃ written, Bytecode.encode (program.filter (!·.isLoad)) = .ok written ∧
        (execute written store).store = run.store) ∧
      ∃ keys : List String, keys.Nodup ∧
        (∀ key, key ∈ keys ↔ ∃ text, LastWrite store program key (some text)) ∧
        run.store.size = keys.length := by
  constructor
  · obtain ⟨program, behind, fault, hreads, hends⟩ :=
      Bytecode.Reader.exists_reads (Bytecode.Reader.ofBytes bytes)
    exact ⟨_, program, Bytecode.readableUpTo_of_reads hreads hends⟩
  · intro size program hreadable run
    obtain ⟨behind, fault, hreads, hends⟩ := hreadable.exists_ends
    have happlied : run.Applied store program := applied_execute store hreads hends
    have hfits : ∀ instruction ∈ program, instruction.Encodable := by
      intro instruction hmem
      apply ((Bytecode.Reader.reads_iff.1 hreads).1 instruction hmem).encodable
    refine ⟨happlied.executed_eq, ?_, ?_, ?_, ?_, ?_⟩
    · intro key value
      rw [lastWrite_iff, happlied.store_eq]
    · rw [← Array.length_toList, happlied.loads_eq, Store.length_loads]
    · intro i key target hi
      obtain ⟨hlt, hload⟩ := List.getElem?_eq_some_iff.1 hi
      have hprogram : program = program.take i ++ .load key target :: program.drop (i + 1) := by
        rw [← hload, List.getElem_cons_drop, List.take_append_drop]
      refine ⟨(store.after (program.take i)).get? key, ?_, lastWrite_iff.2 rfl⟩
      have hdelivered := store.getElem?_loads (program.take i) key target (program.drop (i + 1))
      rw [← hprogram] at hdelivered
      rw [← Array.getElem?_toList, happlied.loads_eq, hdelivered]
    · have hwrites : ∀ instruction ∈ program.filter (!·.isLoad), instruction.Encodable := by
        intro instruction hmem
        apply hfits instruction (List.mem_filter.1 hmem).1
      refine ⟨_, Bytecode.encode_eq_ok_iff.2 ⟨hwrites, rfl⟩, ?_⟩
      rw [(execute_flatMap_bytes store hwrites).2.store_eq, Store.after_filter_isLoad,
        happlied.store_eq]
    · simp only [lastWrite_iff, ← happlied.store_eq]
      apply Store.exists_keys

/-- A key is written, read, removed and read again. Behind that is no opcode. -/
theorem execute_lastWrite_halted :
    let store := Store.empty.insert "b" "2"
    let program : List Instruction := [.store "a" "1", .load "a" none, .delete "a", .load "a" none]
    let bytes : Bytes := program.flatMap Instruction.bytes ++ [0x7F, 0x20]
    let run := execute bytes store
    Bytecode.ReadableUpTo bytes 19 program ∧ run.executed = 4 ∧ run.loads.size = 2 ∧
      run.loads[0]? = some ⟨"a", some "1"⟩ ∧ run.loads[1]? = some ⟨"a", none⟩ ∧
      run.store.get? "a" = none ∧ run.store.get? "b" = some "2" := by
  intro store program bytes run
  have hreadable : Bytecode.ReadableUpTo bytes 19 program := by
    constructor
    · refine Bytecode.decode_eq_ok_iff.2 ⟨?_, by decide⟩
      simp only [program, List.forall_mem_cons]
      exact ⟨⟨by decide, rfl⟩, ⟨by decide, rfl⟩, ⟨by decide, rfl⟩, ⟨by decide, rfl⟩, nofun⟩
    · intro instruction hfits hprefix
      have hopcode : instruction.opcode.toByte = 0x7F := (List.cons_prefix_cons.1 hprefix).1
      cases hname : instruction.opcode
      all_goals
        rw [hname] at hopcode
        cases hopcode
  obtain ⟨hexecuted, hstore, hcount, hloads, -⟩ :=
    (execute_lastWrite bytes store).2 19 program hreadable
  obtain ⟨first, hfirst, hwritten⟩ := hloads 1 "a" none rfl
  obtain ⟨second, hsecond, hdeleted⟩ := hloads 3 "a" none rfl
  have hvalue : first = some "1" := hwritten.get?_after.symm
  have hgone : second = none := hdeleted.get?_after.symm
  rw [hvalue] at hfirst
  rw [hgone] at hsecond
  have hprogram : program = [.store "a" "1", .load "a" none] ++ .delete "a" :: [.load "a" none] :=
    rfl
  refine ⟨hreadable, hexecuted, hcount, hfirst, hsecond, ?_, ?_⟩
  · exact (hstore "a" none).2 (.deleted hprogram (List.forall_mem_singleton.2 id))
  · exact (hstore "b" (some "2")).2 (lastWrite_iff.2 rfl)

end SealedVault
