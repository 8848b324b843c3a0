import SealedVault.Proofs.Running
import SealedVault.Proofs.Secrecy

/-!
This module contains the comparison of scripts on envelopes with bytecode on plain texts. Main
statements: `steps_of_opens`, so a program does the same to a store of envelopes as to the store of
the texts in them, and `script_agrees_execute`, so a script agrees with its own bytecode.
-/

namespace SealedVault

/-- The plain store holds what every text of a store opens to, under the same keys. -/
def Session.Opens (session : Session) (supply : Supply) (store plain : Store) : Prop :=
  List.Forall₂ (fun entry text => entry.1 = text.1 ∧
    (session.decrypt supply entry.2).1 = .ok text.2) store.entries plain.entries

namespace Session.Opens

variable {session : Session} {supply : Supply} {store plain : Store}

theorem of_activeKey_eq (h : session.Opens supply store plain) {after : Session}
    (hkey : after.activeKey supply = session.activeKey supply) : after.Opens supply store plain := by
  refine List.Forall₂.imp ?_ h
  rintro entry text ⟨hname, hopen⟩
  rw [decrypt_fst] at hopen ⊢
  rw [hkey]
  exact ⟨hname, hopen⟩

theorem map_fst_eq (h : session.Opens supply store plain) :
    store.entries.map Prod.fst = plain.entries.map Prod.fst := by
  unfold Opens at h
  generalize store.entries = entries at h ⊢
  generalize plain.entries = texts at h ⊢
  induction h with
  | nil => rfl
  | cons hhead _ ih => rw [List.map_cons, List.map_cons, hhead.1, ih]

/-- A store of envelopes under the key of the session opens as a whole. -/
theorem exists_of_spelled
    (h : ∀ entry ∈ store.entries, ∃ iv text,
      entry.2 = Envelope.spell (session.activeKey supply) iv text) :
    ∃ plain, session.Opens supply store plain := by
  obtain ⟨entries, distinct⟩ := store
  induction entries with
  | nil => exact ⟨.empty, .nil⟩
  | cons entry rest ih =>
    rw [List.forall_mem_cons] at h
    obtain ⟨⟨iv, text, hentry⟩, hrest⟩ := h
    rw [List.map_cons, List.nodup_cons] at distinct
    obtain ⟨plain, hplain⟩ := ih distinct.2 hrest
    have hkeys := hplain.map_fst_eq
    refine ⟨⟨(entry.1, text) :: plain.entries, ?_⟩, .cons ⟨rfl, ?_⟩ hplain⟩
    · rw [List.map_cons, ← hkeys, List.nodup_cons]
      exact distinct
    · rw [hentry]
      apply decrypt_spell

theorem get? (h : session.Opens supply store plain) (key : String) :
    (store.get? key = none ∧ plain.get? key = none) ∨
      ∃ entry text, store.get? key = some entry ∧ plain.get? key = some text ∧
        (session.decrypt supply entry).1 = .ok text := by
  unfold Store.get?
  unfold Opens at h
  generalize store.entries = entries at h ⊢
  generalize plain.entries = texts at h ⊢
  induction h with
  | nil => exact .inl ⟨rfl, rfl⟩
  | @cons entry text _ _ hhead _ ih =>
    obtain ⟨name, envelope⟩ := entry
    obtain ⟨other, value⟩ := text
    obtain ⟨rfl, hopen⟩ := hhead
    rw [List.lookup_cons, List.lookup_cons]
    cases key == name with
    | true => exact .inr ⟨envelope, value, rfl, rfl, hopen⟩
    | false => exact ih

theorem erase (h : session.Opens supply store plain) (key : String) :
    session.Opens supply (store.erase key) (plain.erase key) := by
  apply List.rel_filter
  · rintro entry text ⟨hname, -⟩
    simp only [hname]
  · exact h

theorem insert (h : session.Opens supply store plain) (key : String) {entry text : String}
    (hopen : (session.decrypt supply entry).1 = .ok text) :
    session.Opens supply (store.insert key entry) (plain.insert key text) :=
  .cons ⟨rfl, hopen⟩ (h.erase key)

end Session.Opens

namespace Pipeline

/-- The plain store holds what every text in the store of a pipeline opens to. -/
def Opens (setup : Setup) (pipeline : Pipeline) (plain : Store) : Prop :=
  pipeline.session.Opens setup.supply pipeline.store plain

section Steps

variable {setup : Setup} {pipeline : Pipeline} {plain : Store} (h : pipeline.Opens setup plain)
include h

theorem opens_set {key value : String} (hfits : overflow? key value = none) :
    (pipeline.set setup key value).pipeline.Opens setup (plain.insert key value) := by
  have hkey := pipeline.session.activeKey_encrypt setup.supply value
  rw [set_of_fits _ _ hfits]
  apply (Session.Opens.of_activeKey_eq h hkey).insert
  rw [envelopeOf, ← hkey]
  apply Session.decrypt_spell

theorem opens_get (key : String) : (pipeline.get setup key).pipeline.Opens setup plain := by
  unfold Opens
  rw [store_get]
  exact Session.Opens.of_activeKey_eq h (activeKey_get setup pipeline key)

theorem result_get_of_opens {key : String} (hkey : key.utf8ByteSize ≤ Bytecode.maxOperand) :
    (pipeline.get setup key).result = .ok (plain.get? key) := by
  obtain ⟨hstore, hplain⟩ | ⟨entry, text, hstore, hplain, hopen⟩ := Session.Opens.get? h key
  · rw [get_of_absent _ _ hkey hstore, hplain]
  · rw [hplain]
    exact result_get_of_decrypt_eq_ok _ hkey hstore hopen

theorem opens_delete {key : String} (hkey : key.utf8ByteSize ≤ Bytecode.maxOperand) :
    (pipeline.delete key).pipeline.Opens setup (plain.erase key) := by
  rw [delete_of_fits _ hkey]
  exact Session.Opens.erase h key

omit h in
theorem steps_of_opens (h : pipeline.Opens setup plain) {program : List Instruction}
    (hprogram : ∀ instruction ∈ program, instruction.Encodable)
    (hvalues : ∀ key value, .store key value ∈ program → overflow? key value = none) :
    let run := pipeline.steps setup program
    run.result = .ok (plain.loads program) ∧ run.pipeline.Opens setup (plain.after program) := by
  induction program generalizing pipeline plain with
  | nil => exact ⟨rfl, h⟩
  | cons instruction rest ih =>
    rw [List.forall_mem_cons] at hprogram
    obtain ⟨hfits, hrest⟩ := hprogram
    have hmore : ∀ key value, .store key value ∈ rest → overflow? key value = none := by
      intro key value hmem
      exact hvalues key value (List.mem_cons_of_mem _ hmem)
    cases instruction with
    | store key value =>
      have hover := hvalues key value List.mem_cons_self
      have hresult := result_step_store_of_fits setup pipeline hover
      obtain ⟨hrun, hopens⟩ := ih (opens_set h hover) hrest hmore
      rw [steps_cons_of_ok _ _ _ hresult]
      refine ⟨?_, hopens⟩
      rw [Store.loads, ← hrun]
      exact map_nil_append _
    | load key target =>
      have hkey := hfits key List.mem_cons_self
      have hstep := step_of_get_eq_ok setup pipeline target (result_get_of_opens h hkey)
      have hresult := congrArg Outcome.result hstep
      obtain ⟨hrun, hopens⟩ := ih (opens_get h key) hrest hmore
      rw [steps_cons_of_ok _ _ _ hresult, hstep]
      refine ⟨?_, hopens⟩
      dsimp only
      rw [hrun]
      rfl
    | delete key =>
      have hkey := hfits key List.mem_cons_self
      have hresult := result_step_delete_of_fits setup pipeline hkey
      obtain ⟨hrun, hopens⟩ := ih (opens_delete h hkey) hrest hmore
      rw [steps_cons_of_ok _ _ _ hresult]
      refine ⟨?_, hopens⟩
      rw [Store.loads, ← hrun]
      exact map_nil_append _

end Steps

/--
Running a script on envelopes agrees with running its bytecode on the texts in them: both succeed,
with the same loads, and what is left in the two stores agrees again.
-/
theorem script_agrees_execute {setup : Setup} {pipeline : Pipeline} {source : String}
    {program : List Instruction}
    (hparse : Source.parse setup.config.maxScriptLines.toNat source = .ok program)
    (hvalues : ∀ key value, .store key value ∈ program → value.utf8ByteSize ≤ 49121)
    (hsealed : ∀ entry ∈ pipeline.store.entries, ∃ iv text,
      entry.2 = Envelope.spell (pipeline.session.activeKey setup.supply) iv text) :
    ∃ plain bytes, pipeline.Opens setup plain ∧
      Source.compile setup.config.maxScriptLines.toNat source = .ok bytes ∧
      let run := execute bytes plain
      let dispatched := pipeline.dispatch setup (.script source)
      run.stop = .completed ∧ run.executed = program.length ∧
        dispatched.reply = some (.loads (.ok run.loads.toList)) ∧
        dispatched.pipeline.Opens setup run.store := by
  have hprogram : ∀ instruction ∈ program, instruction.Encodable :=
    fun _ hmem => Source.encodable_of_parse hparse hmem
  obtain ⟨plain, hopens⟩ := Session.Opens.exists_of_spelled hsealed
  have hfits : ∀ key value, .store key value ∈ program → overflow? key value = none := by
    intro key value hmem
    have hkey := hprogram _ hmem key List.mem_cons_self
    exact overflow?_eq_none_iff_le.2 ⟨hkey, hvalues key value hmem⟩
  obtain ⟨hresult, hafter⟩ := steps_of_opens hopens hprogram hfits
  obtain ⟨hstop, happlied⟩ := execute_flatMap_bytes plain hprogram
  refine ⟨plain, _, hopens, Source.compile_of_parse hparse, hstop, happlied.executed_eq, ?_, ?_⟩
  · show some (Reply.loads (pipeline.script setup source).result) = _
    rw [script_eq_steps _ _ hparse, hresult, happlied.loads_eq]
  · show (pipeline.script setup source).pipeline.Opens setup _
    rw [script_eq_steps _ _ hparse, happlied.store_eq]
    exact hafter

/-- The session has sealed what stands under the key, and now the script overwrites it. -/
theorem script_agrees_execute_overwrite :
    let setup : Setup := ⟨default, .numbered 0, .resetStore⟩
    let envelope := Envelope.spell (setup.supply.key 0) (setup.supply.iv 0) "1"
    let pipeline : Pipeline :=
      ⟨Store.empty.insert "key" envelope, ⟨some (setup.supply.key 0), 1, 1⟩, #[]⟩
    let source := "LOADFAV key // first\nSTOREFAV key 2\nLOADFAV key"
    ∃ plain bytes, pipeline.Opens setup plain ∧
      Source.compile setup.config.maxScriptLines.toNat source = .ok bytes ∧
      let run := execute bytes plain
      let dispatched := pipeline.dispatch setup (.script source)
      run.stop = .completed ∧ run.executed = 3 ∧
        dispatched.reply = some (.loads (.ok run.loads.toList)) ∧
        dispatched.pipeline.Opens setup run.store := by
  intro setup envelope pipeline source
  have hparse : Source.parse 10000 "LOADFAV key // first\nSTOREFAV key 2\nLOADFAV key" =
      .ok [.load "key" none, .store "key" "2", .load "key" none] := rfl
  apply @script_agrees_execute setup pipeline source _ hparse
  · intro key value hmem
    simp only [List.mem_cons, List.not_mem_nil, reduceCtorEq, Instruction.store.injEq,
      false_or, or_false] at hmem
    rw [hmem.2]
    decide
  · intro entry hmem
    rw [List.mem_singleton.1 hmem]
    exact ⟨setup.supply.iv 0, "1", rfl⟩

end Pipeline

end SealedVault
