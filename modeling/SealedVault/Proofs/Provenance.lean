import SealedVault.Proofs.Secrecy

/-!
This module contains where the entries of a store come from. Main statements: `Traced.step`, so an
instruction keeps every entry the envelope of what its key was last set to, and `entries_of_after`,
which says the same of the store after any commands.
-/

namespace SealedVault

/-- What becomes of a store without a failure. -/
inductive Change where
  | stored (key value : String)
  | deleted (key : String)
  | cleared
deriving DecidableEq, Repr

/-- The change is about what stands under a key. -/
def Change.Affects (key : String) : Change → Prop
  | stored other _ => other = key
  | deleted other => other = key
  | cleared => True

def Instruction.change? : Instruction → Option Change
  | store key value => some (.stored key value)
  | load .. => none
  | delete key => some (.deleted key)

/-- Of all changes of a key, the last one put the value under it. -/
def LastStored (history : List Change) (key value : String) : Prop :=
  ∃ before behind, history = before ++ .stored key value :: behind ∧
    ∀ change ∈ behind, ¬ change.Affects key

section LastStored

variable {history : List Change} {key value : String}

theorem not_lastStored_nil : ¬ LastStored [] key value := by
  rintro ⟨before, behind, heq, -⟩
  exact List.append_ne_nil_of_right_ne_nil _ (List.cons_ne_nil _ _) heq.symm

theorem lastStored_concat_iff {change : Change} :
    LastStored (history ++ [change]) key value ↔
      change = .stored key value ∨ ¬ change.Affects key ∧ LastStored history key value := by
  constructor
  · rintro ⟨before, behind, heq, hbehind⟩
    rcases List.eq_nil_or_concat' behind with rfl | ⟨front, last, rfl⟩
    · exact .inl (List.append_singleton_inj.1 heq).2
    · rw [← List.cons_append, ← List.append_assoc, List.append_singleton_inj] at heq
      obtain ⟨rfl, rfl⟩ := heq
      right
      refine ⟨hbehind _ (List.mem_append_right _ (List.mem_singleton_self _)), before, front, rfl, ?_⟩
      exact fun other hmem => hbehind other (List.mem_append_left _ hmem)
  · rintro (rfl | ⟨hother, before, behind, rfl, hbehind⟩)
    · exact ⟨history, [], rfl, nofun⟩
    · refine ⟨before, behind ++ [change], by simp, ?_⟩
      intro other hmem
      rcases List.mem_append.1 hmem with hmem | hmem
      · exact hbehind other hmem
      · rw [List.mem_singleton.1 hmem]
        exact hother

end LastStored

namespace Session

/-- The session has gone on, with the same key. -/
structure Continues (supply : Supply) (before after : Session) : Prop where
  activeKey_eq : after.activeKey supply = before.activeKey supply
  ivsDrawn_le : before.ivsDrawn ≤ after.ivsDrawn
  isReady_of_isReady : before.isReady = true → after.isReady = true

variable (session : Session) (supply : Supply)

theorem ivsDrawn_encrypt (text : String) :
    (session.encrypt supply text).2.ivsDrawn = session.ivsDrawn + 1 := by
  rw [← ivsDrawn_withKey session supply]
  rfl

theorem continues_encrypt (text : String) :
    Continues supply session (session.encrypt supply text).2 where
  activeKey_eq := session.activeKey_encrypt supply text
  ivsDrawn_le := by
    rw [ivsDrawn_encrypt]
    exact Nat.le_succ _
  isReady_of_isReady _ := isReady_encrypt session supply text

theorem continues_decrypt (entry : String) :
    Continues supply session (session.decrypt supply entry).2 where
  activeKey_eq := session.activeKey_decrypt supply entry
  ivsDrawn_le := Nat.le_of_eq (ivsDrawn_withKey session supply).symm
  isReady_of_isReady _ := isReady_decrypt session supply entry

theorem key?_of_isReady (h : session.isReady = true) :
    session.key? = some (session.activeKey supply) := by
  obtain ⟨key?, keysDrawn, ivsDrawn⟩ := session
  cases key? with
  | none => cases h
  | some key => rfl

end Session

namespace Pipeline

section History

variable (setup : Setup)

/-- What a program changes, up to its first instruction that fails. -/
def changes (pipeline : Pipeline) : List Instruction → List Change
  | [] => []
  | instruction :: rest =>
    let next := pipeline.step setup instruction
    match next.error? with
    | some _ => []
    | none => instruction.change?.toList ++ next.pipeline.changes rest

/-- What a command changes. A single-key command is a program of one instruction. -/
def changesOf (pipeline : Pipeline) : Command → List Change
  | .set key value => pipeline.changes setup [.store key value]
  | .get _ => []
  | .delete key => pipeline.changes setup [.delete key]
  | .clear => [.cleared]
  | .flush => []
  | .script source =>
    match Source.parse setup.config.maxScriptLines.toNat source with
    | .error _ => []
    | .ok program => pipeline.changes setup program

/-- All changes that some commands make, in order. -/
def history (pipeline : Pipeline) : List Command → List Change
  | [] => []
  | command :: rest =>
    pipeline.changesOf setup command ++ (pipeline.dispatch setup command).pipeline.history rest

end History

theorem pipeline_steps_singleton (setup : Setup) (pipeline : Pipeline) (instruction : Instruction) :
    (pipeline.steps setup [instruction]).pipeline =
      (pipeline.step setup instruction).pipeline := by
  unfold steps
  dsimp only
  split
  · rfl
  · rfl

/-- The entry is an envelope of what its key was last set to. -/
def Stems (setup : Setup) (history : List Change) (pipeline : Pipeline) (key entry : String) :
    Prop :=
  ∃ n value, n < pipeline.session.ivsDrawn ∧ LastStored history key value ∧
    overflow? key value = none ∧
    entry = Envelope.spell (pipeline.session.activeKey setup.supply) (setup.supply.iv n) value

/-- The store holds what some changes left in it, sealed by the session. -/
structure Traced (setup : Setup) (history : List Change) (pipeline : Pipeline) : Prop where
  stems : ∀ key entry, pipeline.store.get? key = some entry → Stems setup history pipeline key entry
  contains : ∀ key value, LastStored history key value → pipeline.store.contains key = true
  isReady : pipeline.store.isEmpty = false → pipeline.session.isReady = true

namespace Traced

variable {setup : Setup} {history : List Change} {pipeline : Pipeline}

theorem new (setup : Setup) : Traced setup [] .new where
  stems _ _ hentry := by cases hentry
  contains _ _ hlast := absurd hlast not_lastStored_nil
  isReady hfull := by cases hfull

theorem clear (setup : Setup) (history : List Change) (h : pipeline.store = .empty) :
    Traced setup (history ++ [.cleared]) pipeline where
  stems key entry hentry := by
    rw [h] at hentry
    cases hentry
  contains key value hlast := by
    obtain heq | ⟨hother, -⟩ := lastStored_concat_iff.1 hlast
    · cases heq
    · exact absurd trivial hother
  isReady hfull := by
    rw [h] at hfull
    cases hfull

variable (h : Traced setup history pipeline)
include h

theorem of_continues {session : Session} (hsession : pipeline.session.Continues setup.supply session) :
    Traced setup history { pipeline with session } where
  stems key entry hentry := by
    obtain ⟨n, value, hn, hrest⟩ := h.stems key entry hentry
    refine ⟨n, value, Nat.lt_of_lt_of_le hn hsession.ivsDrawn_le, ?_⟩
    rw [hsession.activeKey_eq]
    exact hrest
  contains := h.contains
  isReady hfull := hsession.isReady_of_isReady (h.isReady hfull)

theorem erase (key : String) :
    Traced setup (history ++ [.deleted key])
      { pipeline with store := pipeline.store.erase key } where
  stems other entry hentry := by
    rw [Store.get?_erase] at hentry
    split at hentry
    · cases hentry
    · next hother =>
      obtain ⟨n, value, hn, hlast, hrest⟩ := h.stems other entry hentry
      refine ⟨n, value, hn, lastStored_concat_iff.2 (.inr ⟨?_, hlast⟩), hrest⟩
      exact fun heq => hother heq.symm
  contains other value hlast := by
    obtain heq | ⟨hother, hlast⟩ := lastStored_concat_iff.1 hlast
    · cases heq
    · rw [Store.contains_erase, if_neg fun heq => hother heq.symm]
      exact h.contains other value hlast
  isReady hfull := by
    apply h.isReady
    cases hempty : pipeline.store.isEmpty with
    | false => rfl
    | true =>
      unfold Store.isEmpty at hempty hfull
      rw [List.isEmpty_iff] at hempty
      simp [Store.erase, hempty] at hfull

theorem insert {key value : String} (hfits : overflow? key value = none) :
    Traced setup (history ++ [.stored key value])
      { pipeline.sealed setup value with
        store := pipeline.store.insert key (pipeline.envelopeOf setup value) } where
  stems other entry hentry := by
    have hsession := pipeline.session.continues_encrypt setup.supply value
    rw [Store.get?_insert] at hentry
    split at hentry
    · next heq =>
      cases hentry
      refine ⟨pipeline.session.ivsDrawn, value, ?_, ?_, heq ▸ hfits, ?_⟩
      · dsimp only [sealed]
        rw [Session.ivsDrawn_encrypt]
        exact Nat.lt_succ_self _
      · rw [heq]
        exact lastStored_concat_iff.2 (.inl rfl)
      · dsimp only [sealed]
        rw [hsession.activeKey_eq]
        rfl
    · next hother =>
      obtain ⟨n, text, hn, hlast, hrest⟩ := (h.of_continues hsession).stems other entry hentry
      refine ⟨n, text, hn, lastStored_concat_iff.2 (.inr ⟨?_, hlast⟩), hrest⟩
      exact fun heq => hother heq.symm
  contains other text hlast := by
    rw [Store.contains_insert]
    split
    · rfl
    · next hother =>
      obtain heq | ⟨-, hlast⟩ := lastStored_concat_iff.1 hlast
      · cases heq
        exact absurd rfl hother
      · exact h.contains other text hlast
  isReady _ := Session.isReady_encrypt pipeline.session setup.supply value

theorem get (key : String) : Traced setup history (pipeline.get setup key).pipeline := by
  apply get_cases (P := fun outcome => Traced setup history outcome.pipeline)
  · intro e
    exact h
  · intro events
    exact h
  · intro entry events
    exact h.of_continues (pipeline.session.continues_decrypt setup.supply entry)

/-- An instruction that fails leaves the store as it was. -/
theorem step_of_error {instruction : Instruction} {e : VaultError}
    (herror : (pipeline.step setup instruction).error? = some e) :
    Traced setup history (pipeline.step setup instruction).pipeline := by
  rw [pipeline_step]
  cases instruction with
  | store key value =>
    show Traced setup history (pipeline.set setup key value).pipeline
    unfold step at herror
    rw [Outcome.error?_map, error?_set, Option.map_eq_some_iff] at herror
    obtain ⟨size, hover, -⟩ := herror
    rw [set_of_overflow _ _ hover]
    exact h.of_continues (pipeline.session.continues_encrypt setup.supply value)
  | load key target =>
    unfold Instruction.command
    rw [pipeline_dispatch_get]
    exact h.get key
  | delete key =>
    show Traced setup history (pipeline.delete key).pipeline
    unfold step at herror
    rw [Outcome.error?_map, error?_delete] at herror
    split at herror
    · next hkey =>
      rw [delete_of_oversized _ hkey]
      exact h
    · cases herror

theorem step_of_ok {instruction : Instruction}
    (hok : (pipeline.step setup instruction).error? = none) :
    Traced setup (history ++ instruction.change?.toList)
      (pipeline.step setup instruction).pipeline := by
  rw [pipeline_step]
  cases instruction with
  | store key value =>
    show Traced setup _ (pipeline.set setup key value).pipeline
    unfold step at hok
    rw [Outcome.error?_map, error?_set, Option.map_eq_none_iff] at hok
    rw [set_of_fits _ _ hok]
    exact h.insert hok
  | load key target =>
    unfold Instruction.command Instruction.change?
    rw [pipeline_dispatch_get, Option.toList_none, List.append_nil]
    exact h.get key
  | delete key =>
    show Traced setup _ (pipeline.delete key).pipeline
    unfold step at hok
    rw [Outcome.error?_map, error?_delete] at hok
    split at hok
    · cases hok
    · next hkey =>
      rw [delete_of_fits _ (Nat.not_lt.1 hkey)]
      exact h.erase key

omit h in
theorem steps (h : Traced setup history pipeline) (program : List Instruction) :
    Traced setup (history ++ pipeline.changes setup program)
      (pipeline.steps setup program).pipeline := by
  induction program generalizing history pipeline with
  | nil =>
    rw [changes, List.append_nil]
    exact h
  | cons instruction rest ih =>
    rw [changes]
    cases herror : (pipeline.step setup instruction).error? with
    | some e =>
      rw [steps_cons_of_error _ _ _ (Outcome.error?_eq_some_iff.1 herror), List.append_nil]
      exact h.step_of_error herror
    | none =>
      obtain ⟨loads, hresult⟩ := Outcome.error?_eq_none_iff.1 herror
      rw [steps_cons_of_ok _ _ _ hresult, ← List.append_assoc]
      exact ih (h.step_of_ok herror)

theorem dispatch (hrestorer : setup.restorer = .resetStore) (command : Command) :
    Traced setup (history ++ pipeline.changesOf setup command)
      (pipeline.dispatch setup command).pipeline := by
  cases command with
  | set key value =>
    have := h.steps [.store key value]
    rw [pipeline_steps_singleton, pipeline_step] at this
    exact this
  | get key =>
    rw [changesOf, List.append_nil, pipeline_dispatch_get]
    exact h.get key
  | delete key =>
    have := h.steps [.delete key]
    rw [pipeline_steps_singleton, pipeline_step] at this
    exact this
  | clear =>
    apply Traced.clear
    obtain ⟨_, hclear⟩ := exists_clear_eq pipeline hrestorer
    show (pipeline.clear setup).pipeline.store = .empty
    rw [hclear]
  | flush =>
    rw [changesOf, List.append_nil]
    exact h
  | script source =>
    show Traced setup _ (pipeline.script setup source).pipeline
    simp only [changesOf]
    cases hparse : Source.parse setup.config.maxScriptLines.toNat source with
    | error e =>
      rw [script_of_parse_eq_error _ _ hparse, List.append_nil]
      exact h
    | ok program =>
      rw [script_eq_steps _ _ hparse]
      exact h.steps program

omit h in
theorem after (h : Traced setup history pipeline) (hrestorer : setup.restorer = .resetStore)
    (commands : List Command) :
    Traced setup (history ++ pipeline.history setup commands)
      (pipeline.after setup commands) := by
  induction commands generalizing history pipeline with
  | nil =>
    rw [Pipeline.history, List.append_nil]
    exact h
  | cons command rest ih =>
    rw [Pipeline.history, ← List.append_assoc]
    exact ih (h.dispatch hrestorer command)

end Traced

/--
Whatever the commands, the store holds envelopes only. Each one was sealed by the session, under its
one key and with a vector that it drew, and opens to what the key of the entry was last set to.
-/
theorem entries_of_after (config : Config) (supply : Supply) (commands : List Command) :
    let setup : Setup := ⟨config, supply, .resetStore⟩
    let pipeline := Pipeline.new.after setup commands
    let history := Pipeline.new.history setup commands
    (pipeline.store.entries.map Prod.fst).Nodup ∧
    (pipeline.store.isEmpty = false →
      ∃ key, pipeline.session.key? = some key ∧
        ∀ name entry, (name, entry) ∈ pipeline.store.entries →
          name.utf8ByteSize ≤ 65535 ∧
          ∃ n value, n < pipeline.session.ivsDrawn ∧ LastStored history name value ∧
            entry = Base64.encode ((supply.iv n).bytes ++
              Cipher.Gcm.encrypt key.bytes (supply.iv n).bytes (utf8 value)) ∧
            entry.utf8ByteSize = 4 * ((value.utf8ByteSize + 28 + 2) / 3) ∧
            entry.utf8ByteSize ≤ 65535 ∧
            (pipeline.session.decrypt supply entry).1 = .ok value) ∧
    ∀ name value, LastStored history name value → pipeline.store.contains name = true := by
  intro setup pipeline history
  have h : Traced setup history pipeline := (Traced.new setup).after rfl commands
  refine ⟨pipeline.store.distinct, ?_, h.contains⟩
  intro hfull
  refine ⟨_, pipeline.session.key?_of_isReady supply (h.isReady hfull), ?_⟩
  intro name entry hmem
  obtain ⟨n, value, hn, hlast, hfits, hentry⟩ :=
    h.stems name entry (pipeline.store.get?_eq_some_iff.2 hmem)
  obtain ⟨hname, hvalue⟩ := overflow?_eq_none_iff.1 hfits
  have hsize : entry.utf8ByteSize = Envelope.spelledSize value.utf8ByteSize := by
    rw [hentry, Envelope.utf8ByteSize_spell]
  refine ⟨hname, n, value, hn, hlast, hentry, hsize, ?_, ?_⟩
  · rw [hsize]
    exact hvalue
  · rw [hentry]
    apply Session.decrypt_spell

end Pipeline

end SealedVault
