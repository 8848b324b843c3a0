import SealedVault.Proofs.Script
import SealedVault.Proofs.Sequence

/-!
This module contains clients that take turns at one pipeline. Main statements: `reading_step`, so an
instruction changes what its own key reads as and nothing else, and `replies_of_disjoint`, so clients
that name different keys are answered as if each of them were alone.
-/

namespace SealedVault

/-- The keys that a command names, for a script those of its instructions. -/
def Command.keys (maxLines : Nat) : Command → List String
  | set key _ => [key]
  | get key => [key]
  | delete key => [key]
  | clear => []
  | flush => []
  | script source =>
    match Source.parse maxLines source with
    | .error _ => []
    | .ok program => program.map (·.key)

/-- What a key reads as after an instruction, given what it read as before. -/
def Instruction.reread (key : String) (before : Option (Except CipherError String)) :
    Instruction → Option (Except CipherError String)
  | store name value =>
    if key = name ∧ Pipeline.overflow? name value = none then some (.ok value) else before
  | load .. => before
  | delete name =>
    if key = name ∧ name.utf8ByteSize ≤ Bytecode.maxOperand then none else before

theorem Instruction.reread_of_ne {instruction : Instruction} {key : String}
    (h : key ≠ instruction.key) (before : Option (Except CipherError String)) :
    instruction.reread key before = before := by
  cases instruction with
  | store name value => exact if_neg fun hboth => h hboth.1
  | load name target => rfl
  | delete name => exact if_neg fun hboth => h hboth.1

theorem Session.decrypt_congr {session twin : Session} {supply draws : Supply}
    (h : twin.activeKey draws = session.activeKey supply) (entry : String) :
    (twin.decrypt draws entry).1 = (session.decrypt supply entry).1 := by
  rw [decrypt_fst, decrypt_fst, h]

namespace Pipeline

/-- What stands under a key, opened by the session. -/
def reading (setup : Setup) (pipeline : Pipeline) (key : String) :
    Option (Except CipherError String) :=
  (pipeline.store.get? key).map fun entry => (pipeline.session.decrypt setup.supply entry).1

section Reading

variable (setup : Setup) (pipeline : Pipeline)

theorem reading_congr {after : Pipeline} {key : String}
    (hkey : after.session.activeKey setup.supply = pipeline.session.activeKey setup.supply)
    (hstore : after.store.get? key = pipeline.store.get? key) :
    after.reading setup key = pipeline.reading setup key := by
  unfold reading
  rw [hstore]
  have hopen := funext (Session.decrypt_congr hkey)
  rw [hopen]

theorem reading_set (name value key : String) :
    (pipeline.set setup name value).pipeline.reading setup key =
      Instruction.reread key (pipeline.reading setup key) (.store name value) := by
  have hkey := activeKey_set setup pipeline name value
  have hstore := store_set setup pipeline name value
  rw [Instruction.reread]
  cases hover : overflow? name value with
  | some size =>
    rw [if_neg fun h => nomatch h.2]
    rw [hover, Option.isSome_some, if_pos rfl] at hstore
    exact reading_congr setup pipeline hkey (congrArg (·.get? key) hstore)
  | none =>
    rw [hover, Option.isSome_none, if_neg Bool.false_ne_true] at hstore
    by_cases heq : key = name
    · rw [if_pos ⟨heq, rfl⟩, reading, hstore, Store.get?_insert, if_pos heq, Option.map_some,
        envelopeOf, ← hkey, Session.decrypt_spell]
    · rw [if_neg fun h => heq h.1]
      apply reading_congr setup pipeline hkey
      rw [hstore, Store.get?_insert, if_neg heq]

theorem reading_get (name key : String) :
    (pipeline.get setup name).pipeline.reading setup key = pipeline.reading setup key := by
  apply reading_congr setup pipeline (activeKey_get setup pipeline name)
  rw [store_get]

theorem reading_delete (name key : String) :
    (pipeline.delete name).pipeline.reading setup key =
      Instruction.reread key (pipeline.reading setup key) (.delete name) := by
  have hkey := activeKey_delete setup pipeline name
  rw [Instruction.reread]
  by_cases hname : name.utf8ByteSize ≤ Bytecode.maxOperand
  · rw [delete_of_fits _ hname] at hkey ⊢
    by_cases heq : key = name
    · rw [if_pos ⟨heq, hname⟩, reading, Store.get?_erase, if_pos heq, Option.map_none]
    · rw [if_neg fun h => heq h.1]
      apply reading_congr setup pipeline hkey
      rw [Store.get?_erase, if_neg heq]
  · rw [if_neg fun h => hname h.2, delete_of_oversized _ (Nat.not_le.1 hname)]

theorem reading_step (instruction : Instruction) (key : String) :
    (pipeline.step setup instruction).pipeline.reading setup key =
      instruction.reread key (pipeline.reading setup key) := by
  rw [pipeline_step]
  cases instruction with
  | store name value => exact reading_set setup pipeline name value key
  | delete name => exact reading_delete setup pipeline name key
  | load name target =>
    unfold Instruction.command
    rw [pipeline_dispatch_get]
    exact reading_get setup pipeline name key

theorem reading_steps_of_not_mem {program : List Instruction} {key : String}
    (h : key ∉ program.map (·.key)) :
    (pipeline.steps setup program).pipeline.reading setup key = pipeline.reading setup key := by
  induction program generalizing pipeline with
  | nil => rfl
  | cons instruction rest ih =>
    rw [List.map_cons, List.mem_cons, not_or] at h
    have hstep := reading_step setup pipeline instruction key
    rw [Instruction.reread_of_ne h.1] at hstep
    cases hresult : (pipeline.step setup instruction).result with
    | error e =>
      rw [steps_cons_of_error _ _ _ hresult]
      exact hstep
    | ok loads =>
      rw [steps_cons_of_ok _ _ _ hresult]
      exact (ih _ h.2).trans hstep

/-- A command leaves the keys alone that it does not name. -/
theorem reading_dispatch_of_not_mem {command : Command} {key : String} (hclear : command ≠ .clear)
    (hkey : key ∉ command.keys setup.config.maxScriptLines.toNat) :
    (pipeline.dispatch setup command).pipeline.reading setup key = pipeline.reading setup key := by
  have single (instruction : Instruction) (hne : key ∉ [instruction.key]) :
      (pipeline.dispatch setup instruction.command).pipeline.reading setup key =
        pipeline.reading setup key := by
    rw [← pipeline_step, reading_step, Instruction.reread_of_ne]
    exact fun heq => hne (List.mem_singleton.2 heq)
  cases command with
  | set name value => exact single (.store name value) hkey
  | get name => exact single (.load name none) hkey
  | delete name => exact single (.delete name) hkey
  | clear => exact absurd rfl hclear
  | flush => rfl
  | script source =>
    show (pipeline.script setup source).pipeline.reading setup key = _
    cases hparse : Source.parse setup.config.maxScriptLines.toNat source with
    | error e => rw [script_of_parse_eq_error _ _ hparse]
    | ok program =>
      rw [Command.keys, hparse] at hkey
      rw [script_eq_steps _ _ hparse]
      exact reading_steps_of_not_mem setup pipeline hkey

/-- A get tells what its key reads as, and needs to know no more than that. -/
theorem result_get (key : String) :
    (pipeline.get setup key).result =
      if Bytecode.maxOperand < key.utf8ByteSize then
        .error (.bytecode (.operandTooLong key.utf8ByteSize))
      else
        match pipeline.reading setup key with
        | none => .ok none
        | some opened => (opened.map some).mapError .cipher := by
  split
  · next hkey => rw [get_of_oversized _ _ hkey]
  · next hkey =>
    unfold reading
    cases hentry : pipeline.store.get? key with
    | none => rw [get_of_absent _ _ (Nat.not_lt.1 hkey) hentry]; rfl
    | some entry => rw [get_of_present _ _ (Nat.not_lt.1 hkey) hentry]; rfl

variable {setup pipeline} {other : Setup} {twin : Pipeline}

theorem result_get_congr {key : String}
    (h : twin.reading other key = pipeline.reading setup key) :
    (twin.get other key).result = (pipeline.get setup key).result := by
  rw [result_get, result_get, h]

theorem reply_dispatch_congr {command : Command} (h : command.isAnswered = false) :
    (twin.dispatch other command).reply = (pipeline.dispatch setup command).reply := by
  have hreply := isSome_reply_dispatch setup pipeline command
  have htwin := isSome_reply_dispatch other twin command
  rw [h, Option.isSome_eq_false_iff, Option.isNone_iff_eq_none] at hreply htwin
  rw [hreply, htwin]

/-- How an instruction ends depends on nothing but what its own key reads as. -/
theorem result_step_congr {instruction : Instruction}
    (h : twin.reading other instruction.key = pipeline.reading setup instruction.key) :
    (twin.step other instruction).result = (pipeline.step setup instruction).result := by
  cases instruction with
  | store name value =>
    cases hover : overflow? name value with
    | some size => simp only [step, set_of_overflow _ _ hover, Outcome.map]
    | none => rw [result_step_store_of_fits _ _ hover, result_step_store_of_fits _ _ hover]
  | delete name =>
    by_cases hname : name.utf8ByteSize ≤ Bytecode.maxOperand
    · rw [result_step_delete_of_fits _ _ hname, result_step_delete_of_fits _ _ hname]
    · simp only [step, delete_of_oversized _ (Nat.not_le.1 hname), Outcome.map]
  | load name target =>
    have hget := result_get_congr h
    cases hresult : (pipeline.get setup name).result with
    | ok value =>
      rw [Instruction.key, hresult] at hget
      rw [step_of_get_eq_ok _ _ _ hresult, step_of_get_eq_ok _ _ _ hget]
    | error e =>
      rw [Instruction.key, hresult] at hget
      simp only [step, hresult, hget]
      cases e.isUnrecoverable with
      | true => rfl
      | false => rfl

end Reading

/-- Two pipelines read the same under some keys, be it that they draw different vectors. -/
def Agree (keys : String → Prop) (setup other : Setup) (pipeline twin : Pipeline) : Prop :=
  ∀ key, keys key → twin.reading other key = pipeline.reading setup key

namespace Agree

variable {keys : String → Prop} {setup other : Setup} {pipeline twin : Pipeline}
  (h : Agree keys setup other pipeline twin)
include h

theorem step {instruction : Instruction} (hkey : keys instruction.key) :
    (twin.step other instruction).result = (pipeline.step setup instruction).result ∧
      Agree keys setup other (pipeline.step setup instruction).pipeline
        (twin.step other instruction).pipeline := by
  refine ⟨result_step_congr (h _ hkey), ?_⟩
  intro key hmem
  rw [reading_step, reading_step, h key hmem]

omit h in
theorem steps (h : Agree keys setup other pipeline twin) {program : List Instruction}
    (hkeys : ∀ key ∈ program.map (·.key), keys key) :
    (twin.steps other program).result = (pipeline.steps setup program).result ∧
      Agree keys setup other (pipeline.steps setup program).pipeline
        (twin.steps other program).pipeline := by
  induction program generalizing pipeline twin with
  | nil => exact ⟨rfl, h⟩
  | cons instruction rest ih =>
    rw [List.map_cons, List.forall_mem_cons] at hkeys
    obtain ⟨hstep, hafter⟩ := h.step hkeys.1
    obtain ⟨hmore, hrest⟩ := ih hafter hkeys.2
    cases hresult : (pipeline.step setup instruction).result with
    | error e =>
      rw [hresult] at hstep
      rw [steps_cons_of_error _ _ _ hresult, steps_cons_of_error _ _ _ hstep]
      exact ⟨rfl, hafter⟩
    | ok loads =>
      rw [hresult] at hstep
      rw [steps_cons_of_ok _ _ _ hresult, steps_cons_of_ok _ _ _ hstep]
      dsimp only
      rw [hmore]
      exact ⟨rfl, hrest⟩

theorem dispatch_get {name : String} (hkey : keys name) :
    (twin.dispatch other (.get name)).reply = (pipeline.dispatch setup (.get name)).reply := by
  have hget := result_get_congr (h name hkey)
  cases hresult : (pipeline.get setup name).result with
  | ok value =>
    rw [hresult] at hget
    rw [reply_dispatch_get_of_ok _ _ hresult, reply_dispatch_get_of_ok _ _ hget]
  | error e =>
    rw [hresult] at hget
    rw [reply_dispatch_get_of_error _ _ hresult, reply_dispatch_get_of_error _ _ hget]

theorem dispatch_instruction (instruction : Instruction) (hkey : keys instruction.key) :
    Agree keys setup other (pipeline.dispatch setup instruction.command).pipeline
      (twin.dispatch other instruction.command).pipeline := by
  have := (h.step hkey).2
  rwa [pipeline_step, pipeline_step] at this

theorem script {source : String} (hconfig : other.config = setup.config)
    (hkeys : ∀ key ∈ Command.keys setup.config.maxScriptLines.toNat (.script source), keys key) :
    (twin.script other source).result = (pipeline.script setup source).result ∧
      Agree keys setup other (pipeline.script setup source).pipeline
        (twin.script other source).pipeline := by
  cases hparse : Source.parse setup.config.maxScriptLines.toNat source with
  | error e =>
    rw [script_of_parse_eq_error _ _ hparse]
    rw [← hconfig] at hparse
    rw [script_of_parse_eq_error _ _ hparse]
    exact ⟨rfl, h⟩
  | ok program =>
    rw [Command.keys, hparse] at hkeys
    have hsteps := h.steps hkeys
    rw [script_eq_steps _ _ hparse]
    rw [← hconfig] at hparse
    rw [script_eq_steps _ _ hparse]
    exact hsteps

theorem dispatch {command : Command} (hconfig : other.config = setup.config)
    (hclear : command ≠ .clear)
    (hkeys : ∀ key ∈ command.keys setup.config.maxScriptLines.toNat, keys key) :
    (twin.dispatch other command).reply = (pipeline.dispatch setup command).reply ∧
      Agree keys setup other (pipeline.dispatch setup command).pipeline
        (twin.dispatch other command).pipeline := by
  cases command with
  | set name value =>
    have hname := hkeys name List.mem_cons_self
    exact ⟨reply_dispatch_congr rfl, h.dispatch_instruction (.store name value) hname⟩
  | get name =>
    have hname := hkeys name List.mem_cons_self
    exact ⟨h.dispatch_get hname, h.dispatch_instruction (.load name none) hname⟩
  | delete name =>
    have hname := hkeys name List.mem_cons_self
    exact ⟨reply_dispatch_congr rfl, h.dispatch_instruction (.delete name) hname⟩
  | clear => exact absurd rfl hclear
  | flush => exact ⟨rfl, h⟩
  | script source =>
    obtain ⟨hresult, hafter⟩ := h.script hconfig hkeys
    exact ⟨congrArg (some ∘ Reply.loads) hresult, hafter⟩

end Agree

section Clients

variable {κ : Type} [DecidableEq κ] (client : κ)

/-- The commands of one client, in the order of its turns. -/
def commandsOf (turns : List (κ × Command)) : List Command :=
  (turns.filter (·.1 = client)).map (·.2)

/-- The replies to one client when all clients take their turns. -/
def repliesTo (setup : Setup) (pipeline : Pipeline) : List (κ × Command) → List Reply
  | [] => []
  | (name, command) :: rest =>
    let dispatched := pipeline.dispatch setup command
    let more := dispatched.pipeline.repliesTo setup rest
    if name = client then dispatched.reply.toList ++ more else more

theorem repliesTo_of_agree {setup other : Setup} {pipeline twin : Pipeline} {keys : String → Prop}
    (h : Agree keys setup other pipeline twin) (hconfig : other.config = setup.config)
    {turns : List (κ × Command)} (hclear : ∀ turn ∈ turns, turn.2 ≠ .clear)
    (hkeys : ∀ turn ∈ turns, ∀ key ∈ turn.2.keys setup.config.maxScriptLines.toNat,
      keys key ↔ turn.1 = client) :
    pipeline.repliesTo client setup turns = twin.replies other (commandsOf client turns) ∧
      Agree keys setup other (pipeline.after setup (turns.map (·.2)))
        (twin.after other (commandsOf client turns)) := by
  induction turns generalizing pipeline twin with
  | nil => exact ⟨rfl, h⟩
  | cons turn rest ih =>
    obtain ⟨name, command⟩ := turn
    rw [List.forall_mem_cons] at hclear hkeys
    obtain ⟨hfirst, hrest⟩ := hkeys
    rw [repliesTo]
    by_cases hname : name = client
    · have hown : ∀ key ∈ command.keys setup.config.maxScriptLines.toNat, keys key :=
        fun key hmem => (hfirst key hmem).2 hname
      obtain ⟨hreply, hafter⟩ := h.dispatch hconfig hclear.1 hown
      obtain ⟨hreplies, hagree⟩ := ih hafter hclear.2 hrest
      have hcommands : commandsOf client ((name, command) :: rest) =
          command :: commandsOf client rest := by
        simp [commandsOf, hname]
      rw [if_pos hname, hcommands, replies, hreply, hreplies]
      exact ⟨rfl, hagree⟩
    · -- The turn of another client changes nothing under the keys of this one
      have hframe : Agree keys setup other (pipeline.dispatch setup command).pipeline twin := by
        intro key hmem
        rw [h key hmem, reading_dispatch_of_not_mem setup pipeline hclear.1]
        exact fun hnamed => hname ((hfirst key hnamed).1 hmem)
      have hcommands : commandsOf client ((name, command) :: rest) = commandsOf client rest := by
        simp [commandsOf, hname]
      rw [if_neg hname, hcommands]
      exact ih hframe hclear.2 hrest

end Clients

/--
Clients that name different keys may take their turns in any order. Each of them is answered as if
its own commands were all there are, and leaves behind what these leave behind alone, though they
draw other vectors then.
-/
theorem replies_of_disjoint {κ : Type} [DecidableEq κ] (setup : Setup) (draws : Supply)
    (pipeline : Pipeline)
    (hdraws : pipeline.session.activeKey draws = pipeline.session.activeKey setup.supply)
    (turns : List (κ × Command)) (hclear : ∀ turn ∈ turns, turn.2 ≠ .clear)
    (hdisjoint : ∀ turn ∈ turns, ∀ other ∈ turns, turn.1 ≠ other.1 →
      ∀ key ∈ turn.2.keys setup.config.maxScriptLines.toNat,
        key ∉ other.2.keys setup.config.maxScriptLines.toNat)
    (client : κ) :
    let alone := { setup with supply := draws }
    let commands := commandsOf client turns
    pipeline.repliesTo client setup turns = pipeline.replies alone commands ∧
      ∀ command ∈ commands, ∀ key ∈ command.keys setup.config.maxScriptLines.toNat,
        (pipeline.after setup (turns.map (·.2))).reading setup key =
          (pipeline.after alone commands).reading alone key := by
  intro alone commands
  let named (key : String) : Prop :=
    ∃ turn ∈ turns, turn.1 = client ∧ key ∈ turn.2.keys setup.config.maxScriptLines.toNat
  have hstart : Agree named setup alone pipeline pipeline := by
    intro key _
    unfold reading
    have hopen := funext (Session.decrypt_congr hdraws)
    rw [hopen]
  have hkeys : ∀ turn ∈ turns, ∀ key ∈ turn.2.keys setup.config.maxScriptLines.toNat,
      named key ↔ turn.1 = client := by
    intro turn hturn key hkey
    constructor
    · rintro ⟨own, hown, rfl, hmem⟩
      apply Decidable.byContradiction
      intro hother
      exact hdisjoint turn hturn own hown hother key hkey hmem
    · exact fun heq => ⟨turn, hturn, heq, hkey⟩
  obtain ⟨hreplies, hagree⟩ := repliesTo_of_agree client hstart rfl hclear hkeys
  refine ⟨hreplies, ?_⟩
  intro command hcommand key hkey
  obtain ⟨turn, hturn, rfl⟩ := List.mem_map.1 hcommand
  rw [List.mem_filter, decide_eq_true_iff] at hturn
  exact (hagree key ⟨turn, hturn.1, hturn.2, hkey⟩).symm

/-- One client has a value that does not fit, and the other one runs a script in between. -/
theorem replies_of_disjoint_script :
    let setup : Setup := ⟨default, .numbered 0, .resetStore⟩
    let envelope := Envelope.spell (setup.supply.key 0) (setup.supply.iv 0) "1"
    let pipeline : Pipeline :=
      ⟨Store.empty.insert "a" envelope, ⟨some (setup.supply.key 0), 1, 1⟩, #[]⟩
    let long := String.ofList (List.replicate 50000 'k')
    let turns : List (Bool × Command) :=
      [(true, .get "a"), (false, .script "STOREFAV b 2\nLOADFAV b"), (true, .set "a" long),
        (false, .flush), (true, .get "a")]
    let alone : Setup := ⟨default, .numbered 1, .resetStore⟩
    let commands := commandsOf true turns
    pipeline.repliesTo true setup turns = pipeline.replies alone commands ∧
      ∀ command ∈ commands, ∀ key ∈ command.keys 10000,
        (pipeline.after setup (turns.map (·.2))).reading setup key =
          (pipeline.after alone commands).reading alone key := by
  intro setup envelope pipeline long turns
  have hparse : Source.parse 10000 "STOREFAV b 2\nLOADFAV b" =
      .ok [.store "b" "2", .load "b" none] := rfl
  have hdraws : pipeline.session.activeKey (.numbered 1) =
      pipeline.session.activeKey setup.supply := by
    simp only [Session.activeKey, Session.withKey, pipeline]
  apply replies_of_disjoint setup (.numbered 1) pipeline hdraws turns
  · intro turn hturn
    simp only [turns, List.mem_cons, List.not_mem_nil, or_false] at hturn
    rcases hturn with rfl | rfl | rfl | rfl | rfl
    all_goals exact nofun
  · -- The keys are those of the first client or those of the second one
    have hkeys : ∀ turn ∈ turns, ∀ key ∈ turn.2.keys 10000, key = if turn.1 then "a" else "b" := by
      intro turn hturn key hkey
      simp only [turns, List.mem_cons, List.not_mem_nil, or_false] at hturn
      rcases hturn with rfl | rfl | rfl | rfl | rfl
      all_goals simp_all [Command.keys, Instruction.key]
    intro turn hturn other hother hne key hkey hmem
    have hown := hkeys turn hturn key hkey
    have hforeign := hkeys other hother key hmem
    revert hne hown hforeign
    cases turn.1 <;> cases other.1 <;> simp_all

end Pipeline

end SealedVault
