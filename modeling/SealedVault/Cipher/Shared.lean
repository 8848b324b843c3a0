import SealedVault.Cipher.Session

/-!
This module contains sessions that are shared by many callers. A call takes several moves, between
which other calls make theirs.
-/

namespace SealedVault

/-- The text of a spelled envelope. -/
def Envelope.readUnder (key : Key) (entry : String) : Except CipherError String := do
  let bytes ← ofBase64 entry
  let plaintext ← openUnder key bytes
  textOf plaintext

namespace Session

inductive Call where
  | encrypt (text : String)
  | decrypt (entry : String)
deriving DecidableEq, Repr

/-- A call, by how far it has come. -/
inductive Task where
  /-- The call was made, and has no key yet. -/
  | waiting (call : Call)
  /-- The call is about to draw the key. -/
  | drawing (call : Call)
  /-- The call has drawn the key, but not yet given it to the session. -/
  | drawn (call : Call) (key : Key)
  | holding (call : Call) (key : Key)
  /-- The call is about to seal its text under the vector that it drew. -/
  | sealing (text : String) (key : Key) (draw : Nat)
  | sealed (text : String) (draw : Nat) (envelope : String)
  | opened (entry : String) (result : Except CipherError String)
  /-- The caller gave the call up before it had a key. -/
  | abandoned (call : Call)

namespace Task

def call : Task → Call
  | waiting call => call
  | drawing call => call
  | drawn call _ => call
  | holding call _ => call
  | sealing text _ _ => .encrypt text
  | sealed text _ _ => .encrypt text
  | opened entry _ => .decrypt entry
  | abandoned call => call

def isDrawing : Task → Bool
  | drawing _ => true
  | _ => false

def isDrawn : Task → Bool
  | drawn .. => true
  | _ => false

/-- A call can be given up only while it has no key. -/
def canAbandon : Task → Bool
  | waiting _ => true
  | drawing _ => true
  | _ => false

/-- What a call does next, with what becomes of the session. -/
def advance? (supply : Supply) (session : Session) : Task → Option (Session × Task)
  | waiting call => session.key?.map fun key => (session, holding call key)
  | drawing call =>
    some ({ session with keysDrawn := session.keysDrawn + 1 },
      drawn call (supply.key session.keysDrawn))
  | drawn call key => some ({ session with key? := some key }, holding call key)
  | holding (.encrypt text) key =>
    some ({ session with ivsDrawn := session.ivsDrawn + 1 }, sealing text key session.ivsDrawn)
  | holding (.decrypt entry) key => some (session, opened entry (Envelope.readUnder key entry))
  | sealing text key draw =>
    let envelope := Envelope.sealUnder key (supply.iv draw) (utf8 text)
    some (session, sealed text draw (Base64.encode envelope))
  | sealed .. => none
  | opened .. => none
  | abandoned _ => none

end Task

/-- A session with all the calls that were ever made, in that order. -/
structure Shared where
  session : Session
  tasks : List Task

namespace Shared

def new : Shared :=
  ⟨.new, []⟩

/-- What happens to a call, given by how many calls were made before it. -/
inductive Move where
  | start (call : Call)
  | enter (index : Nat)
  | advance (index : Nat)
  | abandon (index : Nat)
deriving DecidableEq, Repr

/-- One move. A call enters the drawing of the key only if no other call is in it. -/
inductive Step (supply : Supply) : Shared → Move → Shared → Prop where
  | start (shared : Shared) (call : Call) :
    Step supply shared (.start call) { shared with tasks := shared.tasks ++ [.waiting call] }
  | enter {session : Session} (before behind : List Task) (call : Call)
    (hkey : session.key? = none)
    (hfree : ∀ task ∈ before ++ behind, task.isDrawing = false ∧ task.isDrawn = false) :
    Step supply ⟨session, before ++ .waiting call :: behind⟩ (.enter before.length)
      ⟨session, before ++ .drawing call :: behind⟩
  | advance {session after : Session} {task next : Task} (before behind : List Task)
    (h : task.advance? supply session = some (after, next)) :
    Step supply ⟨session, before ++ task :: behind⟩ (.advance before.length)
      ⟨after, before ++ next :: behind⟩
  | abandon {session : Session} {task : Task} (before behind : List Task)
    (h : task.canAbandon = true) :
    Step supply ⟨session, before ++ task :: behind⟩ (.abandon before.length)
      ⟨session, before ++ .abandoned task.call :: behind⟩

/-- A run of moves. -/
inductive Runs (supply : Supply) (shared : Shared) : List Move → Shared → Prop where
  | nil : Runs supply shared [] shared
  | concat {moves : List Move} {move : Move} {next after : Shared}
    (before : Runs supply shared moves next) (step : Step supply next move after) :
    Runs supply shared (moves ++ [move]) after

theorem Runs.append {supply : Supply} {shared next after : Shared} {moves more : List Move}
    (runs : Runs supply shared moves next) (rest : Runs supply next more after) :
    Runs supply shared (moves ++ more) after := by
  induction rest with
  | nil =>
    rw [List.append_nil]
    exact runs
  | concat _ step ih =>
    rw [← List.append_assoc]
    exact ih.concat step

/-- A call that no other call interferes with. -/
def perform (supply : Supply) (shared : Shared) : Call → Shared
  | .encrypt text =>
    let (envelope, session) := shared.session.encrypt supply text
    ⟨session, shared.tasks ++ [.sealed text shared.session.ivsDrawn envelope]⟩
  | .decrypt entry =>
    let (result, session) := shared.session.decrypt supply entry
    ⟨session, shared.tasks ++ [.opened entry result]⟩

/-- Calls of which each one starts after the end of the one before. -/
def serial (supply : Supply) (shared : Shared) (calls : List Call) : Shared :=
  calls.foldl (perform supply) shared

end Shared

end Session

end SealedVault
