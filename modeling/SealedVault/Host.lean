import SealedVault.Vault.Basic

/-!
This module contains hosts, on which several vaults live side by side. Commands are processed while
somebody waits for a reply, then in all vaults.
-/

namespace SealedVault

structure Host where
  vaults : Array (Setup × Vault)
  /-- The host runs nothing any more. -/
  isDown : Bool

namespace Host

def new : Host :=
  ⟨#[], false⟩

/-- Changes one vault. -/
def modify (host : Host) (index : Nat) (f : Vault → Vault) : Host :=
  { host with vaults := host.vaults.modify index fun (setup, vault) => (setup, f vault) }

/-- Starts a vault. It draws from a supply of its own. -/
def create (host : Host) (config : Config) (restorer : Restorer) : Host :=
  let setup := ⟨config, .numbered host.vaults.size, restorer⟩
  let vault := if host.isDown then Vault.new.destroy else Vault.new
  { host with vaults := host.vaults.push (setup, vault) }

/-- Processes everything that is queued. -/
def drain (host : Host) : Host :=
  { host with vaults := host.vaults.map fun (setup, vault) => (setup, vault.drain setup) }

/-- Lets one vault do something. -/
def visit (host : Host) (index : Nat) (f : Vault → α × Vault) : Option α × Host :=
  match host.vaults[index]? with
  | none => (none, host)
  | some (setup, vault) =>
    let (result, vault) := f vault
    (some result, { host with vaults := host.vaults.setIfInBounds index (setup, vault) })

def submit (host : Host) (index : Nat) (command : Command) : Receipt × Host :=
  let (receipt, host) := host.visit index (·.submit command)
  (receipt.getD .refused, host)

def poll (host : Host) (index ticket : Nat) : Option Reply × Host :=
  let (reply, host) := host.visit index (·.poll ticket)
  (reply.join, host)

/-- Waits for a reply. Nothing is processed if it is there already. -/
def await (host : Host) (index ticket : Nat) : Option Reply × Host :=
  match host.poll index ticket with
  | (some reply, host) => (some reply, host)
  | (none, host) => host.drain.poll index ticket

/-- Shuts all vaults down. -/
def shutDown (host : Host) : Host where
  vaults := host.vaults.map fun (setup, vault) => (setup, vault.destroy)
  isDown := true

end Host

end SealedVault
