import SealedVault.Bytecode.Decode
import SealedVault.Config.Read
import SealedVault.Host
import SealedVault.Proofs.Containment
import SealedVault.Proofs.Reference
import SealedVault.Proofs.Script
import SealedVault.Source.Print
import SealedVault.Vault.Step
import SealedVault.Proofs.Reading
import SealedVault.Proofs.Running
import SealedVault.Proofs.Opening
import SealedVault.Proofs.Log
import SealedVault.Proofs.Secrecy
import SealedVault.Proofs.Grammar
import SealedVault.Proofs.Provenance
import SealedVault.Proofs.Plaintext
import SealedVault.Proofs.Alarms
import SealedVault.Cipher.Shared
import SealedVault.Proofs.Clients
import SealedVault.Proofs.Lifetime
import SealedVault.Proofs.Sharing
import SealedVault.Proofs.Vectors
import SealedVault.Proofs.Framing
import SealedVault.Proofs.Faults
import SealedVault.Proofs.Truncation
import SealedVault.Proofs.Printing
import SealedVault.Proofs.LastWrite
import SealedVault.Proofs.SingleKey
import SealedVault.Proofs.Spelling
import SealedVault.Proofs.Appending
import SealedVault.Proofs.Trail
import SealedVault.Proofs.Editing
import SealedVault.Proofs.Bounds
import SealedVault.Proofs.Configuration
