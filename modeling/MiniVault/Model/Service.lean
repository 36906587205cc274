/-
  The vault, KV and Transit services called directly, on behalf of any user, and runs of such
  calls from an empty database.
-/
import MiniVault.Kit.Run
import MiniVault.Model.Router

namespace MiniVault

open Kit

/-- A call of a service method, or a restart of the process. -/
inductive Call (T J : Type) where
  | vaultInit (passphrase confirmation : T)
  | vaultUnlock (passphrase : T)
  | vaultLock
  | vaultStatus
  | restart
  | kvWrite (path email : T) (data : J)
  | kvRead (path email : T) (version : Option Int)
  | kvVersions (path email : T)
  | kvDelete (path email : T)
  | kvList (email : T)
  | createAes (email name : T)
  | createSigning (email name : T)
  | keyList (email : T)
  | keyGet (email name : T)
  | revoke (email name : T)
  | rotate (email name : T)
  | encrypt (email name plaintextB64 : T)
  | decrypt (email ciphertext : T)
  | sign (email name messageB64 : T) (messageType : MessageType)
  | verify (email name messageB64 : T) (messageType : MessageType) (signatureB64 : T)
      (signingAlgorithm : Option T)

variable {T B J : Type} {P : Prims T B J}

/-- The user on whose behalf a call is made. -/
def Call.email? : Call T J → Option T
  | .kvWrite _ email _ => some email
  | .kvRead _ email _ => some email
  | .kvVersions _ email => some email
  | .kvDelete _ email => some email
  | .kvList email => some email
  | .createAes email _ => some email
  | .createSigning email _ => some email
  | .keyList email => some email
  | .keyGet email _ => some email
  | .revoke email _ => some email
  | .rotate email _ => some email
  | .encrypt email _ _ => some email
  | .decrypt email _ => some email
  | .sign email _ _ _ => some email
  | .verify email _ _ _ _ _ => some email
  | _ => none

variable [DecidableEq T]

def Call.run : Call T J → Py P (Data T J)
  | .vaultInit p c => do VaultService.init p c; return .vaultStatus true false
  | .vaultUnlock p => do VaultService.unlock p; return .vaultStatus true true
  | .vaultLock => do lockState; return .vaultStatus true false
  | .vaultStatus => do
    let (initialized, unlocked) ← VaultService.status
    return .vaultStatus initialized unlocked
  | .restart => do startup; return .restarted
  | .kvWrite path email data => do return .kvWritten (← KVService.write path email data)
  | .kvRead path email version => do return .kvValue (← KVService.read path email version)
  | .kvVersions path email => do return .kvVersions (← KVService.versions path email)
  | .kvDelete path email => do KVService.delete path email; return .deleted
  | .kvList email => do return .kvListed (← KVService.list email)
  | .createAes email name => do return .key (← TransitService.createAes email name)
  | .createSigning email name => do return .key (← TransitService.createSigning email name)
  | .keyList email => do return .keys (← TransitService.list email)
  | .keyGet email name => do return .key (← TransitService.get email name)
  | .revoke email name => do TransitService.revoke email name; return .revoked
  | .rotate email name => do return .key (← TransitService.rotate email name)
  | .encrypt email name plaintextB64 => do
    return .ciphertext (← TransitService.encrypt email name plaintextB64)
  | .decrypt email ciphertext => do return .plaintext (← TransitService.decrypt email ciphertext)
  | .sign email name messageB64 messageType => do
    return .signed (← TransitService.sign email name messageB64 messageType)
  | .verify email name messageB64 messageType signatureB64 signingAlgorithm => do
    return .verified (← TransitService.verify email name messageB64 messageType signatureB64
      signingAlgorithm)

/-! ## Runs -/

/-- One call: what it returned or raised, and the world after it. -/
def World.call (w : World T B) (i : Env P × Call T J) : Except Exc (Data T J) × World T B :=
  w.run i.1 i.2.run

/-- An empty database and a locked vault. -/
def World.initial : World T B := ⟨Database.empty T, none, []⟩

/-- The world after a run of calls. -/
def World.after (w : World T B) (is : List (Env P × Call T J)) : World T B :=
  Run.final World.call w is

/-- The calls of a run with their outcomes. -/
abbrev History (P : Prims T B J) : Type :=
  List ((Env P × Call T J) × Except Exc (Data T J))

def World.trace (w : World T B) (is : List (Env P × Call T J)) : History P :=
  Run.trace World.call w is

end MiniVault
