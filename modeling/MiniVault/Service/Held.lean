/-
  The vault, KV and Transit services work through the part of the world they hold: the vault
  configuration, the KV and key tables and the loaded key. Users, sessions and the audit log are
  neither read nor answered from, so a call does the same whatever they contain.
-/
import MiniVault.Kit.Through
import MiniVault.Model.Service

namespace MiniVault

open Kit Imp

variable {T B J : Type} {P : Prims T B J}

/-- The tables of the vault, KV and Transit services. -/
def Database.held (db : Database T) : Database T :=
  { db with users := [], sessions := [], auditLogs := ⟨true, true, []⟩ }

/-- What a session shows these services. -/
def Proc.held (s : Proc T B) : Database T × Database T × Option B :=
  (s.db.held, s.committed.held, s.dek)

/-- What a world holds for these services. -/
def World.held (w : World T B) : Database T × Option B := (w.db.held, w.dek)

/-! ## The operations on a session -/

section Operations

variable {α : Type}

/-- A computation of these services. -/
abbrev Holds (m : Py P α) : Prop := Through Proc.held m

theorem holds_query {f : Database T → α} (hf : ∀ db, f db = f db.held) :
    Holds (query f : Py P α) :=
  through_gets fun s s' h => by
    have hdb : s.db.held = s'.db.held := congrArg (·.1) h
    rw [hf s.db, hf s'.db, hdb]

theorem holds_update {f : Database T → Database T} (hf : ∀ db, (f db).held = (f db.held).held) :
    Holds (update f : Py P Unit) :=
  through_modify fun s s' h => by
    have hdb : s.db.held = s'.db.held := congrArg (·.1) h
    refine Prod.ext ?_ (congrArg (·.2) h)
    show (f s.db).held = (f s'.db).held
    rw [hf s.db, hf s'.db, hdb]

theorem holds_commit : Holds (commit : Py P Unit) :=
  through_modify fun _ _ h =>
    Prod.ext (congrArg (·.1) h) (Prod.ext (congrArg (·.1) h) (congrArg (·.2.2) h))

theorem holds_utcnow : Holds (utcnow : Py P Time) :=
  through_environ.bind fun _ => through_pure _

theorem holds_requireDek : Holds (requireDek : Py P B) := by
  unfold requireDek
  refine (through_gets fun s s' h => congrArg (·.2.2) h).bind fun dek => ?_
  rcases dek with _ | dek
  · exact through_raise _
  · exact through_pure _

theorem holds_lockState : Holds (lockState : Py P Unit) :=
  through_modify fun _ _ h => Prod.ext (congrArg (·.1) h) (Prod.ext (congrArg (·.2.1) h) rfl)

theorem holds_unlockState (dek : B) : Holds (unlockState dek : Py P Unit) :=
  through_modify fun _ _ h => Prod.ext (congrArg (·.1) h) (Prod.ext (congrArg (·.2.1) h) rfl)

/-- The ghost log of encryptions is not part of what is held. -/
theorem holds_encrypt (key plaintext aad : B) : Holds (encrypt key plaintext aad : Py P _) := by
  unfold encrypt
  exact through_environ.bind fun e => (through_ofExcept _).bind fun _ =>
    (through_modify fun _ _ h => h).bind fun _ => through_pure _

end Operations

/-! ## Vault -/

theorem holds_unlock (p : T) : Holds (VaultService.unlock p : Py P Unit) := by
  unfold VaultService.unlock
  refine (holds_query fun _ => rfl).bind fun config => ?_
  rcases config with _ | config
  · exact through_raise _
  refine Through.bind ?_ fun dek => holds_unlockState dek
  exact (through_ofExcept _).handle fun _ => .ite (through_raise _) (through_raise _)

theorem holds_status : Holds (VaultService.status : Py P _) :=
  (holds_query fun _ => rfl).bind fun _ =>
    (through_gets fun _ _ h => congrArg (·.2.2) h).bind fun _ => through_pure _

variable [DecidableEq T]

theorem holds_init (p c : T) : Holds (VaultService.init p c : Py P Unit) := by
  unfold VaultService.init
  refine (holds_query fun _ => rfl).bind fun config => ?_
  dsimp only
  refine .ite (through_raise_bind _ _) (.ite (through_raise_bind _ _) ?_)
  exact (through_ofExcept _).bind fun _ => through_environ.bind fun e =>
    (holds_encrypt _ _ _).bind fun _ => (holds_update fun _ => rfl).bind fun _ =>
      holds_commit.bind fun _ => holds_lockState

omit [DecidableEq T] in
theorem holds_startup : Holds (startup : Py P Unit) :=
  (holds_update fun _ => rfl).bind fun _ => holds_commit.bind fun _ => holds_lockState

/-! ## KV -/

section Kv

variable (path email : T)

theorem holds_write (data : J) : Holds (KVService.write path email data : Py P _) := by
  unfold KVService.write
  refine (through_ofExcept _).bind fun _ => holds_requireDek.bind fun dek =>
    (through_ofExcept _).bind fun raw => ?_
  dsimp only
  refine .ite (through_raise_bind _ _) ((holds_encrypt _ _ _).bind fun c => ?_)
  refine (holds_query fun _ => rfl).bind fun item? => holds_utcnow.bind fun now => ?_
  rcases item? with _ | item
  · exact through_environ.bind fun e => (holds_query fun _ => rfl).bind fun id =>
      (holds_update fun _ => rfl).bind fun _ => (holds_update fun _ => rfl).bind fun _ =>
        holds_commit.bind fun _ => through_pure _
  · exact (holds_query fun _ => rfl).bind fun latest => (holds_update fun _ => rfl).bind fun _ =>
      (through_ofExcept _).bind fun _ => (holds_update fun _ => rfl).bind fun _ =>
        holds_commit.bind fun _ => through_pure _

theorem holds_read (version : Option Int) :
    Holds (KVService.read path email version : Py P _) := by
  unfold KVService.read
  refine (through_ofExcept _).bind fun _ => holds_requireDek.bind fun dek =>
    (holds_query fun _ => rfl).bind fun item? => ?_
  rcases item? with _ | item
  · exact through_raise _
  have hopen : ∀ record : Option (KVSecretVersion T), Holds (do
      let value ← handle (ofExcept (KVService.openSecret P dek
        ((record.map (·.nonceB64)).getD item.nonceB64)
        ((record.map (·.ciphertextB64)).getD item.ciphertextB64) path)) fun x =>
          if x = .invalidTag ∨ x.isValueError then
            raise (appError .decryptionFailed "Secret could not be decrypted" 400)
          else raise x
      return (⟨path, (record.map (·.version)).getD 1, value⟩ : KVValue T J) : Py P _) :=
    fun record => ((through_ofExcept _).handle fun _ =>
      .ite (through_raise _) (through_raise _)).bind fun _ => through_pure _
  dsimp only
  rcases version with _ | k
  · exact (holds_query fun _ => rfl).bind hopen
  · dsimp only
    refine .ite (through_raise_bind _ _) ((through_ofExcept _).bind fun _ =>
      (holds_query fun _ => rfl).bind fun found => ?_)
    rcases found with _ | v
    · exact through_raise_bind _ _
    · exact (through_pure _).bind hopen

theorem holds_versions : Holds (KVService.versions path email : Py P _) := by
  unfold KVService.versions
  refine (through_ofExcept _).bind fun _ => holds_requireDek.bind fun _ =>
    (holds_query fun _ => rfl).bind fun item? => ?_
  rcases item? with _ | item
  · exact through_raise _
  · exact (holds_query fun _ => rfl).bind fun rows => .ite (through_pure _) (through_pure _)

theorem holds_delete : Holds (KVService.delete path email : Py P Unit) := by
  unfold KVService.delete
  refine (through_ofExcept _).bind fun _ => holds_requireDek.bind fun _ =>
    (holds_query fun _ => rfl).bind fun item? => ?_
  rcases item? with _ | item
  · exact through_raise _
  · exact (holds_update fun _ => rfl).bind fun _ => holds_commit

theorem holds_list : Holds (KVService.list email : Py P _) :=
  holds_requireDek.bind fun _ => holds_query fun _ => rfl

end Kv

/-! ## Transit -/

section Transit

variable (email name : T)

theorem holds_find (usage : Option KeyUsage) :
    Holds (TransitService.find email name usage : Py P _) := by
  unfold TransitService.find
  refine holds_requireDek.bind fun _ => (holds_query fun _ => rfl).bind fun key? => ?_
  rcases key? with _ | key
  · exact through_raise _
  · exact .ite (through_raise_bind _ _) (.ite (through_raise_bind _ _) (through_pure _))

theorem holds_createAes : Holds (TransitService.createAes email name : Py P _) := by
  unfold TransitService.createAes
  refine (through_ofExcept _).bind fun _ => holds_requireDek.bind fun dek =>
    (holds_query fun _ => rfl).bind fun existing => ?_
  dsimp only
  refine .ite (through_raise_bind _ _) (through_environ.bind fun e =>
    (holds_encrypt _ _ _).bind fun c => (holds_query fun _ => rfl).bind fun id => ?_)
  exact (holds_update fun _ => rfl).bind fun _ => (holds_update fun _ => rfl).bind fun _ =>
    holds_commit.bind fun _ => through_pure _

theorem holds_createSigning : Holds (TransitService.createSigning email name : Py P _) := by
  unfold TransitService.createSigning
  refine (through_ofExcept _).bind fun _ => holds_requireDek.bind fun dek =>
    (holds_query fun _ => rfl).bind fun existing => ?_
  dsimp only
  refine .ite (through_raise_bind _ _) (through_environ.bind fun e =>
    (holds_encrypt _ _ _).bind fun c => (holds_query fun _ => rfl).bind fun id => ?_)
  exact (holds_update fun _ => rfl).bind fun _ => holds_commit.bind fun _ => through_pure _

theorem holds_keyList : Holds (TransitService.list email : Py P _) :=
  holds_requireDek.bind fun _ => holds_query fun _ => rfl

theorem holds_keyGet : Holds (TransitService.get email name : Py P _) :=
  (holds_find email name none).bind fun _ => holds_query fun _ => rfl

theorem holds_revoke : Holds (TransitService.revoke email name : Py P Unit) :=
  (holds_find email name none).bind fun _ => holds_utcnow.bind fun _ =>
    (holds_update fun _ => rfl).bind fun _ => holds_commit

theorem holds_rotate : Holds (TransitService.rotate email name : Py P _) := by
  unfold TransitService.rotate
  refine (holds_find email name _).bind fun key => holds_requireDek.bind fun dek =>
    (holds_query fun _ => rfl).bind fun current => ?_
  exact through_environ.bind fun e => (holds_encrypt _ _ _).bind fun c =>
    (holds_update fun _ => rfl).bind fun _ => (through_ofExcept _).bind fun _ =>
      (holds_update fun _ => rfl).bind fun _ => holds_commit.bind fun _ =>
        holds_query fun _ => rfl

omit [DecidableEq T] in
theorem holds_material (key : TransitKey T) (version : Option Nat) :
    Holds (TransitService.material key version : Py P B) := by
  have hopen : ∀ (record : Option (TransitKeyVersion T)) (n : Nat), Holds (do
      let dek ← requireDek
      handle (ofExcept (TransitService.openMaterial P dek
        ((record.map (·.keyNonceB64)).getD key.keyNonceB64)
        ((record.map (·.encryptedKeyMaterialB64)).getD key.encryptedKeyMaterialB64)
        (keyAad P key.ownerEmail key.keyName n))) fun x =>
          if x = .invalidTag then
            raise (appError .decryptionFailed "Key material could not be decrypted" 400)
          else raise x : Py P B) :=
    fun record n => holds_requireDek.bind fun _ => (through_ofExcept _).handle fun _ =>
      .ite (through_raise _) (through_raise _)
  unfold TransitService.material
  dsimp only
  rcases version with _ | k
  · rcases key.keyUsage with _ | _
    · exact (holds_query fun _ => rfl).bind fun record =>
        (through_pure _).bind fun r => hopen r.1 r.2
    · exact (through_pure _).bind fun r => hopen r.1 r.2
  · refine (through_ofExcept _).bind fun _ => (holds_query fun _ => rfl).bind fun record =>
      .ite (through_raise_bind _ _) ?_
    exact (through_pure _).bind fun r => hopen r.1 r.2

theorem holds_transitEncrypt (plaintextB64 : T) :
    Holds (TransitService.encrypt email name plaintextB64 : Py P T) := by
  unfold TransitService.encrypt
  refine (holds_find email name _).bind fun key => (through_ofExcept _).bind fun raw => ?_
  dsimp only
  exact .ite (through_raise_bind _ _) ((holds_query fun _ => rfl).bind fun n =>
    (holds_material key _).bind fun m => (holds_encrypt _ _ _).bind fun c => through_pure _)

theorem holds_transitDecrypt (ciphertext : T) :
    Holds (TransitService.decrypt email ciphertext : Py P T) := by
  unfold TransitService.decrypt
  refine (through_ofExcept _).bind fun parts => (through_ofExcept _).bind fun blob => ?_
  dsimp only
  refine .ite (through_raise_bind _ _) ((holds_find email _ _).bind fun key => ?_)
  refine Through.bind ?_ fun raw => through_pure _
  exact ((holds_material key _).bind fun m => through_ofExcept _).handle fun _ =>
    .ite (through_raise _) (through_raise _)

theorem holds_sign (messageB64 : T) (messageType : MessageType) :
    Holds (TransitService.sign email name messageB64 messageType : Py P _) := by
  unfold TransitService.sign
  refine (holds_find email name _).bind fun key => (through_ofExcept _).bind fun message => ?_
  dsimp only
  exact .ite (through_raise_bind _ _) ((holds_material key _).bind fun m =>
    .ite (through_raise_bind _ _) (through_pure _))

theorem holds_verify (messageB64 : T) (messageType : MessageType) (signatureB64 : T)
    (signingAlgorithm : Option T) :
    Holds (TransitService.verify email name messageB64 messageType signatureB64
      signingAlgorithm : Py P _) := by
  unfold TransitService.verify
  refine (holds_find email name _).bind fun key => (through_ofExcept _).bind fun message => ?_
  dsimp only
  exact .ite (through_raise_bind _ _) (.ite (through_raise_bind _ _) (through_pure _))

end Transit

/-! ## Calls -/

/-- Every call works through what is held. -/
theorem holds_run (c : Call T J) : Holds (c.run : Py P (Data T J)) := by
  cases c with
  | vaultInit p c => exact (holds_init p c).bind fun _ => through_pure _
  | vaultUnlock p => exact (holds_unlock p).bind fun _ => through_pure _
  | vaultLock => exact holds_lockState.bind fun _ => through_pure _
  | vaultStatus => exact holds_status.bind fun _ => through_pure _
  | restart => exact holds_startup.bind fun _ => through_pure _
  | kvWrite path email data => exact (holds_write path email data).bind fun _ => through_pure _
  | kvRead path email version =>
    exact (holds_read path email version).bind fun _ => through_pure _
  | kvVersions path email => exact (holds_versions path email).bind fun _ => through_pure _
  | kvDelete path email => exact (holds_delete path email).bind fun _ => through_pure _
  | kvList email => exact (holds_list email).bind fun _ => through_pure _
  | createAes email name => exact (holds_createAes email name).bind fun _ => through_pure _
  | createSigning email name =>
    exact (holds_createSigning email name).bind fun _ => through_pure _
  | keyList email => exact (holds_keyList email).bind fun _ => through_pure _
  | keyGet email name => exact (holds_keyGet email name).bind fun _ => through_pure _
  | revoke email name => exact (holds_revoke email name).bind fun _ => through_pure _
  | rotate email name => exact (holds_rotate email name).bind fun _ => through_pure _
  | encrypt email name plaintextB64 =>
    exact (holds_transitEncrypt email name plaintextB64).bind fun _ => through_pure _
  | decrypt email ciphertext =>
    exact (holds_transitDecrypt email ciphertext).bind fun _ => through_pure _
  | sign email name messageB64 messageType =>
    exact (holds_sign email name messageB64 messageType).bind fun _ => through_pure _
  | verify email name messageB64 messageType signatureB64 signingAlgorithm =>
    exact (holds_verify email name messageB64 messageType signatureB64 signingAlgorithm).bind
      fun _ => through_pure _

/-- A call on two worlds that hold the same. -/
theorem call_held {w w' : World T B} (h : w.held = w'.held) (i : Env P × Call T J) :
    (w.call i).1 = (w'.call i).1 ∧ (w.call i).2.held = (w'.call i).2.held := by
  have hdb : w.db.held = w'.db.held := congrArg (·.1) h
  obtain ⟨hres, hleft⟩ := holds_run i.2 i.1 w.session w'.session
    (Prod.ext hdb (Prod.ext hdb (congrArg (·.2) h)))
  exact ⟨hres, Prod.ext (congrArg (·.2.1) hleft) (congrArg (·.2.2) hleft)⟩

end MiniVault
