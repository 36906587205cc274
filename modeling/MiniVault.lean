import MiniVault.Audit.Migration
import MiniVault.Audit.Record
import MiniVault.Audit.Restart
import MiniVault.Audit.Verify
import MiniVault.Auth.Accounts
import MiniVault.Auth.Guessing
import MiniVault.Auth.Lockout
import MiniVault.Auth.Provenance
import MiniVault.Auth.Sessions
import MiniVault.Http.DataKey
import MiniVault.Http.Denials
import MiniVault.Http.Evolution
import MiniVault.Http.Idle
import MiniVault.Http.Internal
import MiniVault.Http.KvMap
import MiniVault.Http.Locked
import MiniVault.Http.Recovery
import MiniVault.Http.Request
import MiniVault.Http.Schema
import MiniVault.Http.Simulation
import MiniVault.Http.Sizes
import MiniVault.Http.Sound
import MiniVault.Http.Step
import MiniVault.Http.Trail
import MiniVault.Isolation.Accounts
import MiniVault.Isolation.Answers
import MiniVault.Isolation.Calls
import MiniVault.Isolation.NonInterference
import MiniVault.Isolation.Requests
import MiniVault.Isolation.View
import MiniVault.Kit.DolevYao
import MiniVault.Kit.Ensures
import MiniVault.Kit.JsonRoundTrip
import MiniVault.Kit.JsonScan
import MiniVault.Kit.JsonText
import MiniVault.Kit.JsonValue
import MiniVault.Kit.Lockout
import MiniVault.Kit.Raises
import MiniVault.Kit.TableView
import MiniVault.Kit.Through
import MiniVault.Kit.Unwinding
import MiniVault.Kit.VersionedMap
import MiniVault.Kv.Contents
import MiniVault.Kv.Corruption
import MiniVault.Kv.History
import MiniVault.Kv.PutGet
import MiniVault.Kv.Refine
import MiniVault.Kv.Tables
import MiniVault.Kv.Total
import MiniVault.Kv.Views
import MiniVault.Model.Concrete
import MiniVault.Model.PyStr
import MiniVault.Plain.AccountTables
import MiniVault.Plain.Accounts
import MiniVault.Plain.Calls
import MiniVault.Plain.Refine
import MiniVault.Plain.SecretAnswers
import MiniVault.Plain.SecretTables
import MiniVault.Plain.Server
import MiniVault.Security.Guarded
import MiniVault.Security.Secrecy
import MiniVault.Security.Services
import MiniVault.Security.Transit
import MiniVault.Service.Dek
import MiniVault.Service.Exceptions
import MiniVault.Service.Held
import MiniVault.Service.Material
import MiniVault.Service.Step
import MiniVault.Tamper.Aad
import MiniVault.Tamper.Corrupted
import MiniVault.Tamper.Keys
import MiniVault.Tamper.Kv
import MiniVault.Tamper.Log
import MiniVault.Transit.Authentic
import MiniVault.Transit.Envelope
import MiniVault.Transit.KeyRing
import MiniVault.Transit.Malleable
import MiniVault.Transit.Purposes
import MiniVault.Transit.Revocation
import MiniVault.Transit.Ring
import MiniVault.Transit.Rotation
import MiniVault.Transit.RoundTrip
import MiniVault.Transit.Signatures
import MiniVault.Transit.Total
