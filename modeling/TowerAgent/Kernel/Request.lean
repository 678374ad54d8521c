import TowerAgent.Kernel.Error
import TowerAgent.Lib.Fallible
import TowerAgent.Lib.Text

/-! Requests to an agent service, and the host's filesystem authority over them. -/
namespace TowerAgent.Kernel
open Lib

/-- A filesystem path as it was written: a text, or bytes that are none with the text shown for
them. -/
inductive PathBuf where
  | text (path : String)
  | bytes (raw : List UInt8) (shown : String)
  deriving DecidableEq, Repr

namespace PathBuf

instance : Coe String PathBuf := ⟨.text⟩

/-- `Path::to_str`. -/
def toStr : PathBuf → Option String
  | .text path => some path
  | .bytes _ _ => none

/-- `Path::display`. -/
def display : PathBuf → String
  | .text path => path
  | .bytes _ shown => shown

end PathBuf

/-- The host-local state of a call that services read; its token belongs to the world. -/
structure CallContext where
  operationId : UInt64
  deadline : Option ℕ
  preassignedSession : Option SessionHandle := none

structure AgentRequest (T : Type) where
  context : CallContext
  body : T

/-- One finite agent turn. -/
structure Turn (O : Type) where
  prompt : String
  workingDirectory : Option PathBuf := none
  session : Option SessionHandle := none
  options : O

/-- A request carrying a turn. -/
abbrev TurnRequest (O : Type) := AgentRequest (Turn O)

inductive FilesystemAuthority where
  | readOnly | workspaceWrite | fullAccess
  deriving DecidableEq, Repr

namespace FilesystemAuthority

def rank : FilesystemAuthority → ℕ
  | .readOnly => 0
  | .workspaceWrite => 1
  | .fullAccess => 2

/-- Whether a host ceiling permits the requested authority. -/
def allows (self requested : FilesystemAuthority) : Bool := requested.rank ≤ self.rank

def display : FilesystemAuthority → String
  | .readOnly => "read_only"
  | .workspaceWrite => "workspace_write"
  | .fullAccess => "full_access"

end FilesystemAuthority

/-- Options that carry a request for filesystem authority. -/
class RequestsFilesystemAuthority (O : Type) where
  filesystemAuthority : O → FilesystemAuthority
  additionalFilesystemRoots : O → List PathBuf

/-- The components of a canonical path. -/
abbrev Canonical := List String

/-- `std::fs::canonicalize`: a path's canonical components, or the text of the failure. -/
abbrev Canonicalize := PathBuf → Except String Canonical

/-- A host-owned ceiling and the canonical roots a turn may write under. -/
structure AuthorityPolicy where
  filesystemCeiling : FilesystemAuthority
  writableRoots : List Canonical

def unauthorized (message : String) : AgentError := .new .unauthorized message .validation .none

namespace AuthorityPolicy
variable (policy : AuthorityPolicy) (canonicalize : Canonicalize)

def authorizeWritableRoot (requested : PathBuf) : Except AgentError Unit :=
  match canonicalize requested with
  | .error error => .error (.invalidRequest
      ("requested filesystem root " ++ requested.display ++ " cannot be resolved: " ++ error))
  | .ok canonical =>
    if policy.writableRoots.any (fun allowed => allowed.isPrefixOf canonical) then .ok ()
    else .error (unauthorized
      ("requested writable root " ++ requested.display ++ " is outside host policy"))

variable {O : Type} [RequestsFilesystemAuthority O]
open RequestsFilesystemAuthority

/-- Validate a turn's request without broadening it. -/
def authorize (turn : Turn O) : Except AgentError Unit := do
  let requested := filesystemAuthority turn.options
  if !policy.filesystemCeiling.allows requested then
    .error (unauthorized ("requested filesystem authority " ++ requested.display ++
      " exceeds host ceiling " ++ policy.filesystemCeiling.display))
  else if requested ≠ .workspaceWrite then .ok ()
  else
    forM turn.workingDirectory (policy.authorizeWritableRoot canonicalize)
    forM (additionalFilesystemRoots turn.options) (policy.authorizeWritableRoot canonicalize)

end AuthorityPolicy

/-- A refusal raised before anything ran. -/
structure Refusal (e : AgentError) : Prop where
  phase : e.phase = .admission ∨ e.phase = .validation
  effects : e.effects = .none

theorem refusal_invalidRequest (message : String) : Refusal (.invalidRequest message) :=
  ⟨.inr rfl,rfl⟩

theorem refusal_unauthorized (message : String) : Refusal (unauthorized message) :=
  ⟨.inr rfl,rfl⟩

theorem refusal_busy : Refusal .busy := ⟨.inl rfl,rfl⟩

namespace AuthorityPolicy
variable {policy : AuthorityPolicy} {canonicalize : Canonicalize}

theorem authorizeWritableRoot_fails (requested : PathBuf) :
    Fails Refusal (policy.authorizeWritableRoot canonicalize requested) := by
  unfold authorizeWritableRoot
  split
  · exact Fails.error (refusal_invalidRequest _)
  · split
    · exact Fails.ok _
    · exact Fails.error (refusal_unauthorized _)

variable {O : Type} [RequestsFilesystemAuthority O]

/-- Every refusal of the policy is one raised before anything ran. -/
theorem authorize_fails {turn : Turn O} : Fails Refusal (policy.authorize canonicalize turn) := by
  unfold authorize
  dsimp only
  split
  · exact Fails.error (refusal_unauthorized _)
  · split
    · exact Fails.ok _
    · refine Fails.bind ?_ fun _ => Fails.forM_list fun root _ => authorizeWritableRoot_fails root
      cases turn.workingDirectory with
      | none => exact Fails.ok _
      | some directory => exact authorizeWritableRoot_fails directory

end AuthorityPolicy
end TowerAgent.Kernel
