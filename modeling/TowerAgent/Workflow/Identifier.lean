import TowerAgent.Lib.Ordered
import TowerAgent.Lib.Text
import Mathlib.Data.String.Basic

/-! Validated identifiers of a workflow, its version, its runs and its steps. -/
namespace TowerAgent.Workflow
open Lib

/-- The error of an identifier constructor, naming the kind of identifier refused. -/
structure InvalidIdentifier where
  kind : String
  deriving DecidableEq, Repr

def InvalidIdentifier.display (error : InvalidIdentifier) : String :=
  error.kind ++ " must be non-empty and contain no surrounding whitespace"

/-- Non-empty after trimming, and trimming changes nothing. -/
def isIdentifier (value : String) : Bool :=
  !((Text.trim value).isEmpty || Text.trim value != value)

/-- One definition for the four identifier types of the crate; the kind is their only difference. -/
structure Identifier (kind : String) where
  value : String
  valid : isIdentifier value = true

abbrev WorkflowId := Identifier "workflow id"
abbrev WorkflowVersion := Identifier "workflow version"
abbrev WorkflowRunId := Identifier "workflow run id"
abbrev StepId := Identifier "step id"

namespace Identifier
variable {kind : String}

theorem value_injective : Function.Injective (value : Identifier kind → String) := by
  rintro ⟨a,ha⟩ ⟨b,hb⟩ h
  cases h
  rfl

instance : LinearOrder (Identifier kind) := LinearOrder.lift' value value_injective

instance : Std.TransOrd (Identifier kind) := inferInstance

/-- Validate and construct an identifier. -/
def new (value : String) : Except InvalidIdentifier (Identifier kind) :=
  if h : isIdentifier value = true then .ok ⟨value,h⟩ else .error ⟨kind⟩

theorem new_eq_ok {value : String} {id : Identifier kind} :
    new value = .ok id ↔ id.value = value := by
  unfold new
  constructor
  · intro h
    split at h
    · cases h; rfl
    · cases h
  · rintro rfl
    simp [id.valid]

end Identifier

example : isIdentifier "compile" = true ∧ isIdentifier "padded " = false ∧
    isIdentifier "  " = false := by decide

end TowerAgent.Workflow
