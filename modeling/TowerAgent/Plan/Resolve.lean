import TowerAgent.Lib.Text
import TowerAgent.Plan.Partial

/-! Resolution of the planning layers: the merge under the documented precedence, the answers, the
structural checks on what is bound, and the requirements that remain. -/
namespace TowerAgent.Plan
open Lib
open Std (ExtTreeMap)

namespace Codes
def providerMismatch := "provider-mismatch"
def resumeProviderMismatch := "resume-provider-mismatch"
def blankPrompt := "blank-prompt"
def blankModel := "blank-model"
def emptyResumeValue := "empty-resume-value"
def hyphenResumeValue := "hyphen-resume-value"
def unknownRequirement := "unknown-requirement"
def answerOverridesBoundPath := "answer-overrides-bound-path"
def invalidProviderAnswer := "invalid-provider-answer"
end Codes

namespace Ids
def provider := "provider"
def prompt := "prompt"
end Ids

/-- One structured planning diagnostic. -/
structure Diagnostic where
  code : String
  path : Option String
  message : String
  deriving DecidableEq, Repr

/-- A diagnostic that stops resolution. -/
def Diagnostic.error (code : String) (path : Option String) (message : String) : Diagnostic :=
  ⟨code,path,message⟩

inductive ValueKind where
  | provider
  | text
  deriving DecidableEq, Repr

inductive RequirementReason where
  | providerSelection
  | providerInput
  deriving DecidableEq, Repr

/-- A structured description of one unresolved value. -/
structure Requirement where
  id : String
  path : String
  kind : ValueKind
  label : String
  reason : RequirementReason
  sensitive : Bool
  deriving DecidableEq, Repr

/-- One elicited answer, keyed by the id of a requirement. -/
structure Answer where
  id : String
  value : String
  deriving DecidableEq, Repr

/-- A named, saved partial turn. -/
structure Profile where
  name : String
  turn : PartialTurn

/-- Provider baselines, the lowest-precedence layer. -/
structure ProviderDefaults where
  map : ExtTreeMap ProviderId PartialTurn := ∅

namespace ProviderDefaults

/-- Set one provider's baseline, returning any it replaced. -/
def insert (d : ProviderDefaults) (provider : ProviderId) (defaults : PartialTurn) :
    Option PartialTurn × ProviderDefaults :=
  (d.map[provider]?,⟨d.map.insert provider defaults⟩)

def get (d : ProviderDefaults) (provider : ProviderId) : Option PartialTurn := d.map[provider]?

end ProviderDefaults

/-- The layers of one planning pass, lowest precedence first. -/
structure Layers where
  providerDefaults : Option ProviderDefaults := none
  applicationDefaults : Option PartialTurn := none
  profile : Option Profile := none
  explicit : PartialTurn
  answers : List Answer := []

/-- A merged turn whose provider and prompt are bound. -/
structure ResolvedTurn where
  merged : PartialTurn
  provider_bound : merged.provider.isSome = true
  prompt_bound : merged.prompt.isSome = true

inductive Resolution where
  | complete (turn : ResolvedTurn)
  | missing (resolved : PartialTurn) (requirements : List Requirement)
  | invalid (diagnostics : List Diagnostic)

def answerOverridesBoundPath (path : String) : Diagnostic :=
  .error Codes.answerOverridesBoundPath (some path)
    ("an answer may not override the bound path " ++ path)

/-- The profile and the explicit request may not select different providers. -/
def providerMismatch (layers : Layers) : List Diagnostic :=
  match layers.profile with
  | none => []
  | some profile =>
    match profile.turn.provider,layers.explicit.provider with
    | some profileProvider,some explicitProvider =>
      if profileProvider ≠ explicitProvider then
        [.error Codes.providerMismatch (some "provider")
          ("profile " ++ profile.name ++ " selects provider " ++ profileProvider.asStr ++
            " but the explicit request selects " ++ explicitProvider.asStr)]
      else []
    | _,_ => []

/-- Application defaults, profile and explicit request, merged. -/
def upper (layers : Layers) : PartialTurn :=
  let upper : PartialTurn := {}
  let upper := match layers.applicationDefaults with
    | some defaults => upper.mergeFrom defaults
    | none => upper
  let upper := match layers.profile with
    | some profile => upper.mergeFrom profile.turn
    | none => upper
  upper.mergeFrom layers.explicit

/-- The first provider answer that names a known provider. -/
def answeredProvider (answers : List Answer) : Option ProviderId :=
  (answers.filter (fun answer => answer.id == Ids.provider)).findSome?
    (fun answer => ProviderId.fromStr answer.value)

/-- The provider whose baseline applies. -/
def selected (layers : Layers) : Option ProviderId :=
  (upper layers).provider.or (answeredProvider layers.answers)

/-- The selected provider's baseline, without its own `provider` field. -/
def baseline (layers : Layers) : PartialTurn :=
  match selected layers,layers.providerDefaults with
  | some provider,some defaults =>
    let baseline := (defaults.get provider).getD {}
    { baseline with provider := none }
  | _,_ => {}

/-- The merged view before the answers. -/
def named (layers : Layers) : PartialTurn := (baseline layers).mergeFrom (upper layers)

/-- One turn of the loop over the answers. -/
def applyAnswer (state : PartialTurn × List Diagnostic) (answer : Answer) :
    PartialTurn × List Diagnostic :=
  let (merged,diagnostics) := state
  if answer.id = Ids.provider then
    if merged.provider.isSome then
      (merged,diagnostics ++ [answerOverridesBoundPath "provider"])
    else
      match ProviderId.fromStr answer.value with
      | some provider => ({ merged with provider := some provider },diagnostics)
      | none =>
        (merged,diagnostics ++ [.error Codes.invalidProviderAnswer (some "provider")
          "the provider answer does not name a known provider"])
  else if answer.id = Ids.prompt then
    if merged.prompt.isSome then
      (merged,diagnostics ++ [answerOverridesBoundPath "prompt"])
    else
      ({ merged with prompt := some answer.value },diagnostics)
  else
    (merged,diagnostics ++ [.error Codes.unknownRequirement none
      ("answer refers to unknown requirement " ++ answer.id)])

/-- The merged view after the answers, and what was wrong so far. -/
def answered (layers : Layers) : PartialTurn × List Diagnostic :=
  layers.answers.foldl applyAnswer (named layers,providerMismatch layers)

/-- A bound text that trims to nothing. -/
def blank (code path message : String) : Option String → List Diagnostic
  | some text => if Text.isBlank text then [.error code (some path) message] else []
  | none => []

/-- The checks on a bound resume value. -/
def resumeDiagnostics (merged : PartialTurn) : List Diagnostic :=
  match merged.context.resume with
  | none => []
  | some resume =>
    (if Text.isBlank resume.value then
      [.error Codes.emptyResumeValue (some "context.resume") "a resume value must not be empty"]
    else if resume.value.startsWith "-" then
      [.error Codes.hyphenResumeValue (some "context.resume")
        "a resume value must not begin with a hyphen"]
    else []) ++
    match merged.provider with
    | some provider =>
      if resume.provider ≠ provider then
        [.error Codes.resumeProviderMismatch (some "context.resume")
          ("the resume binding is tagged " ++ resume.provider.asStr ++
            " but the resolved provider is " ++ provider.asStr)]
      else []
    | none => []

/-- The structural checks on the merged view. -/
def structuralDiagnostics (merged : PartialTurn) : List Diagnostic :=
  blank Codes.blankPrompt "prompt" "a bound prompt must not be blank" merged.prompt ++
    blank Codes.blankModel "model.name" "a bound model name must not be blank" merged.model.name ++
    resumeDiagnostics merged

/-- What is still unbound, the provider first. -/
def requirements (merged : PartialTurn) : List Requirement :=
  (if merged.provider.isNone then
    [⟨Ids.provider,"provider",.provider,"Provider",.providerSelection,false⟩] else []) ++
  (if merged.prompt.isNone then
    [⟨Ids.prompt,"prompt",.text,"Prompt",.providerInput,false⟩] else [])

lemma requirements_eq_nil {merged : PartialTurn} : requirements merged = [] ↔
    merged.provider.isSome = true ∧ merged.prompt.isSome = true := by
  cases hp : merged.provider <;> cases hq : merged.prompt <;> simp [requirements, hp, hq]

/-- Resolve one planning pass over the supplied layers. -/
def resolve (layers : Layers) : Resolution :=
  let (merged,diagnostics) := answered layers
  let diagnostics := diagnostics ++ structuralDiagnostics merged
  if diagnostics ≠ [] then
    .invalid diagnostics
  else if h : requirements merged = [] then
    .complete ⟨merged,(requirements_eq_nil.mp h).1,(requirements_eq_nil.mp h).2⟩
  else
    .missing merged (requirements merged)

/-- The merged view of a resolution that is not refused. -/
def Resolution.view : Resolution → Option PartialTurn
  | .complete turn => some turn.merged
  | .missing resolved _ => some resolved
  | .invalid _ => none

end TowerAgent.Plan
