import TowerAgent.Kernel.Rules

/-! Stacks of layers in any order over a provider, alone or below a workflow's step adapter, and
the runs of their caller. -/
namespace TowerAgent.Kernel
open Lib

/-- The layers over requests of any type. -/
inductive GenericLayer where
  | admission
  | limitOutput (maxBytes : ℕ)
  | catchPanic
  | injectFaults

namespace GenericLayer

def layer {Q : Type} (S : AgentService Q) : GenericLayer → AgentService Q
  | .admission => Admission.service S
  | .limitOutput maxBytes => LimitOutput.service maxBytes S
  | .catchPanic => CatchPanic.service S
  | .injectFaults => InjectFaults.service S

def permits : GenericLayer → ℕ
  | .admission => 1
  | _ => 0

end GenericLayer

/-- The layers over turn requests. -/
inductive Layer where
  | generic (layer : GenericLayer)
  | deadline
  | validateTurn (maxPromptBytes : Option ℕ)
  | enforceAuthority (policy : AuthorityPolicy) (canonicalize : Canonicalize)
  | observe
  | supervise

namespace Layer
variable {O : Type} [RequestsFilesystemAuthority O]

def layer (S : AgentService (TurnRequest O)) : Layer → AgentService (TurnRequest O)
  | .generic g => g.layer S
  | .deadline => Deadline.service S
  | .validateTurn maxPromptBytes => ValidateTurn.service maxPromptBytes S
  | .enforceAuthority policy canonicalize => EnforceAuthority.service policy canonicalize S
  | .observe => Observe.service S
  | .supervise => Supervise.service S

def permits : Layer → ℕ
  | .generic g => g.permits
  | _ => 0

end Layer

section Stacks
variable (O : Type) [RequestsFilesystemAuthority O]

/-- A stack of layers over a provider, the outermost first. -/
def stack (layers : List Layer) : AgentService (TurnRequest O) :=
  layers.foldr (fun l S => l.layer S) (Provider.service (TurnRequest O))

/-- Layers over the step adapter of a stack. -/
def stepStack {I : Type} (outer : List GenericLayer)
    (prepare : StepCall I → Unwind (Except AgentError (Turn O))) (layers : List Layer) :
    AgentService (StepCall I) :=
  outer.foldr (fun l S => l.layer S) (AgentStepService.service prepare (stack O layers))

end Stacks

/-- The admission permits a call takes on its way down. -/
def permits : List Layer → ℕ
  | [] => 0
  | l::layers => l.permits + permits layers

variable {R R' : Regime} {k : ℕ}

theorem GenericLayer.keeps {Q : Type} {S : AgentService Q} (L : R.Lawful) (g : GenericLayer)
    (h : ∃ inv, Keeps (R.terms (k+g.permits)) S inv) : ∃ inv, Keeps (R.terms k) (g.layer S) inv := by
  obtain ⟨inv,h⟩ := h
  cases g with
  | admission => exact ⟨_,Admission.keeps L h⟩
  | limitOutput maxBytes => exact ⟨_,LimitOutput.keeps L maxBytes h⟩
  | catchPanic => exact ⟨_,CatchPanic.keeps L h⟩
  | injectFaults => exact ⟨_,InjectFaults.keeps L h⟩

section Stacks
variable {O : Type} [RequestsFilesystemAuthority O]

theorem Layer.keeps {S : AgentService (TurnRequest O)} (L : R.TurnLawful) (l : Layer)
    (h : ∃ inv, Keeps (R.terms (k+l.permits)) S inv) : ∃ inv, Keeps (R.terms k) (l.layer S) inv := by
  cases l with
  | generic g => exact g.keeps L.toLawful h
  | deadline => exact ⟨_,Deadline.keeps L h.choose_spec⟩
  | validateTurn maxPromptBytes => exact ⟨_,ValidateTurn.keeps L maxPromptBytes h.choose_spec⟩
  | enforceAuthority policy canonicalize =>
    exact ⟨_,EnforceAuthority.keeps L policy canonicalize h.choose_spec⟩
  | observe => exact ⟨_,Observe.keeps L h.choose_spec⟩
  | supervise => exact ⟨_,Supervise.keeps L h.choose_spec⟩

/-- Every stack keeps a lawful regime its provider keeps. -/
theorem stack_keeps (L : R.TurnLawful) {full : ℕ} (P : R.Provides full) (layers : List Layer)
    (hk : k+permits layers = full) : ∃ inv, Keeps (R.terms k) (stack O layers) inv := by
  induction layers generalizing k with
  | nil =>
    obtain rfl : k = full := by simpa [permits] using hk
    exact ⟨_,Provider.keeps P⟩
  | cons l layers ih =>
    refine l.keeps L (ih ?_)
    simp only [permits] at hk
    simpa only [permits, Nat.add_assoc] using hk

/-- So does every stack below a step adapter, with a regime of its steps that covers the preparer's
errors. -/
theorem stepStack_keeps_of {I : Type} (L : R.TurnLawful) (L' : R.StepLawful R')
    (P : ∀ k, R.Provides k) {prepare : StepCall I → Unwind (Except AgentError (Turn O))}
    (hprepare : ∀ k step e v, prepare step = .returned (.error e) → R'.idle k v →
      R'.done (.error e) v)
    (outer : List GenericLayer) (layers : List Layer) :
    ∃ inv, Keeps (R'.terms k) (stepStack O outer prepare layers) inv := by
  induction outer generalizing k with
  | nil =>
    obtain ⟨inv,h⟩ := stack_keeps (O := O) (k := k) L (P _) layers rfl
    exact ⟨_,AgentStepService.keeps_of L' h (hprepare k)⟩
  | cons l outer ih => exact l.keeps L'.toLawful ih

/-- So does every stack below a step adapter, with the regime of its steps. -/
theorem stepStack_keeps {I : Type} (L : R.TurnLawful) (L' : R.StepLawful R')
    (P : ∀ k, R.Provides k) {prepare : StepCall I → Unwind (Except AgentError (Turn O))}
    (hprepare : ∀ step e, prepare step = .returned (.error e) → e.phase = .validation)
    (outer : List GenericLayer) (layers : List Layer) :
    ∃ inv, Keeps (R'.terms k) (stepStack O outer prepare layers) inv :=
  stepStack_keeps_of L L' P (fun k step e v he hv => L'.invalid k e v hv (hprepare step e he)) outer
    layers

end Stacks

/-- A composition of kernel layers, alone or with the step adapter in it. -/
inductive Composition (O I : Type) where
  | turn (layers : List Layer)
  | step (outer : List GenericLayer) (prepare : StepCall I → Unwind (Except AgentError (Turn O)))
      (layers : List Layer)

namespace Composition
variable {O I : Type}

@[reducible] def Request : Composition O I → Type
  | .turn _ => TurnRequest O
  | .step _ _ _ => StepCall I

def service [RequestsFilesystemAuthority O] : (c : Composition O I) → AgentService c.Request
  | .turn layers => stack O layers
  | .step outer prepare layers => stepStack O outer prepare layers

/-- The preparer's own errors are validation errors. -/
def Prepared : Composition O I → Prop
  | .turn _ => True
  | .step _ prepare _ => ∀ step e, prepare step = .returned (.error e) → e.phase = .validation

end Composition

/-- Options that ask for filesystem authority, as a provider adapter's do. -/
structure SampleOptions where
  authority : FilesystemAuthority := .readOnly
  roots : List PathBuf := []

instance : RequestsFilesystemAuthority SampleOptions where
  filesystemAuthority := SampleOptions.authority
  additionalFilesystemRoots := SampleOptions.roots

def sampleRequest : TurnRequest SampleOptions where
  context := { operationId := 1, deadline := some 5 }
  body := { prompt := "hello", options := {} }

def sampleStep : StepCall Unit where
  context := sampleRequest.context
  input := ()

def samplePrepare (_ : StepCall Unit) : Unwind (Except AgentError (Turn SampleOptions)) :=
  .returned (.ok sampleRequest.body)

end TowerAgent.Kernel
