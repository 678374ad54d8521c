import TowerAgent.Kernel.Request
import TowerAgent.Lib.Fallible
import TowerAgent.Lib.Ordered

/-! What the provider adapters share: the host they read, the environment a child starts with, and
the steps of a launch. -/
namespace TowerAgent.Adapter
open Lib Kernel
open Std (ExtTreeMap ExtTreeSet)

/-- `std::env::var` of one variable. -/
inductive AmbientValue where
  | notPresent
  | notUnicode
  | value (text : String)
  deriving DecidableEq, Repr

/-- What the checks of an adapter ask of the outside, fixed while a call runs: the libraries, the
filesystem and the environment of the host process. -/
structure Host where
  /-- The hyphenated text of the UUID that a text parses to. -/
  uuid : String → Option String
  /-- The serialized text of a JSON value. -/
  serialize : Json → Option String
  /-- Validity as a draft-07 schema. -/
  draft7 : Json → Bool
  /-- Validity as a draft 2020-12 schema. -/
  draft202012 : Json → Bool
  canonicalize : Canonicalize
  /-- The path that `std::fs::canonicalize` returns. -/
  canonicalPath : PathBuf → Option PathBuf
  isDir : PathBuf → Bool
  /-- Whether a file of that name is in the directory. -/
  isFile : PathBuf → String → Bool
  environment : String → AmbientValue

/-- Host-owned policy for the environment inherited by provider subprocesses. -/
structure ChildEnvironmentPolicy where
  inheritAmbient : Bool := true
  allowAmbient : ExtTreeSet String := ∅
  explicit : ExtTreeMap String String := ∅

structure ResolvedChildEnvironment where
  clearInherited : Bool
  vars : ExtTreeMap String String

inductive ChildEnvironmentError where
  | invalidKey
  | invalidValue (key : String)
  | nonUnicodeAmbientValue (key : String)
  deriving DecidableEq, Repr

def ChildEnvironmentError.display : ChildEnvironmentError → String
  | .invalidKey => "child environment variable name is invalid"
  | .invalidValue key =>
    "child environment variable " ++ key ++ " contains an invalid value"
  | .nonUnicodeAmbientValue key =>
    "allowlisted host environment variable " ++ key ++ " is not valid UTF-8"

def nul : Char := Char.ofNat 0

def validateKey (key : String) : Except ChildEnvironmentError Unit :=
  if key.isEmpty || key.toList.contains '=' || key.toList.contains nul then .error .invalidKey
  else .ok ()

namespace ChildEnvironmentPolicy
variable (policy : ChildEnvironmentPolicy)

/-- Copy the allowlisted variables that the host process has, unless the child inherits them all. -/
def ambient (environment : String → AmbientValue) :
    Except ChildEnvironmentError (ExtTreeMap String String) :=
  if policy.inheritAmbient then .ok ∅
  else policy.allowAmbient.toList.foldlM (fun vars key =>
    match environment key with
    | .value text => .ok (vars.insert key text)
    | .notPresent => .ok vars
    | .notUnicode => .error (.nonUnicodeAmbientValue key)) ∅

/-- Resolve the policy against the host environment, and check all keys and values. -/
def resolve (environment : String → AmbientValue) :
    Except ChildEnvironmentError ResolvedChildEnvironment := do
  forM (policy.allowAmbient.toList ++ policy.explicit.toList.map Prod.fst) validateKey
  forM policy.explicit.toList fun (key,value) =>
    if value.toList.contains nul then .error (.invalidValue key) else .ok ()
  let vars ← policy.ambient environment
  return ⟨!policy.inheritAmbient,
    policy.explicit.toList.foldl (fun vars (key,value) => vars.insert key value) vars⟩

end ChildEnvironmentPolicy

/-- An incremental observation of a call. -/
inductive AgentEvent where
  | started
  | outputDelta (text : String)
  | thinkingDelta (text : String)
  | toolStarted (name : String)
  | turnStarted (number : UInt32)
  | status (message : String)
  | usage (usage : TokenUsage)
  | warning (message : String)
  deriving DecidableEq, Repr

/-- What an adapter asks of the builder of its wrapper's client, in order. -/
inductive ClientOption where
  | clearEnv
  | envs (vars : List (String × String))
  | binary (path : PathBuf)
  | workingDir (directory : PathBuf)
  | env (key value : String)
  | outputLimit (maxBytes : ℕ)
  | grace (duration : Duration)
  | dieWithParent (enabled : Bool)
  | onSpawn (provider : String) (operationId : UInt64)
  deriving DecidableEq, Repr

/-- The configuration of a child process, common to the services. -/
structure ChildSettings where
  binary : Option PathBuf := none
  /-- The directory of the provider's own configuration. -/
  home : Option PathBuf := none
  grace : Option Duration := none
  outputLimit : Option ℕ := none
  dieWithParent : Bool := false
  /-- Whether a watchdog observes the spawned processes. -/
  spawnObserver : Bool := false
  childEnvironment : ChildEnvironmentPolicy := {}

/-- How an adapter names its provider. -/
structure ProviderNames where
  provider : String
  display : String
  /-- The variable of its configuration directory. -/
  homeVariable : String
  /-- The error text of a configuration directory that is not valid UTF-8. -/
  homeError : String

/-- What one launch did, in order: the lookup of the executable, the temporary file of a schema, the
events it offered to the observer, and the wrapper's report on the finished command. -/
inductive LaunchStep (R : Type) where
  | discovery (options : List ClientOption)
  | schemaFile (contents : String)
  | emitted (event : AgentEvent)
  | executed (report : R)

def LaunchStep.isExecuted {R : Type} : LaunchStep R → Bool
  | .executed _ => true
  | _ => false

/-- Some command of the launch was reported on. -/
lemma exists_executed {R : Type} {steps : List (LaunchStep R)}
    (h : steps.any LaunchStep.isExecuted = true) : ∃ report, .executed report ∈ steps := by
  obtain ⟨step,hmem,hstep⟩ := List.any_eq_true.mp h
  cases step with
  | executed report => exact ⟨report,hmem⟩
  | _ => cases hstep

/-- Refuse a request that meets the condition. -/
def refuse (condition : Bool) (message : String) : Except AgentError Unit :=
  if condition then .error (.invalidRequest message) else .ok ()

lemma refuse_fails {P : AgentError → Prop} {condition : Bool} {message : String}
    (h : P (.invalidRequest message)) : Fails P (refuse condition message) := by
  unfold refuse
  split
  · exact Fails.error h
  · exact Fails.ok ()

/-- A failure without evidence. -/
def Bare (e : AgentError) : Prop := e.evidence = none

/-- A refusal of the validation phase. -/
def Refused (e : AgentError) : Prop := ∃ kind message, e = .new kind message .validation .none

lemma Refused.bare {e : AgentError} (h : Refused e) : Bare e := by
  obtain ⟨kind,message,rfl⟩ := h
  rfl

lemma refuse_refused {condition : Bool} {message : String} :
    Fails Refused (refuse condition message) :=
  refuse_fails ⟨_,_,rfl⟩

/-- An error of the host's configuration, found before anything ran. -/
def launchError (message : String) : AgentError := .new .internal message .launch .none

/-- The option for the provider's configuration directory. -/
def homeOption (names : ProviderNames) : Option PathBuf → Except AgentError (List ClientOption)
  | none => .ok []
  | some directory =>
    match directory.toStr with
    | some directory => .ok [.env names.homeVariable directory]
    | none => .error (launchError names.homeError)

/-- The client options of a child; the environment and the configuration directory may be refused. -/
def clientOptions (names : ProviderNames) (settings : ChildSettings)
    (environment : String → AmbientValue) (workingDirectory : Option PathBuf)
    (operationId : UInt64) : Except AgentError (List ClientOption) := do
  let resolved ← (settings.childEnvironment.resolve environment).mapError (fun error =>
    launchError ("invalid " ++ names.display ++ " child environment policy: " ++ error.display))
  let home ← homeOption names settings.home
  return (if resolved.clearInherited then [.clearEnv] else []) ++
    [.envs resolved.vars.toList] ++
    settings.binary.toList.map .binary ++
    workingDirectory.toList.map .workingDir ++
    home ++
    settings.outputLimit.toList.map .outputLimit ++
    settings.grace.toList.map .grace ++
    [.dieWithParent settings.dieWithParent] ++
    if settings.spawnObserver then [.onSpawn names.provider operationId] else []

/-- Client options are refused for the host's configuration alone. -/
theorem clientOptions_error {names : ProviderNames} {settings : ChildSettings}
    {environment : String → AmbientValue} {workingDirectory : Option PathBuf}
    {operationId : UInt64} {e : AgentError}
    (h : clientOptions names settings environment workingDirectory operationId = .error e) :
    e = launchError names.homeError ∨ ∃ error : ChildEnvironmentError, e =
      launchError ("invalid " ++ names.display ++ " child environment policy: " ++
        error.display) := by
  rcases bind_eq_error.mp h with h | ⟨resolved,-,h⟩
  · cases hr : settings.childEnvironment.resolve environment with
    | ok resolved =>
      rw [hr] at h
      cases h
    | error error =>
      rw [hr] at h
      exact .inr ⟨error,(Except.error.inj h).symm⟩
  · rcases bind_eq_error.mp h with h | ⟨home,-,h⟩
    · unfold homeOption at h
      split at h
      · cases h
      · split at h
        · cases h
        · exact .inl (Except.error.inj h).symm
    · cases h

/-- Client options are refused without evidence, in the launch phase. -/
lemma clientOptions_fails {names : ProviderNames} {settings : ChildSettings}
    {environment : String → AmbientValue} {workingDirectory : Option PathBuf}
    {operationId : UInt64} : Fails (fun e => Bare e ∧ e.phase = .launch)
      (clientOptions names settings environment workingDirectory operationId) := by
  intro e h
  rcases clientOptions_error h with rfl | ⟨error,rfl⟩ <;> exact ⟨rfl,rfl⟩

open Traced in
/-- The client of a wrapper: its options, then the lookup of the executable. -/
def buildClient {R : Type} (names : ProviderNames) (settings : ChildSettings)
    (environment : String → AmbientValue) (build : List ClientOption → Except AgentError Unit)
    (workingDirectory : Option PathBuf) (operationId : UInt64) :
    Traced (LaunchStep R) AgentError (List ClientOption) := do
  let options ← check (clientOptions names settings environment workingDirectory operationId)
  step (.discovery options)
  check (build options)
  return options

section BuildClient
variable {R : Type} {names : ProviderNames} {settings : ChildSettings}
  {environment : String → AmbientValue} {build : List ClientOption → Except AgentError Unit}
  {workingDirectory : Option PathBuf} {operationId : UInt64}

/-- Building a client runs no command. -/
theorem buildClient_executed {report : R} : .executed report ∉
    (buildClient names settings environment build workingDirectory operationId).steps := by
  intro h
  rcases Traced.mem_bind_steps.mp h with h | ⟨options,-,h⟩
  · cases h
  · rcases Traced.mem_bind_steps.mp h with h | ⟨-,-,h⟩
    · cases List.mem_singleton.mp h
    · rcases Traced.mem_bind_steps.mp h with h | ⟨-,-,h⟩ <;> cases h

/-- A client is refused as its options are, or as the wrapper refuses it. -/
theorem buildClient_fails {P : AgentError → Prop}
    (hoptions : Fails P (clientOptions names settings environment workingDirectory operationId))
    (hbuild : ∀ options, Fails P (build options)) :
    Fails P (buildClient (R := R) names settings environment build workingDirectory
      operationId).result :=
  Traced.fails_bind hoptions fun options => Traced.fails_bind (Fails.ok _) fun _ =>
    Traced.fails_bind (hbuild options) fun _ => Fails.ok _

end BuildClient

open Traced in
/-- The run of a command whose report is settled, and its output offered to the observer. -/
def execute {R : Type} (report : R) (settle : R → CallResult) :
    Traced (LaunchStep R) AgentError TurnOutcome := do
  step (.emitted .started)
  step (.executed report)
  let outcome ← check (settle report)
  step (.emitted (.outputDelta outcome.output))
  return outcome

/-- The events offered to the observer once a report is settled. -/
def outputEvents {R : Type} : CallResult → List (LaunchStep R)
  | .ok outcome => [.emitted (.outputDelta outcome.output)]
  | .error _ => []

theorem execute_eq {R : Type} (report : R) (settle : R → CallResult) : execute report settle =
    ⟨.emitted .started::.executed report::outputEvents (settle report),settle report⟩ := by
  unfold execute
  cases settle report <;> rfl

/-- A run has one report, and ends as that report settles. -/
theorem execute_executed {R : Type} {report report' : R} {settle : R → CallResult}
    (h : .executed report' ∈ (execute report settle).steps) :
    report' = report ∧ (execute report settle).result = settle report' := by
  rw [execute_eq] at h ⊢
  obtain rfl : report' = report := by
    cases hs : settle report <;> simpa [outputEvents, hs] using h
  exact ⟨rfl,rfl⟩

/-- A run has a report. -/
theorem execute_stops {R : Type} {report : R} {settle : R → CallResult} {P : AgentError → Prop} :
    (execute report settle).StopsBefore (fun step => ∃ report, step = .executed report) P := by
  rw [execute_eq]
  exact .of_mem (List.mem_cons_of_mem _ List.mem_cons_self) ⟨report,rfl⟩

/-- A host on which one UUID, in canonical form, parses. -/
def sampleHost : Host where
  uuid text := if text = "550e8400-e29b-41d4-a716-446655440000" then some text else none
  serialize value := some value.text
  draft7 _ := true
  draft202012 _ := true
  canonicalize _ := .ok []
  canonicalPath path := some path
  isDir _ := true
  isFile _ _ := true
  environment _ := .notPresent

end TowerAgent.Adapter
