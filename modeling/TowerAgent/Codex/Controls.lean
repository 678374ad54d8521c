import TowerAgent.Codex.Settle

/-! The two command builders of the Codex adapter, each on its own type of the wrapper, and the
controls that both apply. -/
namespace TowerAgent.Codex
open Lib Kernel Adapter

/-- The wrapper's sandbox modes. -/
inductive SandboxMode where
  | readOnly
  | workspaceWrite
  | dangerFullAccess
  deriving DecidableEq, Repr

/-- The wrapper's command for a fresh turn, by what its builder methods have recorded. -/
structure ExecCommand where
  prompt : String
  sandbox : Option SandboxMode := none
  config : List String := []
  skipGitRepoCheck : Bool := false
  strictConfig : Bool := false
  ignoreUserConfig : Bool := false
  ignoreRules : Bool := false
  ephemeral : Bool := false
  model : Option String := none
  outputSchema : Option String := none
  addDir : List String := []
  deriving DecidableEq, Repr

/-- The wrapper's command for a resumed turn; it has neither a sandbox flag nor directories. -/
structure ExecResumeCommand where
  prompt : String
  sessionId : Option String := none
  config : List String := []
  skipGitRepoCheck : Bool := false
  strictConfig : Bool := false
  ignoreUserConfig : Bool := false
  ignoreRules : Bool := false
  ephemeral : Bool := false
  model : Option String := none
  outputSchema : Option String := none
  deriving DecidableEq, Repr

def sandboxMode : FilesystemAuthority → SandboxMode
  | .readOnly => .readOnly
  | .workspaceWrite => .workspaceWrite
  | .fullAccess => .dangerFullAccess

namespace Exec

/-- `fresh_command`, on what the wrapper's methods record. -/
def freshCommand (turn : PreparedTurn) (ambient : CodexAmbientContextPolicy)
    (outputSchemaPath skillConfig : Option String) : ExecCommand :=
  let command : ExecCommand := {
    prompt := turn.prompt
    sandbox := some (sandboxMode turn.filesystemAuthority)
    skipGitRepoCheck := true }
  let command := if ambient = .automation then { command with
    strictConfig := true
    ignoreUserConfig := true
    ignoreRules := true
    config := command.config ++ ["project_doc_max_bytes=0"] } else command
  let command := match skillConfig with
    | some config => { command with strictConfig := true, config := command.config ++ [config] }
    | none => command
  let command := if turn.ephemeral then { command with ephemeral := true } else command
  let command := match turn.model with
    | some model => { command with model := some model }
    | none => command
  let command := match outputSchemaPath with
    | some path => { command with outputSchema := some path }
    | none => command
  turn.additionalDirectories.foldl
    (fun command directory => { command with addDir := command.addDir ++ [directory] }) command

/-- `resume_command`, on what the wrapper's methods record. -/
def resumeCommand (turn : PreparedTurn) (session : String) (ambient : CodexAmbientContextPolicy)
    (outputSchemaPath skillConfig : Option String) : ExecResumeCommand :=
  let command : ExecResumeCommand := {
    prompt := turn.prompt
    sessionId := some session
    config := [sandboxConfig turn.filesystemAuthority]
    skipGitRepoCheck := true }
  let command := if ambient = .automation then { command with
    strictConfig := true
    ignoreUserConfig := true
    ignoreRules := true
    config := command.config ++ ["project_doc_max_bytes=0"] } else command
  let command := match skillConfig with
    | some config => { command with strictConfig := true, config := command.config ++ [config] }
    | none => command
  let command := if turn.ephemeral then { command with ephemeral := true } else command
  let command := match turn.model with
    | some model => { command with model := some model }
    | none => command
  match outputSchemaPath with
  | some path => { command with outputSchema := some path }
  | none => command

end Exec

/-- The authority that a sandbox mode gives. -/
def SandboxMode.authority : SandboxMode → FilesystemAuthority
  | .readOnly => .readOnly
  | .workspaceWrite => .workspaceWrite
  | .dangerFullAccess => .fullAccess

/-- The name of a sandbox mode in the configuration of the command line. -/
def SandboxMode.name : SandboxMode → String
  | .readOnly => "read-only"
  | .workspaceWrite => "workspace-write"
  | .dangerFullAccess => "danger-full-access"

/-- The authority that a configuration override gives, when it sets the sandbox mode. -/
def sandboxOverride (config : String) : Option FilesystemAuthority :=
  ([.readOnly,.workspaceWrite,.dangerFullAccess].find? fun mode =>
    config = "sandbox_mode=\"" ++ SandboxMode.name mode ++ "\"").map SandboxMode.authority

/-- What a command has the provider apply, however it is encoded. -/
@[ext]
structure Controls where
  prompt : String
  /-- The authority of each sandbox setting. -/
  sandbox : List FilesystemAuthority
  /-- The configuration overrides that set something else. -/
  overrides : List String
  skipGitRepoCheck : Bool
  strictConfig : Bool
  ignoreUserConfig : Bool
  ignoreRules : Bool
  ephemeral : Bool
  model : Option String
  outputSchema : Option String
  directories : List PathBuf
  deriving DecidableEq, Repr

def otherOverrides (config : List String) : List String :=
  config.filter (fun config => (sandboxOverride config).isNone)

def ExecCommand.controls (command : ExecCommand) : Controls where
  prompt := command.prompt
  sandbox := command.sandbox.toList.map SandboxMode.authority ++
    command.config.filterMap sandboxOverride
  overrides := otherOverrides command.config
  skipGitRepoCheck := command.skipGitRepoCheck
  strictConfig := command.strictConfig
  ignoreUserConfig := command.ignoreUserConfig
  ignoreRules := command.ignoreRules
  ephemeral := command.ephemeral
  model := command.model
  outputSchema := command.outputSchema
  directories := command.addDir.map .text

def ExecResumeCommand.controls (command : ExecResumeCommand) : Controls where
  prompt := command.prompt
  sandbox := command.config.filterMap sandboxOverride
  overrides := otherOverrides command.config
  skipGitRepoCheck := command.skipGitRepoCheck
  strictConfig := command.strictConfig
  ignoreUserConfig := command.ignoreUserConfig
  ignoreRules := command.ignoreRules
  ephemeral := command.ephemeral
  model := command.model
  outputSchema := command.outputSchema
  directories := []

/-- The controls that a turn and its host ask for. -/
def Controls.asked (turn : CodexTurn) (ambient : CodexAmbientContextPolicy)
    (outputSchemaPath skillConfig : Option String) : Controls where
  prompt := composePrompt turn.prompt turn.options.systemPrompt
  sandbox := turn.options.filesystemAuthority::skillConfig.toList.filterMap sandboxOverride
  overrides := (if ambient = .automation then ["project_doc_max_bytes=0"] else []) ++
    otherOverrides skillConfig.toList
  -- no turn, policy, schema or skill configuration asks for the check to be skipped
  skipGitRepoCheck := false
  strictConfig := ambient = .automation || skillConfig.isSome
  ignoreUserConfig := ambient = .automation
  ignoreRules := ambient = .automation
  ephemeral := turn.options.ephemeral
  model := turn.options.model
  outputSchema := outputSchemaPath
  directories := turn.options.additionalDirectories

/-- The controls asked for, and the skipped repository check that both builders always add. -/
def Controls.applied (turn : CodexTurn) (ambient : CodexAmbientContextPolicy)
    (outputSchemaPath skillConfig : Option String) : Controls :=
  { Controls.asked turn ambient outputSchemaPath skillConfig with skipGitRepoCheck := true }

section Builders
variable {turn : PreparedTurn} {ambient : CodexAmbientContextPolicy}
  {outputSchemaPath skillConfig : Option String}

lemma foldl_addDir (directories : List String) (command : ExecCommand) :
    directories.foldl (fun command directory =>
      { command with addDir := command.addDir ++ [directory] }) command =
      { command with addDir := command.addDir ++ directories } := by
  induction directories generalizing command with
  | nil => simp
  | cons directory directories ih => simp [ih]

/-- What the fresh builder records, field by field. -/
theorem freshCommand_records : Exec.freshCommand turn ambient outputSchemaPath skillConfig = {
    prompt := turn.prompt
    sandbox := some (sandboxMode turn.filesystemAuthority)
    config := (if ambient = .automation then ["project_doc_max_bytes=0"] else []) ++
      skillConfig.toList
    skipGitRepoCheck := true
    strictConfig := ambient = .automation || skillConfig.isSome
    ignoreUserConfig := ambient = .automation
    ignoreRules := ambient = .automation
    ephemeral := turn.ephemeral
    model := turn.model
    outputSchema := outputSchemaPath
    addDir := turn.additionalDirectories } := by
  simp only [Exec.freshCommand, foldl_addDir]
  cases turn with
  | mk prompt cwd session model directories schema authority ephemeral =>
    cases ambient <;> cases skillConfig <;> cases ephemeral <;> cases model <;>
      cases outputSchemaPath <;> simp

/-- What the resuming builder records, field by field. -/
theorem resumeCommand_records {session : String} :
    Exec.resumeCommand turn session ambient outputSchemaPath skillConfig = {
    prompt := turn.prompt
    sessionId := some session
    config := sandboxConfig turn.filesystemAuthority::
      ((if ambient = .automation then ["project_doc_max_bytes=0"] else []) ++ skillConfig.toList)
    skipGitRepoCheck := true
    strictConfig := ambient = .automation || skillConfig.isSome
    ignoreUserConfig := ambient = .automation
    ignoreRules := ambient = .automation
    ephemeral := turn.ephemeral
    model := turn.model
    outputSchema := outputSchemaPath } := by
  simp only [Exec.resumeCommand]
  cases turn with
  | mk prompt cwd session' model directories schema authority ephemeral =>
    cases ambient <;> cases skillConfig <;> cases ephemeral <;> cases model <;>
      cases outputSchemaPath <;> simp

end Builders
section Replay
variable {turn : PreparedTurn} {ambient : CodexAmbientContextPolicy}
  {outputSchemaPath skillConfig : Option String}

/-- What one requested option has the fresh command record. -/
def ExecCommand.record (command : ExecCommand) : CommandOption → ExecCommand
  | .sandbox authority => { command with sandbox := some (sandboxMode authority) }
  | .config config => { command with config := command.config ++ [config] }
  | .skipGitRepoCheck => { command with skipGitRepoCheck := true }
  | .strictConfig => { command with strictConfig := true }
  | .ignoreUserConfig => { command with ignoreUserConfig := true }
  | .ignoreRules => { command with ignoreRules := true }
  | .ephemeral => { command with ephemeral := true }
  | .model model => { command with model := some model }
  | .outputSchema path => { command with outputSchema := some path }
  | .addDir directory => { command with addDir := command.addDir ++ [directory] }
  | .sessionId _ => command

/-- What one requested option has the resuming command record. -/
def ExecResumeCommand.record (command : ExecResumeCommand) : CommandOption → ExecResumeCommand
  | .sessionId session => { command with sessionId := some session }
  | .config config => { command with config := command.config ++ [config] }
  | .skipGitRepoCheck => { command with skipGitRepoCheck := true }
  | .strictConfig => { command with strictConfig := true }
  | .ignoreUserConfig => { command with ignoreUserConfig := true }
  | .ignoreRules => { command with ignoreRules := true }
  | .ephemeral => { command with ephemeral := true }
  | .model model => { command with model := some model }
  | .outputSchema path => { command with outputSchema := some path }
  | .sandbox _ | .addDir _ => command

/-- The options that a fresh call asks for are those that the fresh builder records. -/
theorem freshCommand_replay :
    (freshCommand turn ambient outputSchemaPath skillConfig).options.foldl ExecCommand.record
      { prompt := turn.prompt } = Exec.freshCommand turn ambient outputSchemaPath skillConfig := by
  have hdirectories : ∀ command : ExecCommand,
      (turn.additionalDirectories.map CommandOption.addDir).foldl ExecCommand.record command =
        { command with addDir := command.addDir ++ turn.additionalDirectories } := by
    intro command
    rw [List.foldl_map,←foldl_addDir]
    rfl
  rw [freshCommand_records,freshCommand,commonOptions,List.foldl_append,hdirectories]
  cases turn with
  | mk prompt cwd session model directories schema authority ephemeral =>
    cases ambient <;> cases skillConfig <;> cases ephemeral <;> cases model <;>
      cases outputSchemaPath <;> rfl

/-- The options that a resumed call asks for are those that the resuming builder records. -/
theorem resumeCommand_replay {session : String} :
    (resumeCommand turn session ambient outputSchemaPath skillConfig).options.foldl
      ExecResumeCommand.record { prompt := turn.prompt } =
        Exec.resumeCommand turn session ambient outputSchemaPath skillConfig := by
  rw [resumeCommand_records,resumeCommand,commonOptions]
  cases turn with
  | mk prompt cwd session' model directories schema authority ephemeral =>
    cases ambient <;> cases skillConfig <;> cases ephemeral <;> cases model <;>
      cases outputSchemaPath <;> rfl

end Replay

section Sandbox

/-- The two encodings of an authority denote it. -/
@[simp] lemma authority_sandboxMode (authority : FilesystemAuthority) :
    (sandboxMode authority).authority = authority := by cases authority <;> rfl

@[simp] lemma sandboxOverride_sandboxConfig (authority : FilesystemAuthority) :
    sandboxOverride (sandboxConfig authority) = some authority := by cases authority <;> rfl

/-- No other override begins as the one of the sandbox mode does. -/
lemma sandboxOverride_eq_none {config : String} (h : ¬ "sandbox".toList <+: config.toList) :
    sandboxOverride config = none := by
  rw [sandboxOverride,Option.map_eq_none_iff,List.find?_eq_none]
  intro mode _ hm
  rw [decide_eq_true_eq] at hm
  rw [hm] at h
  simp only [String.toList_append, List.append_assoc] at h
  exact h ⟨_,by rw [show "sandbox_mode=\"".toList = "sandbox".toList ++ "_mode=\"".toList by rfl,
    List.append_assoc]⟩

lemma otherOverrides_automation (ambient : CodexAmbientContextPolicy) (config : List String) :
    otherOverrides ((if ambient = .automation then ["project_doc_max_bytes=0"] else []) ++ config) =
      (if ambient = .automation then ["project_doc_max_bytes=0"] else []) ++
        otherOverrides config := by
  rw [otherOverrides,List.filter_append]
  cases ambient <;> rfl

/-- The override of the automation policy sets no sandbox mode. -/
lemma sandboxes_automation (ambient : CodexAmbientContextPolicy) :
    (if ambient = .automation then ["project_doc_max_bytes=0"] else []).filterMap sandboxOverride =
      [] := by
  cases ambient <;> rfl

/-- What the host's skill policy renders sets no sandbox mode. -/
theorem sandboxOverride_rendered {host : Host} {policy : CodexSkillPolicy}
    {skillConfig : Option String} (h : renderSkillConfig host policy = .ok skillConfig) :
    ∀ config ∈ skillConfig.toList, sandboxOverride config = none := by
  have hrendered : ∀ paths config, renderSkills host paths = .ok config →
      sandboxOverride config = none := by
    intro paths config hr
    obtain ⟨-,canonicalPaths,entries,-,-,rfl,-⟩ := renderSkills_eq_ok.mp hr
    apply sandboxOverride_eq_none
    simp only [String.toList_append, List.append_assoc]
    intro hp
    have h1 := hp.getElem (i := 1) (by decide)
    simp at h1
  cases policy with
  | inherit =>
    obtain rfl := Except.ok.inj h
    simp
  | disableExact paths =>
    cases paths with
    | nil =>
      obtain rfl := Except.ok.inj h
      simp
    | cons path paths =>
      simp only [renderSkillConfig] at h
      cases hr : renderSkills host (path::paths) with
      | error e =>
        rw [hr] at h
        cases h
      | ok config =>
        rw [hr] at h
        obtain rfl := Except.ok.inj h
        simpa using hrendered _ _ hr

end Sandbox
section Accepted
variable {host : Host} {policy : AuthorityPolicy} {turn : CodexTurn} {validated : ValidatedCodexTurn}

/-- The texts of directories name the directories that they were taken from. -/
lemma mapM_directoryText {directories : List PathBuf} {texts : List String}
    (h : directories.mapM directoryText = .ok texts) : texts.map PathBuf.text = directories := by
  induction directories generalizing texts with
  | nil =>
    obtain rfl := Except.ok.inj h
    rfl
  | cons directory directories ih =>
    rw [List.mapM_cons] at h
    obtain ⟨text,ht,h⟩ := bind_eq_ok.mp h
    obtain ⟨rest,hr,h⟩ := bind_eq_ok.mp h
    obtain rfl := Except.ok.inj h
    cases directory with
    | text path =>
      obtain rfl := Except.ok.inj ht
      rw [List.map_cons,ih hr]
    | bytes raw shown => cases ht

/-- An accepted turn that resumes a conversation adds no directory. -/
lemma accepted_resumed (h : preflightTurn host policy turn = .ok validated) {session : String}
    (hs : validated.session = some session) : turn.options.additionalDirectories = [] := by
  obtain ⟨sessions,schemas,-,hresumed,-,-,hvalidated,-⟩ := preflightTurn_parts h
  rw [checkResumedDirectories,←hvalidated,hs] at hresumed
  split at hresumed
  · cases hresumed
  · next hd => simpa using hd

/-- What preparing makes of an accepted turn. -/
lemma prepare_accepted (h : preflightTurn host policy turn = .ok validated) :
    prepare host policy false turn = .ok {
      prompt := composePrompt turn.prompt turn.options.systemPrompt
      workingDirectory := turn.workingDirectory
      session := validated.session
      model := turn.options.model
      additionalDirectories := validated.additionalDirectories
      outputSchema := validated.outputSchema
      filesystemAuthority := turn.options.filesystemAuthority
      ephemeral := turn.options.ephemeral } :=
  bind_eq_ok.mpr ⟨validated,h,rfl⟩

end Accepted

/-- Both commands of an accepted turn apply exactly the controls that it and its host ask for, and
the skipped repository check. -/
theorem commands_apply_controls {host : Host} {policy : AuthorityPolicy} {turn : CodexTurn}
    {validated : ValidatedCodexTurn} (h : preflightTurn host policy turn = .ok validated) :
    ∃ prepared, prepare host policy false turn = .ok prepared ∧
      ∀ ambient outputSchemaPath skillConfig,
        (Exec.freshCommand prepared ambient outputSchemaPath skillConfig).controls =
          .applied turn ambient outputSchemaPath skillConfig ∧
        (∀ session, prepared.session = some session →
          turn.options.additionalDirectories = [] ∧
          (Exec.resumeCommand prepared session ambient outputSchemaPath skillConfig).sessionId =
            some session ∧
          (Exec.resumeCommand prepared session ambient outputSchemaPath skillConfig).controls =
            .applied turn ambient outputSchemaPath skillConfig) ∧
        ∀ skillPolicy, renderSkillConfig host skillPolicy = .ok skillConfig →
          (Controls.asked turn ambient outputSchemaPath skillConfig).sandbox =
            [turn.options.filesystemAuthority] ∧
          (Controls.asked turn ambient outputSchemaPath skillConfig).overrides =
            (if ambient = .automation then ["project_doc_max_bytes=0"] else []) ++
              skillConfig.toList := by
  obtain ⟨-,-,-,-,hdirectories,-,-,-⟩ := preflightTurn_parts h
  refine ⟨_,prepare_accepted h,fun ambient outputSchemaPath skillConfig => ⟨?_,?_,?_⟩⟩
  · rw [freshCommand_records]
    ext1
    case sandbox =>
      simp [ExecCommand.controls, Controls.applied, Controls.asked, sandboxes_automation]
    case overrides => exact otherOverrides_automation ambient _
    case directories => exact mapM_directoryText hdirectories
    all_goals rfl
  · intro session hs
    have hnone := accepted_resumed h hs
    rw [resumeCommand_records]
    refine ⟨hnone,rfl,?_⟩
    ext1
    case sandbox =>
      simp [ExecResumeCommand.controls, Controls.applied, Controls.asked, sandboxes_automation]
    case overrides =>
      simp only [ExecResumeCommand.controls, otherOverrides, List.filter_cons,
        sandboxOverride_sandboxConfig]
      exact otherOverrides_automation ambient _
    case directories => exact hnone.symm
    all_goals rfl
  · intro skillPolicy hr
    have hnone := sandboxOverride_rendered hr
    constructor
    · rw [Controls.asked,List.filterMap_eq_nil_iff.mpr hnone]
    · have hkept : otherOverrides skillConfig.toList = skillConfig.toList := by
        apply List.filter_eq_self.mpr
        intro config hc
        rw [hnone config hc]
        rfl
      rw [Controls.asked,hkept]

/-- A resumed turn with a model. -/
def resumingTurn : CodexTurn where
  prompt := "go"
  session := some ⟨"codex","thread"⟩
  options := { model := some "o1", filesystemAuthority := .workspaceWrite }

/-- Under automation and with skills disabled, it resumes as it would start. -/
theorem commands_apply_controls_sample : ∃ prepared,
    prepare sampleHost ⟨.workspaceWrite,[]⟩ false resumingTurn = .ok prepared ∧
    (Exec.resumeCommand prepared "thread" .automation none (some "skills.config=[]")).controls =
      (Exec.freshCommand prepared .automation none (some "skills.config=[]")).controls ∧
    (Exec.resumeCommand prepared "thread" .automation none (some "skills.config=[]")).controls.sandbox
      = [.workspaceWrite] := by
  have hsession : (preflightTurn sampleHost ⟨.workspaceWrite,[]⟩ resumingTurn).toOption.bind
      ValidatedCodexTurn.session = some "thread" := by decide +kernel
  cases hv : preflightTurn sampleHost ⟨.workspaceWrite,[]⟩ resumingTurn with
  | error e =>
    rw [hv] at hsession
    cases hsession
  | ok validated =>
    rw [hv] at hsession
    obtain ⟨prepared,hp,h⟩ := commands_apply_controls hv
    have hs : prepared.session = some "thread" := by
      rw [prepare_accepted hv] at hp
      obtain rfl := Except.ok.inj hp
      exact hsession
    obtain ⟨hfresh,hresume,-⟩ := h .automation none (some "skills.config=[]")
    obtain ⟨-,-,hresume⟩ := hresume "thread" hs
    exact ⟨prepared,hp,hresume.trans hfresh.symm,by rw [hresume]; decide +kernel⟩

/-- A turn with the default options. -/
def defaultTurn : CodexTurn where
  prompt := "go"
  options := {}

/-- A default turn under the inherited policy, which asks for no control beyond its sandbox, has the
repository check skipped. -/
theorem fresh_command_adds_check : ∃ prepared,
    prepare sampleHost ⟨.readOnly,[]⟩ false defaultTurn = .ok prepared ∧
    (Exec.freshCommand prepared .inherit none none).controls ≠
      .asked defaultTurn .inherit none none ∧
    (Exec.freshCommand prepared .inherit none none).controls.skipGitRepoCheck = true := by
  have haccepted : (preflightTurn sampleHost ⟨.readOnly,[]⟩ defaultTurn).toOption.isSome := by
    decide +kernel
  cases hv : preflightTurn sampleHost ⟨.readOnly,[]⟩ defaultTurn with
  | error e =>
    rw [hv] at haccepted
    cases haccepted
  | ok validated =>
    refine ⟨_,prepare_accepted hv,fun h => ?_,?_⟩
    · have hskip := congrArg Controls.skipGitRepoCheck h
      rw [freshCommand_records] at hskip
      cases hskip
    · rw [freshCommand_records]
      rfl

end TowerAgent.Codex
