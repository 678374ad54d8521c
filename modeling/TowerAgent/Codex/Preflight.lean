import TowerAgent.Adapter.Launch
import TowerAgent.Lib.Dedup

/-! The Codex adapter before a launch: its options, the checks of a turn and the encoding of the
host's skill policy. -/
namespace TowerAgent.Codex
open Lib Kernel Adapter

def names : ProviderNames where
  provider := "codex"
  display := "Codex"
  homeVariable := "CODEX_HOME"
  homeError := "configured CODEX_HOME is not valid UTF-8"

/-- Maximum serialized size accepted for an output schema. -/
def maxOutputSchemaBytes : ℕ := 1024*1024

/-- Maximum number of exact skill folders one host may disable for a turn. -/
def maxDisabledSkills : ℕ := 256

/-- Maximum encoded size of the host-owned skill override. -/
def maxSkillConfigBytes : ℕ := 64*1024

/-- Provider-specific controls for one turn. -/
structure CodexOptions where
  systemPrompt : Option String := none
  model : Option String := none
  additionalDirectories : List PathBuf := []
  outputSchema : Option Json := none
  filesystemAuthority : FilesystemAuthority := .readOnly
  ephemeral : Bool := false

instance : RequestsFilesystemAuthority CodexOptions where
  filesystemAuthority := CodexOptions.filesystemAuthority
  additionalFilesystemRoots := CodexOptions.additionalDirectories

/-- Whether a turn inherits user instructions or runs under automation controls. -/
inductive CodexAmbientContextPolicy where
  | inherit
  | automation
  deriving DecidableEq, Repr

inductive CodexSkillPolicy where
  | inherit
  | disableExact (paths : List PathBuf)
  deriving DecidableEq, Repr

/-- A finite-turn service backed by the Codex CLI. -/
structure CodexService where
  settings : ChildSettings := {}
  authorityPolicy : AuthorityPolicy := ⟨.readOnly,[]⟩
  ambientContext : CodexAmbientContextPolicy := .inherit
  skillPolicy : CodexSkillPolicy := .inherit

abbrev CodexTurn := Turn CodexOptions

/-- What the checks of a turn keep of it. -/
structure ValidatedCodexTurn where
  session : Option String
  additionalDirectories : List String
  outputSchema : Option String

/-- Validate an output schema and return its encoding. -/
def validateOutputSchema (host : Host) (schema : Json) : Except AgentError String :=
  match host.serialize schema with
  | none =>
    .error (.new .internal "Codex output schema could not be serialized" .validation .none)
  | some encoded => do
    refuse (maxOutputSchemaBytes < encoded.utf8ByteSize)
      ("Codex output schema exceeds the " ++ toString maxOutputSchemaBytes ++ "-byte limit")
    refuse (!host.draft202012 schema) "Codex output schema is not valid JSON Schema Draft 2020-12"
    return encoded

/-- The value of a handle to resume. -/
def checkSession (session : SessionHandle) : Except AgentError String :=
  if session.provider ≠ names.provider then
    .error (.unsupported ("cannot resume " ++ session.provider ++ " session with Codex service"))
  else do
    refuse (Text.isBlank session.value) "Codex session handle must not be empty"
    refuse (session.value.startsWith "-") "Codex session handle must not begin with a hyphen"
    return session.value

def directoryText (directory : PathBuf) : Except AgentError String :=
  match directory.toStr with
  | some directory => .ok directory
  | none => .error (.unsupported "Codex additional directories must be valid UTF-8")

/-- A resumed turn cannot add directories. -/
def checkResumedDirectories (session : Option String) (directories : List PathBuf) :
    Except AgentError Unit :=
  if session.isSome && !directories.isEmpty then
    .error (.unsupported "codex-wrapper cannot add directories to a resumed turn")
  else .ok ()

/-- The checks of a turn, the host's authority over it first. -/
def preflightTurn (host : Host) (authorityPolicy : AuthorityPolicy) (turn : CodexTurn) :
    Except AgentError ValidatedCodexTurn := do
  authorityPolicy.authorize host.canonicalize turn
  refuse (Text.isBlank turn.prompt) "prompt must not be empty"
  refuse (turn.options.model.any Text.isBlank) "Codex model must not be empty"
  let session ← turn.session.toList.mapM checkSession
  checkResumedDirectories session.head? turn.options.additionalDirectories
  let additionalDirectories ← turn.options.additionalDirectories.mapM directoryText
  let outputSchema ← turn.options.outputSchema.toList.mapM (validateOutputSchema host)
  return ⟨session.head?,additionalDirectories,outputSchema.head?⟩

/-- The bytes of a path. -/
def pathBytes : PathBuf → List UInt8
  | .text path => path.toUTF8.toList
  | .bytes raw _ => raw

/-- The order of canonical paths: component by component. -/
def pathLe (a b : PathBuf) : Bool :=
  let components := fun path => ((pathBytes path).splitOn 47).map (List.map UInt8.toNat)
  decide (components a ≤ components b)

def skillPolicyError (message : String) : AgentError := launchError message

/-- The canonical path of a folder that holds a skill. -/
def skillFolder (host : Host) (path : PathBuf) : Except AgentError PathBuf :=
  match host.canonicalPath path with
  | none => .error (skillPolicyError "configured Codex skill path could not be resolved")
  | some canonical =>
    if !host.isDir canonical || !host.isFile canonical "SKILL.md" then
      .error (skillPolicyError "configured Codex skill path does not identify a skill folder")
    else .ok canonical

/-- The configuration entry that disables one skill. -/
def skillEntry (host : Host) (path : PathBuf) : Except AgentError String :=
  match path.toStr with
  | none => .error (skillPolicyError "configured Codex skill path is not valid UTF-8")
  | some path =>
    match host.serialize (.string path) with
    | none => .error (skillPolicyError "configured Codex skill path could not be encoded")
    | some encoded => .ok ("\x7bpath=" ++ encoded ++ ",enabled=false\x7d")

/-- The configuration override for some exact skills. -/
def renderSkills (host : Host) (paths : List PathBuf) : Except AgentError String := do
  if maxDisabledSkills < paths.length then
    .error (skillPolicyError "Codex skill policy exceeds the configured path limit")
  else
    let canonicalPaths ← paths.mapM (skillFolder host)
    let entries ← ((canonicalPaths.mergeSort pathLe).destutter (· ≠ ·)).mapM (skillEntry host)
    let config := "skills.config=[" ++ ",".intercalate entries ++ "]"
    if maxSkillConfigBytes < config.utf8ByteSize then
      .error (skillPolicyError "Codex skill policy exceeds the encoded size limit")
    else return config

/-- The encoding of a skill policy. -/
def renderSkillConfig (host : Host) : CodexSkillPolicy → Except AgentError (Option String)
  | .inherit => .ok none
  | .disableExact [] => .ok none
  | .disableExact paths => some <$> renderSkills host paths

/-- Every refusal of a turn that needs no launch. -/
def CodexService.preflight (service : CodexService) (host : Host) (turn : CodexTurn) :
    Except AgentError Unit := do
  let _ ← preflightTurn host service.authorityPolicy turn
  let _ ← renderSkillConfig host service.skillPolicy
  return

/-- The distinct canonical paths of some skill folders, in order. -/
def distinctPaths (canonicalPaths : List PathBuf) : List PathBuf := sortDedup pathLe canonicalPaths

/-- What an override that is rendered was rendered from. -/
theorem renderSkills_eq_ok {host : Host} {paths : List PathBuf} {config : String} :
    renderSkills host paths = .ok config ↔ paths.length ≤ maxDisabledSkills ∧
      ∃ canonicalPaths entries, paths.mapM (skillFolder host) = .ok canonicalPaths ∧
        (distinctPaths canonicalPaths).mapM (skillEntry host) = .ok entries ∧
        "skills.config=[" ++ ",".intercalate entries ++ "]" = config ∧
        config.utf8ByteSize ≤ maxSkillConfigBytes := by
  unfold renderSkills
  split
  · next h =>
    constructor
    · intro he
      cases he
    · rintro ⟨hl,-⟩
      exact absurd hl (Nat.not_le.mpr h)
  · next h =>
    rw [Nat.not_lt] at h
    constructor
    · intro he
      obtain ⟨canonicalPaths,hcanonical,he⟩ := bind_eq_ok.mp he
      obtain ⟨entries,hentries,he⟩ := bind_eq_ok.mp he
      dsimp only at he
      split at he
      · cases he
      · next hsize =>
        obtain rfl := Except.ok.inj he
        exact ⟨h,canonicalPaths,entries,hcanonical,hentries,rfl,Nat.not_lt.mp hsize⟩
    · rintro ⟨-,canonicalPaths,entries,hcanonical,hentries,rfl,hsize⟩
      exact bind_eq_ok.mpr ⟨canonicalPaths,hcanonical,bind_eq_ok.mpr ⟨entries,hentries,
        if_neg (Nat.not_lt.mpr hsize)⟩⟩

end TowerAgent.Codex
