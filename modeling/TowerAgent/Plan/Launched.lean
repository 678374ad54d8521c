import TowerAgent.Claude.Session
import TowerAgent.Codex.Controls
import TowerAgent.Codex.Session
import TowerAgent.Plan.Fold
import TowerAgent.Plan.Router

/-! From the layers to the launch: at every leaf of its provider, the command that an adapter
executes for a prepared turn carries what the layers and the answers bind there, Claude's ambient
context combined with the host's own. -/
namespace TowerAgent.Adapter
open Lib Kernel

/-- The working directory that a client option names. -/
def ClientOption.directory : ClientOption → Option PathBuf
  | .workingDir directory => some directory
  | _ => none

def workingDirectories (options : List ClientOption) : List PathBuf :=
  options.filterMap ClientOption.directory

section Client
variable {names : ProviderNames} {settings : ChildSettings} {environment : String → AmbientValue}
  {workingDirectory : Option PathBuf} {operationId : UInt64} {options : List ClientOption}

lemma homeOption_directories {home : Option PathBuf} (h : homeOption names home = .ok options) :
    workingDirectories options = [] := by
  unfold homeOption at h
  split at h
  · obtain rfl := Except.ok.inj h
    rfl
  · split at h
    · obtain rfl := Except.ok.inj h
      rfl
    · cases h

/-- A child is started in the directory asked for. -/
lemma clientOptions_directories
    (h : clientOptions names settings environment workingDirectory operationId = .ok options) :
    workingDirectories options = workingDirectory.toList := by
  obtain ⟨resolved,-,h⟩ := bind_eq_ok.mp h
  obtain ⟨home,hhome,h⟩ := bind_eq_ok.mp h
  obtain rfl := Except.ok.inj h
  have hhome := homeOption_directories hhome
  simp only [workingDirectories, List.filterMap_append] at hhome ⊢
  rw [hhome]
  cases resolved.clearInherited <;> cases settings.binary <;> cases workingDirectory <;>
    cases settings.outputLimit <;> cases settings.grace <;> cases settings.spawnObserver <;> rfl

lemma buildClient_options {R : Type} {build : List ClientOption → Except AgentError Unit}
    (h : (buildClient names settings environment build workingDirectory operationId :
      Traced (LaunchStep R) AgentError (List ClientOption)).result = .ok options) :
    clientOptions names settings environment workingDirectory operationId = .ok options := by
  unfold buildClient at h
  cases hc : clientOptions names settings environment workingDirectory operationId with
  | error e =>
    rw [hc] at h
    cases h
  | ok client =>
    rw [hc,Traced.check_ok_bind,Traced.step_bind] at h
    cases hb : build client with
    | error e =>
      rw [hb] at h
      cases h
    | ok _ =>
      rw [hb] at h
      exact h

end Client
end TowerAgent.Adapter

namespace TowerAgent.Claude
open Lib Kernel Adapter

/-- The wrapper's query command, by what its builder methods have recorded. -/
structure QueryControls where
  prompt : String
  systemPrompt : Option String := none
  appendSystemPrompt : Option String := none
  model : Option String := none
  fallbackModel : Option String := none
  effort : Option ClaudeEffort := none
  maxBudgetUsd : Option F64 := none
  permissionMode : Option ClaudePermissionMode := none
  jsonSchema : Option String := none
  resume : Option String := none
  sessionId : Option String := none
  maxTurns : Option UInt32 := none
  allowedTools : List String := []
  disallowedTools : List String := []
  addDir : List String := []
  strictMcpConfig : Bool := false
  ambientContext : ClaudeAmbientContext := .inherit
  promptViaStdin : Bool := false
  deriving DecidableEq, Repr

/-- What one requested option has the command record. -/
def QueryControls.record (command : QueryControls) : QueryOption → QueryControls
  | .systemPrompt prompt => { command with systemPrompt := some prompt }
  | .appendSystemPrompt prompt => { command with appendSystemPrompt := some prompt }
  | .model model => { command with model := some model }
  | .fallbackModel model => { command with fallbackModel := some model }
  | .effort effort => { command with effort := some effort }
  | .maxBudgetUsd budget => { command with maxBudgetUsd := some budget }
  | .permissionMode mode => { command with permissionMode := some mode }
  | .jsonSchema schema => { command with jsonSchema := some schema }
  | .resume session => { command with resume := some session }
  | .sessionId session => { command with sessionId := some session }
  | .maxTurns turns => { command with maxTurns := some turns }
  | .allowedTools tools => { command with allowedTools := tools }
  | .disallowedTools tools => { command with disallowedTools := tools }
  | .addDir directory => { command with addDir := command.addDir ++ [directory] }
  | .strictMcpConfig => { command with strictMcpConfig := true }
  | .hermeticScoped scope => { command with ambientContext := .hermetic scope }
  | .safeMode => { command with ambientContext := .safe }
  | .bare => { command with ambientContext := .bare }
  | .promptViaStdin enabled => { command with promptViaStdin := enabled }

def QueryCommand.controls (query : QueryCommand) : QueryControls :=
  query.options.foldl QueryControls.record { prompt := query.prompt }

section Records
variable {host : Host} {turn : ClaudeTurn} {ambient : ClaudeAmbientContext}
  {preassigned : Option SessionHandle} {query : QueryCommand}

/-- The options of directories that can be encoded name them, in order. -/
lemma mapM_directoryOption {directories : List PathBuf} {options : List QueryOption}
    (h : directories.mapM directoryOption = .ok options) :
    ∃ texts : List String, options = texts.map .addDir ∧ texts.map PathBuf.text = directories := by
  induction directories generalizing options with
  | nil =>
    obtain rfl := Except.ok.inj h
    exact ⟨[],rfl,rfl⟩
  | cons directory directories ih =>
    rw [List.mapM_cons] at h
    obtain ⟨option,ho,h⟩ := bind_eq_ok.mp h
    obtain ⟨rest,hr,h⟩ := bind_eq_ok.mp h
    obtain rfl := Except.ok.inj h
    obtain ⟨texts,rfl,rfl⟩ := ih hr
    cases directory with
    | text path =>
      obtain rfl := Except.ok.inj ho
      exact ⟨path::texts,rfl,rfl⟩
    | bytes raw shown => cases ho

/-- An option that is given at most once records its value over what was recorded before. -/
lemma foldl_toList {α : Type} (f : α → QueryOption) (get : QueryControls → Option α)
    (set : QueryControls → Option α → QueryControls)
    (hset : ∀ command a, QueryControls.record command (f a) = set command (some a))
    (hget : ∀ command, set command (get command) = command) (o : Option α)
    (command : QueryControls) : (o.toList.map f).foldl QueryControls.record command =
      set command (o.or (get command)) := by
  cases o with
  | none => exact (hget command).symm
  | some a => exact hset command a

lemma foldl_sessionOptions (resume preassigned : Option SessionHandle) (command : QueryControls) :
    (sessionOptions resume preassigned).foldl QueryControls.record command = { command with
      resume := (resume.map SessionHandle.value).or command.resume
      sessionId := if resume.isSome then command.sessionId else
        (preassigned.map SessionHandle.value).or command.sessionId } := by
  cases resume <;> cases preassigned <;> rfl

lemma foldl_ambientOptions (command : QueryControls) (h : command.ambientContext = .inherit) :
    (ambientOptions ambient).foldl QueryControls.record command =
      { command with ambientContext := ambient } := by
  cases command
  dsimp only at h
  subst h
  cases ambient <;> rfl

/-- Tools are given at once, or not at all. -/
lemma foldl_tools (f : List String → QueryOption)
    (set : QueryControls → List String → QueryControls)
    (hset : ∀ command tools, QueryControls.record command (f tools) = set command tools)
    (tools : List String) (command : QueryControls) (h : set command [] = command) :
    (if tools.isEmpty then [] else [f tools]).foldl QueryControls.record command =
      set command tools := by
  cases tools with
  | nil => exact h.symm
  | cons tool tools => exact hset command _

lemma foldl_strict (strict : Bool) (command : QueryControls) (h : command.strictMcpConfig = false) :
    (if strict then [QueryOption.strictMcpConfig] else []).foldl QueryControls.record command =
      { command with strictMcpConfig := strict } := by
  cases command
  dsimp only at h
  subst h
  cases strict <;> rfl

lemma foldl_addDir (texts : List String) (command : QueryControls) :
    (texts.map QueryOption.addDir).foldl QueryControls.record command =
      { command with addDir := command.addDir ++ texts } := by
  induction texts generalizing command with
  | nil => simp
  | cons text texts ih => simp [ih, QueryControls.record]

/-- The schema that an accepted turn asks for is encoded as the host serializes it. -/
lemma checkOptions_schema {options : ClaudeOptions} {encoded : Option String}
    (h : checkOptions host options = .ok encoded) :
    encoded = options.jsonSchema.bind host.serialize ∧
      encoded.isSome = options.jsonSchema.isSome := by
  obtain ⟨_,-,h⟩ := bind_eq_ok.mp h
  obtain ⟨_,-,h⟩ := bind_eq_ok.mp h
  obtain ⟨_,-,h⟩ := bind_eq_ok.mp h
  obtain ⟨_,-,h⟩ := bind_eq_ok.mp h
  obtain ⟨_,-,h⟩ := bind_eq_ok.mp h
  obtain ⟨texts,hs,h⟩ := bind_eq_ok.mp h
  obtain rfl := Except.ok.inj h
  rcases mapM_toList_eq_ok hs with ⟨hnone,rfl⟩ | ⟨schema,text,hsome,ht,rfl⟩
  · simp [hnone]
  · have hserialize : host.serialize schema = some text := by
      unfold validateJsonSchema at ht
      split at ht
      · cases ht
      · split at ht
        · cases ht
        · next encoded he =>
          obtain ⟨_,-,ht⟩ := bind_eq_ok.mp ht
          obtain ⟨_,-,ht⟩ := bind_eq_ok.mp ht
          obtain rfl := Except.ok.inj ht
          exact he
    simp [hsome, hserialize]

/-- What the builder records of an accepted turn, field by field. -/
theorem buildQuery_records (h : buildQuery host turn ambient preassigned = .ok query) :
    ∃ directories schema, directories.map PathBuf.text = turn.options.additionalDirectories ∧
      checkOptions host turn.options = .ok schema ∧ query.controls = {
        prompt := turn.prompt
        systemPrompt := turn.options.systemPrompt
        appendSystemPrompt := turn.options.appendSystemPrompt
        model := turn.options.model
        fallbackModel := turn.options.fallbackModel
        effort := turn.options.effort
        maxBudgetUsd := turn.options.maxBudgetUsd
        permissionMode := turn.options.permissionMode
        jsonSchema := schema
        resume := turn.session.map SessionHandle.value
        sessionId := if turn.session.isSome then none else preassigned.map SessionHandle.value
        maxTurns := turn.options.maxTurns
        allowedTools := turn.options.allowedTools
        disallowedTools := turn.options.disallowedTools
        addDir := directories
        strictMcpConfig := turn.options.strictMcpConfig
        ambientContext := ambient
        promptViaStdin := true } := by
  obtain ⟨schema,hschema,h⟩ := bind_eq_ok.mp h
  obtain ⟨options,hoptions,h⟩ := bind_eq_ok.mp h
  obtain rfl := Except.ok.inj h
  obtain ⟨directories,rfl,hdirectories⟩ := mapM_directoryOption hoptions
  refine ⟨directories,schema,hdirectories,hschema,?_⟩
  simp only [QueryCommand.controls, List.foldl_append,
    foldl_toList .systemPrompt QueryControls.systemPrompt
      (fun c o => { c with systemPrompt := o }) (fun _ _ => rfl) (fun _ => rfl),
    foldl_toList .appendSystemPrompt QueryControls.appendSystemPrompt
      (fun c o => { c with appendSystemPrompt := o }) (fun _ _ => rfl) (fun _ => rfl),
    foldl_toList .model QueryControls.model
      (fun c o => { c with model := o }) (fun _ _ => rfl) (fun _ => rfl),
    foldl_toList .fallbackModel QueryControls.fallbackModel
      (fun c o => { c with fallbackModel := o }) (fun _ _ => rfl) (fun _ => rfl),
    foldl_toList .effort QueryControls.effort
      (fun c o => { c with effort := o }) (fun _ _ => rfl) (fun _ => rfl),
    foldl_toList .maxBudgetUsd QueryControls.maxBudgetUsd
      (fun c o => { c with maxBudgetUsd := o }) (fun _ _ => rfl) (fun _ => rfl),
    foldl_toList .permissionMode QueryControls.permissionMode
      (fun c o => { c with permissionMode := o }) (fun _ _ => rfl) (fun _ => rfl),
    foldl_toList .jsonSchema QueryControls.jsonSchema
      (fun c o => { c with jsonSchema := o }) (fun _ _ => rfl) (fun _ => rfl),
    foldl_sessionOptions,
    foldl_toList .maxTurns QueryControls.maxTurns
      (fun c o => { c with maxTurns := o }) (fun _ _ => rfl) (fun _ => rfl),
    foldl_tools .allowedTools (fun c tools => { c with allowedTools := tools }) (fun _ _ => rfl),
    foldl_tools .disallowedTools (fun c tools => { c with disallowedTools := tools })
      (fun _ _ => rfl),
    foldl_addDir, foldl_strict, foldl_ambientOptions, Option.or_none, List.nil_append]
  rfl

end Records

section Executed
variable {service : ClaudeService} {host : Host} {wrapper : Wrapper} {token : ℕ → Bool}
  {request : TurnRequest ClaudeOptions} {report : Report}

/-- What is reported on was executed with the client and the query that the request asks for. -/
theorem call_launched (h : .executed report ∈ (service.call host wrapper token request).steps) :
    ∃ options query ambient preassigned, report = wrapper.executeJson options query ∧
      clientOptions names service.settings host.environment request.body.workingDirectory
        request.context.operationId = .ok options ∧
      preflightSession request.body = .ok () ∧
      effectiveAmbientContext service.ambientContext request.body.options.ambientContext =
        .ok ambient ∧
      buildQuery host request.body ambient preassigned = .ok query := by
  have hends : (service.call host wrapper token request).EndsBy fun step _ =>
      ∀ report, step = .executed report → ∃ options query ambient preassigned,
        report = wrapper.executeJson options query ∧
        clientOptions names service.settings host.environment request.body.workingDirectory
          request.context.operationId = .ok options ∧
        preflightSession request.body = .ok () ∧
        effectiveAmbientContext service.ambientContext request.body.options.ambientContext =
          .ok ambient ∧
        buildQuery host request.body ambient preassigned = .ok query := by
    refine .check_bind fun _ _ => .check_bind fun _ hpre => .check_bind fun preassigned _ => ?_
    refine .check_bind fun ambient hambient => .check_bind fun query hquery => ?_
    refine .bind ?_ fun options hoptions => .check_bind fun _ _ => ?_
    · rintro _ hs _ report rfl
      exact absurd hs buildClient_executed
    · rintro _ hs report rfl
      obtain ⟨hreport,-⟩ := execute_executed hs
      exact ⟨options,query,ambient,preassigned,hreport,
        buildClient_options (mapError_eq_ok hoptions),hpre,mapError_eq_ok hambient,
        mapError_eq_ok hquery⟩
  exact hends _ h report rfl

end Executed
end TowerAgent.Claude

namespace TowerAgent.Codex
open Lib Kernel Adapter

/-- The controls that the wrapper's command of either kind has recorded. -/
def Command.controls (command : Command) : Controls :=
  if command.resumed then
    (command.options.foldl ExecResumeCommand.record { prompt := command.prompt }).controls
  else (command.options.foldl ExecCommand.record { prompt := command.prompt }).controls

/-- The conversation that the wrapper's command resumes. -/
def Command.session (command : Command) : Option String :=
  if command.resumed then
    (command.options.foldl ExecResumeCommand.record { prompt := command.prompt }).sessionId
  else none

section Records
variable {host : Host} {policy : AuthorityPolicy} {turn : CodexTurn}
  {prepared : PreparedTurn} {skillConfig : Option String}

lemma validateOutputSchema_serialize {schema : Json} {encoded : String}
    (h : validateOutputSchema host schema = .ok encoded) :
    host.serialize schema = some encoded := by
  unfold validateOutputSchema at h
  split at h
  · cases h
  · next text ht =>
    obtain ⟨_,-,h⟩ := bind_eq_ok.mp h
    obtain ⟨_,-,h⟩ := bind_eq_ok.mp h
    obtain rfl := Except.ok.inj h
    exact ht

/-- What an accepted turn was prepared as. -/
structure PreparedAs (host : Host) (turn : CodexTurn) (prepared : PreparedTurn) : Prop where
  prompt : prepared.prompt = composePrompt turn.prompt turn.options.systemPrompt
  workingDirectory : prepared.workingDirectory = turn.workingDirectory
  session : prepared.session = turn.session.map SessionHandle.value
  provider : ∀ session, turn.session = some session → session.provider = names.provider
  model : prepared.model = turn.options.model
  directories : prepared.additionalDirectories.map PathBuf.text = turn.options.additionalDirectories
  resumed : prepared.session.isSome → prepared.additionalDirectories = []
  outputSchema : prepared.outputSchema = turn.options.outputSchema.bind host.serialize
  schema_isSome : prepared.outputSchema.isSome = turn.options.outputSchema.isSome
  filesystemAuthority : prepared.filesystemAuthority = turn.options.filesystemAuthority
  ephemeral : prepared.ephemeral = turn.options.ephemeral

lemma prepare_preparedAs {cancelled : Bool}
    (h : prepare host policy cancelled turn = .ok prepared) : PreparedAs host turn prepared := by
  have hschema := prepare_outputSchema h
  unfold prepare at h
  split at h
  · cases h
  · obtain ⟨validated,hv,h⟩ := bind_eq_ok.mp h
    obtain rfl := Except.ok.inj h
    obtain ⟨sessions,schemas,hs,-,hd,hencoded,hvalidated,hvs⟩ := preflightTurn_parts hv
    have hdirectories := mapM_directoryText hd
    have hsession : validated.session = turn.session.map SessionHandle.value ∧
        ∀ session, turn.session = some session → session.provider = names.provider := by
      rw [hvalidated]
      rcases mapM_toList_eq_ok hs with ⟨hnone,rfl⟩ | ⟨session,value,hsome,hc,rfl⟩
      · rw [hnone]
        exact ⟨rfl,fun _ hn => by cases hn⟩
      · obtain ⟨hp,-,-,rfl⟩ := checkSession_eq_ok.mp hc
        rw [hsome]
        refine ⟨rfl,fun s hs => ?_⟩
        obtain rfl := Option.some.inj hs
        exact hp
    have hserialized : validated.outputSchema = turn.options.outputSchema.bind host.serialize := by
      rw [hvs]
      rcases mapM_toList_eq_ok hencoded with ⟨hnone,rfl⟩ | ⟨schema,encoded,hsome,hc,rfl⟩
      · rw [hnone]
        rfl
      · rw [hsome]
        exact (validateOutputSchema_serialize hc).symm
    refine ⟨rfl,rfl,hsession.1,hsession.2,rfl,hdirectories,fun hresumed => ?_,hserialized,hschema,
      rfl,rfl⟩
    obtain ⟨session,hsome⟩ := Option.isSome_iff_exists.mp hresumed
    rw [accepted_resumed hv hsome] at hdirectories
    exact List.map_eq_nil_iff.mp hdirectories

/-- A command records the controls of the turn it was built from. -/
theorem command_records (ambient : CodexAmbientContextPolicy) (path : Option String)
    (hresumed : prepared.session.isSome → prepared.additionalDirectories = [])
    (hskill : ∀ config ∈ skillConfig.toList, sandboxOverride config = none) :
    (command prepared ambient path skillConfig).session = prepared.session ∧
    (command prepared ambient path skillConfig).controls = {
      prompt := prepared.prompt
      sandbox := [prepared.filesystemAuthority]
      overrides := (if ambient = .automation then ["project_doc_max_bytes=0"] else []) ++
        skillConfig.toList
      skipGitRepoCheck := true
      strictConfig := ambient = .automation || skillConfig.isSome
      ignoreUserConfig := ambient = .automation
      ignoreRules := ambient = .automation
      ephemeral := prepared.ephemeral
      model := prepared.model
      outputSchema := path
      directories := prepared.additionalDirectories.map .text } := by
  have hsandbox : skillConfig.toList.filterMap sandboxOverride = [] :=
    List.filterMap_eq_nil_iff.mpr hskill
  have hkept : otherOverrides skillConfig.toList = skillConfig.toList := by
    refine List.filter_eq_self.mpr fun config hc => ?_
    rw [hskill config hc]
    rfl
  cases hs : prepared.session with
  | none =>
    have hreplay : (freshCommand prepared ambient path skillConfig).options.foldl
        ExecCommand.record { prompt := prepared.prompt } =
          Exec.freshCommand prepared ambient path skillConfig := freshCommand_replay
    rw [command,hs]
    refine ⟨rfl,(congrArg ExecCommand.controls hreplay).trans ?_⟩
    rw [freshCommand_records]
    ext1
    case sandbox =>
      simp [ExecCommand.controls, hsandbox, sandboxes_automation]
    case overrides => exact (otherOverrides_automation ambient _).trans (by rw [hkept])
    all_goals rfl
  | some session =>
    have hreplay : (resumeCommand prepared session ambient path skillConfig).options.foldl
        ExecResumeCommand.record { prompt := prepared.prompt } =
          Exec.resumeCommand prepared session ambient path skillConfig := resumeCommand_replay
    rw [command,hs]
    refine ⟨(congrArg ExecResumeCommand.sessionId hreplay).trans ?_,
      (congrArg ExecResumeCommand.controls hreplay).trans ?_⟩
    · rw [resumeCommand_records]
    · rw [resumeCommand_records,hresumed (by rw [hs]; rfl)]
      ext1
      case sandbox =>
        simp [ExecResumeCommand.controls, hsandbox, sandboxes_automation]
      case overrides =>
        simp only [ExecResumeCommand.controls, otherOverrides, List.filter_cons,
          sandboxOverride_sandboxConfig]
        exact (otherOverrides_automation ambient _).trans (by rw [hkept])
      all_goals rfl

end Records

section Executed
variable {service : CodexService} {host : Host} {wrapper : Wrapper} {token : ℕ → Bool}
  {elapsed : Duration} {request : TurnRequest CodexOptions} {report : Report}

/-- What is reported on was executed with the client and the command that the request asks for. -/
theorem call_launched
    (h : .executed report ∈ (service.call host wrapper token elapsed request).steps) :
    ∃ options turn path skillConfig,
      report = wrapper.executeJson options
        (command turn service.ambientContext path skillConfig) ∧
      prepare host service.authorityPolicy (token 0) request.body = .ok turn ∧
      clientOptions names service.settings host.environment turn.workingDirectory
        request.context.operationId = .ok options ∧
      renderSkillConfig host service.skillPolicy = .ok skillConfig ∧
      (schemaPath wrapper turn.outputSchema).result = .ok path := by
  have hends : (service.call host wrapper token elapsed request).EndsBy fun step _ =>
      ∀ report, step = .executed report → ∃ options turn path skillConfig,
        report = wrapper.executeJson options
          (command turn service.ambientContext path skillConfig) ∧
        prepare host service.authorityPolicy (token 0) request.body = .ok turn ∧
        clientOptions names service.settings host.environment turn.workingDirectory
          request.context.operationId = .ok options ∧
        renderSkillConfig host service.skillPolicy = .ok skillConfig ∧
        (schemaPath wrapper turn.outputSchema).result = .ok path := by
    refine .check_bind fun _ _ => .check_bind fun turn hturn => ?_
    refine .check_bind fun _ _ => .check_bind fun skillConfig hskill => ?_
    refine .bind ?_ fun options hoptions => .check_bind fun _ _ => .bind ?_ fun path hpath => ?_
    · rintro _ hs _ report rfl
      exact absurd hs buildClient_executed
    · rintro _ hs _ report rfl
      exact absurd hs schemaPath_executed
    · rintro _ hs report rfl
      obtain ⟨hreport,-⟩ := execute_executed hs
      exact ⟨options,turn,path,skillConfig,hreport,hturn,buildClient_options hoptions,hskill,hpath⟩
  exact hends _ h report rfl

end Executed
end TowerAgent.Codex

namespace TowerAgent.Plan
open Lib Lib.Bindings Kernel Adapter Claude Codex

/-- What is bound at a leaf for a provider: by the layers, or else by an answer. -/
def Layers.bound (layers : Layers) (provider : ProviderId) : Bindings Path.Val := fun p =>
  (stack (layers.stacked (some provider)) p).or (answerAt layers.answers p)

/-- A Claude launch carries what is bound at a leaf. The one leaf where the host may override is
the ambient context: what is launched there is the host's baseline combined with the binding, so
that a stronger baseline stays. The leaves of the other group do not apply. -/
def ClaudeCarries (service : ClaudeService) (host : Host) (bound : Bindings Path.Val)
    (options : List ClientOption) (command : QueryControls) : Path → Prop
  | .provider => bound .provider = some .claude
  | .prompt => bound .prompt = some command.prompt
  | .modelName => command.model = bound .modelName
  | .cwd => workingDirectories options = (bound .cwd).toList
  | .additionalDirectories =>
    command.addDir.map PathBuf.text = (bound .additionalDirectories).getD []
  | .resume => command.resume = (bound .resume).map ResumeBinding.value ∧
      ∀ r, bound .resume = some r → r.provider = .claude ∧ command.sessionId = none
  | .filesystem => bound .filesystem = none
  | .claude .systemPrompt => command.systemPrompt = bound (.claude .systemPrompt)
  | .claude .appendSystemPrompt => command.appendSystemPrompt = bound (.claude .appendSystemPrompt)
  | .claude .fallbackModel => command.fallbackModel = bound (.claude .fallbackModel)
  | .claude .effort => command.effort = (bound (.claude .effort)).map EffortChoice.toClaude
  | .claude .allowedTools => command.allowedTools = (bound (.claude .allowedTools)).getD []
  | .claude .disallowedTools => command.disallowedTools = (bound (.claude .disallowedTools)).getD []
  | .claude .maxTurns => command.maxTurns = bound (.claude .maxTurns)
  | .claude .maxBudgetUsd => command.maxBudgetUsd = bound (.claude .maxBudgetUsd)
  | .claude .permissionMode =>
    command.permissionMode = (bound (.claude .permissionMode)).map PermissionModeChoice.toClaude
  | .claude .jsonSchema =>
    command.jsonSchema = (bound (.claude .jsonSchema)).bind host.serialize ∧
      command.jsonSchema.isSome = (bound (.claude .jsonSchema)).isSome
  | .claude .strictMcpConfig =>
    command.strictMcpConfig = (bound (.claude .strictMcpConfig)).getD false
  | .claude .ambientContext => effectiveAmbientContext service.ambientContext
      (((bound (.claude .ambientContext)).map AmbientContextChoice.toClaude).getD .inherit) =
        .ok command.ambientContext
  | .codex _ => True

section Claude
variable {layers : Layers} {bound : Bindings Path.Val}

/-- What a ready turn honors is what the layers and the answers bind for its provider. -/
lemma prepare_claude {turn : ClaudeTurn} (h : prepare layers = .ready (.claude turn)) (p : Path) :
    ClaudeHonors (layers.bound .claude) turn p := by
  obtain ⟨resolved,hr,hc⟩ := prepare_ready h
  unfold compile at hc
  split at hc
  · next hp =>
    obtain ⟨turn',ht,hturn⟩ := map_eq_ok hc
    obtain rfl := ReadyTurn.claude.inj hturn
    have hview : (resolve layers).view = some resolved.merged := by rw [hr]; rfl
    have hprovider : resolved.merged.provider = some .claude := by
      rw [←hp]
      exact resolved.binding_provider
    have hbound : resolved.merged.binding = layers.bound .claude := by
      funext p
      rw [view_binding hview,hprovider]
      rfl
    exact hbound ▸ planClaude_honors ht p
  · obtain ⟨turn',-,hturn⟩ := map_eq_ok hc
    cases hturn

/-- The provider of a session that an adapter takes is its own. -/
lemma preflightSession_provider {turn : ClaudeTurn} (h : preflightSession turn = .ok ())
    {session : SessionHandle} (hs : turn.session = some session) :
    session.provider = Claude.names.provider := by
  obtain ⟨_,-,h⟩ := bind_eq_ok.mp h
  rw [hs] at h
  by_contra hne
  simp [Claude.checkSession, hne, bind, Except.bind] at h

/-- The query of a turn carries what the turn honors. -/
theorem buildQuery_carries {service : ClaudeService} {host : Host} {turn : ClaudeTurn}
    {options : List ClientOption} {query : QueryCommand} {ambient : ClaudeAmbientContext}
    {preassigned : Option SessionHandle} {operationId : UInt64}
    (hh : ∀ p, ClaudeHonors bound turn p)
    (hoptions : clientOptions Claude.names service.settings host.environment turn.workingDirectory
      operationId = .ok options)
    (hpre : preflightSession turn = .ok ())
    (hambient : effectiveAmbientContext service.ambientContext turn.options.ambientContext =
      .ok ambient)
    (hquery : buildQuery host turn ambient preassigned = .ok query) (p : Path) :
    ClaudeCarries service host bound options query.controls p := by
  obtain ⟨directories,schema,hdirectories,hschema,hcontrols⟩ := buildQuery_records hquery
  have hp := hh p
  rw [hcontrols]
  cases p with
  | provider => exact hp
  | prompt => exact hp
  | modelName => exact Honors.unique hp (.self _)
  | cwd =>
    have hd : turn.workingDirectory = bound .cwd := Honors.unique hp (.self _)
    exact (clientOptions_directories hoptions).trans (by rw [hd])
  | additionalDirectories => exact hdirectories.trans (Honors.unique hp (.getD _ _))
  | resume =>
    have hs : turn.session = (bound .resume).map ResumeBinding.toSessionHandle :=
      Honors.unique hp (.map ResumeBinding.toSessionHandle_injective _)
    refine ⟨by rw [hs,Option.map_map]; rfl,fun r hr => ?_⟩
    rw [hr] at hs
    exact ⟨ProviderId.asStr_injective (preflightSession_provider hpre hs),by rw [hs]; rfl⟩
  | filesystem => exact hp
  | claude field =>
    cases field with
    | systemPrompt => exact Honors.unique hp (.self _)
    | appendSystemPrompt => exact Honors.unique hp (.self _)
    | fallbackModel => exact Honors.unique hp (.self _)
    | effort => exact Honors.unique hp (.map EffortChoice.toClaude_injective _)
    | allowedTools => exact Honors.unique hp (.getD _ _)
    | disallowedTools => exact Honors.unique hp (.getD _ _)
    | maxTurns => exact Honors.unique hp (.self _)
    | maxBudgetUsd => exact Honors.unique hp (.self _)
    | permissionMode => exact Honors.unique hp (.map PermissionModeChoice.toClaude_injective _)
    | jsonSchema =>
      have hs : turn.options.jsonSchema = bound (.claude .jsonSchema) :=
        Honors.unique hp (.self _)
      have hencoded := checkOptions_schema hschema
      rw [hs] at hencoded
      exact hencoded
    | strictMcpConfig => exact Honors.unique hp (.getD _ _)
    | ambientContext =>
      have ha : turn.options.ambientContext =
          ((bound (.claude .ambientContext)).map AmbientContextChoice.toClaude).getD .inherit :=
        Honors.unique hp (.mapGetD AmbientContextChoice.toClaude_injective _ _)
      rw [ha] at hambient
      exact hambient
  | codex field => trivial

end Claude

/-- A Codex launch carries what is bound at a leaf; the leaves of the other group do not apply. The
command names the schema by the file that was written for it. -/
def CodexCarries (host : Host) (wrapper : Codex.Wrapper) (bound : Bindings Path.Val)
    (options : List ClientOption) (command : Codex.Command) : Path → Prop
  | .provider => bound .provider = some .codex
  | .prompt | .codex .systemPrompt => ∃ prompt, bound .prompt = some prompt ∧
      command.controls.prompt = composePrompt prompt (bound (.codex .systemPrompt))
  | .modelName => command.controls.model = bound .modelName
  | .cwd => workingDirectories options = (bound .cwd).toList
  | .additionalDirectories =>
    command.controls.directories = (bound .additionalDirectories).getD []
  | .resume => command.session = (bound .resume).map ResumeBinding.value ∧
      ∀ r, bound .resume = some r → r.provider = .codex
  | .filesystem => command.controls.sandbox =
      [((bound .filesystem).map FilesystemChoice.toAuthority).getD .readOnly]
  | .codex .outputSchema => ∃ contents,
      contents = (bound (.codex .outputSchema)).bind host.serialize ∧
      contents.isSome = (bound (.codex .outputSchema)).isSome ∧
      (schemaPath wrapper contents).result = .ok command.controls.outputSchema
  | .codex .ephemeral =>
    command.controls.ephemeral = (bound (.codex .ephemeral)).getD false
  | .claude _ => True

section Codex
variable {layers : Layers} {bound : Bindings Path.Val}

lemma prepare_codex {turn : CodexTurn} (h : prepare layers = .ready (.codex turn)) (p : Path) :
    CodexHonors (layers.bound .codex) turn p := by
  obtain ⟨resolved,hr,hc⟩ := prepare_ready h
  unfold compile at hc
  split at hc
  · obtain ⟨turn',-,hturn⟩ := map_eq_ok hc
    cases hturn
  · next hp =>
    obtain ⟨turn',ht,hturn⟩ := map_eq_ok hc
    obtain rfl := ReadyTurn.codex.inj hturn
    have hview : (resolve layers).view = some resolved.merged := by rw [hr]; rfl
    have hprovider : resolved.merged.provider = some .codex := by
      rw [←hp]
      exact resolved.binding_provider
    have hbound : resolved.merged.binding = layers.bound .codex := by
      funext p
      rw [view_binding hview,hprovider]
      rfl
    exact hbound ▸ planCodex_honors ht p

/-- The command of a turn carries what the turn honors. -/
theorem command_carries {host : Host} {wrapper : Codex.Wrapper} {turn : CodexTurn}
    {prepared : PreparedTurn} {settings : ChildSettings} {options : List ClientOption}
    {operationId : UInt64} {ambient : CodexAmbientContextPolicy} {policy : CodexSkillPolicy}
    {path skillConfig : Option String} (hh : ∀ p, CodexHonors bound turn p)
    (hprepared : PreparedAs host turn prepared)
    (hoptions : clientOptions Codex.names settings host.environment prepared.workingDirectory
      operationId = .ok options)
    (hskill : renderSkillConfig host policy = .ok skillConfig)
    (hpath : (schemaPath wrapper prepared.outputSchema).result = .ok path) (p : Path) :
    CodexCarries host wrapper bound options (command prepared ambient path skillConfig) p := by
  obtain ⟨hsession,hcontrols⟩ :=
    command_records ambient path hprepared.resumed (sandboxOverride_rendered hskill)
  have hprompt : ∃ prompt, bound .prompt = some prompt ∧
      prepared.prompt = composePrompt prompt (bound (.codex .systemPrompt)) := by
    have hs : turn.options.systemPrompt = bound (.codex .systemPrompt) :=
      Honors.unique (hh (.codex .systemPrompt)) (.self _)
    exact ⟨turn.prompt,hh .prompt,by rw [hprepared.prompt,hs]⟩
  have hp := hh p
  cases p with
  | provider => exact hp
  | prompt => simpa only [CodexCarries, hcontrols] using hprompt
  | modelName =>
    rw [CodexCarries,hcontrols]
    exact hprepared.model.trans (Honors.unique hp (.self _))
  | cwd =>
    have hd : turn.workingDirectory = bound .cwd := Honors.unique hp (.self _)
    exact (clientOptions_directories hoptions).trans (by rw [hprepared.workingDirectory,hd])
  | additionalDirectories =>
    rw [CodexCarries,hcontrols]
    exact hprepared.directories.trans (Honors.unique hp (.getD _ _))
  | resume =>
    have hs : turn.session = (bound .resume).map ResumeBinding.toSessionHandle :=
      Honors.unique hp (.map ResumeBinding.toSessionHandle_injective _)
    refine ⟨?_,fun r hr => ?_⟩
    · rw [hsession,hprepared.session,hs,Option.map_map]
      rfl
    · rw [hr] at hs
      exact ProviderId.asStr_injective (hprepared.provider _ hs)
  | filesystem =>
    rw [CodexCarries,hcontrols,hprepared.filesystemAuthority]
    exact congrArg (fun a => [a])
      (Honors.unique hp (.mapGetD FilesystemChoice.toAuthority_injective _ _))
  | codex field =>
    cases field with
    | systemPrompt => simpa only [CodexCarries, hcontrols] using hprompt
    | outputSchema =>
      have hs : turn.options.outputSchema = bound (.codex .outputSchema) :=
        Honors.unique hp (.self _)
      rw [CodexCarries,hcontrols,←hs]
      exact ⟨_,hprepared.outputSchema,hprepared.schema_isSome,hpath⟩
    | ephemeral =>
      rw [CodexCarries,hcontrols]
      exact hprepared.ephemeral.trans (Honors.unique hp (.getD _ _))
  | claude field => trivial

end Codex

/-- Whatever an adapter executes for a prepared turn, of any call and under any configuration of its
service, carries at every leaf of its own provider what the layers and the answers bind there,
exactly; the other provider's group does not apply. The one exception is Claude's ambient context:
it is launched as the host's baseline combined with the bound mode, which may be stronger. -/
theorem prepared_launched (layers : Layers) :
    (∀ turn, prepare layers = .ready (.claude turn) →
      ∀ (service : ClaudeService) host (wrapper : Claude.Wrapper) token context report,
        .executed report ∈ (service.call host wrapper token ⟨context,turn⟩).steps →
        ∃ options query, report = wrapper.executeJson options query ∧
          ∀ p, ClaudeCarries service host (layers.bound .claude) options query.controls p) ∧
    ∀ turn, prepare layers = .ready (.codex turn) →
      ∀ (service : CodexService) host (wrapper : Codex.Wrapper) token elapsed context report,
        .executed report ∈ (service.call host wrapper token elapsed ⟨context,turn⟩).steps →
        ∃ options command, report = wrapper.executeJson options command ∧
          ∀ p, CodexCarries host wrapper (layers.bound .codex) options command p := by
  constructor
  · intro turn h service host wrapper token context report hr
    obtain ⟨options,query,ambient,preassigned,hreport,hoptions,hpre,hambient,hquery⟩ :=
      Claude.call_launched hr
    exact ⟨options,query,hreport,
      buildQuery_carries (prepare_claude h) hoptions hpre hambient hquery⟩
  · intro turn h service host wrapper token elapsed context report hr
    obtain ⟨options,prepared,path,skillConfig,hreport,hprepared,hoptions,hskill,hpath⟩ :=
      Codex.call_launched hr
    exact ⟨options,_,hreport,command_carries (prepare_codex h) (prepare_preparedAs hprepared)
      hoptions hskill hpath⟩

section Sample

/-- A pass that resumes a Codex session in a directory, from three layers. -/
def launchedLayers : Layers where
  explicit := { prompt := some "go", context := { resume := some ⟨.codex,"session"⟩ } }
  profile := some {
    name := "fast"
    turn := { model := ⟨some "fast"⟩, context := { cwd := some (.text "/work") } } }
  applicationDefaults := some { provider := some .codex, model := ⟨some "slow"⟩ }

def Prepared.codexTurn : Prepared → Option CodexTurn
  | .ready (.codex turn) => some turn
  | _ => none

lemma Prepared.codexTurn_eq_some {p : Prepared} {turn : CodexTurn}
    (h : p.codexTurn = some turn) : p = .ready (.codex turn) := by
  unfold Prepared.codexTurn at h
  split at h
  · obtain rfl := Option.some.inj h
    rfl
  · cases h

/-- Answers complete a pass for Claude. -/
def answeredLayers : Layers where
  explicit := { context := { cwd := some (.text "/work") } }
  answers := [⟨Ids.provider,"claude"⟩,⟨Ids.prompt,"go"⟩]

def Prepared.claudeTurn : Prepared → Option ClaudeTurn
  | .ready (.claude turn) => some turn
  | _ => none

lemma Prepared.claudeTurn_eq_some {p : Prepared} {turn : ClaudeTurn}
    (h : p.claudeTurn = some turn) : p = .ready (.claude turn) := by
  unfold Prepared.claudeTurn at h
  split at h
  · obtain rfl := Option.some.inj h
    rfl
  · cases h

theorem prepared_launched_sample :
    (∃ turn report options query, prepare answeredLayers = .ready (.claude turn) ∧
      report = (reporting railStop).executeJson options query ∧
      ∀ p, ClaudeCarries {} sampleHost (answeredLayers.bound .claude) options query.controls p) ∧
    ∃ turn report options command, prepare launchedLayers = .ready (.codex turn) ∧
      report = sessionWrapper.executeJson options command ∧
      ∀ p, CodexCarries sampleHost sessionWrapper (launchedLayers.bound .codex) options command
        p := by
  constructor
  · have h : ((prepare answeredLayers).claudeTurn.bind fun turn =>
        (({} : ClaudeService).call sampleHost (reporting railStop) (fun _ => false)
          ⟨{ operationId := 1, deadline := none },turn⟩).steps.find? LaunchStep.isExecuted).isSome =
            true := by decide +kernel
    obtain ⟨step,hstep⟩ := Option.isSome_iff_exists.mp h
    obtain ⟨turn,hturn,hfind⟩ := Option.bind_eq_some_iff.mp hstep
    have hturn := Prepared.claudeTurn_eq_some hturn
    have hexecuted := List.find?_some hfind
    cases step with
    | executed report =>
      obtain ⟨options,query,hreport,hcarries⟩ := (prepared_launched answeredLayers).1 turn hturn
        {} sampleHost (reporting railStop) (fun _ => false) _ report
        (List.mem_of_find?_eq_some hfind)
      exact ⟨turn,report,options,query,hturn,hreport,hcarries⟩
    | _ => cases hexecuted
  · have h : ((prepare launchedLayers).codexTurn.bind fun turn =>
        (({} : CodexService).call sampleHost sessionWrapper (fun _ => false) 0
          ⟨{ operationId := 1, deadline := none },turn⟩).steps.find? LaunchStep.isExecuted).isSome =
            true := by decide +kernel
    obtain ⟨step,hstep⟩ := Option.isSome_iff_exists.mp h
    obtain ⟨turn,hturn,hfind⟩ := Option.bind_eq_some_iff.mp hstep
    have hturn := Prepared.codexTurn_eq_some hturn
    have hexecuted := List.find?_some hfind
    cases step with
    | executed report =>
      obtain ⟨options,command,hreport,hcarries⟩ := (prepared_launched launchedLayers).2 turn hturn
        {} sampleHost sessionWrapper (fun _ => false) 0 _ report (List.mem_of_find?_eq_some hfind)
      exact ⟨turn,report,options,command,hturn,hreport,hcarries⟩
    | _ => cases hexecuted

end Sample
end TowerAgent.Plan
