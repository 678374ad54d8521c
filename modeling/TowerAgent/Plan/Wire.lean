import TowerAgent.Lib.Serde
import TowerAgent.Plan.Precedence

/-! The wire form of partial turns and profiles: what a saved layer holds, and what is read of it. -/
namespace TowerAgent.Plan
open Lib Lib.Serde

/-- A path is written as its text. -/
def pathCodec : Codec String PathBuf where
  serialize path :=
    match path.toStr with
    | some text => .ok (.string text)
    | none => .error "path contains invalid UTF-8 characters"
  deserialize
    | .string text => .ok text
    | _ => .error .invalid

def ProviderId.codec : Codec String ProviderId := .variants [.claude,.codex] asStr

def FilesystemChoice.wireName : FilesystemChoice → String
  | .readOnly => "read_only"
  | .workspaceWrite => "workspace_write"
  | .fullAccess => "full_access"

def FilesystemChoice.codec : Codec String FilesystemChoice :=
  .variants [.readOnly,.workspaceWrite,.fullAccess] wireName

def EffortChoice.wireName : EffortChoice → String
  | .low => "low"
  | .medium => "medium"
  | .high => "high"

def EffortChoice.codec : Codec String EffortChoice :=
  .variants [.low,.medium,.high] wireName

def PermissionModeChoice.wireName : PermissionModeChoice → String
  | .default => "default"
  | .acceptEdits => "accept_edits"
  | .dontAsk => "dont_ask"
  | .plan => "plan"
  | .auto => "auto"

def PermissionModeChoice.codec : Codec String PermissionModeChoice :=
  .variants [.default,.acceptEdits,.dontAsk,.plan,.auto] wireName

def AmbientContextChoice.wireName : AmbientContextChoice → String
  | .inherit => "inherit"
  | .hermeticProject => "hermetic_project"
  | .hermeticFull => "hermetic_full"
  | .safe => "safe"
  | .bare => "bare"

def AmbientContextChoice.codec : Codec String AmbientContextChoice :=
  .variants [.inherit,.hermeticProject,.hermeticFull,.safe,.bare] wireName

namespace ResumeBinding

/-- The fields of a binding while it is read. -/
structure Slots where
  provider : Option ProviderId := none
  value : Option String := none

def fields : List (Field String ResumeBinding Slots) :=
  [.required "provider" provider (fun x s => { s with provider := x }) ProviderId.codec,
    .required "value" value (fun x s => { s with value := x }) .string]

def codec : Codec String ResumeBinding :=
  .record fields {} fun slots => do
    let provider ← Field.demand "provider" slots.provider
    let value ← Field.demand "value" slots.value
    return ⟨provider,value⟩

end ResumeBinding

namespace PartialModel

/-- Whether no field in this group is bound. -/
def isUnbound (self : PartialModel) : Bool := self.name.isNone

lemma eq_default {x : PartialModel} (h : x.isUnbound) : x = {} := by
  cases x
  simpa [isUnbound] using h

def fields : List (Field String PartialModel PartialModel) :=
  [.optional "name" name (fun x s => { s with name := x }) .string]

def codec : Codec String PartialModel := .struct fields {}

end PartialModel

namespace PartialContext

def isUnbound (self : PartialContext) : Bool :=
  self.cwd.isNone && self.additionalDirectories.isNone && self.resume.isNone

lemma eq_default {x : PartialContext} (h : x.isUnbound) : x = {} := by
  cases x
  simpa [isUnbound, and_assoc] using h

def fields : List (Field String PartialContext PartialContext) :=
  [.optional "cwd" cwd (fun x s => { s with cwd := x }) pathCodec,
    .optional "additional_directories" additionalDirectories
      (fun x s => { s with additionalDirectories := x }) (.list pathCodec),
    .optional "resume" resume (fun x s => { s with resume := x }) ResumeBinding.codec]

def codec : Codec String PartialContext := .struct fields {}

end PartialContext

namespace PartialPermissions

def isUnbound (self : PartialPermissions) : Bool := self.filesystem.isNone

lemma eq_default {x : PartialPermissions} (h : x.isUnbound) : x = {} := by
  cases x
  simpa [isUnbound] using h

def fields : List (Field String PartialPermissions PartialPermissions) :=
  [.optional "filesystem" filesystem (fun x s => { s with filesystem := x })
    FilesystemChoice.codec]

def codec : Codec String PartialPermissions := .struct fields {}

end PartialPermissions

section Format
variable (format : TextFormat)

namespace PartialCodexOptions

def fields : List (Field String PartialCodexOptions PartialCodexOptions) :=
  [.optional "system_prompt" systemPrompt (fun x s => { s with systemPrompt := x }) .string,
    .optional "output_schema" outputSchema (fun x s => { s with outputSchema := x })
      (.value format),
    .optional "ephemeral" ephemeral (fun x s => { s with ephemeral := x }) .boolean]

def codec : Codec String PartialCodexOptions := .struct (fields format) {}

end PartialCodexOptions

namespace PartialClaudeOptions

def fields : List (Field String PartialClaudeOptions PartialClaudeOptions) :=
  [.optional "system_prompt" systemPrompt (fun x s => { s with systemPrompt := x }) .string,
    .optional "append_system_prompt" appendSystemPrompt
      (fun x s => { s with appendSystemPrompt := x }) .string,
    .optional "fallback_model" fallbackModel (fun x s => { s with fallbackModel := x }) .string,
    .optional "effort" effort (fun x s => { s with effort := x }) EffortChoice.codec,
    .optional "allowed_tools" allowedTools (fun x s => { s with allowedTools := x })
      (.list .string),
    .optional "disallowed_tools" disallowedTools (fun x s => { s with disallowedTools := x })
      (.list .string),
    .optional "max_turns" maxTurns (fun x s => { s with maxTurns := x }) .u32,
    .optional "max_budget_usd" maxBudgetUsd (fun x s => { s with maxBudgetUsd := x })
      (.f64 format),
    .optional "permission_mode" permissionMode (fun x s => { s with permissionMode := x })
      PermissionModeChoice.codec,
    .optional "json_schema" jsonSchema (fun x s => { s with jsonSchema := x }) (.value format),
    .optional "strict_mcp_config" strictMcpConfig (fun x s => { s with strictMcpConfig := x })
      .boolean,
    .optional "ambient_context" ambientContext (fun x s => { s with ambientContext := x })
      AmbientContextChoice.codec]

def codec : Codec String PartialClaudeOptions := .struct (fields format) {}

end PartialClaudeOptions

namespace PartialProviderOptions

/-- Whether no group in this layer is bound. -/
def isUnbound (self : PartialProviderOptions) : Bool := self.claude.isNone && self.codex.isNone

lemma eq_default {x : PartialProviderOptions} (h : x.isUnbound) : x = {} := by
  cases x
  simpa [isUnbound] using h

def fields : List (Field String PartialProviderOptions PartialProviderOptions) :=
  [.optional "claude" claude (fun x s => { s with claude := x })
      (PartialClaudeOptions.codec format),
    .optional "codex" codex (fun x s => { s with codex := x }) (PartialCodexOptions.codec format)]

def codec : Codec String PartialProviderOptions := .struct (fields format) {}

end PartialProviderOptions

namespace PartialTurn

def fields : List (Field String PartialTurn PartialTurn) :=
  [.optional "provider" provider (fun x s => { s with provider := x }) ProviderId.codec,
    .optional "prompt" prompt (fun x s => { s with prompt := x }) .string,
    .group "model" model (fun x s => { s with model := x }) PartialModel.isUnbound
      PartialModel.codec,
    .group "context" context (fun x s => { s with context := x }) PartialContext.isUnbound
      PartialContext.codec,
    .group "permissions" permissions (fun x s => { s with permissions := x })
      PartialPermissions.isUnbound PartialPermissions.codec,
    .group "provider_options" providerOptions (fun x s => { s with providerOptions := x })
      PartialProviderOptions.isUnbound (PartialProviderOptions.codec format)]

def codec : Codec String PartialTurn := .struct (fields format) {}

end PartialTurn

namespace Profile

/-- The fields of a profile while it is read. -/
structure Slots where
  name : Option String := none
  turn : Option PartialTurn := none

def fields : List (Field String Profile Slots) :=
  [.required "name" name (fun x s => { s with name := x }) .string,
    .required "turn" turn (fun x s => { s with turn := x }) (PartialTurn.codec format)]

def codec : Codec String Profile :=
  .record (fields format) {} fun slots => do
    let name ← Field.demand "name" slots.name
    let turn ← Field.demand "turn" slots.turn
    return ⟨name,turn⟩

end Profile

/-- What is read of what is written of a group: its schema without a `null`, its numbers as their
literals read. -/
def PartialClaudeOptions.reread (self : PartialClaudeOptions) : Option PartialClaudeOptions :=
  (Field.reread (fun budget => format.double (format.decimal budget)) self.maxBudgetUsd).bind
    fun budget => (Field.reread format.read (self.jsonSchema.filter (!·.isNull))).bind
      fun schema => some { self with maxBudgetUsd := budget, jsonSchema := schema }

def PartialCodexOptions.reread (self : PartialCodexOptions) : Option PartialCodexOptions :=
  (Field.reread format.read (self.outputSchema.filter (!·.isNull))).bind
    fun schema => some { self with outputSchema := schema }

def PartialProviderOptions.reread (self : PartialProviderOptions) : Option PartialProviderOptions :=
  (Field.reread (PartialClaudeOptions.reread format) self.claude).bind
    fun claude => (Field.reread (PartialCodexOptions.reread format) self.codex).bind
      fun codex => some { claude, codex }

def PartialTurn.reread (self : PartialTurn) : Option PartialTurn :=
  (self.providerOptions.reread format).map fun options => { self with providerOptions := options }

end Format

/-- Every path of the context is a text. -/
def PartialContext.Utf8 (self : PartialContext) : Prop :=
  (∀ path, self.cwd = some path → path.toStr.isSome) ∧
    ∀ paths, self.additionalDirectories = some paths → ∀ path ∈ paths, path.toStr.isSome

/-- The budget of a Claude group, if it binds one, is finite. -/
def PartialProviderOptions.Finite (self : PartialProviderOptions) : Prop :=
  ∀ options, self.claude = some options →
    ∀ budget, options.maxBudgetUsd = some budget → budget.isFinite

section RoundTrip
open Codec.ReadsAs
variable {format : TextFormat}

lemma pathCodec_readsAs {path : PathBuf} (h : path.toStr.isSome) :
    pathCodec.ReadsAs path (some path) := by
  cases path with
  | text path => exact ⟨_,rfl,Json.noConfusion,rfl⟩
  | bytes raw shown => cases h

lemma ProviderId.codec_readsAs (x : ProviderId) : codec.ReadsAs x (some x) :=
  variants (by cases x <;> decide)

lemma FilesystemChoice.codec_readsAs (x : FilesystemChoice) : codec.ReadsAs x (some x) :=
  variants (by cases x <;> decide)

lemma EffortChoice.codec_readsAs (x : EffortChoice) : codec.ReadsAs x (some x) :=
  variants (by cases x <;> decide)

lemma PermissionModeChoice.codec_readsAs (x : PermissionModeChoice) : codec.ReadsAs x (some x) :=
  variants (by cases x <;> decide)

lemma AmbientContextChoice.codec_readsAs (x : AmbientContextChoice) : codec.ReadsAs x (some x) :=
  variants (by cases x <;> decide)

lemma ResumeBinding.codec_readsAs (x : ResumeBinding) : codec.ReadsAs x (some x) := by
  have hf : FillsAll x fields {} (some ⟨some x.provider,some x.value⟩) :=
    .cons (.required (ProviderId.codec_readsAs x.provider)) (.last (.required (string x.value)))
  exact record (by decide) hf

lemma PartialModel.codec_readsAs (x : PartialModel) : codec.ReadsAs x (some x) :=
  struct (by decide) (.last (.optional_self rfl fun s _ => string s))

lemma PartialContext.codec_readsAs {x : PartialContext} (h : x.Utf8) :
    codec.ReadsAs x (some x) := by
  obtain ⟨hcwd,hdirs⟩ := h
  refine struct (by decide) (.cons (.optional_self rfl fun path hp => ?_)
    (.cons (.optional_self rfl fun paths hp => ?_)
      (.last (.optional_self rfl fun binding _ => ?_))))
  · exact pathCodec_readsAs (hcwd path hp)
  · exact list fun path hmem => pathCodec_readsAs (hdirs paths hp path hmem)
  · exact ResumeBinding.codec_readsAs binding

lemma PartialPermissions.codec_readsAs (x : PartialPermissions) : codec.ReadsAs x (some x) :=
  struct (by decide) (.last (.optional_self rfl fun c _ => FilesystemChoice.codec_readsAs c))

lemma PartialCodexOptions.codec_readsAs (x : PartialCodexOptions) :
    (codec format).ReadsAs x (x.reread format) :=
  struct (by simp [fields, Field.optional]) (.cons (.optional_self rfl fun s _ => string s)
    (.optional_value rfl fun _ => .last (.optional_self rfl fun b _ => boolean b)))

lemma PartialClaudeOptions.codec_readsAs {x : PartialClaudeOptions}
    (h : ∀ budget, x.maxBudgetUsd = some budget → budget.isFinite) :
    (codec format).ReadsAs x (x.reread format) := by
  have htools (tools : List String) :
      (Codec.list .string : Codec String (List String)).ReadsAs tools (some tools) :=
    list fun tool _ => string tool
  refine struct (by simp [fields, Field.optional])
    (.cons (.optional_self rfl fun s _ => string s)
    (.cons (.optional_self rfl fun s _ => string s)
    (.cons (.optional_self rfl fun s _ => string s)
    (.cons (.optional_self rfl fun e _ => EffortChoice.codec_readsAs e)
    (.cons (.optional_self rfl fun tools _ => htools tools)
    (.cons (.optional_self rfl fun tools _ => htools tools)
    (.cons (.optional_self rfl fun n _ => u32 n)
    (.optional rfl (fun budget hb => f64 (h budget hb)) fun _ =>
    (.cons (.optional_self rfl fun mode _ => PermissionModeChoice.codec_readsAs mode)
    (.optional_value rfl fun _ =>
    (.cons (.optional_self rfl fun b _ => boolean b)
    (.last (.optional_self rfl fun c _ => AmbientContextChoice.codec_readsAs c)))))))))))))

lemma PartialProviderOptions.codec_readsAs {x : PartialProviderOptions} (h : x.Finite) :
    (codec format).ReadsAs x (x.reread format) :=
  struct (by simp [fields, Field.optional])
    (.optional rfl (fun options ho => PartialClaudeOptions.codec_readsAs (h options ho))
      fun _ => .optional rfl (fun options _ => PartialCodexOptions.codec_readsAs options)
        fun _ => .nil _)

/-- A partial turn is read as its provider options are. -/
theorem PartialTurn.codec_readsAs {x : PartialTurn} (hc : x.context.Utf8)
    (hp : x.providerOptions.Finite) : (codec format).ReadsAs x (x.reread format) := by
  refine struct (by simp [fields, Field.optional, Field.group])
    (.cons (.optional_self rfl fun p _ => ProviderId.codec_readsAs p)
    (.cons (.optional_self rfl fun s _ => string s)
    (.cons (.group_self (fun hu => ?_) (PartialModel.codec_readsAs x.model))
    (.cons (.group_self (fun hu => ?_) (PartialContext.codec_readsAs hc))
    (.cons (.group_self (fun hu => ?_) (PartialPermissions.codec_readsAs x.permissions))
    (.last (.group (fun hu => ?_) (PartialProviderOptions.codec_readsAs hp))))))))
  · rw [PartialModel.eq_default hu]
  · rw [PartialContext.eq_default hu]
  · rw [PartialPermissions.eq_default hu]
  · rw [PartialProviderOptions.eq_default hu]
    rfl

/-- A profile is read as its turn is. -/
theorem Profile.codec_readsAs {x : Profile} (hc : x.turn.context.Utf8)
    (hp : x.turn.providerOptions.Finite) :
    (codec format).ReadsAs x ((x.turn.reread format).map fun turn => { x with turn }) := by
  have hf : FillsAll x (fields format) {}
      ((x.turn.reread format).map fun turn => ⟨some x.name,some turn⟩) :=
    .cons (.required (string x.name)) (.last (.required (PartialTurn.codec_readsAs hc hp)))
  have hr : (codec format).ReadsAs x _ := record (by simp [fields, Field.required]) hf
  rw [Option.bind_map] at hr
  rw [Option.map_eq_bind]
  exact hr

end RoundTrip

section Kept
variable {format : TextFormat} {x : PartialTurn}

/-- Some group binds its schema to `null`. -/
def PartialTurn.BindsNull (x : PartialTurn) : Prop :=
  x.binding (.claude .jsonSchema) = some .null ∨ x.binding (.codex .outputSchema) = some .null

/-- The budget that is bound reads as itself, and so does every number of a schema that is bound, and
no schema nests deeper than the format lets it. -/
def PartialTurn.Legible (format : TextFormat) (x : PartialTurn) : Prop :=
  (∀ budget, x.binding (.claude .maxBudgetUsd) = some budget →
    format.double (format.decimal budget) = some budget) ∧
  ∀ schema, x.binding (.claude .jsonSchema) = some schema ∨
    x.binding (.codex .outputSchema) = some schema → format.Keeps schema

/-- A schema that is bound is read as itself unless it is `null`. -/
lemma reread_schema {schema : Option Json} :
    Field.reread format.read (schema.filter (!·.isNull)) = some schema ↔
      schema ≠ some .null ∧ ∀ value, schema = some value → format.Keeps value := by
  cases schema with
  | none => simp [Field.reread]
  | some value =>
    by_cases hnull : value = .null
    · subst hnull
      simp [Field.reread, Option.filter, Json.isNull]
    · have hkept : (some value).filter (!·.isNull) = some value := by
        cases value with
        | null => exact absurd rfl hnull
        | _ => rfl
      rw [hkept,Field.reread_eq_self]
      simp [TextFormat.read_eq_self, hnull]

lemma PartialClaudeOptions.reread_eq_self {o : PartialClaudeOptions} :
    o.reread format = some o ↔
      (∀ budget, o.maxBudgetUsd = some budget →
        format.double (format.decimal budget) = some budget) ∧
      o.jsonSchema ≠ some .null ∧ ∀ value, o.jsonSchema = some value → format.Keeps value := by
  rw [←reread_schema,←Field.reread_eq_self]
  constructor
  · intro h
    obtain ⟨budget,hb,h⟩ := Option.bind_eq_some_iff.mp h
    obtain ⟨schema,hs,h⟩ := Option.bind_eq_some_iff.mp h
    have heq := Option.some.inj h
    obtain rfl : budget = o.maxBudgetUsd := congrArg maxBudgetUsd heq
    obtain rfl : schema = o.jsonSchema := congrArg jsonSchema heq
    exact ⟨hb,hs⟩
  · rintro ⟨hb,hs⟩
    rw [reread,hb,Option.bind_some,hs]
    rfl

lemma PartialCodexOptions.reread_eq_self {o : PartialCodexOptions} :
    o.reread format = some o ↔
      o.outputSchema ≠ some .null ∧ ∀ value, o.outputSchema = some value → format.Keeps value := by
  rw [←reread_schema]
  constructor
  · intro h
    obtain ⟨schema,hs,h⟩ := Option.bind_eq_some_iff.mp h
    obtain rfl : schema = o.outputSchema := congrArg outputSchema (Option.some.inj h)
    exact hs
  · intro hs
    rw [reread,hs]
    rfl

lemma PartialProviderOptions.reread_eq_self {o : PartialProviderOptions} :
    o.reread format = some o ↔
      (∀ claude, o.claude = some claude → claude.reread format = some claude) ∧
      ∀ codex, o.codex = some codex → codex.reread format = some codex := by
  rw [←Field.reread_eq_self,←Field.reread_eq_self]
  constructor
  · intro h
    obtain ⟨claude,hl,h⟩ := Option.bind_eq_some_iff.mp h
    obtain ⟨codex,hr,h⟩ := Option.bind_eq_some_iff.mp h
    obtain rfl := Option.some.inj h
    exact ⟨hl,hr⟩
  · rintro ⟨hl,hr⟩
    rw [reread,hl,Option.bind_some,hr]
    rfl

/-- A turn is read as itself where no schema is `null` and all else is legible. -/
theorem PartialTurn.reread_eq_self : x.reread format = some x ↔ ¬ x.BindsNull ∧ x.Legible format := by
  have hoptions : x.reread format = some x ↔
      x.providerOptions.reread format = some x.providerOptions := by
    constructor
    · intro h
      obtain ⟨options,ho,h⟩ := Option.map_eq_some_iff.mp h
      obtain rfl : options = x.providerOptions := congrArg providerOptions h
      exact ho
    · intro h
      rw [reread,h]
      rfl
  rw [hoptions,PartialProviderOptions.reread_eq_self]
  obtain ⟨_,_,_,_,_,claude,codex⟩ := x
  cases claude <;> cases codex <;>
    simp only [BindsNull, Legible, binding, PartialClaudeOptions.binding,
      PartialCodexOptions.binding, Option.bind_some, Option.bind_none, Option.some.injEq,
      PartialClaudeOptions.reread_eq_self, PartialCodexOptions.reread_eq_self, forall_eq',
      reduceCtorEq, or_imp, forall_and, or_false, false_or, not_or, ne_eq, forall_false,
      implies_true, not_false_eq_true, and_true, true_and]
  case some.none => rw [and_left_comm]
  case some.some =>
    constructor
    · rintro ⟨⟨hb,hn,hk⟩,hn',hk'⟩
      exact ⟨⟨hn,hn'⟩,hb,hk,hk'⟩
    · rintro ⟨⟨hn,hn'⟩,hb,hk,hk'⟩
      exact ⟨⟨hb,hn,hk⟩,hn',hk'⟩

end Kept

/-- A partial turn is read back from what is written of it exactly when it binds no schema to `null`,
its budget and the numbers of its schemas read as themselves and no schema nests too deep; and so is
a profile that saves it. -/
theorem PartialTurn.deserialize_serialize_iff {format : TextFormat} {turn : PartialTurn}
    (hc : turn.context.Utf8) (hp : turn.providerOptions.Finite) :
    ((∃ json, (codec format).serialize turn = .ok json ∧
      (codec format).deserialize json = .ok turn) ↔ ¬ turn.BindsNull ∧ turn.Legible format) ∧
    ∀ name, (∃ json, (Profile.codec format).serialize ⟨name,turn⟩ = .ok json ∧
      (Profile.codec format).deserialize json = .ok ⟨name,turn⟩) ↔
        ¬ turn.BindsNull ∧ turn.Legible format := by
  refine ⟨(codec_readsAs hc hp).iff_eq.trans reread_eq_self,fun name => ?_⟩
  rw [(Profile.codec_readsAs (x := ⟨name,turn⟩) hc hp).iff_eq,←reread_eq_self]
  constructor
  · intro h
    obtain ⟨turn',ht,h⟩ := Option.map_eq_some_iff.mp h
    obtain rfl : turn' = turn := congrArg Profile.turn h
    exact ht
  · intro h
    rw [h]
    rfl

/-- Two and a half. -/
def twoAndHalf : F64 := ⟨0x4004000000000000⟩

/-- A format that shows two and a half, and other doubles by their bits. -/
def sampleFormat : TextFormat where
  decimal x := if x = twoAndHalf then "2.5" else toString x.bits.toNat
  double literal :=
    if literal = "2.5" then some twoAndHalf
    else (natLiteral literal).map (fun n => ⟨UInt64.ofNat n⟩)
  depth := 124

/-- A turn that binds empty values. -/
def emptyValues : PartialTurn where
  prompt := some ""
  context := { additionalDirectories := some [] }
  providerOptions := {
    claude := some {
      allowedTools := some []
      maxBudgetUsd := some twoAndHalf
      jsonSchema := some (.object [("minimum",.number "2.5"),("maximum",.number "-3")])
      strictMcpConfig := some false }
    codex := some {} }

theorem PartialTurn.deserialize_serialize_sample : ¬ emptyValues.BindsNull ∧
    emptyValues.Legible sampleFormat ∧
    (∃ json, (PartialTurn.codec sampleFormat).serialize emptyValues = .ok json ∧
      (PartialTurn.codec sampleFormat).deserialize json = .ok emptyValues) ∧
    ∃ json, (Profile.codec sampleFormat).serialize ⟨"fast",emptyValues⟩ = .ok json ∧
      (Profile.codec sampleFormat).deserialize json = .ok ⟨"fast",emptyValues⟩ := by
  have hn : ¬ emptyValues.BindsNull := by
    rintro (h | h) <;> cases h
  have hl : emptyValues.Legible sampleFormat := by
    refine ⟨?_,?_⟩
    · rintro budget ⟨⟩
      decide
    · rintro schema (h | h)
      · obtain rfl := Option.some.inj h
        exact ⟨by decide,by decide⟩
      · cases h
  have hc : emptyValues.context.Utf8 := by
    constructor
    · rintro path ⟨⟩
    · rintro paths ⟨⟩ path ⟨⟩
  have hp : emptyValues.providerOptions.Finite := by
    rintro options ⟨⟩ budget ⟨⟩
    decide
  obtain ⟨hturn,hprofile⟩ := @deserialize_serialize_iff sampleFormat _ hc hp
  exact ⟨hn,hl,hturn.mpr ⟨hn,hl⟩,(hprofile "fast").mpr ⟨hn,hl⟩⟩

/-- A turn whose Claude group binds its schema to `null`. -/
def nullSchema : PartialTurn where
  providerOptions := { claude := some { jsonSchema := some .null } }

/-- What is written of such a turn reads as one that binds no schema. -/
theorem null_schema_unbound :
    (¬ ∀ turn : PartialTurn, turn.context.Utf8 → turn.providerOptions.Finite →
      ∃ json, (PartialTurn.codec sampleFormat).serialize turn = .ok json ∧
        (PartialTurn.codec sampleFormat).deserialize json = .ok turn) ∧
    (PartialTurn.codec sampleFormat).serialize nullSchema =
      .ok (.object [("provider_options",.object [("claude",.object [("json_schema",.null)])])]) ∧
    (PartialTurn.codec sampleFormat).deserialize
        (.object [("provider_options",.object [("claude",.object [("json_schema",.null)])])]) =
      .ok { providerOptions := { claude := some {} } } := by
  refine ⟨fun h => ?_,rfl,rfl⟩
  have hc : nullSchema.context.Utf8 := by
    constructor <;> rintro _ ⟨⟩
  have hp : nullSchema.providerOptions.Finite := by
    rintro options ⟨⟩ budget ⟨⟩
  obtain ⟨json,hs,hr⟩ := h nullSchema hc hp
  obtain rfl := Except.ok.inj hs
  cases hr

end TowerAgent.Plan
