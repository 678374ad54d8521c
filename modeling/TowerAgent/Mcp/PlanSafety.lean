import TowerAgent.Mcp.Dialogue

/-! Launch safety of a planning tool: at most one launch, of what `prepare` made of the answers
given so far, and none once anything is withheld. -/
namespace TowerAgent.Mcp.PlanTool
open Lib Kernel Plan

variable {tool : PlanTool} {decimal : F64 → String} {call : PlanCall}

/-- The two ways a call ends: refused before any launch, or with one launch of what was prepared. -/
inductive Ran (tool : PlanTool) (decimal : F64 → String) (call : PlanCall) :
    List PlanStep × CallToolResult → Prop
  | refused {forms : List ElicitFormParams} {e : AgentError}
      (hplan : (tool.plan call).result = .error e) (hr : Refusal e)
      (hb : forms.length ≤ max tool.maxRounds 1) :
      Ran tool decimal call
        (forms.map .asked,refuseWith tool.projection decimal e call.operationId)
  | launched {scope : Scope} {explicit : PartialTurn} {forms : List ElicitFormParams}
      {ready : ReadyTurn} (hplan : (tool.plan call).result = .ok (scope,ready))
      (ha : call.admission = .ok (scope,explicit)) (hb : forms.length ≤ max tool.maxRounds 1)
      (hp : prepare (tool.layers explicit (granted call.client 0 forms)) = .ready ready)
      (hw : ∀ i form, forms[i]? = some form → ¬Withheld (call.client i form)) :
      Ran tool decimal call (forms.map .asked ++ (executeTurn tool.projection decimal call.store
          call.service call.operationId scope ready).1,
        (executeTurn (F := ElicitFormParams) tool.projection decimal call.store call.service
          call.operationId scope ready).2)

/-- The plan of a call that is admitted is that of its dialogue. -/
lemma plan_admitted {scope : Scope} {explicit : PartialTurn}
    (h : call.admission = .ok (scope,explicit)) {d : Traced PlanStep AgentError ReadyTurn}
    (hd : tool.dialogue call.client explicit (max tool.maxRounds 1) 0 [] = d) :
    tool.plan call = ⟨d.steps,d.result.map (fun ready => (scope,ready))⟩ := by
  unfold plan
  rw [h,Traced.check_ok_bind]
  dsimp only
  rw [hd,Traced.bind_pure_eq]

lemma plan_refused {e : AgentError} (h : call.admission = .error e) :
    tool.plan call = ⟨[],.error e⟩ := by
  unfold plan
  rw [h,Traced.check_error_bind]

theorem run_ran : Ran tool decimal call (tool.run call decimal) := by
  cases ha : call.admission with
  | error e =>
    have hplan : tool.plan call = ⟨[],.error e⟩ := plan_refused ha
    have hrun : tool.run call decimal = (([] : List ElicitFormParams).map .asked,
        refuseWith tool.projection decimal e call.operationId) := by
      simp only [run, hplan, List.map_nil]
    rw [hrun]
    exact .refused (by rw [hplan]) (admission_fails e ha) (Nat.zero_le _)
  | ok admitted =>
    obtain ⟨scope,explicit⟩ := admitted
    generalize hd : tool.dialogue call.client explicit (max tool.maxRounds 1) 0 [] = d
    obtain ⟨forms,hc⟩ : ∃ forms, Conversed tool call.client explicit (max tool.maxRounds 1) 0 []
        forms (tool.dialogue call.client explicit (max tool.maxRounds 1) 0 []) :=
      dialogue_conversed _ _ _
    rw [hd] at hc
    have hplan := plan_admitted ha hd
    cases hr : d.result with
    | error e =>
      have hrun : tool.run call decimal = (forms.map .asked,
          refuseWith tool.projection decimal e call.operationId) := by
        simp only [run, hplan, hr, hc.steps, Except.map]
      rw [hrun]
      exact .refused (by rw [hplan,hr]; rfl) (hc.refusal e hr) hc.bounded
    | ok ready =>
      have hrun : tool.run call decimal = (forms.map .asked ++ (executeTurn tool.projection decimal
            call.store call.service call.operationId scope ready).1,
          (executeTurn (F := ElicitFormParams) tool.projection decimal call.store call.service
            call.operationId scope ready).2) := by
        simp only [run, hplan, hr, hc.steps, Except.map]
      rw [hrun]
      refine .launched (by rw [hplan,hr]; rfl) ha hc.bounded (hc.prepared ready hr) ?_
      intro i form hi
      simpa using hc.replied ready hr i form hi

/-- A client is asked at most as often as there are rounds. -/
theorem asked_le : (ToolStep.forms (tool.run call decimal).1).length ≤ max tool.maxRounds 1 := by
  have hran : Ran tool decimal call (tool.run call decimal) := run_ran
  generalize tool.run call decimal = r at hran
  cases hran with
  | refused _ _ hb => simpa using hb
  | launched _ _ hb => simpa using hb

/-- Why a call may not launch: no scope, a continuation that does not resolve, a sensitive
requirement, or a reply that withholds what was asked. -/
inductive Withholds (tool : PlanTool) (call : PlanCall) (forms : List ElicitFormParams) : Prop
  | scope {unavailable : ScopeUnavailable} (h : call.scope = .error unavailable)
  | continuation {scope : Scope} {raw : String} (hs : call.scope = .ok scope)
      (hc : call.input.continuation = some raw) (h : Unresolved call.store.resolve raw scope)
  | sensitive {scope : Scope} {explicit merged : PartialTurn} {requirements : List Requirement}
      {requirement : Requirement} (hs : call.scope = .ok scope)
      (he : explicitLayer call.store.resolve scope call.input = .ok explicit)
      (hp : prepare (tool.layers explicit (granted call.client 0 forms)) =
        .missing merged requirements)
      (hr : requirement ∈ requirements) (h : requirement.sensitive = true)
  | reply {i : ℕ} {form : ElicitFormParams} (hi : forms[i]? = some form)
      (h : Withheld (call.client i form))

/-- What is launched, and when nothing is. -/
structure LaunchSafety (tool : PlanTool) (decimal : F64 → String) (call : PlanCall)
    (steps : List PlanStep) (result : CallToolResult) : Prop where
  once : (ToolStep.launches steps).length ≤ 1
  prepared : ∀ ready ∈ ToolStep.launches steps, ∃ scope explicit, call.scope = .ok scope ∧
    explicitLayer call.store.resolve scope call.input = .ok explicit ∧
    prepare (tool.layers explicit (granted call.client 0 (ToolStep.forms steps))) = .ready ready
  withheld : Withholds tool call (ToolStep.forms steps) → ToolStep.launches steps = [] ∧
    result.isError = true ∧
    result.structuredContent.bind (Json.get "effects") = some (.string "none")
  asked : (ToolStep.forms steps).length ≤ max tool.maxRounds 1

/-- A call that launches withholds nothing. -/
lemma not_withholds {scope : Scope} {explicit : PartialTurn} {forms : List ElicitFormParams}
    {ready : ReadyTurn} (ha : call.admission = .ok (scope,explicit))
    (hp : prepare (tool.layers explicit (granted call.client 0 forms)) = .ready ready)
    (hw : ∀ i form, forms[i]? = some form → ¬Withheld (call.client i form)) :
    ¬Withholds tool call forms := by
  obtain ⟨hs,he⟩ := admission_ok.mp ha
  rintro (h | ⟨hs',hc,h⟩ | ⟨hs',he',hp',hr,h⟩ | ⟨hi,h⟩)
  · rw [hs] at h
    cases h
  · obtain rfl := Except.ok.inj (hs.symm.trans hs')
    exact explicitLayer_unresolved hc h he
  · obtain rfl := Except.ok.inj (hs.symm.trans hs')
    obtain rfl := Except.ok.inj (he.symm.trans he')
    rw [hp] at hp'
    cases hp'
  · exact hw _ _ hi h

/-- A planning tool launches at most one turn, the one that `prepare` made of the explicit layer,
the host's defaults and the answers given so far; it launches none, and reports no effects, once the
scope, the continuation, a requirement or a reply stands against it. -/
theorem run_safe (tool : PlanTool) (decimal : F64 → String) (call : PlanCall) :
    LaunchSafety tool decimal call (tool.run call decimal).1 (tool.run call decimal).2 := by
  have hran : Ran tool decimal call (tool.run call decimal) := run_ran
  have hasked : (ToolStep.forms (tool.run call decimal).1).length ≤ max tool.maxRounds 1 := asked_le
  generalize tool.run call decimal = r at hran hasked ⊢
  cases hran with
  | @refused forms e _ hr _ =>
    have hrefused : Refused tool.projection decimal call.operationId
        (refuseWith tool.projection decimal e call.operationId) := ⟨e,hr,rfl⟩
    exact ⟨by simp,by simp,fun _ => ⟨by simp,hrefused.effects⟩,hasked⟩
  | launched _ ha _ hp hw =>
    obtain ⟨hs,he⟩ := admission_ok.mp ha
    refine ⟨by simp,?_,?_,hasked⟩
    · intro r hr
      simp only [ToolStep.launches_append, ToolStep.launches_asked, executeTurn_launches,
        List.nil_append, List.mem_singleton] at hr
      subst hr
      refine ⟨_,_,hs,he,?_⟩
      simpa using hp
    · intro h
      simp only [ToolStep.forms_append, ToolStep.forms_asked, executeTurn_forms,
        List.append_nil] at h
      exact absurd h (not_withholds ha hp hw)

end TowerAgent.Mcp.PlanTool
