import TowerAgent.Mcp.PlanSafety

/-! Where a planning tool falls short of its documentation: the answers of the last permitted round
are not resolved, and a provider that is not known is left to the defaults and the client. -/
namespace TowerAgent.Mcp.PlanTool
open Lib Kernel Plan

/-- The plan is complete with the answers that the client gave in a number of rounds. -/
def ReadyAfter (tool : PlanTool) (call : PlanCall) (k : ℕ) : Prop :=
  ∃ scope explicit answers ready, call.admission = .ok (scope,explicit) ∧
    answersAfter tool call.client explicit k 0 [] = some answers ∧
    prepare (tool.layers explicit answers) = .ready ready

section Launches
variable {tool : PlanTool} {decimal : F64 → String} {call : PlanCall}

/-- What was planned is ready exactly when fewer rounds than permitted complete the plan. -/
lemma planned_iff : (∃ planned, (tool.plan call).result = .ok planned) ↔
    ∃ k < max tool.maxRounds 1, ReadyAfter tool call k := by
  cases ha : call.admission with
  | error e => simp [plan_refused ha, ReadyAfter, ha]
  | ok admitted =>
    obtain ⟨scope,explicit⟩ := admitted
    have hplan : tool.plan call = _ := plan_admitted ha rfl
    constructor
    · rintro ⟨planned,hp⟩
      rw [hplan] at hp
      obtain ⟨ready,hr,-⟩ := map_eq_ok hp
      obtain ⟨k,hk,answers,hanswers,hready⟩ := dialogue_ready_iff.mp hr
      exact ⟨k,hk,scope,explicit,answers,ready,ha,hanswers,hready⟩
    · rintro ⟨k,hk,scope',explicit',answers,ready,ha',hanswers,hready⟩
      obtain ⟨rfl,rfl⟩ := Prod.mk.inj (Except.ok.inj (ha.symm.trans ha'))
      refine ⟨(scope,ready),?_⟩
      have hr : (tool.dialogue call.client explicit (max tool.maxRounds 1) 0 []).result =
          .ok ready := dialogue_ready_iff.mpr ⟨k,hk,answers,hanswers,hready⟩
      simp only [hplan, hr, Except.map]

/-- A turn is launched exactly when fewer rounds than permitted complete the plan. -/
theorem launches_iff : (ToolStep.launches (tool.run call decimal).1).length = 1 ↔
    ∃ k < max tool.maxRounds 1, ReadyAfter tool call k := by
  rw [←planned_iff]
  have hran : Ran tool decimal call (tool.run call decimal) := run_ran
  generalize tool.run call decimal = r at hran
  cases hran with
  | refused hplan => simp [hplan]
  | launched hplan => simp [hplan]

/-- Nothing is launched, and the call refused, exactly when no number of rounds below the permitted
one completes the plan. -/
theorem refused_iff : (ToolStep.launches (tool.run call decimal).1 = [] ∧
    Refused tool.projection decimal call.operationId (tool.run call decimal).2) ↔
    ¬∃ k < max tool.maxRounds 1, ReadyAfter tool call k := by
  rw [←planned_iff]
  have hran : Ran tool decimal call (tool.run call decimal) := run_ran
  generalize tool.run call decimal = r at hran
  cases hran with
  | @refused forms e hplan hr _ =>
    have hrefused : Refused tool.projection decimal call.operationId
        (refuseWith tool.projection decimal e call.operationId) := ⟨e,hr,rfl⟩
    simp [hplan, hrefused]
  | launched hplan => simp [hplan]

/-- Only one number of rounds completes a plan. -/
lemma not_readyAfter_before {n : ℕ} (h : ReadyAfter tool call n) :
    ¬∃ k < n, ReadyAfter tool call k := by
  obtain ⟨scope,explicit,answers,ready,ha,hanswers,-⟩ := h
  rintro ⟨k,hk,scope',explicit',mid,ready',ha',hmid,hready⟩
  obtain ⟨rfl,rfl⟩ := Prod.mk.inj (Except.ok.inj (ha.symm.trans ha'))
  exact not_ready_before hanswers ⟨k,hk,mid,hmid,ready',hready⟩

end Launches

/-- Every permitted round counts: the client is asked at most as often as configured, and the turn
is executed once if after some permitted number of rounds the plan is complete. -/
def RoundsHonoured (tool : PlanTool) (decimal : F64 → String) (call : PlanCall) : Prop :=
  (ToolStep.forms (tool.run call decimal).1).length ≤ tool.maxRounds ∧
    ∀ k ≤ tool.maxRounds, ReadyAfter tool call k →
      (ToolStep.launches (tool.run call decimal).1).length = 1

/-- The permitted rounds are honoured except where it is the last of them that completes the plan:
the loop resolves before it asks, so the answers of its last round are dropped. -/
theorem rounds_honoured_iff (tool : PlanTool) (decimal : F64 → String) (call : PlanCall)
    (h : 1 ≤ tool.maxRounds) :
    RoundsHonoured tool decimal call ↔ ¬ReadyAfter tool call tool.maxRounds := by
  have hmax : max tool.maxRounds 1 = tool.maxRounds := max_eq_left h
  constructor
  · rintro ⟨-,honoured⟩ hready
    have hlaunch := honoured tool.maxRounds le_rfl hready
    rw [launches_iff,hmax] at hlaunch
    exact not_readyAfter_before hready hlaunch
  · intro hlast
    refine ⟨hmax ▸ asked_le,fun k hk hready => ?_⟩
    rw [launches_iff,hmax]
    refine ⟨k,lt_of_le_of_ne hk ?_,hready⟩
    rintro rfl
    exact hlast hready

/-- A caller with a provider and no prompt, whose client types one in the first round. -/
def promptedCall : PlanCall where
  scope := .ok (.session "stdio")
  input := { provider := some "claude" }
  client _ _ := .ok ⟨.accept,some [("prompt",.string "go")]⟩
  store := ⟨fun _ _ => .error (.backend "full"),fun _ _ => .ok none⟩
  service ready := .ok { output := ready.provider.asStr }
  operationId := 7

/-- With two rounds, the answer of the first is resolved in the second. -/
theorem rounds_honoured_sample : RoundsHonoured { maxRounds := 2 } (fun _ => "0") promptedCall := by
  refine (rounds_honoured_iff _ _ _ (by decide)).mpr ?_
  rintro ⟨scope,explicit,answers,ready,ha,hanswers,-⟩
  have hadmission : promptedCall.admission =
    .ok (.session "stdio",{ provider := some .claude }) := rfl
  obtain ⟨rfl,rfl⟩ := Prod.mk.inj (Except.ok.inj (hadmission.symm.trans ha))
  cases hanswers

/-- With one round, its answer is not. -/
theorem lastRound_dropped : ¬∀ (tool : PlanTool) (decimal : F64 → String) (call : PlanCall),
    1 ≤ tool.maxRounds → RoundsHonoured tool decimal call := by
  intro h
  have hready : ReadyAfter { maxRounds := 1 } promptedCall 1 :=
    ⟨_,_,_,_,rfl,rfl,rfl⟩
  have hlaunch := (h { maxRounds := 1 } (fun _ => "0") promptedCall le_rfl).2 1 le_rfl hready
  exact absurd hlaunch (by decide)

/-- A request for an unknown provider ends in a refusal, and nothing is launched. -/
def NeverSubstituted (tool : PlanTool) (decimal : F64 → String) (call : PlanCall) : Prop :=
  ToolStep.launches (tool.run call decimal).1 = [] ∧
    Refused tool.projection decimal call.operationId (tool.run call decimal).2

/-- A provider that names no known one is left unbound: it is refused unless there is a scope and,
within the permitted rounds, the defaults and the client's answers complete the plan without it. -/
theorem neverSubstituted_iff (tool : PlanTool) (decimal : F64 → String) (call : PlanCall)
    (hc : call.input.continuation = none) {name : String} (hp : call.input.provider = some name)
    (hn : ProviderId.fromStr name = none) :
    NeverSubstituted tool decimal call ↔ (∃ unavailable, call.scope = .error unavailable) ∨
      ∀ k < max tool.maxRounds 1, ∀ answers ready,
        answersAfter tool call.client { prompt := call.input.prompt } k 0 [] = some answers →
          prepare (tool.layers { prompt := call.input.prompt } answers) ≠ .ready ready := by
  have hlayer : ∀ scope, explicitLayer call.store.resolve scope call.input =
      .ok { prompt := call.input.prompt } := by
    intro scope
    simp only [explicitLayer, hc, hp, Option.bind_some, hn]
  unfold NeverSubstituted
  rw [refused_iff]
  constructor
  · intro hnone
    cases hs : call.scope with
    | error unavailable => exact .inl ⟨unavailable,rfl⟩
    | ok scope =>
      refine .inr (fun k hk answers ready ha hready => hnone ?_)
      exact ⟨k,hk,scope,_,answers,ready,admission_ok.mpr ⟨hs,hlayer scope⟩,ha,hready⟩
  · rintro hcond ⟨k,hk,scope,explicit,answers,ready,hadmission,ha,hready⟩
    obtain ⟨hs,he⟩ := admission_ok.mp hadmission
    obtain rfl := Except.ok.inj ((hlayer scope).symm.trans he)
    rcases hcond with ⟨unavailable,hu⟩ | hcond
    · rw [hs] at hu
      cases hu
    · exact hcond k hk answers ready ha hready

/-- A caller that asks for a provider this build does not know. -/
def geminiCall : PlanCall where
  scope := .ok (.session "stdio")
  input := { prompt := some "go", provider := some "gemini" }
  client _ _ := .ok ⟨.decline,none⟩
  store := ⟨fun _ _ => .error (.backend "full"),fun _ _ => .ok none⟩
  service ready := .ok { output := ready.provider.asStr }
  operationId := 7

/-- Without a default provider, and with a client that declines to pick one, it is refused. -/
theorem neverSubstituted_sample : NeverSubstituted {} (fun _ => "0") geminiCall := by
  refine (neverSubstituted_iff _ _ geminiCall rfl rfl rfl).mpr (.inr ?_)
  intro k _ answers ready ha hready
  cases k with
  | zero =>
    obtain rfl := Option.some.inj ha
    cases hready
  | succ k => cases ha

/-- With a default provider, the turn runs on that one. -/
theorem unknownProvider_substituted : ¬∀ (tool : PlanTool) (decimal : F64 → String)
    (call : PlanCall) (name : String), call.input.continuation = none →
      call.input.provider = some name → ProviderId.fromStr name = none →
      NeverSubstituted tool decimal call := by
  intro h
  have hnone := (h { defaults := { provider := some .claude } } (fun _ => "0") geminiCall "gemini"
    rfl rfl rfl).1
  exact absurd (congrArg List.length hnone) (by decide)

end TowerAgent.Mcp.PlanTool
