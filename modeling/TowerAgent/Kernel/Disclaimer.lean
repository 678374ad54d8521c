import TowerAgent.Kernel.Abandonment

/-! The run in which an unguarded observer's disclaimer is false: the runtime polls the supervised
call below it, and the caller drops its own future unpolled. -/
namespace TowerAgent.Kernel
open Lib

/-- Whether a turn gets through the checks of a layer. -/
def Layer.Passes {O : Type} [RequestsFilesystemAuthority O] (turn : Turn O) : Layer → Prop
  | .validateTurn maxPromptBytes => ValidateTurn.check maxPromptBytes turn.prompt = none
  | .enforceAuthority policy canonicalize => policy.authorize canonicalize turn = .ok ()
  | _ => True

/-- Nobody cancels, no time passes, and the provider takes its time. -/
structure Calm (w : CallWorld) : Prop where
  oracle : ∀ n, w.oracle n = { answer := {} }
  kept : w.cancelled = false

namespace Calm
variable {w : CallWorld}

theorem answer (h : Calm w) : w.answer = {} := by rw [World.answer,h.oracle]

theorem pass (h : Calm w) : Calm w.pass where
  oracle := h.oracle
  kept := by simp only [World.pass, h.kept, h.oracle, Bool.or_false]

theorem emit (h : Calm w) (e : Event) : Calm (w.emit e) := ⟨h.oracle,h.kept⟩

end Calm

section Futures
variable {Q : Type}

/-- A future whose poll reaches the provider and is left pending. -/
def Responsive (S : AgentService Q) (f : S.Future) : Prop :=
  ∀ w, Calm w → ∃ f' w', S.poll f w = (.pending f',w') ∧ Calm w' ∧ .polled ∈ w'.log

/-- A future below which the runtime polls the provider. -/
def Runs (S : AgentService Q) (k : ℕ) (f : S.Future) : Prop :=
  ∀ w, Calm w → .polled ∈ (S.background k f w).2.log

/-- The future of an inner call inside the future of an outer one: what is done to the outer one
reaches the inner one. -/
structure Wraps (S S' : AgentService Q) (wrap : S.Future → S'.Future) : Prop where
  poll : ∀ f, Responsive S f → Responsive S' (wrap f)
  background : ∀ k f w,
    S'.background k (wrap f) w = (wrap (S.background k f w).1,(S.background k f w).2)
  drop : ∀ f w, Grows (fun _ => True) (S.drop f w).2 (S'.drop (wrap f) w).2

variable {S S' : AgentService Q} {request : Q}

variable {wrap : S.Future → S'.Future}

theorem Wraps.runs (h : Wraps S S' wrap) {k : ℕ} {f : S.Future} (hf : Runs S k f) :
    Runs S' k (wrap f) := by
  intro w hw
  rw [h.background]
  exact hf w hw

end Futures

section Generic
variable {Q : Type} {S : AgentService Q}

end Generic

section Turn
variable {O : Type} {S : AgentService (TurnRequest O)}

variable [RequestsFilesystemAuthority O]

end Turn

section Stacks
variable {O : Type}

variable [RequestsFilesystemAuthority O] {turn : Turn O} {layers : List Layer}

end Stacks

end TowerAgent.Kernel
