import Mathlib.Logic.Basic
import Mathlib.Data.List.Induction

/-! Layered bindings: partial assignments to paths, laid over one another so that a higher one wins
wherever it binds. -/
namespace TowerAgent.Lib

/-- A partial assignment of values to paths. -/
abbrev Bindings {P : Type*} (V : P → Type*) := (p : P) → Option (V p)

namespace Bindings
variable {P : Type*} {V : P → Type*}

/-- The assignment that binds nothing. -/
def unbound : Bindings V := fun _ => none

/-- Lay one assignment over another. -/
def overlay (lower upper : Bindings V) : Bindings V := fun p => (upper p).or (lower p)

/-- Lay assignments over one another, the lowest first. -/
def stack (layers : List (Bindings V)) : Bindings V := layers.foldl overlay unbound

theorem overlay_assoc (a b c : Bindings V) : overlay (overlay a b) c = overlay a (overlay b c) := by
  funext p
  simp only [overlay, Option.or_assoc]

@[simp] theorem overlay_unbound (a : Bindings V) : overlay a unbound = a := by
  funext p
  simp [overlay, unbound]

@[simp] theorem unbound_overlay (a : Bindings V) : overlay unbound a = a := by
  funext p
  simp [overlay, unbound]

theorem stack_concat (layers : List (Bindings V)) (top : Bindings V) :
    stack (layers ++ [top]) = overlay (stack layers) top := by
  simp [stack, List.foldl_append]

/-- A stack binds a path as the highest layer that binds it. -/
theorem stack_eq_some {layers : List (Bindings V)} {p : P} {v : V p} : stack layers p = some v ↔
    ∃ lower layer upper, layers = lower ++ layer::upper ∧ layer p = some v ∧
      ∀ u ∈ upper, u p = none := by
  induction layers using List.reverseRecOn with
  | nil => simp [stack, unbound]
  | append_singleton layers top ih =>
    rw [stack_concat,overlay,Option.or_eq_some_iff,ih]
    constructor
    · rintro (h | ⟨hn,lower,layer,upper,rfl,hv,hu⟩)
      · exact ⟨layers,top,[],rfl,h,by simp⟩
      · refine ⟨lower,layer,upper ++ [top],by simp,hv,fun u hm => ?_⟩
        rcases List.mem_append.mp hm with hm | hm
        · exact hu u hm
        · exact List.mem_singleton.mp hm ▸ hn
    · rintro ⟨lower,layer,upper,he,hv,hu⟩
      rcases List.eq_nil_or_concat upper with rfl | ⟨upper,w,rfl⟩
      · obtain ⟨-,he⟩ := List.append_inj' he rfl
        obtain rfl := (List.cons.inj he).1
        exact .inl hv
      · rw [List.concat_eq_append,←List.cons_append,←List.append_assoc] at he
        obtain ⟨rfl,hw⟩ := List.append_inj' he rfl
        obtain rfl := (List.cons.inj hw).1
        refine .inr ⟨hu _ (by simp),lower,layer,upper,rfl,hv,fun u hm => hu u (by simp [hm])⟩

/-- A stack leaves a path unbound when every layer does. -/
theorem stack_eq_none {layers : List (Bindings V)} {p : P} :
    stack layers p = none ↔ ∀ l ∈ layers, l p = none := by
  induction layers using List.reverseRecOn with
  | nil => simp [stack, unbound]
  | append_singleton layers top ih =>
    rw [stack_concat,overlay,Option.or_eq_none_iff,ih]
    simp only [List.mem_append, List.mem_singleton]
    constructor
    · rintro ⟨ht,hl⟩ l (hm | rfl)
      · exact hl l hm
      · exact ht
    · exact fun h => ⟨h top (.inr rfl),fun l hm => h l (.inl hm)⟩

/-- Whatever the first assignment binds, the second binds alike. -/
def Within (a b : Bindings V) : Prop := ∀ p v, a p = some v → b p = some v

theorem Within.refl (a : Bindings V) : Within a a := fun _ _ h => h

theorem Within.trans {a b c : Bindings V} (hab : Within a b) (hbc : Within b c) : Within a c :=
  fun p v h => hbc p v (hab p v h)

end Bindings
/-- A field filled from a binding: what is bound stands there, under an encoding that confuses no
two values, and without a binding the field keeps its initial value. -/
structure Honors {α β : Type*} (encode : α → β) (initial : β) (binding : Option α) (field : β) :
    Prop where
  exact : Function.Injective encode
  present : ∀ v, binding = some v → field = encode v
  absent : binding = none → field = initial

namespace Honors
variable {α β : Type*} {encode : α → β} {initial : β} {binding : Option α}

lemma getD (initial : α) (binding : Option α) :
    Honors id initial binding (binding.getD initial) where
  exact := Function.injective_id
  present := by rintro v rfl; rfl
  absent := by rintro rfl; rfl

lemma mapGetD (h : Function.Injective encode) (initial : β) (binding : Option α) :
    Honors encode initial binding ((binding.map encode).getD initial) where
  exact := h
  present := by rintro v rfl; rfl
  absent := by rintro rfl; rfl

lemma map (h : Function.Injective encode) (binding : Option α) :
    Honors (fun v => some (encode v)) none binding (binding.map encode) where
  exact := fun _ _ he => h (Option.some.inj he)
  present := by rintro v rfl; rfl
  absent := by rintro rfl; rfl

lemma self (binding : Option α) : Honors some none binding binding where
  exact := fun _ _ he => Option.some.inj he
  present := fun _ h => h
  absent := fun h => h

/-- A binding leaves one value for the field that honors it. -/
theorem unique {x y : β} (hx : Honors encode initial binding x)
    (hy : Honors encode initial binding y) : x = y := by
  cases hb : binding with
  | none => rw [hx.absent hb,hy.absent hb]
  | some v => rw [hx.present v hb,hy.present v hb]

end Honors

end TowerAgent.Lib
