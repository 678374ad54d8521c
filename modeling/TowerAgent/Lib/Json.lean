import Mathlib.Algebra.Group.Nat.Defs

/-! JSON values with their compact text, and doubles by their bits. -/
namespace TowerAgent.Lib

/-- A JSON value; numbers keep their literal text, and an object its entries in order. -/
inductive Json where
  | null
  | bool (b : Bool)
  | number (literal : String)
  | string (s : String)
  | array (items : List Json)
  | object (entries : List (String × Json))
  deriving Repr

namespace Json

def hexDigit (n : ℕ) : Char := "0123456789abcdef".toList.getD n '0'

/-- One character inside a JSON string. -/
def escapeChar (c : Char) : String :=
  if c = '"' then "\\\""
  else if c = '\\' then "\\\\"
  else if c = '\n' then "\\n"
  else if c = '\r' then "\\r"
  else if c = '\t' then "\\t"
  else if c.val = 8 then "\\b"
  else if c.val = 12 then "\\f"
  else if c.val < 32 then
    "\\u00" ++ String.ofList [hexDigit (c.toNat / 16),hexDigit (c.toNat % 16)]
  else String.ofList [c]

/-- A quoted JSON string. -/
def quote (s : String) : String := "\"" ++ String.join (s.toList.map escapeChar) ++ "\""

mutual

/-- The compact text of a value. -/
def text : Json → String
  | .null => "null"
  | .bool b => toString b
  | .number literal => literal
  | .string s => quote s
  | .array items => "[" ++ itemsText items ++ "]"
  | .object entries => "\x7b" ++ entriesText entries ++ "\x7d"

def itemsText : List Json → String
  | [] => ""
  | [item] => item.text
  | item::items => item.text ++ "," ++ itemsText items

def entriesText : List (String × Json) → String
  | [] => ""
  | [(key,value)] => quote key ++ ":" ++ value.text
  | (key,value)::entries => quote key ++ ":" ++ value.text ++ "," ++ entriesText entries

end

def isNull : Json → Bool
  | .null => true
  | _ => false

def isObject : Json → Bool
  | .object _ => true
  | _ => false

def asStr : Json → Option String
  | .string s => some s
  | _ => none

/-- The value at a key of an object. -/
def get (key : String) : Json → Option Json
  | .object entries => entries.lookup key
  | _ => none

/-- `value[key] = entry` of an object. -/
def insert (value : Json) (key : String) (entry : Json) : Json :=
  match value with
  | .object entries => .object (entries.filter (fun e => e.1 != key) ++ [(key,entry)])
  | value => value

/-- A natural number. -/
def nat (n : ℕ) : Json := .number (toString n)

/-- The decimal text of a number is its own. -/
lemma natText_injective : Function.Injective (toString : ℕ → String) := by
  intro m n h
  have hd := congrArg (fun s : String => Nat.ofDigitChars 10 s.toList 0) h
  simpa [Nat.toList_repr] using hd

lemma nat_injective : Function.Injective nat :=
  fun _ _ h => natText_injective (Json.number.inj h)

/-- Assigning one key keeps what is at the others. -/
theorem get_insert_of_ne {key key' : String} (h : key' ≠ key) (entry value : Json) :
    (value.insert key entry).get key' = value.get key' := by
  cases value with
  | object entries =>
    induction entries with
    | nil =>
      have hne : (key' == key) = false := beq_eq_false_iff_ne.mpr h
      simp [insert, get, List.lookup_cons, hne]
    | cons e entries ih =>
      obtain ⟨k,v⟩ := e
      by_cases hk : k = key
      · subst hk
        have hne : (key' == k) = false := beq_eq_false_iff_ne.mpr h
        simpa [insert, get, List.lookup_cons, hne] using ih
      · by_cases hk' : key' = k
        · subst hk'
          simp [insert, get, h]
        · have hne : (key' == k) = false := beq_eq_false_iff_ne.mpr hk'
          simpa [insert, get, List.lookup_cons, hk, hne] using ih
  | _ => rfl

/-- The text of an object begins with its brace. -/
lemma object_head (entries : List (String × Json)) :
    ∃ rest, (Json.object entries).text.toList = '\x7b'::rest :=
  ⟨(entriesText entries ++ "\x7d").toList,by simp [text]⟩

/-- `null` for an absent value. -/
def ofOption {α : Type} (f : α → Json) (x : Option α) : Json := x.elim .null f

section OneLine

/-- A text without line ends. -/
def OneLine (s : String) : Prop := '\n' ∉ s.toList ∧ '\r' ∉ s.toList

instance (s : String) : Decidable (OneLine s) := inferInstanceAs (Decidable (_ ∧ _))

@[simp] lemma oneLine_append {s t : String} : OneLine (s ++ t) ↔ OneLine s ∧ OneLine t := by
  simp only [OneLine, String.toList_append, List.mem_append, not_or]
  constructor
  · rintro ⟨⟨hs,ht⟩,hs',ht'⟩
    exact ⟨⟨hs,hs'⟩,ht,ht'⟩
  · rintro ⟨⟨hs,hs'⟩,ht,ht'⟩
    exact ⟨⟨hs,ht⟩,hs',ht'⟩

lemma oneLine_join {l : List String} (h : ∀ s ∈ l, OneLine s) : OneLine (String.join l) := by
  induction l with
  | nil => decide
  | cons s l ih =>
    rw [String.join_cons,oneLine_append]
    exact ⟨h s List.mem_cons_self,ih fun t ht => h t (List.mem_cons_of_mem _ ht)⟩

lemma hexDigit_mem (n : ℕ) : hexDigit n ∈ "0123456789abcdef".toList := by
  unfold hexDigit
  rw [List.getD_eq_getElem?_getD]
  cases h : "0123456789abcdef".toList[n]? with
  | none => decide
  | some c => exact List.mem_of_getElem? h

lemma oneLine_escapeChar (c : Char) : OneLine (escapeChar c) := by
  have hhex (n : ℕ) : hexDigit n ≠ '\n' ∧ hexDigit n ≠ '\r' := by
    refine ⟨fun h => ?_,fun h => ?_⟩ <;> exact absurd (h ▸ hexDigit_mem n) (by decide)
  unfold escapeChar
  split
  · decide
  split
  · decide
  split
  · decide
  next hn =>
  split
  · decide
  next hr =>
  split
  · decide
  split
  · decide
  split
  · decide
  split
  · rw [oneLine_append]
    refine ⟨by decide,?_,?_⟩
    · simp [Ne.symm (hhex _).1]
    · simp [Ne.symm (hhex _).2]
  · simp [OneLine, Ne.symm hn, Ne.symm hr]

/-- Quoting leaves no line ends. -/
@[simp] theorem oneLine_quote (s : String) : OneLine (quote s) := by
  simp only [quote, oneLine_append]
  refine ⟨⟨by decide,oneLine_join fun t ht => ?_⟩,by decide⟩
  obtain ⟨c,-,rfl⟩ := List.mem_map.mp ht
  exact oneLine_escapeChar c

@[simp] lemma oneLine_nat (n : ℕ) : OneLine (nat n).text := by
  have hd : ∀ c ∈ (toString n).toList, c.isDigit = true := fun c hc =>
    Nat.isDigit_of_mem_toDigits (b := 10) (n := n) (by decide) (by decide)
      (by simpa [Nat.toList_repr] using hc)
  exact ⟨fun h => absurd (hd _ h) (by decide),fun h => absurd (hd _ h) (by decide)⟩

/-- An object of one-line values is one line. -/
theorem oneLine_object {entries : List (String × Json)} (h : ∀ e ∈ entries, OneLine e.2.text) :
    OneLine (Json.object entries).text := by
  have he : OneLine (entriesText entries) := by
    induction entries with
    | nil => decide
    | cons e entries ih =>
      have hv := h e List.mem_cons_self
      have hrest := ih fun x hx => h x (List.mem_cons_of_mem _ hx)
      cases entries with
      | nil =>
        simp only [entriesText, oneLine_append, oneLine_quote, hv]
        decide
      | cons e' entries =>
        simp only [entriesText, oneLine_append, oneLine_quote, hv]
        exact ⟨by decide,hrest⟩
  simp only [text, oneLine_append, he]
  decide

end OneLine

end Json

/-- A double, by its bits. -/
structure F64 where
  bits : UInt64
  deriving DecidableEq, Repr

namespace F64
variable (x : F64)

def negative : Bool := decide (2^63 ≤ x.bits.toNat)
def exponent : ℕ := x.bits.toNat / 2^52 % 2^11
def fraction : ℕ := x.bits.toNat % 2^52
def isFinite : Bool := x.exponent != 2047

/-- The magnitude of a finite double, in units of `2^-1074`. -/
def magnitude : ℕ :=
  if x.exponent = 0 then x.fraction else (x.fraction + 2^52) * 2^(x.exponent-1)

/-- `x <= 0.0` of a finite double. -/
def lezero : Bool := x.negative || x.magnitude == 0

/-- Division to the nearest integer, ties to the even one. -/
def divNearest (a b : ℕ) : ℕ :=
  let q := a / b
  let r := a % b
  if 2*r < b then q else if b < 2*r then q+1 else q + q%2

/-- `{:.2}` of a double. -/
def fixed2 : String :=
  let sign := if x.negative then "-" else ""
  if x.isFinite then
    let cents := divNearest (x.magnitude*100) (2^1074)
    let rest := cents % 100
    sign ++ toString (cents/100) ++ "." ++ (if rest < 10 then "0" else "") ++ toString rest
  else if x.fraction = 0 then sign ++ "inf"
  else "NaN"

end F64

example : (Json.object [("a",.array [.null,.nat 3]),("b",.string "x\n")]).text =
    "\x7b\"a\":[null,3],\"b\":\"x\\n\"\x7d" := by decide

end TowerAgent.Lib
