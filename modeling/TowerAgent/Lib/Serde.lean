import TowerAgent.Lib.Fallible
import TowerAgent.Lib.Json

/-! Types written to and read from JSON values by derived serializers: records of named fields, with
optional ones that are skipped when they are absent, lists, and enumerations of unit variants. What
is read back of what is written, or that it is not read, is composed field by field. -/
namespace TowerAgent.Lib.Json

mutual

/-- How deep the arrays and objects of a value nest. -/
def depth : Json → ℕ
  | .array items => itemsDepth items + 1
  | .object entries => entriesDepth entries + 1
  | _ => 0

def itemsDepth : List Json → ℕ
  | [] => 0
  | item::items => max item.depth (itemsDepth items)

def entriesDepth : List (String × Json) → ℕ
  | [] => 0
  | (_,value)::entries => max value.depth (entriesDepth entries)

end

mutual

/-- The literals of the numbers in a value. -/
def numbers : Json → List String
  | .number literal => [literal]
  | .array items => itemsNumbers items
  | .object entries => entriesNumbers entries
  | _ => []

def itemsNumbers : List Json → List String
  | [] => []
  | item::items => item.numbers ++ itemsNumbers items

def entriesNumbers : List (String × Json) → List String
  | [] => []
  | (_,value)::entries => value.numbers ++ entriesNumbers entries

end

section Reread
variable (literal : String → Option String)

mutual

/-- A value with every number read again. -/
def reread : Json → Option Json
  | .number text => (literal text).map .number
  | .array items => (rereadItems items).map .array
  | .object entries => (rereadEntries entries).map .object
  | value => some value

def rereadItems : List Json → Option (List Json)
  | [] => some []
  | item::items => do
    let item ← item.reread
    let items ← rereadItems items
    return item::items

def rereadEntries : List (String × Json) → Option (List (String × Json))
  | [] => some []
  | (key,value)::entries => do
    let value ← value.reread
    let entries ← rereadEntries entries
    return (key,value)::entries

end

mutual

/-- A value is read as itself exactly when its numbers are. -/
theorem reread_eq_self : (value : Json) →
    (value.reread literal = some value ↔ ∀ text ∈ value.numbers, literal text = some text)
  | .number text => by simp [reread, numbers]
  | .array items => by simp [reread, numbers, rereadItems_eq_self items]
  | .object entries => by simp [reread, numbers, rereadEntries_eq_self entries]
  | .null | .bool _ | .string _ => by simp [reread, numbers]

theorem rereadItems_eq_self : (items : List Json) →
    (rereadItems literal items = some items ↔
      ∀ text ∈ itemsNumbers items, literal text = some text)
  | [] => by simp [rereadItems, itemsNumbers]
  | item::items => by
    simp [rereadItems, itemsNumbers, Option.bind_eq_some_iff, or_imp, forall_and,
      reread_eq_self item, rereadItems_eq_self items]

theorem rereadEntries_eq_self : (entries : List (String × Json)) →
    (rereadEntries literal entries = some entries ↔
      ∀ text ∈ entriesNumbers entries, literal text = some text)
  | [] => by simp [rereadEntries, entriesNumbers]
  | (key,value)::entries => by
    simp [rereadEntries, entriesNumbers, Option.bind_eq_some_iff, or_imp, forall_and,
      reread_eq_self value, rereadEntries_eq_self entries]

end

end Reread
end TowerAgent.Lib.Json

namespace TowerAgent.Lib.Serde

/-- Why a value is not read. -/
inductive DecodeError where
  /-- A value of another kind, or one out of its type's range. -/
  | invalid
  | unknownField (name : String)
  | duplicateField (name : String)
  | missingField (name : String)
  | unknownVariant (name : String)
  | invalidLength
  deriving DecidableEq, Repr

/-- How the values of a type are written, and read again. -/
structure Codec (ε α : Type) where
  serialize : α → Except ε Json
  deserialize : Json → Except DecodeError α

/-- A field of a record `ρ`, read into the fields found so far. -/
structure Field (ε ρ σ : Type) where
  name : String
  /-- Nothing is written for a skipped field. -/
  write : ρ → Except ε (Option Json)
  read : Json → σ → Except DecodeError σ

/-- The natural number a literal of digits alone is. -/
def natLiteral (literal : String) : Option ℕ :=
  if literal.toList ≠ [] ∧ literal.toList.all Char.isDigit then
    some (Nat.ofDigitChars 10 literal.toList 0)
  else none

/-- What a text format makes of doubles, and how deep it lets a value nest that stands in a field. -/
structure TextFormat where
  decimal : F64 → String
  double : String → Option F64
  depth : ℕ

/-- The literal of an integer of 64 bits, which is not read as a double. -/
def integerLiteral (literal : String) : Option String :=
  match literal.toList with
  | '-'::digits => ((natLiteral (String.ofList digits)).filter fun n => 0 < n ∧ n ≤ 2^63).map
    ("-" ++ toString ·)
  | _ => ((natLiteral literal).filter (· < 2^64)).map toString

namespace TextFormat
variable (format : TextFormat)

/-- How a number is written again that is read from a literal. -/
def number (literal : String) : Option String :=
  (integerLiteral literal).or ((format.double literal).map format.decimal)

/-- What a value reads as that is written in a field. -/
def read (value : Json) : Option Json :=
  if value.depth ≤ format.depth then value.reread format.number else none

/-- The value nests no deeper than the format lets it, and each of its numbers reads as itself. -/
def Keeps (value : Json) : Prop :=
  value.depth ≤ format.depth ∧ ∀ literal ∈ value.numbers, format.number literal = some literal

theorem read_eq_self {value : Json} : format.read value = some value ↔ format.Keeps value := by
  unfold read Keeps
  split
  · next h => simp [h, Json.reread_eq_self]
  · next h => simp [h]

end TextFormat

variable {ε α ρ σ : Type}

namespace Codec

/-- Any JSON value. -/
def value (format : TextFormat) : Codec ε Json where
  serialize := .ok
  deserialize value := (format.read value).elim (.error .invalid) .ok

def string : Codec ε String where
  serialize s := .ok (.string s)
  deserialize
    | .string s => .ok s
    | _ => .error .invalid

def boolean : Codec ε Bool where
  serialize b := .ok (.bool b)
  deserialize
    | .bool b => .ok b
    | _ => .error .invalid

def u32 : Codec ε UInt32 where
  serialize n := .ok (.nat n.toNat)
  deserialize
    | .number literal =>
      match natLiteral literal with
      | some n => if n < 2^32 then .ok (UInt32.ofNat n) else .error .invalid
      | none => .error .invalid
    | _ => .error .invalid

/-- A double, by its literal; one that is not finite is written as `null`. -/
def f64 (format : TextFormat) : Codec ε F64 where
  serialize x := .ok (if x.isFinite then .number (format.decimal x) else .null)
  deserialize
    | .number literal => (format.double literal).elim (.error .invalid) .ok
    | _ => .error .invalid

def list (item : Codec ε α) : Codec ε (List α) where
  serialize xs := (xs.mapM item.serialize).map .array
  deserialize
    | .array values => values.mapM item.deserialize
    | _ => .error .invalid

/-- An enumeration of unit variants by their names; a map of one name to `null` is read as well. -/
def variants (all : List α) (name : α → String) : Codec ε α where
  serialize x := .ok (.string (name x))
  deserialize
    | .string s => (all.find? (name · = s)).elim (.error (.unknownVariant s)) .ok
    | .object [(s,.null)] => (all.find? (name · = s)).elim (.error (.unknownVariant s)) .ok
    | _ => .error .invalid

end Codec

namespace Field
variable (name : String)

/-- A field that a predicate skips. -/
def group (get : ρ → α) (put : α → σ → σ) (skip : α → Bool) (codec : Codec ε α) :
    Field ε ρ σ where
  name := name
  write a := if skip (get a) then .ok none else (codec.serialize (get a)).map some
  read value s := (codec.deserialize value).map (put · s)

/-- An `Option` field that is skipped when it is `None`; `null` reads as `None`. -/
def optional (get : ρ → Option α) (put : Option α → σ → σ) (codec : Codec ε α) :
    Field ε ρ σ where
  name := name
  write a :=
    match get a with
    | none => .ok none
    | some x => (codec.serialize x).map some
  read
    | .null,s => .ok (put none s)
    | value,s => (codec.deserialize value).map (fun x => put (some x) s)

/-- A field that is always written, and read into an empty slot. -/
def required (get : ρ → α) (put : Option α → σ → σ) (codec : Codec ε α) : Field ε ρ σ where
  name := name
  write a := (codec.serialize (get a)).map some
  read value s := (codec.deserialize value).map (fun x => put (some x) s)

/-- The value of a required field, once all are read. -/
def demand : Option α → Except DecodeError α
  | some x => .ok x
  | none => .error (.missingField name)

end Field

/-- The entries of a record, in the order of its fields. -/
def serializeFields : List (Field ε ρ σ) → ρ → Except ε (List (String × Json))
  | [],_ => .ok []
  | f::fields,a => do
    let entry ← f.write a
    let entries ← serializeFields fields a
    return (entry.map (f.name,·)).toList ++ entries

/-- Read the entries of an object in their order, every one a field that was not read before. -/
def visitMap (fields : List (Field ε ρ σ)) :
    List String → List (String × Json) → σ → Except DecodeError σ
  | _,[],s => .ok s
  | seen,(name,value)::entries,s =>
    match fields.find? (·.name = name) with
    | none => .error (.unknownField name)
    | some f =>
      if name ∈ seen then .error (.duplicateField name)
      else do
        let s ← f.read value s
        visitMap fields (name::seen) entries s

/-- Read the items of an array as the fields in their order. -/
def visitSeq : List (Field ε ρ σ) → List Json → σ → Except DecodeError σ
  | _,[],s => .ok s
  | [],_::_,_ => .error .invalidLength
  | f::fields,value::values,s => do
    let s ← f.read value s
    visitSeq fields values s

/-- Read a record over what its fields hold at first. -/
def deserializeStruct (fields : List (Field ε ρ σ)) (start : σ) : Json → Except DecodeError σ
  | .object entries => visitMap fields [] entries start
  | .array values => visitSeq fields values start
  | _ => .error .invalid

/-- A record made of what its fields were read into. -/
def Codec.record (fields : List (Field ε ρ σ)) (start : σ) (finish : σ → Except DecodeError ρ) :
    Codec ε ρ where
  serialize a := (serializeFields fields a).map .object
  deserialize value := (deserializeStruct fields start value).bind finish

/-- A record whose missing fields stay as they are in its default. -/
def Codec.struct (fields : List (Field ε ρ ρ)) (default : ρ) : Codec ε ρ :=
  record fields default .ok

/-- The value is written, as something other than `null`, and what is written reads as the other, or
is not read. -/
def Codec.ReadsAs (codec : Codec ε α) (x : α) (r : Option α) : Prop :=
  ∃ value, codec.serialize x = .ok value ∧ value ≠ .null ∧ (codec.deserialize value).toOption = r

lemma toOption_eq_some {x : Except ε α} {a : α} : x.toOption = some a ↔ x = .ok a := by
  cases x <;> simp [Except.toOption]

lemma toOption_map {β : Type} (f : α → β) (x : Except ε α) :
    (x.map f).toOption = x.toOption.map f := by cases x <;> rfl

lemma toOption_bind {β : Type} (x : Except ε α) (f : α → Except ε β) :
    (x.bind f).toOption = x.toOption.bind fun a => (f a).toOption := by cases x <;> rfl

lemma toOption_elim (r : Option α) (e : ε) :
    (r.elim (.error e) .ok : Except ε α).toOption = r := by cases r <;> rfl

namespace Codec.ReadsAs
variable {codec : Codec ε α} {x y : α} {r : Option α}

/-- What is read of what is written, where the value reads as another. -/
theorem iff_eq (h : codec.ReadsAs x r) {z : α} :
    (∃ value, codec.serialize x = .ok value ∧ codec.deserialize value = .ok z) ↔ r = some z := by
  obtain ⟨value,hs,-,rfl⟩ := h
  rw [toOption_eq_some]
  constructor
  · rintro ⟨value',hs',hd'⟩
    obtain rfl := Except.ok.inj (hs.symm.trans hs')
    exact hd'
  · exact fun hd => ⟨value,hs,hd⟩

theorem string (s : String) : (Codec.string : Codec ε String).ReadsAs s (some s) :=
  ⟨_,rfl,Json.noConfusion,rfl⟩

theorem boolean (b : Bool) : (Codec.boolean : Codec ε Bool).ReadsAs b (some b) :=
  ⟨_,rfl,Json.noConfusion,rfl⟩

lemma natLiteral_toString (n : ℕ) : natLiteral (toString n) = some n := by
  have hd : (toString n).toList.all Char.isDigit = true := by
    refine List.all_eq_true.mpr fun c hc => ?_
    exact Nat.isDigit_of_mem_toDigits (b := 10) (n := n) (by decide) (by decide)
      (by simpa [Nat.toList_repr] using hc)
  have hne : (toString n).toList ≠ [] := by
    have hlen : 0 < (toString n).toList.length := by
      simpa [Nat.toList_repr] using Nat.length_toDigits_pos
    exact List.ne_nil_of_length_pos hlen
  rw [natLiteral,if_pos ⟨hne,hd⟩]
  simp [Nat.toList_repr]

theorem u32 (n : UInt32) : (Codec.u32 : Codec ε UInt32).ReadsAs n (some n) := by
  refine ⟨.nat n.toNat,rfl,Json.noConfusion,toOption_eq_some.mpr ?_⟩
  have hlt : n.toNat < 2^32 := n.toNat_lt
  simp only [Codec.u32, Json.nat, natLiteral_toString, if_pos hlt, UInt32.ofNat_toNat]

/-- A finite double reads as its literal does. -/
theorem f64 {format : TextFormat} {x : F64} (hx : x.isFinite) :
    (Codec.f64 format : Codec ε F64).ReadsAs x (format.double (format.decimal x)) :=
  ⟨.number (format.decimal x),by simp only [Codec.f64, if_pos hx],Json.noConfusion,
    toOption_elim _ _⟩

theorem list {xs : List α} (h : ∀ x ∈ xs, codec.ReadsAs x (some x)) :
    (Codec.list codec).ReadsAs xs (some xs) := by
  have hmap : ∃ values, xs.mapM codec.serialize = .ok values ∧
      values.mapM codec.deserialize = .ok xs := by
    induction xs with
    | nil => exact ⟨[],rfl,rfl⟩
    | cons x xs ih =>
      obtain ⟨⟨value,hs,-,hd⟩,hxs⟩ := List.forall_mem_cons.mp h
      obtain ⟨values,hss,hds⟩ := ih hxs
      refine ⟨value::values,?_,?_⟩
      · rw [List.mapM_cons,hs,hss]
        rfl
      · rw [List.mapM_cons,toOption_eq_some.mp hd,hds]
        rfl
  obtain ⟨values,hs,hd⟩ := hmap
  exact ⟨.array values,by simp only [Codec.list, hs, Except.map],Json.noConfusion,
    toOption_eq_some.mpr hd⟩

/-- A variant reads as itself where it is the first of its name. -/
theorem variants {all : List α} {name : α → String}
    (h : all.find? (name · = name x) = some x) :
    (Codec.variants all name : Codec ε α).ReadsAs x (some x) :=
  ⟨_,rfl,Json.noConfusion,by simp only [Codec.variants, h, Option.elim_some]; rfl⟩

end Codec.ReadsAs

/-- What an optional field reads as whose values read as others. -/
def Field.reread (g : α → Option α) (x : Option α) : Option (Option α) :=
  x.elim (some none) fun x => (g x).map some

theorem Field.reread_eq_self {g : α → Option α} {x : Option α} :
    reread g x = some x ↔ ∀ y, x = some y → g y = some y := by
  cases x with
  | none => simp [reread]
  | some x => simp [reread]

/-- Writing the field of a value and reading it turns the one record into the other, or is not read;
a skipped field leaves it. -/
def Field.Fills (f : Field ε ρ σ) (a : ρ) (s : σ) (r : Option σ) : Prop :=
  (f.write a = .ok none ∧ r = some s) ∨
    ∃ value, f.write a = .ok (some value) ∧ (f.read value s).toOption = r

namespace Field.Fills
variable {name : String} {a : ρ} {s : σ} {codec : Codec ε α}

theorem group {get : ρ → α} {put : α → σ → σ} {skip : α → Bool} {r : Option α}
    (hskip : skip (get a) → r.map (put · s) = some s) (h : codec.ReadsAs (get a) r) :
    (Field.group name get put skip codec).Fills a s (r.map (put · s)) := by
  obtain ⟨value,hs,-,rfl⟩ := h
  by_cases hsk : skip (get a) = true
  · exact .inl ⟨by simp only [Field.group, if_pos hsk],hskip hsk⟩
  · refine .inr ⟨value,?_,toOption_map _ _⟩
    simp only [Field.group, if_neg hsk, hs, Except.map]

/-- A group that reads as itself. -/
theorem group_self {get : ρ → α} {put : α → σ → σ} {skip : α → Bool}
    (hskip : skip (get a) → put (get a) s = s) (h : codec.ReadsAs (get a) (some (get a))) :
    (Field.group name get put skip codec).Fills a s (some (put (get a) s)) :=
  group (r := some (get a)) (fun hsk => congrArg some (hskip hsk)) h

lemma read_optional {get : ρ → Option α} {put : Option α → σ → σ} {value : Json}
    (hnull : value ≠ .null) : (Field.optional name get put codec).read value s =
      (codec.deserialize value).map (fun x => put (some x) s) := by
  cases value with
  | null => exact absurd rfl hnull
  | _ => rfl

theorem optional {get : ρ → Option α} {put : Option α → σ → σ} {g : α → Option α}
    (hnone : put none s = s) (h : ∀ x, get a = some x → codec.ReadsAs x (g x)) :
    (Field.optional name get put codec).Fills a s ((reread g (get a)).map (put · s)) := by
  cases hg : get a with
  | none => exact .inl ⟨by simp only [Field.optional, hg],congrArg some hnone⟩
  | some x =>
    obtain ⟨value,hs,hnull,hd⟩ := h x hg
    refine .inr ⟨value,by simp only [Field.optional, hg, hs, Except.map],?_⟩
    rw [read_optional hnull,toOption_map,hd,reread,Option.elim_some,Option.map_map]
    rfl

/-- A field whose values read as themselves. -/
theorem optional_self {get : ρ → Option α} {put : Option α → σ → σ} (hnone : put none s = s)
    (h : ∀ x, get a = some x → codec.ReadsAs x (some x)) :
    (Field.optional name get put codec).Fills a s (some (put (get a) s)) := by
  have hf : (Field.optional name get put codec).Fills a s ((reread some (get a)).map (put · s)) :=
    optional hnone h
  cases hg : get a with
  | none => rwa [hg] at hf
  | some x => rwa [hg] at hf

/-- An optional JSON value loses its `null`. -/
theorem optional_value {format : TextFormat} {get : ρ → Option Json} {put : Option Json → σ → σ}
    (hnone : put none s = s) :
    (Field.optional name get put (Codec.value format : Codec ε Json)).Fills a s
      ((reread format.read ((get a).filter (!·.isNull))).map (put · s)) := by
  cases hg : get a with
  | none => exact .inl ⟨by simp only [Field.optional, hg],congrArg some hnone⟩
  | some value =>
    refine .inr ⟨value,by simp only [Field.optional, hg, Codec.value, Except.map],?_⟩
    by_cases hnull : value = .null
    · subst hnull
      rfl
    · have hkept : (some value).filter (!·.isNull) = some value := by
        cases value with
        | null => exact absurd rfl hnull
        | _ => rfl
      rw [read_optional hnull,toOption_map,Codec.value,toOption_elim,hkept,reread,Option.elim_some,
        Option.map_map]
      rfl

theorem required {get : ρ → α} {put : Option α → σ → σ} {r : Option α}
    (h : codec.ReadsAs (get a) r) :
    (Field.required name get put codec).Fills a s (r.map fun y => put (some y) s) := by
  obtain ⟨value,hs,-,rfl⟩ := h
  refine .inr ⟨value,?_,toOption_map _ _⟩
  simp only [Field.required, hs, Except.map]

end Field.Fills

/-- The fields one after another turn a record into another, or one of them is not read. -/
inductive FillsAll (a : ρ) : List (Field ε ρ σ) → σ → Option σ → Prop
  | nil (s : σ) : FillsAll a [] s (some s)
  | cons {f : Field ε ρ σ} {fields : List (Field ε ρ σ)} {s t : σ} {r : Option σ} :
    f.Fills a s (some t) → FillsAll a fields t r → FillsAll a (f::fields) s r
  /-- The fields after it are written all the same. -/
  | stop {f : Field ε ρ σ} {fields : List (Field ε ρ σ)} {s t : σ} {r : Option σ} :
    f.Fills a s none → FillsAll a fields t r → FillsAll a (f::fields) s none

section Struct
variable {fields rest : List (Field ε ρ σ)} {a : ρ} {s t : σ} {r : Option σ}

/-- A field that may not be read, before fields that are filled whatever it holds. -/
theorem FillsAll.bind {f : Field ε ρ σ} {o : Option (Option α)} {put : Option α → σ → σ}
    {next : Option α → Option σ} (hf : f.Fills a s (o.map (put · s)))
    (h : ∀ y, FillsAll a fields (put y s) (next y)) : FillsAll a (f::fields) s (o.bind next) := by
  cases o with
  | none => exact .stop hf (h none)
  | some y => exact .cons hf (h y)

theorem FillsAll.optional {name : String} {get : ρ → Option α} {put : Option α → σ → σ}
    {codec : Codec ε α} {g : α → Option α} {next : Option α → Option σ} (hnone : put none s = s)
    (h : ∀ x, get a = some x → codec.ReadsAs x (g x))
    (hnext : ∀ y, FillsAll a fields (put y s) (next y)) :
    FillsAll a (.optional name get put codec::fields) s ((Field.reread g (get a)).bind next) :=
  .bind (.optional hnone h) hnext

theorem FillsAll.optional_value {name : String} {format : TextFormat} {get : ρ → Option Json}
    {put : Option Json → σ → σ} {next : Option Json → Option σ} (hnone : put none s = s)
    (hnext : ∀ y, FillsAll a fields (put y s) (next y)) :
    FillsAll a (.optional name get put (.value format)::fields) s
      ((Field.reread format.read ((get a).filter (!·.isNull))).bind next) :=
  .bind (.optional_value hnone) hnext

/-- The last field. -/
theorem FillsAll.last {f : Field ε ρ σ} (hf : f.Fills a s r) : FillsAll a [f] s r := by
  cases r with
  | none => exact .stop hf (.nil s)
  | some t => exact .cons hf (.nil t)

lemma find_name {f : Field ε ρ σ} (hn : (fields.map Field.name).Nodup) (hf : f ∈ fields) :
    fields.find? (·.name = f.name) = some f := by
  induction fields with
  | nil => cases hf
  | cons g fields ih =>
    rw [List.map_cons,List.nodup_cons] at hn
    rcases List.mem_cons.mp hf with rfl | hf
    · simp
    · have hne : g.name ≠ f.name := fun h => hn.1 (h ▸ List.mem_map_of_mem hf)
      rw [List.find?_cons_of_neg (by simpa using hne)]
      exact ih hn.2 hf

/-- Fields that were not read before are read from what is written of them. -/
lemma visitMap_serializeFields (hn : (fields.map Field.name).Nodup) (h : FillsAll a rest s r)
    (hrest : (rest.map Field.name).Nodup) (hsub : ∀ f ∈ rest, f ∈ fields) {seen : List String}
    (hseen : ∀ f ∈ rest, f.name ∉ seen) :
    ∃ entries, serializeFields rest a = .ok entries ∧
      (visitMap fields seen entries s).toOption = r := by
  have hfresh {f : Field ε ρ σ} {rest : List (Field ε ρ σ)} {seen : List String}
      (hname : f.name ∉ rest.map Field.name) (hseen : ∀ g ∈ rest, g.name ∉ seen) :
      ∀ g ∈ rest, g.name ∉ f.name::seen := by
    intro g hg
    rw [List.mem_cons,not_or]
    exact ⟨fun he => hname (he ▸ List.mem_map_of_mem hg),hseen g hg⟩
  induction h generalizing seen with
  | nil s => exact ⟨[],rfl,rfl⟩
  | @cons f rest s t r hf _ ih =>
    rw [List.map_cons,List.nodup_cons] at hrest
    obtain ⟨hmem,hsub⟩ := List.forall_mem_cons.mp hsub
    obtain ⟨hnew,hseen⟩ := List.forall_mem_cons.mp hseen
    rcases hf with ⟨hw,ht⟩ | ⟨value,hw,hr⟩
    · obtain rfl := Option.some.inj ht
      obtain ⟨entries,hs,hv⟩ := ih hrest.2 hsub hseen
      exact ⟨entries,by rw [serializeFields,hw,hs]; rfl,hv⟩
    · obtain ⟨entries,hs,hv⟩ := ih hrest.2 hsub (hfresh hrest.1 hseen)
      refine ⟨(f.name,value)::entries,by rw [serializeFields,hw,hs]; rfl,?_⟩
      simp only [visitMap, find_name hn hmem, if_neg hnew, toOption_eq_some.mp hr]
      exact hv
  | @stop f rest s t r hf _ ih =>
    rw [List.map_cons,List.nodup_cons] at hrest
    obtain ⟨hmem,hsub⟩ := List.forall_mem_cons.mp hsub
    obtain ⟨hnew,hseen⟩ := List.forall_mem_cons.mp hseen
    rcases hf with ⟨-,ht⟩ | ⟨value,hw,hr⟩
    · cases ht
    · obtain ⟨entries,hs,-⟩ := ih hrest.2 hsub (hfresh hrest.1 hseen)
      refine ⟨(f.name,value)::entries,by rw [serializeFields,hw,hs]; rfl,?_⟩
      simp only [visitMap, find_name hn hmem, if_neg hnew]
      exact (toOption_bind _ _).trans (by rw [hr]; rfl)

/-- A record is read from what is written of it, as its fields fill it. -/
theorem Codec.ReadsAs.record {finish : σ → Except DecodeError ρ}
    (hn : (fields.map Field.name).Nodup) (h : FillsAll a fields s r) :
    (Codec.record fields s finish).ReadsAs a (r.bind fun t => (finish t).toOption) := by
  obtain ⟨entries,hs,rfl⟩ :=
    visitMap_serializeFields hn h hn (fun _ hf => hf) (fun _ _ => List.not_mem_nil)
  refine ⟨.object entries,by simp only [Codec.record, hs, Except.map],Json.noConfusion,?_⟩
  exact toOption_bind _ _

theorem Codec.ReadsAs.struct {fields : List (Field ε ρ ρ)} {default : ρ} {r : Option ρ}
    (hn : (fields.map Field.name).Nodup) (h : FillsAll a fields default r) :
    (Codec.struct fields default).ReadsAs a r := by
  have hr : (Codec.struct fields default).ReadsAs a (r.bind some) := record hn h
  rwa [Option.bind_fun_some] at hr

end Struct

end TowerAgent.Lib.Serde
