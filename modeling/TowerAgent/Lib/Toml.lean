import TowerAgent.Lib.Json

/-! A reader of TOML values: basic strings, booleans, arrays and inline tables of bare keys, with the
white space that TOML 1.0 allows between them. The other kinds of value, comments and carriage returns
are left out, and a text that holds one is not read. -/
namespace TowerAgent.Lib.Toml

inductive Value where
  | string (s : String)
  | boolean (b : Bool)
  | array (items : List Value)
  | table (pairs : List (String × Value))
  deriving Repr

/-- Whether a character stands for itself in a basic string: no control character but the tab does. -/
def basicUnescaped (c : Char) : Bool :=
  c = '\t' || (32 ≤ c.toNat && c.toNat ≠ 127 && c ≠ '"' && c ≠ '\\')

def hexValue (c : Char) : Option ℕ :=
  if '0' ≤ c ∧ c ≤ '9' then some (c.toNat - 48)
  else if 'a' ≤ c ∧ c ≤ 'f' then some (c.toNat - 87)
  else if 'A' ≤ c ∧ c ≤ 'F' then some (c.toNat - 55)
  else none

/-- The character that some hexadecimal digits name, if it is a Unicode scalar value. -/
def scalar (count : ℕ) (cs : List Char) : Option (Char × List Char) :=
  if cs.length < count then none
  else match (cs.take count).foldlM (fun n c => (hexValue c).map (n*16 + ·)) 0 with
    | some n => if n.isValidChar then some (Char.ofNat n,cs.drop count) else none
    | none => none

/-- What follows the backslash of an escape sequence. -/
def escapeSequence : List Char → Option (Char × List Char)
  | [] => none
  | c::rest =>
    if c = 'b' then some ('\x08',rest)
    else if c = 't' then some ('\t',rest)
    else if c = 'n' then some ('\n',rest)
    else if c = 'f' then some ('\x0c',rest)
    else if c = 'r' then some ('\r',rest)
    else if c = '"' then some ('"',rest)
    else if c = '\\' then some ('\\',rest)
    else if c = 'u' then scalar 4 rest
    else if c = 'U' then scalar 8 rest
    else none

/-- One character of a basic string. -/
def basicChar : List Char → Option (Char × List Char)
  | [] => none
  | c::rest =>
    if c = '\\' then escapeSequence rest
    else if basicUnescaped c then some (c,rest)
    else none

/-- The characters of a basic string up to its closing quote; the fuel bounds how many. -/
def basicChars : ℕ → List Char → Option (List Char × List Char)
  | 0,_ => none
  | n+1,cs =>
    if cs.head? = some '"' then some ([],cs.tail)
    else do
      let (c,rest) ← basicChar cs
      let (s,rest) ← basicChars n rest
      return (c::s,rest)

def skipSpace (cs : List Char) : List Char := cs.dropWhile (fun c => c = ' ' || c = '\t')

/-- White space inside an array, where lines may end. -/
def skipLines (cs : List Char) : List Char :=
  cs.dropWhile (fun c => c = ' ' || c = '\t' || c = '\n')

def bareKeyChar (c : Char) : Bool := c.isAlphanum || c = '-' || c = '_'

/-- A bare key, and the value's text after the equals sign. -/
def bareKey (cs : List Char) : Option (String × List Char) :=
  match cs.takeWhile bareKeyChar,skipSpace (cs.dropWhile bareKeyChar) with
  | k::key,'='::rest => some (String.ofList (k::key),skipSpace rest)
  | _,_ => none

def boolean (cs : List Char) : Option (Value × List Char) :=
  if ['t','r','u','e'].isPrefixOf cs then some (.boolean true,cs.drop 4)
  else if ['f','a','l','s','e'].isPrefixOf cs then some (.boolean false,cs.drop 5)
  else none

mutual

/-- A value at the start of a text; the fuel bounds how deep and how far it goes. -/
def value : ℕ → List Char → Option (Value × List Char)
  | 0,_ => none
  | _,[] => none
  | n+1,c::rest =>
    if c = '"' then
      -- Three quotes open a multi-line string.
      if rest.take 2 = ['"','"'] then none
      else (basicChars rest.length rest).map (fun r => (.string (String.ofList r.1),r.2))
    else if c = '[' then (items n (skipLines rest)).map (fun r => (.array r.1,r.2))
    else if c = '\x7b' then
      if (skipSpace rest).head? = some '\x7d' then some (.table [],(skipSpace rest).tail)
      else (pairs n (skipSpace rest)).map (fun r => (.table r.1,r.2))
    else boolean (c::rest)

/-- The items of an array up to its closing bracket; a comma may follow the last. -/
def items : ℕ → List Char → Option (List Value × List Char)
  | 0,_ => none
  | n+1,cs =>
    if cs.head? = some ']' then some ([],cs.tail)
    else do
      let (item,rest) ← value n cs
      match skipLines rest with
      | ','::rest => do
        let (more,rest) ← items n (skipLines rest)
        return (item::more,rest)
      | ']'::rest => return ([item],rest)
      | _ => none

/-- The pairs of an inline table up to its closing brace; no key comes twice. -/
def pairs : ℕ → List Char → Option (List (String × Value) × List Char)
  | 0,_ => none
  | n+1,cs => do
    let (key,rest) ← bareKey cs
    let (entry,rest) ← value n rest
    match skipSpace rest with
    | ','::rest => do
      let (more,rest) ← pairs n (skipSpace rest)
      if more.any (fun pair => pair.1 = key) then none else return ((key,entry)::more,rest)
    | '\x7d'::rest => return ([(key,entry)],rest)
    | _ => none

end

/-- The value that a text is, if it is one. -/
def parse (s : String) : Option Value :=
  match value (s.toList.length + 1) (skipSpace s.toList) with
  | some (v,rest) => if skipSpace rest = [] then some v else none
  | none => none

section Strings
variable {rest : List Char}

/-- The text of a quoted JSON string. -/
lemma quote_toList (s : String) : (Json.quote s).toList =
    '"'::(s.toList.flatMap (fun c => (Json.escapeChar c).toList) ++ ['"']) := by
  simp only [Json.quote, String.toList_append, String.toList_join, List.flatMap_map]
  rfl

/-- Four digits name the control character that they were written for. -/
lemma scalar_control {c : Char} (h : c.toNat < 32) :
    scalar 4 ('0' :: '0'::Json.hexDigit (c.toNat/16)::Json.hexDigit (c.toNat%16)::rest) =
      some (c,rest) := by
  have hdigits : ∀ n < 32, ['0','0',Json.hexDigit (n/16),Json.hexDigit (n%16)].foldlM
      (fun n c => (hexValue c).map (n*16 + ·)) 0 = some n := by decide
  have hvalid : c.toNat.isValidChar := Or.inl (by omega)
  have hlength : ¬ (rest.length + 1 + 1 + 1 + 1 < 4) := by omega
  simp only [scalar, List.length_cons, hlength, if_false, List.take_succ_cons, List.take_zero,
    hdigits _ h, hvalid, if_true, List.drop_succ_cons, List.drop_zero, Char.ofNat_toNat]

/-- The two grammars agree on every character of a string but U+007F, which JSON leaves as it is and
TOML forbids. -/
theorem basicChar_escapeChar (c : Char) : basicChar ((Json.escapeChar c).toList ++ rest) =
    if c = '\x7f' then none else some (c,rest) := by
  have hval : ∀ {d : Char}, c.val = d.val → c = d := fun h => Char.ext h
  unfold Json.escapeChar
  split
  · next h => subst h; rfl
  split
  · next h => subst h; rfl
  split
  · next h => subst h; rfl
  split
  · next h => subst h; rfl
  split
  · next h => subst h; rfl
  split
  · next h =>
    obtain rfl : c = '\x08' := hval h
    rfl
  split
  · next h =>
    obtain rfl : c = '\x0c' := hval h
    rfl
  split
  · next h =>
    have hc : c.toNat < 32 := h
    have hne : c ≠ '\x7f' := by
      rintro rfl
      exact absurd hc (by decide)
    rw [if_neg hne,←scalar_control hc]
    simp only [String.toList_append, String.toList_ofList]
    rfl
  · next hquote hback _ _ _ _ _ hcontrol =>
    have hc : 32 ≤ c.toNat := by
      rw [←Nat.not_lt]
      exact hcontrol
    rw [String.toList_ofList]
    by_cases hdel : c = '\x7f'
    · subst hdel
      rfl
    · have hne : c.toNat ≠ 127 := fun h => hdel (hval (UInt32.toNat_inj.mp h))
      have hraw : basicUnescaped c = true := by simp [basicUnescaped, hc, hne, hquote, hback]
      rw [if_neg hdel,List.singleton_append,basicChar,if_neg hback,if_pos hraw]

lemma escapeChar_head (c : Char) : ∃ d ds, (Json.escapeChar c).toList = d::ds ∧ d ≠ '"' := by
  unfold Json.escapeChar
  split
  · exact ⟨_,_,rfl,by decide⟩
  split
  · exact ⟨_,_,rfl,by decide⟩
  split
  · exact ⟨_,_,rfl,by decide⟩
  split
  · exact ⟨_,_,rfl,by decide⟩
  split
  · exact ⟨_,_,rfl,by decide⟩
  split
  · exact ⟨_,_,rfl,by decide⟩
  split
  · exact ⟨_,_,rfl,by decide⟩
  split
  · exact ⟨'\\',_,by rw [String.toList_append]; rfl,by decide⟩
  · next hquote _ _ _ _ _ _ _ => exact ⟨c,[],String.toList_ofList,hquote⟩

/-- The characters of a quoted JSON string are read back, by induction on the string. -/
lemma basicChars_escape {s : List Char} {n : ℕ} (h : s.length < n) :
    basicChars n (s.flatMap (fun c => (Json.escapeChar c).toList) ++ '"'::rest) =
      if '\x7f' ∈ s then none else some (s,rest) := by
  induction s generalizing n with
  | nil =>
    obtain ⟨n,rfl⟩ := Nat.exists_eq_add_one_of_ne_zero (Nat.ne_of_gt h)
    rfl
  | cons c s ih =>
    obtain ⟨n,rfl⟩ := Nat.exists_eq_add_one_of_ne_zero (Nat.ne_of_gt (Nat.zero_lt_of_lt h))
    rw [List.length_cons,Nat.add_lt_add_iff_right] at h
    obtain ⟨d,ds,hd,hne⟩ := escapeChar_head c
    have hhead : ¬ ((Json.escapeChar c).toList ++
        (s.flatMap (fun c => (Json.escapeChar c).toList) ++ '"'::rest)).head? = some '"' := by
      rw [hd]
      simpa using hne
    rw [List.flatMap_cons,List.append_assoc,basicChars,if_neg hhead,basicChar_escapeChar]
    by_cases hc : c = '\x7f'
    · subst hc
      simp
    · simp only [if_neg hc, Option.bind_eq_bind, Option.bind_some, ih h, List.mem_cons,
        Ne.symm hc, false_or]
      split <;> rfl

/-- A quoted JSON string is read back as a TOML value, unless it holds U+007F. -/
theorem value_quote {s : String} {n : ℕ} (hrest : rest.head? ≠ some '"') :
    value (n+1) ((Json.quote s).toList ++ rest) =
      if '\x7f' ∈ s.toList then none else some (.string s,rest) := by
  have htext : (Json.quote s).toList ++ rest = '"'::(s.toList.flatMap
      (fun c => (Json.escapeChar c).toList) ++ '"'::rest) := by
    rw [quote_toList]
    simp
  have htriple : (s.toList.flatMap (fun c => (Json.escapeChar c).toList) ++ '"'::rest).take 2 ≠
      ['"','"'] := by
    cases hs : s.toList with
    | nil =>
      cases rest with
      | nil => simp
      | cons d ds => simpa using hrest
    | cons c cs =>
      obtain ⟨d,ds,hd,hne⟩ := escapeChar_head c
      simp [hd, hne]
  have hfuel : s.toList.length < (s.toList.flatMap (fun c => (Json.escapeChar c).toList) ++
      '"'::rest).length := by
    have hle : ∀ l : List Char, l.length ≤
        (l.flatMap (fun c => (Json.escapeChar c).toList)).length := by
      intro l
      induction l with
      | nil => simp
      | cons c l ih =>
        obtain ⟨d,ds,hd,-⟩ := escapeChar_head c
        rw [List.flatMap_cons,hd]
        simp only [List.length_cons, List.cons_append, List.length_append]
        omega
    have hs := hle s.toList
    rw [List.length_append,List.length_cons]
    omega
  rw [htext,value,if_pos rfl,if_neg htriple,basicChars_escape hfuel]
  split
  · rfl
  · rw [Option.map_some,String.ofList_toList]

end Strings

section Tables
variable {rest : List Char}

/-- A bare key is read up to its equals sign. -/
lemma bareKey_eq {key : List Char} (hne : key ≠ []) (h : key.all bareKeyChar = true) :
    bareKey (key ++ '='::rest) = some (String.ofList key,skipSpace rest) := by
  have hall := List.all_eq_true.mp h
  have htake : (key ++ '='::rest).takeWhile bareKeyChar = key := by
    rw [List.takeWhile_append_of_pos hall]
    simp [List.takeWhile, bareKeyChar]
  have hdrop : (key ++ '='::rest).dropWhile bareKeyChar = '='::rest := by
    rw [List.dropWhile_append_of_pos hall]
    simp [List.dropWhile, bareKeyChar]
  have hskip : skipSpace ('='::rest) = '='::rest := by simp [skipSpace, List.dropWhile]
  rw [bareKey,htake,hdrop,hskip]
  cases key with
  | nil => exact absurd rfl hne
  | cons k key => rfl

lemma value_false {n : ℕ} :
    value (n+1) ('f' :: 'a' :: 'l' :: 's' :: 'e'::rest) = some (.boolean false,rest) := by
  simp [value, boolean]

end Tables

section Arrays
variable {α : Type} {text : α → List Char} {read : α → Option Value} {depth : ℕ} {rest : List Char}

lemma skipLines_cons {c : Char} {cs : List Char} (h : c ∉ [']',' ','\t','\n']) :
    skipLines (c::cs) = c::cs := by
  simp only [List.mem_cons, List.not_mem_nil, or_false, not_or] at h
  exact List.dropWhile_cons_of_neg (by simp [h])

lemma skipLines_intercalate {l : List α} (hne : l ≠ [])
    (hhead : ∀ a ∈ l, ∃ c cs, text a = c::cs ∧ c ∉ [']',' ','\t','\n']) (tail : List Char) :
    skipLines ([','].intercalate (l.map text) ++ tail) = [','].intercalate (l.map text) ++ tail := by
  cases l with
  | nil => exact absurd rfl hne
  | cons a l =>
    obtain ⟨c,cs,hc,hmem⟩ := hhead a List.mem_cons_self
    cases l with
    | nil =>
      rw [List.map_singleton,List.intercalate_singleton,hc]
      exact skipLines_cons hmem
    | cons b l =>
      rw [List.map_cons,List.map_cons,List.intercalate_cons_cons,hc]
      exact skipLines_cons hmem

/-- The items of an array are read one by one, when each is readable before any rest. -/
theorem items_intercalate {l : List α} (hne : l ≠ [])
    (hread : ∀ a ∈ l, ∀ n rest, depth ≤ n → value n (text a ++ rest) = (read a).map (·,rest))
    (hhead : ∀ a ∈ l, ∃ c cs, text a = c::cs ∧ c ∉ [']',' ','\t','\n']) {n : ℕ}
    (hn : depth + l.length ≤ n) :
    items n ([','].intercalate (l.map text) ++ ']'::rest) = (l.mapM read).map (·,rest) := by
  induction l generalizing n with
  | nil => exact absurd rfl hne
  | cons a l ih =>
    rw [List.length_cons] at hn
    obtain ⟨n,rfl⟩ := Nat.exists_eq_add_one_of_ne_zero (show n ≠ 0 by omega)
    obtain ⟨c,cs,hc,hclose⟩ := hhead a List.mem_cons_self
    have hvalue := fun tail => hread a List.mem_cons_self n tail (by omega)
    have hopen : ∀ tail, ¬ (text a ++ tail).head? = some ']' := by
      intro tail he
      rw [hc] at he
      exact hclose (Option.some.inj he ▸ List.mem_cons_self)
    cases l with
    | nil =>
      rw [List.map_singleton,List.intercalate_singleton,items,if_neg (hopen _),hvalue,
        List.mapM_cons]
      cases read a <;> rfl
    | cons b l =>
      have hhead := fun x hx => hhead x (List.mem_cons_of_mem _ hx)
      have hmore := skipLines_intercalate (List.cons_ne_nil b l) hhead (']'::rest)
      have ih := ih (List.cons_ne_nil _ _) (fun x hx => hread x (List.mem_cons_of_mem _ hx)) hhead
        (n := n) (by omega)
      have hcomma : ∀ tail, skipLines (','::tail) = ','::tail := fun tail => rfl
      rw [List.map_cons,List.map_cons,List.intercalate_cons_cons,←List.map_cons,List.append_assoc,
        List.append_assoc,items,if_neg (hopen _),hvalue,List.mapM_cons]
      cases hr : read a with
      | none => rfl
      | some v =>
        simp only [Option.map_some, Option.bind_eq_bind, Option.bind_some, List.singleton_append,
          hcomma, hmore, ih]
        cases (b::l).mapM read <;> rfl

/-- An array is read item by item. -/
theorem value_array {l : List α} (hne : l ≠ [])
    (hread : ∀ a ∈ l, ∀ n rest, depth ≤ n → value n (text a ++ rest) = (read a).map (·,rest))
    (hhead : ∀ a ∈ l, ∃ c cs, text a = c::cs ∧ c ∉ [']',' ','\t','\n']) {n : ℕ}
    (hn : depth + l.length ≤ n) :
    value (n+1) ('['::([','].intercalate (l.map text) ++ ']'::rest)) =
      (l.mapM read).map (fun vs => (.array vs,rest)) := by
  rw [value,if_neg (by decide),if_pos rfl,skipLines_intercalate hne hhead,
    items_intercalate hne hread hhead hn,Option.map_map]
  rfl

end Arrays
end TowerAgent.Lib.Toml
