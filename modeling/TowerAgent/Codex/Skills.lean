import TowerAgent.Codex.Preflight
import TowerAgent.Lib.Bytes
import TowerAgent.Lib.Toml
import Mathlib.Data.List.Lex

/-! The skill override as its consumer reads it: a TOML array with one entry for each distinct
canonical path. -/
namespace TowerAgent.Codex
open Lib Kernel Adapter

section Order

lemma pathLe_total : TotalPreorder pathLe where
  trans a b c hab hbc := by
    simp only [pathLe, decide_eq_true_eq] at hab hbc ⊢
    exact le_trans hab hbc
  total a b := by
    simp only [pathLe, Bool.or_eq_true, decide_eq_true_eq]
    exact le_total _ _

/-- Texts that compare alike are one text: their components make them up. -/
lemma pathLe_antisymm {s t : String} (h : pathLe (.text s) (.text t) = true)
    (h' : pathLe (.text t) (.text s) = true) : s = t := by
  simp only [pathLe, decide_eq_true_eq] at h h'
  have hcomponents := le_antisymm h h'
  have hinj : Function.Injective (List.map (List.map UInt8.toNat)) :=
    List.map_injective_iff.mpr (List.map_injective_iff.mpr fun _ _ he => UInt8.toNat_inj.mp he)
  have hbytes := congrArg ([(47 : UInt8)].intercalate ·) (hinj hcomponents)
  simp only [List.intercalate_splitOn, pathBytes] at hbytes
  exact Bytes.toUTF8_injective hbytes

end Order

/-- The entry that disables one skill. -/
def skillText (skill : String) : String :=
  "\x7bpath=" ++ Json.quote skill ++ ",enabled=false\x7d"

/-- The array that disables some skills. -/
def skillsValue (skills : List String) : String :=
  "[" ++ ",".intercalate (skills.map skillText) ++ "]"

/-- What an entry is meant to say. -/
def skillTable (skill : String) : Toml.Value :=
  .table [("path",.string skill),("enabled",.boolean false)]

/-- What a reader of TOML makes of an entry. -/
def readSkill (skill : String) : Option Toml.Value :=
  if '\x7f' ∈ skill.toList then none else some (skillTable skill)

section Reading
open Toml

/-- What stands behind the path of an entry. -/
lemma pairs_enabled {n : ℕ} {rest : List Char} :
    pairs (n+2) (['e','n','a','b','l','e','d'] ++
        '=' :: 'f' :: 'a' :: 'l' :: 's' :: 'e' :: '\x7d'::rest) =
      some ([("enabled",.boolean false)],rest) := by
  rw [pairs,bareKey_eq (by simp) (by decide)]
  simp [skipSpace, value_false]

/-- An entry is read as the table it is meant to be, unless its path holds U+007F. -/
lemma value_skillText (skill : String) {n : ℕ} (hn : 4 ≤ n) (rest : List Char) :
    value n ((skillText skill).toList ++ rest) = (readSkill skill).map (·,rest) := by
  obtain ⟨n,rfl⟩ := Nat.exists_eq_add_of_le' hn
  have htext : (skillText skill).toList ++ rest = '\x7b'::(['p','a','t','h'] ++ '='::
      ((Json.quote skill).toList ++ ','::(['e','n','a','b','l','e','d'] ++
        '=' :: 'f' :: 'a' :: 'l' :: 's' :: 'e' :: '\x7d'::rest))) := by
    simp [skillText]
  have hvalue (tail : List Char) : value (n+2) ((Json.quote skill).toList ++ ','::tail) =
      if '\x7f' ∈ skill.toList then none else some (.string skill,','::tail) :=
    value_quote (by simp)
  have hskip : ∀ tail, skipSpace ((Json.quote skill).toList ++ tail) =
      (Json.quote skill).toList ++ tail := by
    intro tail
    rw [quote_toList]
    simp [skipSpace]
  have hopen : ∀ tail, value (n+4) ('\x7b'::(['p','a','t','h'] ++ '='::tail)) =
      (pairs (n+3) (['p','a','t','h'] ++ '='::tail)).map (fun r => (.table r.1,r.2)) := by
    intro tail
    simp [value, skipSpace]
  rw [htext,hopen,pairs,bareKey_eq (by simp) (by decide),hskip,readSkill]
  simp only [Option.bind_eq_bind, Option.bind_some, hvalue]
  split
  · rfl
  · have hcomma : ∀ tail, skipSpace (','::tail) = ','::tail := fun tail => by simp [skipSpace]
    have henabled : ∀ tail, skipSpace (['e','n','a','b','l','e','d'] ++ tail) =
        ['e','n','a','b','l','e','d'] ++ tail := fun tail => by simp [skipSpace]
    simp only [Option.bind_some, hcomma, henabled, pairs_enabled]
    simp [skillTable]

lemma readSkill_eq_some {skill : String} {v : Value} :
    readSkill skill = some v ↔ '\x7f' ∉ skill.toList ∧ skillTable skill = v := by
  unfold readSkill
  split
  · next h => simp [h]
  · next h => simp [h]

/-- Reading every entry takes that no path holds U+007F. -/
lemma mapM_readSkill {skills : List String} {vs : List Value} :
    skills.mapM readSkill = some vs ↔
      (∀ skill ∈ skills, '\x7f' ∉ skill.toList) ∧ skills.map skillTable = vs := by
  induction skills generalizing vs with
  | nil => simp [eq_comm]
  | cons skill skills ih =>
    rw [List.mapM_cons]
    simp only [Option.bind_eq_bind, Option.bind_eq_some_iff, readSkill_eq_some, ih,
      List.forall_mem_cons, List.map_cons]
    constructor
    · rintro ⟨_,⟨hs,rfl⟩,_,⟨hr,rfl⟩,h⟩
      exact ⟨⟨hs,hr⟩,Option.some.inj h⟩
    · rintro ⟨⟨hs,hr⟩,rfl⟩
      exact ⟨_,⟨hs,rfl⟩,_,⟨hr,rfl⟩,rfl⟩

/-- The text of the array is long enough for its reader's fuel. -/
lemma length_entries {skills : List String} (hne : skills ≠ []) :
    skills.length + 2 ≤
      ([','].intercalate (skills.map (fun skill => (skillText skill).toList))).length := by
  have hentry : ∀ skill, 3 ≤ (skillText skill).toList.length := by
    intro skill
    simp only [skillText, String.toList_append, List.length_append]
    simp
  induction skills with
  | nil => exact absurd rfl hne
  | cons skill skills ih =>
    have h := hentry skill
    cases skills with
    | nil => simpa using h
    | cons next skills =>
      have ih := ih (List.cons_ne_nil _ _)
      simp only [List.map_cons, List.intercalate_cons_cons, List.length_append,
        List.length_cons] at ih ⊢
      omega

/-- The array is read entry by entry. -/
theorem parse_skillsValue {skills : List String} (hne : skills ≠ []) :
    parse (skillsValue skills) = (skills.mapM readSkill).map .array := by
  have htext : (skillsValue skills).toList =
      '['::([','].intercalate (skills.map (fun skill => (skillText skill).toList)) ++ [']']) := by
    simp [skillsValue, String.toList_intercalate, Function.comp_def]
  have hhead : ∀ skill ∈ skills, ∃ c cs, (skillText skill).toList = c::cs ∧
      c ∉ [']',' ','\t','\n'] := by
    intro skill _
    exact ⟨'\x7b',_,by simp only [skillText, String.toList_append]; rfl,by decide⟩
  have hfuel : 4 + skills.length ≤ (skillsValue skills).toList.length := by
    have hlength := length_entries hne
    rw [htext,List.length_cons,List.length_append,List.length_singleton]
    omega
  have hvalue : value ((skillsValue skills).toList.length + 1)
      ('['::([','].intercalate (skills.map (fun skill => (skillText skill).toList)) ++ [']'])) =
      (skills.mapM readSkill).map (fun vs => (.array vs,[])) :=
    value_array hne (fun skill _ n rest hn => value_skillText skill hn rest) hhead hfuel
  have hskip : ∀ cs, skipSpace ('['::cs) = '['::cs := fun cs => by simp [skipSpace]
  rw [←htext] at hvalue
  rw [parse]
  rw [show skipSpace (skillsValue skills).toList = (skillsValue skills).toList by rw [htext,hskip],
    hvalue]
  cases skills.mapM readSkill <;> rfl

end Reading
/-- A path of the policy resolves to this text. -/
def Resolves (host : Host) (paths : List PathBuf) (skill : String) : Prop :=
  ∃ path ∈ paths, host.canonicalPath path = some (.text skill)

/-- The order of the entries: that of the paths. -/
def SkillLt (s t : String) : Prop :=
  pathLe (.text s) (.text t) = true ∧ pathLe (.text t) (.text s) = false

section Rendering
variable {host : Host} {paths : List PathBuf}

lemma skillLt_asymm (s t : String) (h : SkillLt s t) : ¬ SkillLt t s := by
  intro h'
  have hst := h.2
  rw [h'.1] at hst
  cases hst

lemma skillFolder_eq_ok {path canonical : PathBuf} (h : skillFolder host path = .ok canonical) :
    host.canonicalPath path = some canonical := by
  unfold skillFolder at h
  split at h
  · cases h
  · next hc =>
    split at h
    · cases h
    · obtain rfl := Except.ok.inj h
      exact hc

/-- The folders of a policy are what its paths resolve to. -/
lemma mapM_skillFolder {canonicalPaths : List PathBuf}
    (h : paths.mapM (skillFolder host) = .ok canonicalPaths) (canonical : PathBuf) :
    canonical ∈ canonicalPaths ↔ ∃ path ∈ paths, host.canonicalPath path = some canonical := by
  induction paths generalizing canonicalPaths with
  | nil =>
    obtain rfl := Except.ok.inj h
    simp
  | cons path paths ih =>
    rw [List.mapM_cons] at h
    obtain ⟨first,hf,h⟩ := bind_eq_ok.mp h
    obtain ⟨more,hm,h⟩ := bind_eq_ok.mp h
    obtain rfl := Except.ok.inj h
    have he : canonical = first ↔ host.canonicalPath path = some canonical := by
      rw [skillFolder_eq_ok hf,Option.some.injEq,eq_comm]
    simp only [List.mem_cons, exists_eq_or_imp, ih hm, he]

/-- The entries are those of paths that are texts. -/
lemma mapM_skillEntry (hs : ∀ text, host.serialize (.string text) = some (Json.quote text))
    {entries : List String} (h : paths.mapM (skillEntry host) = .ok entries) :
    ∃ skills : List String, paths = skills.map .text ∧ entries = skills.map skillText := by
  induction paths generalizing entries with
  | nil => exact ⟨[],rfl,(Except.ok.inj h).symm⟩
  | cons path paths ih =>
    rw [List.mapM_cons] at h
    obtain ⟨entry,he,h⟩ := bind_eq_ok.mp h
    obtain ⟨more,hm,h⟩ := bind_eq_ok.mp h
    obtain rfl := Except.ok.inj h
    obtain ⟨skills,rfl,rfl⟩ := ih hm
    cases path with
    | bytes raw shown => cases he
    | text skill =>
      simp only [skillEntry, PathBuf.toStr, hs] at he
      obtain rfl := Except.ok.inj he
      exact ⟨skill::skills,rfl,rfl⟩

/-- The entries of a policy's folders: one for each text that a path resolves to, in order. -/
lemma entries_list (hs : ∀ text, host.serialize (.string text) = some (Json.quote text))
    {canonicalPaths : List PathBuf} {entries : List String}
    (hcanonical : paths.mapM (skillFolder host) = .ok canonicalPaths)
    (hentries : (distinctPaths canonicalPaths).mapM (skillEntry host) = .ok entries) :
    ∃ skills, entries = skills.map skillText ∧ skills.Pairwise SkillLt ∧
      (∀ skill, skill ∈ skills ↔ Resolves host paths skill) ∧ (paths ≠ [] → skills ≠ []) := by
  obtain ⟨skills,hskills,rfl⟩ := mapM_skillEntry hs hentries
  have hmem : ∀ canonical, canonical ∈ skills.map PathBuf.text ↔
      ∃ p ∈ paths, host.canonicalPath p = some canonical := by
    intro canonical
    rw [←hskills,distinctPaths,mem_sortDedup]
    exact mapM_skillFolder hcanonical canonical
  refine ⟨skills,rfl,?_,fun skill => ?_,?_⟩
  · have hsame (a : PathBuf) : a ∈ canonicalPaths ↔ a ∈ skills.map PathBuf.text := by
      rw [←hskills,distinctPaths,mem_sortDedup]
    have hanti : ∀ a ∈ canonicalPaths, ∀ b ∈ canonicalPaths, pathLe a b = true →
        pathLe b a = true → a = b := by
      intro a ha b hb hab hba
      rw [hsame,List.mem_map] at ha hb
      obtain ⟨s,-,rfl⟩ := ha
      obtain ⟨t,-,rfl⟩ := hb
      rw [pathLe_antisymm hab hba]
    have hstrict := sortDedup_strict pathLe_total hanti
    rw [←distinctPaths,hskills,List.pairwise_map] at hstrict
    exact hstrict
  · have h := hmem (.text skill)
    rw [List.mem_map_of_injective (fun _ _ he => PathBuf.text.inj he)] at h
    exact h
  · rintro hne rfl
    obtain ⟨path,rest,rfl⟩ := List.exists_cons_of_ne_nil hne
    rw [List.mapM_cons] at hcanonical
    obtain ⟨first,hf,-⟩ := bind_eq_ok.mp hcanonical
    exact absurd ((hmem first).mpr ⟨path,List.mem_cons_self,skillFolder_eq_ok hf⟩) (by simp)

lemma skillsValue_text (skills : List String) :
    "skills.config=[" ++ ",".intercalate (skills.map skillText) ++ "]" =
      "skills.config=" ++ skillsValue skills := by
  rw [skillsValue,←String.append_assoc,←String.append_assoc]
  rfl

lemma renderSkillConfig_eq_ok {config : String} :
    renderSkillConfig host (.disableExact paths) = .ok (some config) ↔
      paths ≠ [] ∧ renderSkills host paths = .ok config := by
  cases paths with
  | nil => simp [renderSkillConfig]
  | cons path paths =>
    simp only [renderSkillConfig, ne_eq, List.cons_ne_nil, not_false_eq_true, true_and]
    cases renderSkills host (path::paths) with
    | error e => simp
    | ok rendered => simp

/-- What a rendered policy lists. -/
theorem renderSkillConfig_lists
    (hs : ∀ text, host.serialize (.string text) = some (Json.quote text)) {config : String}
    (h : renderSkillConfig host (.disableExact paths) = .ok (some config)) :
    ∃ skills, skills ≠ [] ∧ config = "skills.config=" ++ skillsValue skills ∧
      skills.Pairwise SkillLt ∧ ∀ skill, skill ∈ skills ↔ Resolves host paths skill := by
  obtain ⟨hne,hr⟩ := renderSkillConfig_eq_ok.mp h
  obtain ⟨-,canonicalPaths,entries,hcanonical,hentries,rfl,-⟩ := renderSkills_eq_ok.mp hr
  obtain ⟨skills,rfl,hstrict,hmem,hskills⟩ := entries_list hs hcanonical hentries
  exact ⟨skills,hskills hne,skillsValue_text skills,hstrict,hmem⟩

end Rendering
/-- The override says what the policy means: its value is a TOML array of one table for each text that
a path resolves to, in order, and it tells that set of texts from any other. -/
def SaysExactly (host : Host) (paths : List PathBuf) (config : String) : Prop :=
  ∃ (value : String) (skills : List String), config = "skills.config=" ++ value ∧
    Toml.parse value = some (.array (skills.map skillTable)) ∧ skills.Pairwise SkillLt ∧
    (∀ skill, skill ∈ skills ↔ Resolves host paths skill) ∧
    ∀ paths' config', renderSkillConfig host (.disableExact paths') = .ok (some config') →
      (config' = config ↔ ∀ skill, Resolves host paths' skill ↔ Resolves host paths skill)

lemma skillTable_injective : Function.Injective skillTable := by
  intro s t h
  simpa [skillTable] using h

/-- A rendered override says what its policy means precisely when no path resolves to a text that holds
U+007F. -/
theorem skillConfig_saysExactly {host : Host}
    (hs : ∀ text, host.serialize (.string text) = some (Json.quote text)) {paths : List PathBuf}
    {config : String} (h : renderSkillConfig host (.disableExact paths) = .ok (some config)) :
    SaysExactly host paths config ↔ ∀ skill, Resolves host paths skill → '\x7f' ∉ skill.toList := by
  obtain ⟨skills,hne,rfl,hstrict,hmem⟩ := renderSkillConfig_lists hs h
  have hparse := parse_skillsValue hne
  constructor
  · rintro ⟨value,listed,hvalue,hread,-⟩ skill hskill
    obtain rfl := String.append_right_inj _ |>.mp hvalue
    rw [hparse] at hread
    obtain ⟨vs,hvs,-⟩ := Option.map_eq_some_iff.mp hread
    exact (mapM_readSkill.mp hvs).1 skill ((hmem skill).mpr hskill)
  · intro hclean
    have hread : skills.mapM readSkill = some (skills.map skillTable) :=
      mapM_readSkill.mpr ⟨fun skill hskill => hclean skill ((hmem skill).mp hskill),rfl⟩
    rw [hread,Option.map_some] at hparse
    refine ⟨_,skills,rfl,hparse,hstrict,hmem,fun paths' config' h' => ?_⟩
    obtain ⟨skills',hne',rfl,hstrict',hmem'⟩ := renderSkillConfig_lists hs h'
    constructor
    · intro he
      have hparse' := parse_skillsValue hne'
      rw [String.append_right_inj _ |>.mp he,hparse] at hparse'
      obtain ⟨vs,hvs,hv⟩ := Option.map_eq_some_iff.mp hparse'.symm
      obtain rfl := Toml.Value.array.inj hv
      obtain rfl := List.map_injective_iff.mpr skillTable_injective (mapM_readSkill.mp hvs).2
      intro skill
      rw [←hmem,←hmem']
    · intro hsame
      rw [eq_of_strict skillLt_asymm hstrict' hstrict fun skill => by rw [hmem,hmem',hsame]]

section Samples

lemma sampleHost_serialize (text : String) :
    sampleHost.serialize (.string text) = some (Json.quote text) := by
  simp only [sampleHost, Json.text]

/-- A policy of one path that is its own canonical form. -/
lemma renderSkillConfig_single {skill config : String}
    (hconfig : "skills.config=" ++ skillsValue [skill] = config)
    (hsize : config.utf8ByteSize ≤ maxSkillConfigBytes) :
    renderSkillConfig sampleHost (.disableExact [.text skill]) = .ok (some config) := by
  refine renderSkillConfig_eq_ok.mpr ⟨by simp,renderSkills_eq_ok.mpr
    ⟨by simp [maxDisabledSkills],[.text skill],[skillText skill],rfl,?_,?_,hsize⟩⟩
  · have hsingle : distinctPaths [.text skill] = [.text skill] := by
      simp [distinctPaths, sortDedup]
    have hentry : skillEntry sampleHost (.text skill) = .ok (skillText skill) := by
      simp only [skillEntry, PathBuf.toStr, sampleHost_serialize]
      rfl
    rw [hsingle,List.mapM_cons,hentry]
    rfl
  · rw [←hconfig]
    exact skillsValue_text [skill]

/-- A path of plain characters is listed as it is. -/
theorem skillConfig_saysExactly_sample : SaysExactly sampleHost [.text "/skills/lint"]
    "skills.config=[\x7bpath=\"/skills/lint\",enabled=false\x7d]" := by
  refine (skillConfig_saysExactly sampleHost_serialize
    (renderSkillConfig_single (by decide +kernel) (by decide +kernel))).mpr ?_
  rintro skill ⟨path,hp,hc⟩
  obtain rfl := List.mem_singleton.mp hp
  obtain rfl := PathBuf.text.inj (Option.some.inj hc)
  decide +kernel

/-- A path that holds U+007F is rendered to a value that TOML rejects. -/
theorem skillConfig_delete_unreadable : ∃ config,
    renderSkillConfig sampleHost (.disableExact [.text "/skills/\x7f"]) = .ok (some config) ∧
      config = "skills.config=" ++ "[\x7bpath=\"/skills/\x7f\",enabled=false\x7d]" ∧
      (Toml.parse "[\x7bpath=\"/skills/\x7f\",enabled=false\x7d]").isNone = true ∧
      ¬ SaysExactly sampleHost [.text "/skills/\x7f"] config := by
  have hparse : (Toml.parse "[\x7bpath=\"/skills/\x7f\",enabled=false\x7d]").isNone = true := by
    decide +kernel
  refine ⟨_,renderSkillConfig_single (by decide +kernel) (by decide +kernel),rfl,hparse,?_⟩
  rintro ⟨value,skills,hvalue,hread,-⟩
  obtain rfl := String.append_right_inj _ |>.mp hvalue
  rw [hread] at hparse
  cases hparse

end Samples
end TowerAgent.Codex
