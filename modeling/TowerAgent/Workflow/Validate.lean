import TowerAgent.Workflow.Frontier

/-! The validation half of `compile`: which authoring input it accepts, and the step and successor
tables it builds from it. -/
namespace TowerAgent.Workflow
open Lib
open Std (ExtTreeMap ExtTreeSet)

variable {J : Type}

/-- The step one specification stands for: its texts validated, its needs sorted. -/
structure Normalizes (spec : StepSpec J) (step : StepDefinition J) : Prop where
  id_eq : step.id.value = spec.id
  job_eq : step.job = spec.job
  sorted : step.needs.Pairwise (· < ·)
  perm : (step.needs.map Identifier.value).Perm spec.needs

lemma identifier_eq_ok {kind value : String} {id : Identifier kind} :
    identifier value = .ok id ↔ id.value = value := by
  rw [←Identifier.new_eq_ok,identifier]
  cases Identifier.new value <;> simp

lemma identifier_isOk {kind value : String} (h : isIdentifier value = true) :
    identifier value = .ok (⟨value,h⟩ : Identifier kind) := identifier_eq_ok.mpr rfl

theorem parseNeeds_eq_ok {step : StepId} {seen : ExtTreeSet StepId} {texts : List String}
    {ids : List StepId} : parseNeeds step seen texts = .ok ids ↔
      ids.map Identifier.value = texts ∧ ids.Nodup ∧ ∀ i ∈ ids, i ∉ seen := by
  induction texts generalizing seen ids with
  | nil =>
    rw [parseNeeds,Except.ok.injEq]
    constructor
    · rintro rfl
      simp
    · rintro ⟨h,-,-⟩
      exact (List.map_eq_nil_iff.mp h).symm
  | cons text texts ih =>
    rw [parseNeeds]
    constructor
    · intro h
      obtain ⟨i,hi,h⟩ := bind_eq_ok.mp h
      split at h
      · cases h
      · next hseen =>
        obtain ⟨rest,hr,h⟩ := bind_eq_ok.mp h
        obtain rfl := Except.ok.inj h
        obtain ⟨hmap,hnodup,hnot⟩ := ih.mp hr
        refine ⟨by rw [List.map_cons,identifier_eq_ok.mp hi,hmap],?_,?_⟩
        · refine List.nodup_cons.mpr ⟨fun hm => hnot i hm ?_,hnodup⟩
          exact mem_insert_iff.mpr (.inl rfl)
        · rintro j hj
          rcases List.mem_cons.mp hj with rfl | hj
          · exact hseen
          · exact fun hs => hnot j hj (mem_insert_iff.mpr (.inr hs))
    · rintro ⟨hmap,hnodup,hnot⟩
      cases ids with
      | nil => simp at hmap
      | cons i rest =>
        obtain ⟨hi,hmap⟩ := List.cons.inj hmap
        obtain ⟨hirest,hnodup⟩ := List.nodup_cons.mp hnodup
        have hr : parseNeeds step (seen.insert i) texts = .ok rest := by
          refine ih.mpr ⟨hmap,hnodup,fun j hj hs => ?_⟩
          rcases mem_insert_iff.mp hs with rfl | hs
          · exact hirest hj
          · exact hnot j (List.mem_cons_of_mem _ hj) hs
        simp only [identifier_eq_ok.mpr hi, hr, bind, Except.bind, hnot i List.mem_cons_self,
          if_false]

/-- What one accepted specification becomes. -/
theorem normalize_spec {spec : StepSpec J} {step : StepDefinition J}
    (h : normalize spec = .ok step) : Normalizes spec step := by
  obtain ⟨i,hi,h⟩ := bind_eq_ok.mp h
  obtain ⟨needs,hn,h⟩ := bind_eq_ok.mp h
  obtain rfl := Except.ok.inj h
  obtain ⟨hmap,hnodup,-⟩ := parseNeeds_eq_ok.mp hn
  refine ⟨identifier_eq_ok.mp hi,rfl,sort_strict hnodup,?_⟩
  exact hmap ▸ (sort_perm needs).map Identifier.value

/-- The checks on one specification by itself. -/
structure SpecAccepted (spec : StepSpec J) : Prop where
  id_valid : isIdentifier spec.id = true
  needs_valid : ∀ n ∈ spec.needs, isIdentifier n = true
  needs_nodup : spec.needs.Nodup

theorem Normalizes.accepted {spec : StepSpec J} {step : StepDefinition J}
    (h : Normalizes spec step) : SpecAccepted spec := by
  refine ⟨h.id_eq ▸ step.id.valid,fun n hn => ?_,?_⟩
  · obtain ⟨i,-,rfl⟩ := List.mem_map.mp (h.perm.mem_iff.mpr hn)
    exact i.valid
  · rw [←h.perm.nodup_iff,List.nodup_map_iff Identifier.value_injective]
    exact h.sorted.imp (fun hlt => hlt.ne)

theorem normalize_isOk {spec : StepSpec J} (h : SpecAccepted spec) :
    ∃ step, normalize spec = .ok step := by
  have hids : ∃ ids : List StepId, ids.map Identifier.value = spec.needs := by
    have hall := h.needs_valid
    generalize spec.needs = texts at hall
    induction texts with
    | nil => exact ⟨[],rfl⟩
    | cons text texts ih =>
      obtain ⟨ids,hids⟩ := ih (fun n hn => hall n (List.mem_cons_of_mem _ hn))
      exact ⟨⟨text,hall text List.mem_cons_self⟩::ids,by rw [List.map_cons,hids]⟩
  obtain ⟨ids,hids⟩ := hids
  have hnodup : ids.Nodup := by
    have := h.needs_nodup
    rw [←hids,List.nodup_map_iff Identifier.value_injective] at this
    exact this
  have hp : parseNeeds ⟨spec.id,h.id_valid⟩ ∅ spec.needs = .ok ids :=
    parseNeeds_eq_ok.mpr ⟨hids,hnodup,by simp⟩
  exact ⟨_,by simp only [normalize, identifier_isOk h.id_valid, hp, bind, Except.bind]; rfl⟩

/-- The first loop: every specification is normalized, under an id of its own. -/
theorem collectSteps_spec {specs : List (StepSpec J)} {m m' : ExtTreeMap StepId (StepDefinition J)}
    (h : collectSteps m specs = .ok m') :
    ∃ defs : List (StepDefinition J), List.Forall₂ Normalizes specs defs ∧
      (defs.map StepDefinition.id).Nodup ∧ (∀ d ∈ defs, d.id ∉ m) ∧
      ∀ (k : StepId) (d : StepDefinition J), m'[k]? = some d ↔
        m[k]? = some d ∨ d ∈ defs ∧ d.id = k := by
  induction specs generalizing m with
  | nil =>
    obtain rfl := Except.ok.inj h
    exact ⟨[],.nil,by simp,by simp,by simp⟩
  | cons spec specs ih =>
    rw [collectSteps] at h
    obtain ⟨d,hd,h⟩ := bind_eq_ok.mp h
    split at h
    · cases h
    · next hm =>
      obtain ⟨defs,hall,hnodup,hfresh,hlook⟩ := ih h
      have hnot : d.id ∉ defs.map StepDefinition.id := by
        intro hmem
        obtain ⟨e,he,heq⟩ := List.mem_map.mp hmem
        refine hfresh e he ?_
        rw [heq]
        exact ExtTreeMap.mem_insert_self
      refine ⟨d::defs,.cons (normalize_spec hd) hall,List.nodup_cons.mpr ⟨hnot,hnodup⟩,?_,?_⟩
      · rintro e he hem
        rcases List.mem_cons.mp he with rfl | he
        · exact hm hem
        · exact hfresh e he (ExtTreeMap.mem_insert.mpr (.inr hem))
      · intro k e
        rw [hlook k e,getElem?_insert_eq,List.mem_cons]
        by_cases hk : d.id = k
        · subst hk
          have hnone : m[d.id]? = none := ExtTreeMap.getElem?_eq_none hm
          simp only [if_true, hnone, Option.some.injEq, reduceCtorEq, false_or]
          constructor
          · rintro (rfl | ⟨he,heq⟩)
            · exact ⟨.inl rfl,rfl⟩
            · exact ⟨.inr he,heq⟩
          · rintro ⟨rfl | he,heq⟩
            · exact .inl rfl
            · exact .inr ⟨he,heq⟩
        · rw [if_neg hk]
          refine or_congr_right (and_congr_left fun heq => ?_)
          rw [or_iff_right]
          rintro rfl
          exact hk heq

theorem collectSteps_isOk {specs : List (StepSpec J)} {m : ExtTreeMap StepId (StepDefinition J)}
    (hs : ∀ spec ∈ specs, SpecAccepted spec) (hn : (specs.map StepSpec.id).Nodup)
    (hm : ∀ k : StepId, k ∈ m → k.value ∉ specs.map StepSpec.id) :
    ∃ m', collectSteps m specs = .ok m' := by
  induction specs generalizing m with
  | nil => exact ⟨m,rfl⟩
  | cons spec specs ih =>
    obtain ⟨d,hd⟩ := normalize_isOk (hs spec List.mem_cons_self)
    have hid : d.id.value = spec.id := (normalize_spec hd).id_eq
    rw [List.map_cons,List.nodup_cons] at hn
    have hdm : d.id ∉ m := by
      intro hmem
      refine hm d.id hmem ?_
      rw [List.map_cons,hid]
      exact List.mem_cons_self
    obtain ⟨m',hm'⟩ := ih (m := m.insert d.id d) (fun s h => hs s (List.mem_cons_of_mem _ h)) hn.2
      (fun k hk => by
        rcases ExtTreeMap.mem_insert.mp hk with hk | hk
        · rw [←compare_eq_iff_eq.mp hk,hid]
          exact hn.1
        · exact fun h => hm k hk (List.mem_cons_of_mem _ h))
    exact ⟨m',by simp only [collectSteps, hd, bind, Except.bind, hdm, if_false, hm']⟩

/-- The edges of one step: each need is another known step, and gets it as a successor. -/
theorem connectNeeds_spec {step : StepId} {needs : List StepId}
    {o o' : ExtTreeMap StepId (List StepId)} (hn : needs.Nodup)
    (h : connectNeeds step o needs = .ok o') :
    (∀ n ∈ needs, n ≠ step ∧ n ∈ o) ∧
      ∀ k : StepId, o'[k]? = o[k]?.map (fun l => if k ∈ needs then l ++ [step] else l) := by
  induction needs generalizing o with
  | nil =>
    obtain rfl := Except.ok.inj h
    simp
  | cons n needs ih =>
    obtain ⟨hnn,hn⟩ := List.nodup_cons.mp hn
    rw [connectNeeds] at h
    split at h
    · cases h
    · next hne =>
      split at h
      · cases h
      · next l hl =>
        obtain ⟨hall,hlook⟩ := ih hn h
        have hmem : n ∈ o := ExtTreeMap.mem_iff_isSome_getElem?.mpr (by rw [hl]; rfl)
        refine ⟨fun k hk => ?_,fun k => ?_⟩
        · rcases List.mem_cons.mp hk with rfl | hk
          · exact ⟨hne,hmem⟩
          · refine ⟨(hall k hk).1,?_⟩
            rcases ExtTreeMap.mem_insert.mp (hall k hk).2 with he | hm
            · exact compare_eq_iff_eq.mp he ▸ hmem
            · exact hm
        · rw [hlook k,getElem?_insert_eq]
          by_cases hk : n = k
          · subst hk
            simp [hnn, hl]
          · simp [hk, Ne.symm hk]

theorem connectNeeds_isOk {step : StepId} {needs : List StepId}
    {o : ExtTreeMap StepId (List StepId)} (h : ∀ n ∈ needs, n ≠ step ∧ n ∈ o) :
    ∃ o', connectNeeds step o needs = .ok o' := by
  induction needs generalizing o with
  | nil => exact ⟨o,rfl⟩
  | cons n needs ih =>
    obtain ⟨hne,hmem⟩ := h n List.mem_cons_self
    obtain ⟨l,hl⟩ := Option.isSome_iff_exists.mp (ExtTreeMap.mem_iff_isSome_getElem?.mp hmem)
    obtain ⟨o',ho'⟩ := ih (o := o.insert n (l ++ [step])) (fun k hk =>
      ⟨(h k (List.mem_cons_of_mem _ hk)).1,
        ExtTreeMap.mem_insert.mpr (.inr (h k (List.mem_cons_of_mem _ hk)).2)⟩)
    exact ⟨o',by simp only [connectNeeds, hne, if_false, hl, ho']⟩

/-- The steps of a list that need a given one, in the list's order. -/
def successorsIn (defs : List (StepDefinition J)) (k : StepId) : List StepId :=
  (defs.filter (fun d => decide (k ∈ d.needs))).map StepDefinition.id

/-- The second loop: every need is another known step, and the table lists who needs whom. -/
theorem connect_spec {defs : List (StepDefinition J)} {o o' : ExtTreeMap StepId (List StepId)}
    (hn : ∀ d ∈ defs, d.needs.Nodup) (h : connect o defs = .ok o') :
    (∀ d ∈ defs, ∀ n ∈ d.needs, n ≠ d.id ∧ n ∈ o) ∧
      ∀ k : StepId, o'[k]? = o[k]?.map (· ++ successorsIn defs k) := by
  induction defs generalizing o with
  | nil =>
    obtain rfl := Except.ok.inj h
    simp [successorsIn]
  | cons d defs ih =>
    rw [connect] at h
    obtain ⟨o₁,hc,h⟩ := bind_eq_ok.mp h
    obtain ⟨hd,hlook₁⟩ := connectNeeds_spec (hn d List.mem_cons_self) hc
    obtain ⟨hall,hlook⟩ := ih (fun e he => hn e (List.mem_cons_of_mem _ he)) h
    have hkeys : ∀ k, k ∈ o₁ ↔ k ∈ o := by
      intro k
      rw [ExtTreeMap.mem_iff_isSome_getElem?,hlook₁,Option.isSome_map,
        ExtTreeMap.mem_iff_isSome_getElem?]
    refine ⟨fun e he n hne => ?_,fun k => ?_⟩
    · rcases List.mem_cons.mp he with rfl | he
      · exact hd n hne
      · exact ⟨(hall e he n hne).1,(hkeys n).mp (hall e he n hne).2⟩
    · rw [hlook k,hlook₁ k,Option.map_map]
      congr 1
      funext l
      by_cases hk : k ∈ d.needs
      · simp [successorsIn, hk]
      · simp [successorsIn, hk]

theorem connect_isOk {defs : List (StepDefinition J)} {o : ExtTreeMap StepId (List StepId)}
    (hn : ∀ d ∈ defs, d.needs.Nodup) (h : ∀ d ∈ defs, ∀ n ∈ d.needs, n ≠ d.id ∧ n ∈ o) :
    ∃ o', connect o defs = .ok o' := by
  induction defs generalizing o with
  | nil => exact ⟨o,rfl⟩
  | cons d defs ih =>
    obtain ⟨o₁,ho₁⟩ := connectNeeds_isOk (h d List.mem_cons_self)
    have hlook₁ := (connectNeeds_spec (hn d List.mem_cons_self) ho₁).2
    obtain ⟨o',ho'⟩ := ih (o := o₁) (fun e he => hn e (List.mem_cons_of_mem _ he))
      (fun e he n hne => by
        obtain ⟨h1,h2⟩ := h e (List.mem_cons_of_mem _ he) n hne
        refine ⟨h1,?_⟩
        rw [ExtTreeMap.mem_iff_isSome_getElem?,hlook₁,Option.isSome_map]
        exact ExtTreeMap.mem_iff_isSome_getElem?.mp h2)
    exact ⟨o',by simp only [connect, ho₁, bind, Except.bind, ho']⟩

/-- An error other than that of the ordering loop. -/
def NotCycle (e : WorkflowDefinitionError) : Prop := ∀ ids, e ≠ .cycle ids

section NotCycle

lemma identifier_fails {kind value : String} :
    Fails NotCycle (identifier value : Except _ (Identifier kind)) := by
  unfold identifier
  split
  · exact Fails.ok _
  · exact Fails.error nofun

lemma parseNeeds_fails {step : StepId} {seen : ExtTreeSet StepId} {texts : List String} :
    Fails NotCycle (parseNeeds step seen texts) := by
  induction texts generalizing seen with
  | nil => exact Fails.ok _
  | cons text texts ih =>
    rw [parseNeeds]
    refine identifier_fails.bind fun i => ?_
    split
    · exact Fails.error nofun
    · exact ih.bind fun rest => Fails.ok _

lemma normalize_fails {spec : StepSpec J} : Fails NotCycle (normalize spec) :=
  identifier_fails.bind fun _ => parseNeeds_fails.bind fun _ => Fails.ok _

lemma collectSteps_fails {specs : List (StepSpec J)}
    {m : ExtTreeMap StepId (StepDefinition J)} : Fails NotCycle (collectSteps m specs) := by
  induction specs generalizing m with
  | nil => exact Fails.ok _
  | cons spec specs ih =>
    rw [collectSteps]
    refine normalize_fails.bind fun d => ?_
    split
    · exact Fails.error nofun
    · exact ih

lemma connectNeeds_fails {step : StepId} {needs : List StepId}
    {o : ExtTreeMap StepId (List StepId)} : Fails NotCycle (connectNeeds step o needs) := by
  induction needs generalizing o with
  | nil => exact Fails.ok _
  | cons n needs ih =>
    rw [connectNeeds]
    split
    · exact Fails.error nofun
    · split
      · exact Fails.error nofun
      · exact ih

lemma connect_fails {defs : List (StepDefinition J)} {o : ExtTreeMap StepId (List StepId)} :
    Fails NotCycle (connect o defs) := by
  induction defs generalizing o with
  | nil => exact Fails.ok _
  | cons d defs ih =>
    rw [connect]
    exact connectNeeds_fails.bind fun _ => ih

/-- Only the ordering loop reports a cycle. -/
lemma validate_fails {id version : String} {specs : List (StepSpec J)} :
    Fails NotCycle (validate id version specs) := by
  unfold validate
  refine identifier_fails.bind fun i => identifier_fails.bind fun v => ?_
  split
  · exact Fails.error nofun
  · exact collectSteps_fails.bind fun steps => connect_fails.bind fun o => Fails.ok _

end NotCycle

/-- The step table holds exactly the normalized specifications, each under its own id. -/
def Describes (specs : List (StepSpec J)) (steps : ExtTreeMap StepId (StepDefinition J)) : Prop :=
  ∃ defs : List (StepDefinition J), List.Forall₂ Normalizes specs defs ∧
    (defs.map StepDefinition.id).Nodup ∧
    ∀ (k : StepId) (d : StepDefinition J), steps[k]? = some d ↔ d ∈ defs ∧ d.id = k

/-- The needs relation between step texts that a list of specifications declares. -/
def SpecNeeds (specs : List (StepSpec J)) (a b : String) : Prop :=
  ∃ spec ∈ specs, spec.id = a ∧ b ∈ spec.needs

section Describes
variable {specs : List (StepSpec J)} {steps : ExtTreeMap StepId (StepDefinition J)}
  (h : Describes specs steps)
include h

lemma Describes.accepted : ∀ spec ∈ specs, SpecAccepted spec := by
  obtain ⟨defs,hall,-⟩ := h
  intro spec hspec
  obtain ⟨d,-,hd⟩ := exists_right_of_forall₂ hall hspec
  exact hd.accepted

lemma Describes.map_id : ∃ ids : List StepId, ids.Nodup ∧
    ids.map Identifier.value = specs.map StepSpec.id ∧ ∀ k, k ∈ ids ↔ k ∈ steps := by
  obtain ⟨defs,hall,hnodup,hlook⟩ := h
  refine ⟨defs.map StepDefinition.id,hnodup,?_,fun k => ?_⟩
  · clear hnodup hlook
    induction hall with
    | nil => rfl
    | cons hd _ ih => simp only [List.map_cons, hd.id_eq, ih]
  · rw [ExtTreeMap.mem_iff_isSome_getElem?,Option.isSome_iff_exists,List.mem_map]
    exact exists_congr fun d => (hlook k d).symm

lemma Describes.ids_nodup : (specs.map StepSpec.id).Nodup := by
  obtain ⟨ids,hnodup,hmap,-⟩ := h.map_id
  rw [←hmap,List.nodup_map_iff Identifier.value_injective]
  exact hnodup

lemma Describes.mem_iff {k : StepId} : k ∈ steps ↔ k.value ∈ specs.map StepSpec.id := by
  obtain ⟨ids,-,hmap,hmem⟩ := h.map_id
  rw [←hmap,List.mem_map_of_injective Identifier.value_injective,hmem]

lemma Describes.needs_iff {x : StepId} {b : String} :
    SpecNeeds specs x.value b ↔ ∃ y, b = y.value ∧ Needs steps x y := by
  obtain ⟨defs,hall,-,hlook⟩ := h
  constructor
  · rintro ⟨spec,hspec,hid,hb⟩
    obtain ⟨d,hd,hn⟩ := exists_right_of_forall₂ hall hspec
    obtain ⟨y,hy,rfl⟩ := List.mem_map.mp (hn.perm.mem_iff.mpr hb)
    have hx : d.id = x := Identifier.value_injective (hn.id_eq.trans hid)
    exact ⟨y,rfl,by rwa [Needs,needsOf_eq ((hlook x d).mpr ⟨hd,hx⟩)]⟩
  · rintro ⟨y,rfl,hy⟩
    obtain ⟨d,hd⟩ := Option.isSome_iff_exists.mp
      (ExtTreeMap.mem_iff_isSome_getElem?.mp (mem_of_needs hy))
    rw [Needs,needsOf_eq hd] at hy
    obtain ⟨hmem,rfl⟩ := (hlook x d).mp hd
    obtain ⟨spec,hspec,hn⟩ := exists_left_of_forall₂ hall hmem
    exact ⟨spec,hspec,hn.id_eq.symm,hn.perm.mem_iff.mp (List.mem_map_of_mem hy)⟩

end Describes

end TowerAgent.Workflow
