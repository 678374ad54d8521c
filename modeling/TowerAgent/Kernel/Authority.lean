import TowerAgent.Kernel.Request
import Mathlib.Data.Set.Basic
import Mathlib.Data.List.Nodup

/-! Authority containment: what a policy grants is decided by its ceiling and the set of canonical
roots that the host approved. -/
namespace TowerAgent.Kernel
open Lib

/-- What a host grants: a ceiling, and the canonical roots beneath which a turn may write. -/
structure Grant where
  ceiling : FilesystemAuthority
  roots : Set Canonical

namespace Grant

/-- One grant is no wider than another. -/
def Le (g g' : Grant) : Prop := g.ceiling.rank ≤ g'.ceiling.rank ∧ g.roots ⊆ g'.roots

/-- A path lies beneath an approved root, component by component. -/
def Contains (g : Grant) (canonicalize : Canonicalize) (path : PathBuf) : Prop :=
  ∃ canonical, canonicalize path = .ok canonical ∧ ∃ root ∈ g.roots, root <+: canonical

section Permits
variable {O : Type} [RequestsFilesystemAuthority O]
open RequestsFilesystemAuthority

/-- The grant covers a turn: its level, and every directory named with a request to write. -/
def Permits (g : Grant) (canonicalize : Canonicalize) (turn : Turn O) : Prop :=
  (filesystemAuthority turn.options).rank ≤ g.ceiling.rank ∧
    (filesystemAuthority turn.options = .workspaceWrite →
      (∀ directory ∈ turn.workingDirectory, g.Contains canonicalize directory) ∧
        ∀ directory ∈ additionalFilesystemRoots turn.options, g.Contains canonicalize directory)

variable {g g' : Grant} {canonicalize : Canonicalize} {turn turn' : Turn O}

lemma Contains.mono (h : g.Le g') {path : PathBuf} (hc : g.Contains canonicalize path) :
    g'.Contains canonicalize path := by
  obtain ⟨canonical,hp,root,hr,hb⟩ := hc
  exact ⟨canonical,hp,root,h.2 hr,hb⟩

/-- A wider grant permits whatever a narrower one does. -/
theorem Permits.mono (h : g.Le g') (hp : g.Permits canonicalize turn) :
    g'.Permits canonicalize turn := by
  refine ⟨hp.1.trans h.1,fun hw => ?_⟩
  obtain ⟨hd,hr⟩ := hp.2 hw
  exact ⟨fun directory hm => (hd directory hm).mono h,fun directory hm => (hr directory hm).mono h⟩

/-- Permission reads a turn's level, its directory and the set of its additional roots. -/
theorem permits_congr
    (hl : filesystemAuthority turn.options = filesystemAuthority turn'.options)
    (hd : turn.workingDirectory = turn'.workingDirectory)
    (hr : ∀ root, root ∈ additionalFilesystemRoots turn.options ↔
      root ∈ additionalFilesystemRoots turn'.options) :
    g.Permits canonicalize turn ↔ g.Permits canonicalize turn' := by
  unfold Permits
  rw [hl,hd]
  simp only [hr]

end Permits
end Grant

theorem FilesystemAuthority.allows_iff (self requested : FilesystemAuthority) :
    self.allows requested = true ↔ requested.rank ≤ self.rank := decide_eq_true_iff

namespace AuthorityPolicy

/-- A policy with an explicit ceiling and no writable roots. -/
def new (filesystemCeiling : FilesystemAuthority) : AuthorityPolicy := ⟨filesystemCeiling,[]⟩

/-- Add a host-approved writable root. -/
def allowWritableRoot (self : AuthorityPolicy) (canonicalize : Canonicalize) (root : PathBuf) :
    Except String AuthorityPolicy := do
  let root ← canonicalize root
  if self.writableRoots.contains root then .ok self
  else .ok { self with writableRoots := self.writableRoots ++ [root] }

/-- A policy as the host builds it: `new`, then one call for each root, in order. -/
def build (canonicalize : Canonicalize) (ceiling : FilesystemAuthority) (roots : List PathBuf) :
    Except String AuthorityPolicy :=
  roots.foldlM (fun policy root => policy.allowWritableRoot canonicalize root) (new ceiling)

/-- What a policy grants. -/
def grant (policy : AuthorityPolicy) : Grant :=
  ⟨policy.filesystemCeiling,{ root | root ∈ policy.writableRoots }⟩

section Build
variable {policy policy' : AuthorityPolicy} {canonicalize : Canonicalize}

/-- One call approves the canonical form of its root, and nothing else changes. -/
lemma allowWritableRoot_eq_ok {root : PathBuf}
    (h : policy.allowWritableRoot canonicalize root = .ok policy') :
    ∃ canonical, canonicalize root = .ok canonical ∧
      policy'.filesystemCeiling = policy.filesystemCeiling ∧
      ∀ c, c ∈ policy'.writableRoots ↔ c ∈ policy.writableRoots ∨ c = canonical := by
  obtain ⟨canonical,hc,h⟩ := bind_eq_ok.mp h
  refine ⟨canonical,hc,?_⟩
  split at h
  · next hm =>
    obtain rfl := Except.ok.inj h
    have hm : canonical ∈ policy.writableRoots := List.contains_iff_mem.mp hm
    refine ⟨rfl,fun c => ⟨.inl,?_⟩⟩
    rintro (h | rfl)
    · exact h
    · exact hm
  · obtain rfl := Except.ok.inj h
    exact ⟨rfl,fun c => by simp⟩

/-- A call succeeds exactly when its root resolves. -/
lemma allowWritableRoot_isOk {root : PathBuf} {canonical : Canonical}
    (h : canonicalize root = .ok canonical) :
    ∃ policy', policy.allowWritableRoot canonicalize root = .ok policy' := by
  by_cases hm : policy.writableRoots.contains canonical
  · exact ⟨policy,bind_eq_ok.mpr ⟨canonical,h,if_pos hm⟩⟩
  · exact ⟨_,bind_eq_ok.mpr ⟨canonical,h,if_neg hm⟩⟩

/-- The calls approve the canonical forms of their roots, one step at a time. -/
lemma foldlM_allowWritableRoot {roots : List PathBuf}
    (h : roots.foldlM (fun policy root => policy.allowWritableRoot canonicalize root) policy =
      .ok policy') :
    policy'.filesystemCeiling = policy.filesystemCeiling ∧
      (∀ c, c ∈ policy'.writableRoots ↔
        c ∈ policy.writableRoots ∨ ∃ root ∈ roots, canonicalize root = .ok c) ∧
      ∀ root ∈ roots, ∃ c, canonicalize root = .ok c := by
  induction roots generalizing policy with
  | nil =>
    obtain rfl := Except.ok.inj h
    simp
  | cons root roots ih =>
    rw [List.foldlM_cons] at h
    obtain ⟨mid,hm,h⟩ := bind_eq_ok.mp h
    obtain ⟨canonical,hc,hceiling,hroots⟩ := allowWritableRoot_eq_ok hm
    obtain ⟨iceiling,iroots,iresolve⟩ := ih h
    refine ⟨iceiling.trans hceiling,fun c => ?_,?_⟩
    · have he : c = canonical ↔ canonicalize root = .ok c := by
        rw [hc,Except.ok.injEq,eq_comm]
      simp only [iroots, hroots, he, or_assoc, List.mem_cons, exists_eq_or_imp]
    · exact List.forall_mem_cons.mpr ⟨⟨canonical,hc⟩,iresolve⟩

lemma foldlM_allowWritableRoot_isOk {roots : List PathBuf}
    (h : ∀ root ∈ roots, ∃ c, canonicalize root = .ok c) :
    ∃ policy', roots.foldlM (fun policy root => policy.allowWritableRoot canonicalize root) policy =
      .ok policy' := by
  induction roots generalizing policy with
  | nil => exact ⟨policy,rfl⟩
  | cons root roots ih =>
    obtain ⟨⟨c,hc⟩,hrest⟩ := List.forall_mem_cons.mp h
    obtain ⟨mid,hm⟩ : ∃ mid, policy.allowWritableRoot canonicalize root = .ok mid :=
      allowWritableRoot_isOk hc
    obtain ⟨policy',hp⟩ := @ih mid hrest
    exact ⟨policy',by rw [List.foldlM_cons]; exact bind_eq_ok.mpr ⟨mid,hm,hp⟩⟩

variable {ceiling : FilesystemAuthority} {roots : List PathBuf}

/-- What a built policy grants: its ceiling, and the canonical forms of the roots it was given. -/
theorem build_grant (h : build canonicalize ceiling roots = .ok policy) :
    policy.grant = ⟨ceiling,{ c | ∃ root ∈ roots, canonicalize root = .ok c }⟩ := by
  obtain ⟨hceiling,hroots,-⟩ := foldlM_allowWritableRoot h
  rw [grant,Grant.mk.injEq]
  refine ⟨hceiling,Set.ext fun c => ?_⟩
  rw [Set.mem_ofPred_eq,Set.mem_ofPred_eq,hroots]
  simp [new]

/-- A policy can be built exactly when every root resolves. -/
theorem build_isOk : (∃ policy, build canonicalize ceiling roots = .ok policy) ↔
    ∀ root ∈ roots, ∃ c, canonicalize root = .ok c :=
  ⟨fun ⟨_,h⟩ => (foldlM_allowWritableRoot h).2.2,foldlM_allowWritableRoot_isOk⟩

end Build

section Authorize
variable {policy : AuthorityPolicy} {canonicalize : Canonicalize}

lemma authorizeWritableRoot_eq_ok (requested : PathBuf) :
    policy.authorizeWritableRoot canonicalize requested = .ok () ↔
      policy.grant.Contains canonicalize requested := by
  unfold authorizeWritableRoot Grant.Contains
  cases hc : canonicalize requested with
  | error error => simp
  | ok canonical => simp [grant]

variable {O : Type} [RequestsFilesystemAuthority O]
open RequestsFilesystemAuthority

/-- The gate opens exactly for the turns that the policy's grant permits. -/
theorem authorize_eq_ok (turn : Turn O) :
    policy.authorize canonicalize turn = .ok () ↔ policy.grant.Permits canonicalize turn := by
  unfold authorize Grant.Permits
  dsimp only
  split
  · next h =>
    rw [Bool.not_eq_true',←Bool.not_eq_true,FilesystemAuthority.allows_iff] at h
    simp [grant, h]
  · next h =>
    rw [Bool.not_eq_true',Bool.not_eq_false,FilesystemAuthority.allows_iff] at h
    split
    · next hw => simp [grant, h, hw]
    · next hw =>
      rw [ne_eq,not_not] at hw
      have hd : forM turn.workingDirectory (policy.authorizeWritableRoot canonicalize) = .ok () ↔
          ∀ directory ∈ turn.workingDirectory, policy.grant.Contains canonicalize directory := by
        cases turn.workingDirectory with
        | none => simp [pure, Except.pure]
        | some directory => simpa using authorizeWritableRoot_eq_ok directory
      have hr : forM (additionalFilesystemRoots turn.options)
          (policy.authorizeWritableRoot canonicalize) = .ok () ↔
          ∀ directory ∈ additionalFilesystemRoots turn.options,
            policy.grant.Contains canonicalize directory := by
        simp only [forM_eq_ok, authorizeWritableRoot_eq_ok]
      constructor
      · intro ha
        obtain ⟨_,hcwd,hroots⟩ := bind_eq_ok.mp ha
        exact ⟨h,fun _ => ⟨hd.mp hcwd,hr.mp hroots⟩⟩
      · intro hp
        exact bind_eq_ok.mpr ⟨(),hd.mpr (hp.2 hw).1,hr.mpr (hp.2 hw).2⟩

end Authorize
section Containment
open RequestsFilesystemAuthority

/-- Authority containment. A built policy accepts exactly the turns within its ceiling that write
only beneath approved roots; its verdict reads the roots of the policy and of the turn as sets; and
a wider policy accepts whatever a narrower one does. -/
theorem authorize_contained (canonicalize : Canonicalize) {O : Type}
    [RequestsFilesystemAuthority O] :
    (∀ ceiling roots policy, build canonicalize ceiling roots = .ok policy → ∀ turn : Turn O,
      policy.authorize canonicalize turn = .ok () ↔
        Grant.Permits ⟨ceiling,{ c | ∃ root ∈ roots, canonicalize root = .ok c }⟩
          canonicalize turn) ∧
      (∀ ceiling roots roots' policy, build canonicalize ceiling roots = .ok policy →
        (∀ root, root ∈ roots ↔ root ∈ roots') →
          ∃ policy', build canonicalize ceiling roots' = .ok policy' ∧ ∀ turn : Turn O,
            policy.authorize canonicalize turn = .ok () ↔
              policy'.authorize canonicalize turn = .ok ()) ∧
      (∀ ceiling roots policy, build canonicalize ceiling roots = .ok policy →
        ∀ turn turn' : Turn O,
          filesystemAuthority turn.options = filesystemAuthority turn'.options →
          turn.workingDirectory = turn'.workingDirectory →
          (∀ root, root ∈ additionalFilesystemRoots turn.options ↔
            root ∈ additionalFilesystemRoots turn'.options) →
          (policy.authorize canonicalize turn = .ok () ↔
            policy.authorize canonicalize turn' = .ok ())) ∧
      ∀ ceiling ceiling' roots roots' policy policy',
        build canonicalize ceiling roots = .ok policy →
        build canonicalize ceiling' roots' = .ok policy' →
        ceiling'.allows ceiling = true → roots ⊆ roots' → ∀ turn : Turn O,
          policy.authorize canonicalize turn = .ok () →
            policy'.authorize canonicalize turn = .ok () := by
  refine ⟨fun ceiling roots policy h turn => ?_,fun ceiling roots roots' policy h hmem => ?_,
    fun ceiling roots policy _ turn turn' hl hd hr => ?_,
    fun ceiling ceiling' roots roots' policy policy' h h' hceiling hroots turn ht => ?_⟩
  · rw [authorize_eq_ok,build_grant h]
  · have hresolve := build_isOk.mp ⟨policy,h⟩
    obtain ⟨policy',h'⟩ := build_isOk.mpr fun root hr => hresolve root ((hmem root).mpr hr)
    refine ⟨policy',h',fun turn => ?_⟩
    rw [authorize_eq_ok,authorize_eq_ok,build_grant h,build_grant h']
    simp only [hmem]
  · rw [authorize_eq_ok,authorize_eq_ok]
    exact Grant.permits_congr hl hd hr
  · rw [authorize_eq_ok,build_grant h] at ht
    rw [authorize_eq_ok,build_grant h']
    refine Grant.Permits.mono ⟨(FilesystemAuthority.allows_iff _ _).mp hceiling,?_⟩ ht
    rintro c ⟨root,hr,hc⟩
    exact ⟨root,hroots hr,hc⟩

/-- A link that resolves beneath the approved root passes; a sibling whose name merely begins like
the root does not. -/
theorem authorize_contained_sample :
    let canonicalize : Canonicalize := fun path =>
      if path = .text "link" then .ok ["srv","work","tree"]
      else if path = .text "sibling" then .ok ["srv","workshop"]
      else .ok ["srv","work"]
    let _requests : RequestsFilesystemAuthority (List PathBuf) := ⟨fun _ => .workspaceWrite,id⟩
    ∃ policy, build canonicalize .workspaceWrite [.text "root"] = .ok policy ∧
      policy.authorize canonicalize ⟨"go",none,none,[PathBuf.text "link"]⟩ = .ok () ∧
      policy.authorize canonicalize ⟨"go",none,none,[PathBuf.text "sibling"]⟩ ≠ .ok () := by
  intro canonicalize _requests
  have h := (authorize_contained canonicalize (O := List PathBuf)).1 .workspaceWrite [.text "root"]
    ⟨.workspaceWrite,[["srv","work"]]⟩ rfl
  refine ⟨⟨.workspaceWrite,[["srv","work"]]⟩,rfl,(h _).mpr ⟨by decide,fun _ => ?_⟩,?_⟩
  · refine ⟨by simp,fun directory hd => ?_⟩
    obtain rfl := List.mem_singleton.mp hd
    exact ⟨_,rfl,["srv","work"],⟨_,List.mem_singleton_self _,rfl⟩,["tree"],rfl⟩
  · intro ha
    obtain ⟨_,hc,root,⟨path,hp,hroot⟩,hb⟩ :=
      (((h _).mp ha).2 rfl).2 _ (List.mem_singleton_self (PathBuf.text "sibling"))
    obtain rfl := List.mem_singleton.mp hp
    obtain rfl := Except.ok.inj hc
    obtain rfl := Except.ok.inj hroot
    revert hb
    decide

end Containment
end AuthorityPolicy
end TowerAgent.Kernel
