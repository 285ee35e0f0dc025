import Mathlib.Data.List.Induction
import OnePass.Proofs.Registry.Operations

/-!
What tells modules apart. A module is found by its path joined with the separator and not by the path itself,
so paths that are joined to the same name lead to the same scope. Joined names can be taken apart again if
in each segment something other than an underscore follows each underscore. Where that is so, modules are as
far apart as their paths, and a scope lies where its path says.
-/

namespace OnePass
namespace Name

/-- Behind each underscore something else follows. -/
def isPlain : List Char → Bool
  | '_' :: '_' :: _ | ['_'] => false
  | _ :: cs => isPlain cs
  | [] => true

def Plain (segments : List String) : Prop := ∀ s ∈ segments, isPlain s.toList = true

/-- A joined name, cut at the separators from the left. -/
def cut : List Char → List (List Char)
  | '_' :: '_' :: cs => [] :: cut cs
  | c :: cs => (cut cs).modifyHead (c :: ·)
  | [] => [[]]

theorem cut_plain {s : List Char} (h : isPlain s = true) : cut s = [s] := by
  fun_induction isPlain s with
  | case1 | case2 => cases h
  | case3 c cs hpair _ ih =>
      rw [cut, ih h]
      · rfl
      · exact hpair
  | case4 => rfl

theorem cut_append {s : List Char} (h : isPlain s = true) (rest : List Char) :
    cut (s ++ separator.toList ++ rest) = s :: cut rest := by
  fun_induction isPlain s with
  | case1 | case2 => cases h
  | case3 c cs hpair hlast ih =>
      rw [List.cons_append, List.cons_append, cut, ih h]
      · rfl
      · intro cs' hc hcs
        cases cs with
        | nil => exact hlast hc rfl
        | cons d ds => exact hpair ds hc (by rw [(List.cons.inj hcs).1])
  | case4 => rfl

/-- The segments can be read off a joined name. -/
theorem cut_qualified {segments : List String} (hne : segments ≠ []) (h : Plain segments) :
    cut (qualified segments).toList = segments.map String.toList := by
  induction segments with
  | nil => exact absurd rfl hne
  | cons s rest ih =>
      have hs := h s List.mem_cons_self
      cases rest with
      | nil => exact cut_plain hs
      | cons s' rest =>
          have tail := ih (List.cons_ne_nil _ _) fun t ht => h t (List.mem_cons_of_mem _ ht)
          have joined : qualified (s :: s' :: rest) = s ++ separator ++ qualified (s' :: rest) := rfl
          rw [joined, String.toList_append, String.toList_append, cut_append hs, tail]
          rfl

theorem qualified_inj {a b : List String} (ha : a ≠ []) (hb : b ≠ []) (hpa : Plain a) (hpb : Plain b)
    (h : qualified a = qualified b) : a = b := by
  have cuts : a.map String.toList = b.map String.toList := by
    rw [← cut_qualified ha hpa, ← cut_qualified hb hpb, h]
  exact List.map_injective_iff.mpr (fun _ _ => String.toList_inj.mp) cuts

end Name

namespace Registry

variable {r r' : Registry} {id parent : ScopeId} {name : String}

/-- The scope of a module that a segment was added for to the path of another scope. -/
structure Contains (r : Registry) (parent : ScopeId) (name : String) (id : ScopeId) : Prop where
  opened : ∃ s, r.scope? id = some s ∧ s.kind = .module ∧ s.name = some name ∧ s.parent? = some parent
  path : r.modulePath id = r.modulePath parent ++ [name]

/-- A module lies in the scope that its path leads through, and the path leads back to it. -/
structure Anchors (r : Registry) (id : ScopeId) : Prop where
  found : r.module? (Name.qualified (r.modulePath id)) = some id
  inside : ∃ parent name, r.declares parent = true ∧ r.Contains parent name id

/-- Every scope that functions may be declared in is the global one or the one its path leads to. -/
def Anchored (r : Registry) : Prop := ∀ id, r.declares id = true → id = global ∨ r.Anchors id

theorem Contains.mono (h : r.Contains parent name id) (wf : r.WellFormed) (hx : r.Extends r')
    (hparent : r.Knows parent) : r'.Contains parent name id := by
  obtain ⟨⟨s, hs, hkind, hname, houter⟩, hpath⟩ := h
  obtain ⟨s', hs', e⟩ := hx.scopes _ _ hs
  refine ⟨⟨s', hs', e.kind.trans hkind, e.name.trans hname, ?_⟩, ?_⟩
  · rw [Scope.parent?, e.enclosing]
    exact houter
  · rw [wf.modulePath_eq hx (knows_iff.mpr ⟨s, hs⟩), wf.modulePath_eq hx hparent, hpath]

theorem Anchors.mono (h : r.Anchors id) (wf : r.WellFormed) (hx : r.Extends r') : r'.Anchors id := by
  obtain ⟨found, parent, name, hdeclares, hin⟩ := h
  obtain ⟨s, hs, _⟩ := hin.opened
  have hparent := knows_of_declares hdeclares
  refine ⟨?_, parent, name, (hx.declares_eq hparent).trans hdeclares, hin.mono wf hx hparent⟩
  rw [wf.modulePath_eq hx (knows_iff.mpr ⟨s, hs⟩)]
  exact hx.module?_eq_some found

namespace Anchored

theorem empty : Registry.empty.Anchored := by
  intro id h
  obtain hlt : id < 1 := knows_of_declares h
  exact .inl (Nat.lt_one_iff.mp hlt)

/-- It is kept as long as there are no other scopes to declare functions in. -/
theorem mono (h : r.Anchored) (wf : r.WellFormed) (hx : r.Extends r')
    (same : ∀ id, r'.declares id = r.declares id) : r'.Anchored := by
  intro id hid
  rw [same] at hid
  exact (h id hid).imp_right fun hanchors => hanchors.mono wf hx

theorem openModule (h : r.Anchored) (wf : r.WellFormed) (hparent : r.declares parent = true) (name : String) :
    (r.openModule parent name).2.Anchored := by
  have hx := r.extends_openModule parent name
  have known := knows_of_declares hparent
  obtain ⟨_, _, he⟩ | ⟨_, he⟩ := r.openModule_cases parent name
  · rw [he]
    exact h
  · have hpath := wf.modulePath_openScope known name
    have hnew := r.scope?_openScope_new parent .module (some name)
    intro id hid
    have hknown : (r.openScope parent .module (some name)).2.Knows id := by
      rw [he] at hid
      exact knows_of_declares hid
    rcases (r.knows_openScope parent id .module (some name)).mp hknown with hold | rfl
    · rw [hx.declares_eq hold] at hid
      exact (h id hid).imp_right fun hanchors => hanchors.mono wf hx
    · right
      have found := r.module?_openModule parent name
      have outer := wf.modulePath_eq hx known
      have declares := (hx.declares_eq known).trans hparent
      rw [he] at found outer declares ⊢
      refine ⟨(congrArg (module? _ <| Name.qualified ·) hpath).trans found, parent, name, declares, ?_, ?_⟩
      · refine ⟨_, hnew, rfl, rfl, ?_⟩
        obtain ⟨s, hs⟩ := knows_iff.mp known
        simp [Scope.parent?, ancestors, hs]
      · rw [outer]
        exact hpath

end Anchored

/-! ### Paths to modules -/

theorem WellFormed.modulePath_global (h : r.WellFormed) : r.modulePath global = [] := by
  obtain ⟨s, hs, hk, _⟩ := h.root
  obtain ⟨kind, _, _, _⟩ := s
  obtain rfl : kind = .global := hk
  simp [modulePath, h.ancestors_global, hs]

/-- Where a path leads: to the module that is noted for it, or to the global scope if it is empty. -/
def Locates (r : Registry) (segments : List String) (id : ScopeId) : Prop :=
  segments = [] ∧ id = global ∨ segments ≠ [] ∧ r.module? (Name.qualified segments) = some id

/-- A scope reached from another through modules, each opened in the one before it. -/
inductive Descends (r : Registry) (outer : ScopeId) : List String → ScopeId → Prop where
  | here : Descends r outer [] outer
  | inside {path : List String} {parent id : ScopeId} {name : String} (before : Descends r outer path parent)
      (contains : r.Contains parent name id) : Descends r outer (path ++ [name]) id

section Paths

variable {segments path : List String} {outer : ScopeId}

theorem Locates.eq {a b : ScopeId} (ha : r.Locates segments a) (hb : r.Locates segments b) : a = b := by
  rcases ha with ⟨rfl, rfl⟩ | ⟨hne, ha⟩ <;> rcases hb with ⟨hnil, rfl⟩ | ⟨hne', hb⟩
  · rfl
  · exact absurd rfl hne'
  · exact absurd hnil hne
  · exact Option.some.inj (ha.symm.trans hb)

/-- A path that goes on from a scope is joined to the same name whichever path has led there. -/
theorem Locates.qualified_append (h : r.Locates segments id) (wf : r.WellFormed) (hpath : path ≠ []) :
    Name.qualified (r.modulePath id ++ path) = Name.qualified (segments ++ path) := by
  rcases h with ⟨rfl, rfl⟩ | ⟨hne, hm⟩
  · rw [wf.modulePath_global]
  · exact wf.qualified_module hne hm hpath

/-- The path of a scope leads to it. -/
theorem Anchored.locates (h : r.Anchored) (wf : r.WellFormed) (hid : r.declares id = true) :
    r.Locates (r.modulePath id) id := by
  rcases h id hid with rfl | ⟨found, _, _, _, hin⟩
  · exact .inl ⟨wf.modulePath_global, rfl⟩
  · refine .inr ⟨?_, found⟩
    rw [hin.path]
    simp

/-- A scope is reached from wherever a part of its path leads. -/
theorem Anchored.exists_descends (h : r.Anchored) (wf : r.WellFormed) (hid : r.declares id = true)
    (hpath : r.modulePath id = segments ++ path) :
    ∃ outer, r.Locates segments outer ∧ r.Descends outer path id := by
  induction path using List.reverseRecOn generalizing id with
  | nil =>
      rw [List.append_nil] at hpath
      exact ⟨id, hpath ▸ h.locates wf hid, .here⟩
  | append_singleton path name ih =>
      rw [← List.append_assoc] at hpath
      rcases h id hid with rfl | ⟨_, parent, last, hparent, hin⟩
      · rw [wf.modulePath_global] at hpath
        simp at hpath
      · rw [hin.path] at hpath
        obtain ⟨front, rfl⟩ := List.append_singleton_inj.mp hpath
        obtain ⟨outer, houter, before⟩ := ih hparent front
        exact ⟨outer, houter, .inside before hin⟩

theorem Anchored.descends (h : r.Anchored) (wf : r.WellFormed) (hid : r.declares id = true)
    (houter : r.Locates segments outer) (hpath : r.modulePath id = segments ++ path) :
    r.Descends outer path id := by
  obtain ⟨outer', houter', hdescends⟩ := h.exists_descends wf hid hpath
  rw [houter.eq houter']
  exact hdescends

end Paths

end Registry
end OnePass
