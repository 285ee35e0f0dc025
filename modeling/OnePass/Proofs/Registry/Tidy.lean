import OnePass.Proofs.Registry.Types
import OnePass.Token.Basic

/-!
Names that come from a program. A word is the text of a name in it; words with separators between them
are the names that modules, structs and enums are known by. A registry is tidy if all names it could
put together are of this sort.
-/

namespace OnePass

/-- A name as it stands in a program whose tokens have the property `T`. -/
def Word (T : Token → Prop) (w : String) : Prop :=
  ∃ t, T t ∧ t.kind = .identifier ∧ t.lexeme = w

/-- Words with separators between them. -/
inductive Named (T : Token → Prop) : String → Prop where
  | word {w : String} (h : Word T w) : Named T w
  | within {a b : String} (ha : Named T a) (hb : Named T b) : Named T (a ++ Name.separator ++ b)

variable {T : Token → Prop}

theorem Named.qualified {segments : List String} (h : ∀ s ∈ segments, Named T s)
    (hne : segments ≠ []) : Named T (Name.qualified segments) := by
  unfold Name.qualified
  induction segments with
  | nil => exact absurd rfl hne
  | cons s segments ih =>
      cases segments with
      | nil => exact h s List.mem_cons_self
      | cons s' segments =>
          exact .within (h s List.mem_cons_self)
            (ih (fun u hu => h u (List.mem_cons_of_mem _ hu)) (List.cons_ne_nil _ _))

/-- All names in a definition's types have a property, and so has the name that a type is known by. -/
def Definition.Mentions (N : String → Prop) : Definition → Prop
  | .variable v => v.type.Mentions N
  | .function f => (∀ p ∈ f.params, p.Mentions N) ∧ f.result.Mentions N
  | .struct ⟨_, .fields fields⟩ => ∀ f ∈ fields, f.type.Mentions N
  | .struct ⟨_, .alias _⟩ => True
  | .marker symbol kind => kind ≠ .enumMember → N symbol.internal

namespace Registry

variable {r r' : Registry} {id : ScopeId}

structure Tidy (T : Token → Prop) (r : Registry) : Prop where
  modules : ∀ id s name, r.scope? id = some s → s.kind = .module → s.name = some name → Word T name
  mentions : ∀ id, ∀ d ∈ r.definitions id, d.Mentions (Named T)

namespace Tidy

theorem modulePath (h : r.Tidy T) : ∀ w ∈ r.modulePath id, Word T w := by
  intro w hw
  simp only [Registry.modulePath, List.mem_reverse, List.mem_filterMap] at hw
  obtain ⟨a, _, ha⟩ := hw
  split at ha
  · rename_i s hs
    exact h.modules a _ w hs rfl ha
  · cases ha

/-- What is declared in a scope under a name that is tidy is known by one. -/
theorem qualify (h : r.Tidy T) {name : String} (hn : Named T name) : Named T (r.qualify id name) := by
  refine .qualified ?_ (by simp)
  intro s hs
  rcases List.mem_append.mp hs with hs | hs
  · exact .word (h.modulePath s hs)
  · exact List.mem_singleton.mp hs ▸ hn

theorem empty : Registry.empty.Tidy T where
  modules id s name hs hk := by
    obtain ⟨hlt, rfl⟩ := List.getElem?_eq_some_iff.mp hs
    match id, hlt with
    | 0, _ => cases hk
  mentions id d hd := by
    cases id with
    | zero => cases hd
    | succ id => cases hd

/-- Where any token will do, any name is one that could have been read. -/
theorem all (r : Registry) : r.Tidy fun _ => True := by
  have word (w : String) : Word (fun _ => True) w :=
    ⟨⟨.identifier, w, .ofLength 0 0 0⟩, trivial, rfl, rfl⟩
  have mentions (t : Ty) : t.Mentions (Named fun _ => True) :=
    t.mentions_of_forall fun n => .word (word n)
  refine ⟨fun _ _ name _ _ _ => word name, fun _ d _ => ?_⟩
  match d with
  | .variable v => exact mentions v.type
  | .function f => exact ⟨fun p _ => mentions p, mentions f.result⟩
  | .struct ⟨_, .fields fields⟩ => exact fun f _ => mentions f.type
  | .struct ⟨_, .alias _⟩ => trivial
  | .marker symbol _ => exact fun _ => .word (word _)

theorem nameAnonymous (h : r.Tidy T) : r.nameAnonymous.2.Tidy T := ⟨h.modules, h.mentions⟩

theorem openScope (h : r.Tidy T) {kind : ScopeKind} {name : Option String}
    (hn : kind = .module → ∀ w ∈ name, Word T w) : (r.openScope id kind name).2.Tidy T where
  modules j s w hs hk hw := by
    rcases scope?_openScope_cases hs with ⟨h₀, _⟩ | ⟨_, rfl⟩
    · exact h.modules j s w h₀ hk hw
    · exact hn hk w hw
  mentions j d hd := h.mentions j d (definitions_openScope r id j kind name ▸ hd)

theorem openModule (h : r.Tidy T) {name : String} (hn : Word T name) :
    (r.openModule id name).2.Tidy T := by
  obtain ⟨_, _, he⟩ | ⟨_, he⟩ := r.openModule_cases id name
  · rw [he]
    exact h
  · rw [he]
    have opened : (r.openScope id .module (some name)).2.Tidy T :=
      h.openScope fun _ w hw => Option.some.inj hw ▸ hn
    exact ⟨opened.modules, opened.mentions⟩

theorem enter (h : r.Tidy T) (hid : r.Knows id) {d : Definition} (hd : d.Mentions (Named T)) :
    (r.enter id d).Tidy T where
  modules j s w hs hk hw := by
    rw [scope?_enter] at hs
    obtain ⟨s₀, hs₀, rfl⟩ := Option.map_eq_some_iff.mp hs
    refine h.modules j s₀ w hs₀ ?_ ?_
    · split at hk <;> exact hk
    · split at hw <;> exact hw
  mentions j d' hd' := by
    rw [definitions_enter hid, List.mem_append] at hd'
    rcases hd' with hd' | hd'
    · exact h.mentions j d' hd'
    · split at hd'
      · exact List.mem_singleton.mp hd' ▸ hd
      · cases hd'

theorem types (h : r.Tidy T) : r.AllTypes (Ty.Mentions (Named T)) := by
  intro id d hd
  have mentions := h.mentions id d hd
  cases d with
  | struct s =>
      obtain ⟨symbol, layout⟩ := s
      cases layout <;> exact mentions
  | marker => trivial
  | «variable» | function => exact mentions

end Tidy

end Registry
end OnePass
