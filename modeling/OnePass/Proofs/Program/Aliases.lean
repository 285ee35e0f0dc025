import OnePass.Proofs.Program.Modules
import OnePass.Proofs.Program.Overload
import OnePass.Proofs.Registry.Aliases

/-!
What an alias stands for. The path behind an alias is looked up when it is read, in the module around and then
outwards. If the struct is there by then, the alias stands for it. If not, the alias stands for what would be
declared under the path in the module around, so a struct further down is met in that module and in no
module further out.
-/

namespace OnePass

/-- A path without a colon in it has one segment. -/
theorem Name.eq_singleton_of_written {segments : List String} (hne : segments ≠ [])
    (h : ':' ∉ (Name.written segments).toList) : segments = [Name.written segments] := by
  rcases segments with _ | ⟨s, _ | ⟨t, rest⟩⟩
  · exact absurd rfl hne
  · rfl
  · simp [Name.written, join] at h

namespace Registry

variable {r : Registry} {scope : ScopeId} {segments : List String} {depth : Nat}

/-- The name of what a path stands for, seen from a scope, in the module around it that has so many segments. -/
def candidate (r : Registry) (scope : ScopeId) (segments : List String) (depth : Nat) : String :=
  Name.qualified ((r.modulePath scope).take depth ++ [Name.qualified segments])

/-- Seen from a scope, a path denotes a struct of the module around that has so many segments, and no other. -/
structure Denotes (r : Registry) (scope : ScopeId) (segments : List String) (depth : Nat) : Prop where
  within : depth ≤ (r.modulePath scope).length
  there : (r.struct? global (r.candidate scope segments depth)).isSome = true
  only : ∀ other ≤ (r.modulePath scope).length, other ≠ depth →
    r.struct? global (r.candidate scope segments other) = none

instance : Decidable (r.Denotes scope segments depth) :=
  decidable_of_iff (depth ≤ (r.modulePath scope).length ∧
    (r.struct? global (r.candidate scope segments depth)).isSome = true ∧
    ∀ other ≤ (r.modulePath scope).length, other ≠ depth →
      (r.struct? global (r.candidate scope segments other)).isNone = true) (by
    simp only [Option.isNone_iff_eq_none]
    exact ⟨fun h => ⟨h.1, h.2.1, h.2.2⟩, fun h => ⟨h.within, h.there, h.only⟩⟩)

/-! ### Looking up a path -/

theorem qualify_eq_candidate :
    r.qualify scope (Name.qualified segments) = r.candidate scope segments (r.modulePath scope).length := by
  rw [qualify, candidate, List.take_length]

section Lookup

variable (wf : r.WellFormed) (hscope : r.Knows scope)

include wf hscope

/-- What is found is one of the candidates, and it is there. -/
theorem exists_candidate {found : String} (h : r.structName? scope none (Name.qualified segments) = some found) :
    ∃ depth ≤ (r.modulePath scope).length, found = r.candidate scope segments depth ∧
      (r.struct? global found).isSome = true := by
  have known := List.find?_some (p := fun c => none == some c || (r.struct? scope c).isSome) h
  obtain ⟨depth, hdepth, rfl⟩ := List.mem_map.mp (List.mem_of_find?_eq_some h)
  rw [List.mem_reverse, List.mem_range] at hdepth
  refine ⟨depth, Nat.le_of_lt_succ hdepth, rfl, ?_⟩
  rw [← wf.struct?_eq_global hscope]
  simpa using known

theorem structName?_isSome (hdepth : depth ≤ (r.modulePath scope).length)
    (hthere : (r.struct? global (r.candidate scope segments depth)).isSome = true) :
    (r.structName? scope none (Name.qualified segments)).isSome = true := by
  rw [← wf.struct?_eq_global hscope] at hthere
  refine List.find?_isSome.mpr ⟨r.candidate scope segments depth, List.mem_map.mpr ⟨depth, ?_, rfl⟩, ?_⟩
  · rw [List.mem_reverse, List.mem_range]
    exact Nat.lt_succ_of_le hdepth
  · rw [hthere, Bool.or_true]

/-- An alias stands for the struct that its path denotes, if that is there. -/
theorem Denotes.aliasTarget_eq (h : r.Denotes scope segments depth) :
    r.aliasTarget scope segments = r.candidate scope segments depth := by
  obtain ⟨found, hfound⟩ := Option.isSome_iff_exists.mp (structName?_isSome wf hscope h.within h.there)
  obtain ⟨other, hother, rfl, hthere⟩ := exists_candidate wf hscope hfound
  rw [aliasTarget, hfound, Option.getD_some]
  by_contra hne
  have none := h.only other hother fun heq => hne (by rw [heq])
  rw [none] at hthere
  cases hthere

/-- An alias whose path denotes nothing stands for what would be declared in the module around. -/
theorem aliasTarget_of_none
    (h : ∀ depth ≤ (r.modulePath scope).length, r.struct? global (r.candidate scope segments depth) = none) :
    r.aliasTarget scope segments = r.candidate scope segments (r.modulePath scope).length := by
  cases hfound : r.structName? scope none (Name.qualified segments) with
  | none => rw [aliasTarget, hfound, Option.getD_none, qualify_eq_candidate]
  | some found =>
      obtain ⟨depth, hdepth, rfl, hthere⟩ := exists_candidate wf hscope hfound
      rw [h depth hdepth] at hthere
      cases hthere

end Lookup

/-! ### Aliases and what they stand for -/

/-- An alias of a registry. Its path was looked up, in a scope, in the registry before the alias was entered. -/
structure AliasFrom (r₀ r : Registry) (scope : ScopeId) (segments : List String) (symbol : Symbol) : Prop where
  earlier : r₀.WellFormed
  later : r.WellFormed
  grows : r₀.Extends r
  knows : r₀.Knows scope
  noted : ∃ span, r.struct? global symbol.internal =
    some ⟨symbol, .alias ⟨Name.written segments, r₀.aliasTarget scope segments, span⟩⟩
  before : ∀ name, r.order name < r.order symbol.internal ↔ (r₀.struct? global name).isSome = true

namespace AliasFrom

variable {r₀ : Registry} {symbol : Symbol} (h : r₀.AliasFrom r scope segments symbol)

include h

theorem standsFor : r.StandsFor symbol.internal (r₀.aliasTarget scope segments) := by
  obtain ⟨span, hnoted⟩ := h.noted
  exact standsFor_iff.mpr ⟨_, _, hnoted, rfl, rfl⟩

theorem modulePath_eq : r.modulePath scope = r₀.modulePath scope := h.earlier.modulePath_eq h.grows h.knows

theorem candidate_eq (depth : Nat) : r.candidate scope segments depth = r₀.candidate scope segments depth := by
  rw [candidate, h.modulePath_eq, candidate]

theorem struct?_eq_none {name : String} (hname : r.struct? global name = none) : r₀.struct? global name = none := by
  cases hs : r₀.struct? global name with
  | none => rfl
  | some s =>
      rw [h.grows.struct?_eq_some h.earlier h.later h.earlier.knows_global hs] at hname
      cases hname

/-- A struct that was there was denoted by the path when it was looked up. -/
theorem denotes (hdenotes : r.Denotes scope segments depth)
    (hthere : (r₀.struct? global (r₀.candidate scope segments depth)).isSome = true) :
    r₀.Denotes scope segments depth where
  within := h.modulePath_eq ▸ hdenotes.within
  there := hthere
  only other hother hne := by
    rw [← h.modulePath_eq] at hother
    rw [← h.candidate_eq]
    exact h.struct?_eq_none (hdenotes.only other hother hne)

theorem aliasTarget_of_before (hdenotes : r.Denotes scope segments depth)
    (hbefore : r.order (r.candidate scope segments depth) < r.order symbol.internal) :
    r₀.aliasTarget scope segments = r.candidate scope segments depth := by
  have hthere := (h.before _).mp hbefore
  rw [h.candidate_eq] at hthere ⊢
  exact (h.denotes hdenotes hthere).aliasTarget_eq h.earlier h.knows

theorem aliasTarget_of_after (hdenotes : r.Denotes scope segments depth)
    (hafter : r.order symbol.internal ≤ r.order (r.candidate scope segments depth)) :
    r₀.aliasTarget scope segments = r.candidate scope segments (r.modulePath scope).length := by
  rw [h.candidate_eq, h.modulePath_eq]
  refine aliasTarget_of_none h.earlier h.knows fun other hother => ?_
  rw [← h.candidate_eq]
  by_cases hother' : other = depth
  · rw [hother', ← Option.not_isSome_iff_eq_none, ← h.before]
    exact Nat.not_lt_of_le hafter
  · rw [← h.modulePath_eq] at hother
    exact h.struct?_eq_none (hdenotes.only other hother hother')

/-- An alias has the fields of a struct that is declared before it, or in the module around. -/
theorem fields?_iff (hdenotes : r.Denotes scope segments depth)
    (hmeets : r.order (r.candidate scope segments depth) < r.order symbol.internal ∨
      depth = (r.modulePath scope).length) (fields : List Field) :
    r.fields? global symbol.internal = .ok (some fields) ↔
      r.fields? global (r.candidate scope segments depth) = .ok (some fields) := by
  have htarget : r₀.aliasTarget scope segments = r.candidate scope segments depth := by
    by_cases hbefore : r.order (r.candidate scope segments depth) < r.order symbol.internal
    · exact h.aliasTarget_of_before hdenotes hbefore
    · have innermost := hmeets.resolve_left hbefore
      rw [h.aliasTarget_of_after hdenotes (Nat.le_of_not_lt hbefore), innermost]
  exact (htarget ▸ h.standsFor).fields?_iff

/-- An alias has no fields if its path denotes a struct further out that is declared after it. -/
theorem fields?_eq_error (hdenotes : r.Denotes scope segments depth)
    (hafter : r.order symbol.internal ≤ r.order (r.candidate scope segments depth))
    (houter : depth ≠ (r.modulePath scope).length) :
    r.fields? global symbol.internal = .error (.undefinedAlias symbol.name (Name.written segments)) := by
  obtain ⟨span, hnoted⟩ := h.noted
  refine fields?_undefined hnoted rfl ?_
  rw [h.aliasTarget_of_after hdenotes hafter]
  exact hdenotes.only _ (Nat.le_refl _) houter.symm

end AliasFrom

end Registry

/-! ### Aliases of a program -/

theorem Word.isWord {s : String} (h : Word Token.Names s) : IsWord s := by
  obtain ⟨t, ht, hk, rfl⟩ := h
  exact ht hk

/-- What is entered for a struct of an accepted program, and when. -/
theorem Reading.Settled.introduces {rd : Reading} {reg : Registry} {source : Source} {site : Site} {d : StructDecl}
    (h : rd.Settled reg source site (.stmt (.struct d))) :
    ∃ reg₁ span, reg₁.Extends reg ∧ rd.Introduces reg₁ site.scope ⟨d.name, d.internal, span⟩ d.body := by
  obtain ⟨n₀, reg₁, _, _, hx, _, hf, hn⟩ := h.formed
  obtain ⟨s₀, rfl, hs⟩ := Node.stmt_of_mapCalls hn
  cases Stmt.becomes hs with
  | struct =>
      obtain ⟨_, span, hintro⟩ := hf
      exact ⟨reg₁, span, hx, hintro⟩

namespace Registry

/-- In an accepted program, an alias is noted with its path. If the path denotes one struct, and that is declared
before the alias or in the same module, the alias has the fields of the struct. If the struct is declared after the
alias and further out, the alias has none. -/
theorem read_aliases {reg reg' : Registry} {source : Source} {p : Program} {scope : ScopeId} {path : List String}
    {name target : String} {d : StructDecl} (h : reg.FromFiles) (hread : reg.read source = (.ok p, reg'))
    (hnames : p.Names scope path name (.struct d)) (hbody : d.body = .alias target) :
    ∃ segments span span', segments ≠ [] ∧ (∀ s ∈ segments, IsWord s) ∧
      reg'.struct? global d.internal =
        some ⟨⟨name, d.internal, span⟩, .alias ⟨Name.written segments, target, span'⟩⟩ ∧
      ∀ depth, reg'.Denotes scope segments depth → ∀ id, reg'.Knows id →
        (reg'.order (reg'.candidate scope segments depth) < reg'.order d.internal ∨
            depth = (reg'.modulePath scope).length →
          ∀ fields, reg'.fields? id d.internal = .ok (some fields) ↔
            reg'.fields? id (reg'.candidate scope segments depth) = .ok (some fields)) ∧
        (reg'.order d.internal ≤ reg'.order (reg'.candidate scope segments depth) →
            depth ≠ (reg'.modulePath scope).length →
          reg'.fields? id d.internal = .error (.undefinedAlias name (Name.written segments))) := by
  obtain ⟨trail, named⟩ := hnames
  obtain rfl := Option.some.inj named
  have settled := (read_settled h.reading rfl (fun _ => Source.tokens_names) hread).2 p rfl
  obtain ⟨wf, _, _⟩ := (FromFiles.read h hread).invariant
  obtain ⟨reg₁, span, hx, reg₀, layout, hreach, hscope, hdefine, hdescribes⟩ :=
    (settled _ _ trail.occurs).introduces
  rw [hbody] at hdescribes
  obtain ⟨segments, span', hpath, rfl, rfl⟩ := hdescribes
  have wf₀ := hreach.wellFormed h.invariant.1
  obtain ⟨noted, before⟩ := wf₀.struct?_of_entered hscope hdefine wf hx
  obtain ⟨_, _, rfl⟩ := defineStruct_ok hdefine
  have looked := AliasFrom.mk wf₀ wf ((reg₀.extends_enter _ _).trans hx) hscope ⟨span', noted⟩ before
  refine ⟨segments, span, span', hpath.1, fun s hs => (hpath.2 s hs).isWord, noted, fun depth hdenotes id hid => ?_⟩
  simp only [wf.fields?_eq_global hid]
  exact ⟨looked.fields?_iff hdenotes, looked.fields?_eq_error hdenotes⟩

/-- Of an alias in a module of a program: the path and the scope of the module, the name of the alias, and what it
is known by. -/
def aliasAt? (p : Program) (i j : Nat) : Option (List String × ScopeId × String × String) :=
  match p.body.stmts[i]? with
  | some (.module path body _) =>
      match body.stmts[j]? with
      | some (.struct ⟨name, internal, .alias _, _, _⟩) => some (path, body.scope, name, internal)
      | _ => none
  | _ => none

theorem names_of_aliasAt? {p : Program} {i j : Nat} {path : List String} {scope : ScopeId} {name internal : String}
    (h : aliasAt? p i j = some (path, scope, name, internal)) :
    ∃ d target, p.Names scope path name (.struct d) ∧ d.internal = internal ∧ d.body = .alias target := by
  unfold aliasAt? at h
  split at h
  · rename_i body _ hmodule
    split at h
    · rename_i hstruct
      cases h
      have around : Trail (.block p.body) [.block p.body] { scope := p.body.scope } (.stmt (.module path body _)) :=
        .step .root (List.mem_map.mpr ⟨_, List.mem_of_getElem? hmodule, rfl⟩)
      have within := (around.step (.head _)).step (List.mem_map.mpr ⟨_, List.mem_of_getElem? hstruct, rfl⟩)
      have names := Program.Names.intro within rfl
      simp only [pathThrough_cons, Node.segments, List.append_nil] at names
      exact ⟨_, _, names, rfl, rfl⟩
    · cases h
  · cases h

/-- The alias `X` has the fields of a struct that is declared before it, `Y` those of a struct behind it in the same
module. The struct `P` is declared behind `Z` in the module around, and `Z` has no fields. -/
theorem read_aliases_outer :
    let source : Source := ⟨0, "unit.st",
      "struct O \x7b a: i32; \x7d
      module M \x7b struct X = O; struct Y = Q; struct Z = P; struct Q \x7b b: i32; \x7d \x7d
      struct P \x7b c: i32; \x7d"⟩
    ∃ p reg, Registry.empty.read source = (.ok p, reg) ∧ (∀ name ∈ ["O", "M__Q", "P"], reg.Resolves name) ∧
      (∀ fields, reg.fields? global "M__X" = .ok (some fields) ↔ reg.fields? global "O" = .ok (some fields)) ∧
      (∀ fields, reg.fields? global "M__Y" = .ok (some fields) ↔ reg.fields? global "M__Q" = .ok (some fields)) ∧
      reg.Denotes 1 ["P"] 0 ∧ reg.fields? global "M__Z" = .error (.undefinedAlias "Z" "P") := by
  intro source
  obtain ⟨p, reg, hread, hout⟩ := exists_of_read .empty source (by rfl)
    (fun p reg => decide ((∀ name ∈ ["O", "M__Q", "P"], reg.Resolves name) ∧ reg.modulePath 1 = ["M"] ∧
      (aliasAt? p 1 0 = some (["M"], 1, "X", "M__X") ∧ (reg.aliasOf? "M__X").map (·.name) = some "O" ∧
        reg.Denotes 1 ["O"] 0 ∧ reg.order "O" < reg.order "M__X") ∧
      (aliasAt? p 1 1 = some (["M"], 1, "Y", "M__Y") ∧ (reg.aliasOf? "M__Y").map (·.name) = some "Q" ∧
        reg.Denotes 1 ["Q"] 1) ∧
      aliasAt? p 1 2 = some (["M"], 1, "Z", "M__Z") ∧ (reg.aliasOf? "M__Z").map (·.name) = some "P" ∧
        reg.Denotes 1 ["P"] 0 ∧ reg.order "M__Z" ≤ reg.order "P")) (x := true) (by decide +kernel)
  obtain ⟨resolves, hpath, ⟨hX, wX, dX, before⟩, ⟨hY, wY, dY⟩, hZ, wZ, dZ, behind⟩ := of_decide_eq_true hout
  have knows := (FromFiles.read .empty hread).invariant.1.knows_global
  have follow {j depth : Nat} {name internal written : String} (hat : aliasAt? p 1 j = some (["M"], 1, name, internal))
      (hwritten : (reg.aliasOf? internal).map (·.name) = some written) (hcolon : ':' ∉ written.toList)
      (hdenotes : reg.Denotes 1 [written] depth) :
      (reg.order (reg.candidate 1 [written] depth) < reg.order internal ∨ depth = 1 →
        ∀ fields, reg.fields? global internal = .ok (some fields) ↔
          reg.fields? global (reg.candidate 1 [written] depth) = .ok (some fields)) ∧
      (reg.order internal ≤ reg.order (reg.candidate 1 [written] depth) → depth ≠ 1 →
        reg.fields? global internal = .error (.undefinedAlias name written)) := by
    obtain ⟨d, target, hnames, rfl, hbody⟩ := names_of_aliasAt? hat
    obtain ⟨segments, _, _, hne, _, noted, stands⟩ := read_aliases .empty hread hnames hbody
    rw [aliasOf?, noted] at hwritten
    obtain rfl := Option.some.inj hwritten
    rw [hpath] at stands
    have single := Name.eq_singleton_of_written hne hcolon
    rw [← single] at hdenotes ⊢
    exact stands depth hdenotes global knows
  have met := (follow hY wY (by decide) dY).1 (.inr rfl)
  rw [candidate, hpath] at met
  exact ⟨p, reg, hread, resolves, (follow hX wX (by decide) dX).1 (.inl before), met, dZ,
    (follow hZ wZ (by decide) dZ).2 behind (by decide)⟩

end Registry
end OnePass
