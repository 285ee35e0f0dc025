import OnePass.Proofs.Grammar.Reading
import OnePass.Proofs.Layout.Region
import OnePass.Proofs.Tree.Parts

/-!
The tokens that imports were read from. An import is the word `import`, a path, behind it a list in braces or
nothing, and a semicolon. What was read of a region carries the imports of the parts that came of it if the
word `import` stands nowhere else in it: not in front of the parts, not between them, and not inside of one
that is no import, unless it belongs to a part of that.
-/

namespace OnePass

open Region (significant)

def Stmt.isImport : Stmt → Bool
  | .imports .. => true
  | _ => false

def Part.isImport : Part → Bool
  | .stmt s => s.isImport
  | _ => false

/-- What stands behind a path says which module is meant: a list means the module at the path, whatever its
names are, and without one the last segment is the name of an item. -/
inductive Selects : List String → List Token → List String → List String → Prop where
  | list {segments names : List String} {colons opening closing : Token} {inside : List Token}
      (hcolons : colons.kind = .colonColon) (hopening : opening.kind = .leftBrace)
      (hinside : ∀ t ∈ inside, t.kind ≠ .kwImport) (hclosing : closing.kind = .rightBrace) :
      Selects segments (colons :: opening :: (inside ++ [closing])) segments names
  | item {module : List String} {name : String} (hmodule : module ≠ []) :
      Selects (module ++ [name]) [] module [name]

/-- The statement is the import that is written with these tokens, and stands where they do. -/
inductive Stmt.WrittenAs : Stmt → List Token → Prop where
  | mk {keyword semicolon : Token} {path behind : List Token} {segments module names : List String}
      (hkeyword : keyword.kind = .kwImport) (hpath : Spells path segments)
      (hbehind : Selects segments behind module names) (hsemicolon : semicolon.kind = .semicolon) :
      WrittenAs (.imports module names (keyword.span.merge semicolon.span))
        (keyword :: (path ++ behind ++ [semicolon]))

/-- Among the tokens stand the imports of the parts, in their order, and no others. -/
inductive Carries : List Token → List Part → Prop where
  | skip {ts : List Token} (h : ∀ t ∈ ts, t.kind ≠ .kwImport) : Carries ts []
  | append {ts us : List Token} {ps qs : List Part} (before : Carries ts ps) (behind : Carries us qs) :
      Carries (ts ++ us) (ps ++ qs)
  | node {ts : List Token} {p : Part} (plain : p.isImport = false) (inside : Carries ts p.parts) :
      Carries ts [p]
  | imports {ts : List Token} {s : Stmt} (written : s.WrittenAs (significant ts)) : Carries ts [.stmt s]

namespace Region

/-- Something was read from the front of `r`, with the imports of the parts among it, and `l` is left. -/
def Carries (r l : Region) (ps : List Part) : Prop := ∃ ts, r.Reads ts l ∧ OnePass.Carries ts ps

/-- A path was read from the front of `r`, and `l` is left. -/
def Spelt (r l : Region) (segments : List String) : Prop :=
  ∃ ts, r.Reads ts l ∧ Spells (significant ts) segments

/-- Something in braces, without imports, was read from the front of `r`, and `l` is left. -/
def Braced (r l : Region) : Prop :=
  ∃ ts opening inside closing, r.Reads ts l ∧ significant ts = opening :: (inside ++ [closing]) ∧
    opening.kind = .leftBrace ∧ closing.kind = .rightBrace ∧ ∀ t ∈ inside, t.kind ≠ .kwImport

variable {r l m inner rest : Region} {ps qs : List Part} {segments : List String}

namespace Carries

theorem leaves (h : r.Carries l ps) : r.Leaves l :=
  let ⟨ts, reads, _⟩ := h
  ⟨ts, reads⟩

theorem skip (h : r.Spares l) : r.Carries l [] :=
  let ⟨ts, reads, spares⟩ := h
  ⟨ts, reads, .skip spares⟩

theorem append (h : r.Carries l ps) (h' : l.Carries m qs) : r.Carries m (ps ++ qs) :=
  let ⟨_, reads, carries⟩ := h
  let ⟨_, reads', carries'⟩ := h'
  ⟨_, reads.trans reads', carries.append carries'⟩

theorem node {p : Part} (h : r.Carries l p.parts) (hp : p.isImport = false) : r.Carries l [p] :=
  let ⟨ts, reads, carries⟩ := h
  ⟨ts, reads, .node hp carries⟩

/-- What was read from a region that was carved out, up to its end. -/
theorem carved (hc : r.Encloses inner rest) (h : inner.Carries l ps) (hl : l.hasNext = false) :
    r.Carries rest ps := by
  obtain ⟨ts, reads, carries⟩ := h
  obtain ⟨before, after, inside, plain⟩ := hc.around
  obtain ⟨hbefore, hafter⟩ := List.forall_mem_append.mp plain
  have none : l.ahead = [] := by simpa [hasNext] using hl
  refine ⟨_, inside, ?_⟩
  rw [reads.ahead, none, List.append_nil]
  have both : OnePass.Carries (before ++ ts) ps := (OnePass.Carries.skip hbefore).append carries
  exact List.append_nil ps ▸ both.append (.skip hafter)

end Carries

theorem kind_of_significant {ts : List Token} (h : ∀ t ∈ significant ts, t.kind ≠ .kwImport) :
    ∀ t ∈ ts, t.kind ≠ .kwImport := by
  intro t ht
  by_cases hc : t.isComment = true
  · exact kind_of_comment hc
  · exact h t (List.mem_filter.mpr ⟨ht, by simpa using hc⟩)

end Region

theorem Spells.kind {ts : List Token} {segments : List String} (h : Spells ts segments) :
    ∀ t ∈ ts, t.kind ≠ .kwImport := by
  induction h with
  | name kind => exact List.forall_mem_singleton.mpr (kind ▸ nofun)
  | next _ colons name ih =>
      refine List.forall_mem_append.mpr ⟨ih, List.forall_mem_cons.mpr ⟨colons ▸ nofun, ?_⟩⟩
      exact List.forall_mem_singleton.mpr (name ▸ nofun)

theorem Region.Spelt.spares {r l : Region} {segments : List String} (h : r.Spelt l segments) : r.Spares l :=
  let ⟨ts, reads, spells⟩ := h
  ⟨ts, reads, kind_of_significant spells.kind⟩

end OnePass
