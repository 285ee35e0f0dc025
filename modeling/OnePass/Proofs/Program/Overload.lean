import OnePass.Proofs.Grammar.Unit
import OnePass.Proofs.Typing.Check
import OnePass.Proofs.Typing.Conformance

/-!
Calls of functions that are known by the types of the arguments. A call whose arguments have, by their
spelling, exactly the types of the parameters goes to the function without a look at either. If the
arguments are such that the parameters would not have taken them, it goes there all the same.
-/

namespace OnePass

/-- Files have been read into the registry, whether they were accepted or not. -/
inductive Registry.FromFiles : Registry → Prop where
  | empty : FromFiles Registry.empty
  | read {reg reg' : Registry} {source : Source} {x : Except Diagnostic Program}
      (before : FromFiles reg) (after : reg.read source = (x, reg')) : FromFiles reg'

/-- A function goes by its name and the types of its parameters, or by a name that was made for it. -/
structure Overload.Keyed (f : Overload) : Prop where
  key : (Named Token.Names f.symbol.name ∧
      f.symbol.internal = Name.overload f.symbol.name f.params f.traits.isExtern) ∨
    ∃ reg : Registry, f.symbol.internal = reg.nameAnonymous.1
  params : ∀ p ∈ f.params, p.Written (Named Token.Names)

/-! ### Keys -/

theorem toList_overload {name : String} (h : name ≠ "main") (ts : List Ty) :
    (Name.overload name ts false).toList =
      name.toList ++ '(' :: ((join "," (Ty.texts ts)).toList ++ [')']) := by
  simp [Name.overload, h, toString]

/-- What a function is known by falls into a name and the texts of the parameters. -/
theorem parts_of_overload {a b : String} (ha : ∀ c ∈ a.toList, Token.Scan.isWordChar c = true)
    (hb : ∀ c ∈ b.toList, Token.Scan.isWordChar c = true) (hma : a ≠ "main") (hmb : b ≠ "main")
    {ts us : List Ty} (h : Name.overload a ts false = Name.overload b us false) :
    a = b ∧ (join "," (Ty.texts ts)).toList ++ [')'] = (join "," (Ty.texts us)).toList ++ [')'] := by
  have spelt := congrArg String.toList h
  rw [toList_overload hma, toList_overload hmb] at spelt
  have ends (x : List Char) : ∀ c ∈ ('(' :: x).head?, Token.Scan.isWordChar c = false := by
    rintro _ ⟨⟩
    decide
  obtain ⟨hname, hrest⟩ := Shape.run_append_inj ha hb (ends _) (ends _) spelt
  exact ⟨String.toList_inj.mp hname, (List.cons.inj hrest).2⟩

theorem opening_mem_overload {name : String} (h : name ≠ "main") (ts : List Ty) :
    '(' ∈ (Name.overload name ts false).toList := by
  simp [toList_overload h]

theorem Named.opening_not_mem {name : String} (h : Named Token.Names name) : '(' ∉ name.toList :=
  fun hmem => absurd (h.chars _ hmem) (by decide)

theorem opening_not_mem_anonymous (reg : Registry) : '(' ∉ reg.nameAnonymous.1.toList := by
  have digits : '(' ∉ Nat.toDigits 10 reg.anonymous := fun hmem =>
    absurd (Nat.isDigit_of_mem_toDigits (by decide) (by decide) hmem) (by decide)
  simpa [Registry.nameAnonymous, toString] using digits

theorem Overload.Keyed.shapes_eq {f : Overload} (h : f.Keyed) {name : String} {ts : List Ty}
    (hname : Named Token.Names name) (hmain : name ≠ "main")
    (hts : ∀ t ∈ ts, t.Mentions (Named Token.Names))
    (he : f.symbol.internal = Name.overload name ts false) : Ty.shapes f.params = Ty.shapes ts := by
  have opening := he ▸ opening_mem_overload hmain ts
  rcases h.key with ⟨hf, hkey⟩ | ⟨reg, hanonymous⟩
  · by_cases hbare : f.traits.isExtern = true ∨ f.symbol.name = "main"
    · have bare : f.symbol.internal = f.symbol.name := by
        rw [hkey, Name.overload, if_pos (by simpa using hbare)]
      exact absurd (bare ▸ opening) hf.opening_not_mem
    · obtain ⟨hforeign, hnamed⟩ := not_or.mp hbare
      rw [hkey, Bool.eq_false_iff.mpr hforeign] at he
      refine Ty.shapes_eq_of_join ?_ (Ty.mentionsAll_iff.mpr hts)
        (parts_of_overload hf.chars hname.chars hnamed hmain he).2
      exact Ty.mentionsAll_iff.mpr fun p hp => (h.params p hp).mentions
  · exact absurd (hanonymous ▸ opening) (opening_not_mem_anonymous reg)

/-! ### Registries -/

/-- A function that reading has entered is keyed. -/
theorem Reading.Declares.keyed {rd : Reading} {reg : Registry} {f : Overload} (h : rd.Declares reg f)
    (htoken : rd.token = Token.Names) (hreg : reg.Tidy rd.token) : f.Keyed := by
  obtain ⟨hkey, hparams, _⟩ := h
  rw [htoken] at hparams hreg hkey
  refine ⟨?_, hparams⟩
  rcases hkey with ⟨scope, name, hname, hqualified, hinternal⟩ | hanonymous
  · exact .inl ⟨hqualified ▸ hreg.qualify (.word hname), hinternal⟩
  · exact .inr hanonymous

namespace Registry.FromFiles

variable {reg reg' : Registry}

/-- What holds of a registry that files have been read into. -/
theorem invariant (h : reg.FromFiles) :
    reg.WellFormed ∧ reg.Tidy Token.Names ∧ ∀ f, .function f ∈ reg.definitions global → f.Keyed := by
  induction h with
  | empty => exact ⟨.empty, .empty, fun _ hf => nomatch hf⟩
  | @read reg _ source _ _ after ih =>
      obtain ⟨wellFormed, tidy, keyed⟩ := ih
      let rd : Reading := { token := Token.Names, start := reg, home := some global, wellFormed, tidy }
      have reach := (read_settled rd rfl (fun _ => Source.tokens_names) after).1
      refine ⟨reach.wellFormed wellFormed, reach.tidy wellFormed tidy, fun f hf => ?_⟩
      rcases reach.definition_cases hf with hf | ⟨reg₀, op, h₀, enters, hop⟩
      · exact keyed f hf
      · cases op <;> cases hop
        exact enters.keyed rfl (h₀.tidy wellFormed tidy)

/-- Reading a file against such a registry. -/
def reading (h : reg.FromFiles) : Reading where
  token := Token.Names
  start := reg
  home := some global
  wellFormed := h.invariant.1
  tidy := h.invariant.2.1

end Registry.FromFiles

/-! ### Calls -/

/-- If a function is known by a name of the call and the types of its arguments, its parameters take the
arguments if and only if these conform. The entry point is known by its name alone, and a call of it goes
there with any arguments. -/
def Node.Conforms (reg : Registry) : Node → Prop
  | .expr (.call c) =>
    (∀ name ∈ reg.calleeNames c, name ≠ "main" →
      ∀ f, reg.function? c.scope (Name.overload name c.argTypes false) = some f →
        (reg.takes c f = .ok true ↔ List.Forall₂ (Typing.Conforms reg c.scope) f.params c.args)) ∧
    ∀ f, reg.function? c.scope "main" = some f → ∀ args argTypes names,
      reg.exactTarget? { c with args, argTypes } ("main" :: names) = .ok (some (.function "main"))
  | _ => True

theorem Registry.mem_calleeNames {reg : Registry} {c : Call} {name : String}
    (h : name ∈ reg.calleeNames c) : name = reg.qualify c.scope c.qualified ∨ name = c.qualified := by
  unfold calleeNames at h
  dsimp only at h
  split at h
  · exact .inl (List.mem_singleton.mp h)
  · simpa using h

theorem Registry.exactTarget?_main {reg : Registry} {c : Call} {f : Overload}
    (h : reg.function? c.scope "main" = some f) (names : List String) :
    reg.exactTarget? c ("main" :: names) = .ok (some (.function "main")) := by
  simp [exactTarget?, Name.overload, h]
  rfl

namespace Reading

variable {rd : Reading} {reg : Registry} {source : Source} {site : Site}

/-- The arguments of a call have the types that it was given for them. -/
theorem Settled.call {c : Call} (h : rd.Settled reg source site (.expr (.call c))) :
    reg.Knows c.scope ∧ Named rd.token c.qualified ∧
      List.Forall₂ (fun a t => Typing.infer reg c.scope a = .ok t) c.args c.argTypes ∧
      ∀ t ∈ c.argTypes, t.Mentions (Named rd.token) := by
  obtain ⟨n₀, hbuilt, hn⟩ := h
  obtain ⟨c₀, rfl, hc⟩ := Node.call_of_mapCalls hn
  obtain ⟨reg₀, h₀, hreach, hk, aims⟩ := hbuilt.formed
  have wf₀ := h₀.wellFormed rd.wellFormed
  have wf := hreach.wellFormed wf₀
  have hg := reg.retargets source
  obtain ⟨args, target, rfl, hargs, _⟩ := Call.mapCalls_eq_ok hg hc
  obtain ⟨segments, hpath, _, hqualified⟩ := aims.path
  have hscope : c₀.scope = site.scope := aims.scope
  refine ⟨hscope ▸ hreach.grows.knows hk, hqualified ▸ hpath.named, ?_, fun t ht => ?_⟩
  · have types := Typing.inferAll_later hreach.grows wf₀ wf hk hg hargs aims.argTypes
    exact hscope ▸ types
  · obtain ⟨a, ha, hinfer⟩ := exists_mem_of_forall₂ aims.argTypes ht
    have child : rd.Built reg site (.expr a) :=
      hbuilt.child (List.mem_map.mpr ⟨a, ha, rfl⟩)
    exact child.infer_mentions (h₀.tidy rd.wellFormed rd.tidy) hinfer

section Keyed

variable (htoken : rd.token = Token.Names) (wellFormed : reg.WellFormed) (tidy : reg.Tidy Token.Names)
  (keyed : ∀ f, .function f ∈ reg.definitions Registry.global → f.Keyed)

include htoken wellFormed tidy keyed

/-- A function that is known by a name of a call and the types of its arguments has parameters of these types, by
their spelling. -/
theorem Settled.shapes_eq {c : Call} (h : rd.Settled reg source site (.expr (.call c))) {name : String}
    (hname : name ∈ reg.calleeNames c) (hmain : name ≠ "main") {f : Overload}
    (hf : reg.function? c.scope (Name.overload name c.argTypes false) = some f) :
    (∀ p ∈ f.params, p.Written (Named Token.Names)) ∧ Ty.shapes f.params = Ty.shapes c.argTypes := by
  obtain ⟨hknows, hqualified, _, hmentions⟩ := h.call
  rw [htoken] at hqualified hmentions
  have named : Named Token.Names name := by
    rcases Registry.mem_calleeNames hname with rfl | rfl
    · exact tidy.qualify hqualified
    · exact hqualified
  have found : f ∈ reg.functions c.scope := List.mem_of_find?_eq_some hf
  have key : f.symbol.internal = Name.overload name c.argTypes false := by
    simpa using List.find?_some
      (p := fun f : Overload => f.symbol.internal == Name.overload name c.argTypes false) hf
  have hkeyed := keyed f ((Registry.mem_functions_iff wellFormed hknows).mp found)
  exact ⟨hkeyed.params, hkeyed.shapes_eq named hmain hmentions key⟩

theorem Settled.conforms {n : Node} (h : rd.Settled reg source site n) : n.Conforms reg := by
  unfold Node.Conforms
  split
  · rename_i c
    refine ⟨fun name hname hmain f hf => ?_, fun f hf args argTypes names => ?_⟩
    · obtain ⟨_, _, hinfer, hmentions⟩ := h.call
      rw [htoken] at hmentions
      obtain ⟨hparams, hshapes⟩ := h.shapes_eq htoken wellFormed tidy keyed hname hmain hf
      exact Typing.argumentsFit_iff_conforms _ hparams hmentions hshapes hinfer
    · exact Registry.exactTarget?_main (c := { c with args, argTypes }) hf names
  · trivial

end Keyed

end Reading

namespace Registry

/-- In an accepted program, a call of a function that is known by the types of the arguments has arguments
that the parameters take if and only if the arguments conform. -/
theorem read_conforms {reg reg' : Registry} {source : Source} {p : Program} (h : reg.FromFiles)
    (hread : reg.read source = (.ok p, reg')) :
    Every (fun _ n => n.Conforms reg') {} (.block p.body) := by
  have settled := (read_settled h.reading rfl (fun _ => Source.tokens_names) hread).2 p rfl
  obtain ⟨wellFormed, tidy, keyed⟩ := (FromFiles.read h hread).invariant
  exact settled.imp fun _ _ hn => hn.conforms rfl wellFormed tidy keyed

/-- Two functions, each called with an argument that conforms and with one that does not: a number below the
range, and an array with an element of another type. All four calls go to them. -/
theorem read_conforms_misfits :
    let source : Source := ⟨0, "unit.st",
      "fn f(x: u64): void \x7b \x7d fn g(a: i32[]): void \x7b \x7d fn main(): void \x7b
        f(18446744073709551615); f(-9223372036854775809); g([1, 2]); g([1, \"x\"]); \x7d"⟩
    ∃ p reg, Registry.empty.read source = (.ok p, reg) ∧
      p.body.calls.map (fun c => (c.target,
        (reg.function? c.scope (Name.overload c.qualified c.argTypes false)).bind fun f =>
          (reg.takes c f).toOption)) =
        [(.function "f(u64)", some true), (.function "f(u64)", some false),
          (.function "g(i32[])", some true), (.function "g(i32[])", some false)] ∧
      Every (fun _ n => n.Conforms reg) {} (.block p.body) := by
  intro source
  obtain ⟨p, reg, hread, houtcome⟩ := exists_of_read .empty source (by rfl)
    (fun p reg => p.body.calls.map fun c => (c.target,
      (reg.function? c.scope (Name.overload c.qualified c.argTypes false)).bind fun f =>
        (reg.takes c f).toOption))
    (x := [(.function "f(u64)", some true), (.function "f(u64)", some false),
      (.function "g(i32[])", some true), (.function "g(i32[])", some false)]) (by decide +kernel)
  exact ⟨p, reg, hread, houtcome, read_conforms .empty hread⟩

end Registry

end OnePass
