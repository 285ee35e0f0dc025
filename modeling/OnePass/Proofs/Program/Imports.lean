import OnePass.Library.Request
import OnePass.Proofs.Program.Placement
import OnePass.Proofs.Token.Words
import OnePass.Proofs.Twin.Unit

/-!
What a file asks for before it is read is what it imports. The requests are read off the tokens, the imports
come of the productions, and neither knows of the other. But every word `import` that a production reads
begins one of the imports that come of it, and the rest of such an import is written as the requests take it.
-/

namespace OnePass

open Region (significant)

/-! ### Requests -/

namespace Library.Request

/-- Where no import is, nothing is asked for. -/
theorem ofSignificant_append {ts : List Token} (h : ∀ t ∈ ts, t.kind ≠ .kwImport) (rest : List Token) :
    ofSignificant (ts ++ rest) = ofSignificant rest := by
  induction ts with
  | nil => rfl
  | cons t ts ih =>
      obtain ⟨ht, hts⟩ := List.forall_mem_cons.mp h
      rw [List.cons_append, ofSignificant, if_pos ht, ih hts]

/-- A path goes on behind a `::`, unless there is a brace. -/
theorem path_append {ts : List Token} {segments : List String} (h : Spells ts segments) {colons next : Token}
    {rest : List Token} (hcolons : colons.kind = .colonColon) (hnext : next.kind ≠ .leftBrace) :
    path (ts ++ colons :: next :: rest) =
      (segments ++ (path (next :: rest)).1, (path (next :: rest)).2) := by
  induction h generalizing colons next rest with
  | name kind => simp [path, kind, hcolons, hnext]
  | @next ts segments c t before hc ht ih =>
      have brace : t.kind ≠ .leftBrace := ht ▸ nofun
      rw [List.append_assoc, List.cons_append, List.cons_append, List.nil_append, ih hc brace]
      simp [path, ht, hcolons, hnext]

/-- A path ends in front of what is no `::`. -/
theorem path_item {ts : List Token} {segments : List String} (h : Spells ts segments) {next : Token}
    (hnext : next.kind ≠ .colonColon) (rest : List Token) : path (ts ++ next :: rest) = (segments, false) := by
  have last {t : Token} (ht : t.kind = .identifier) : path (t :: next :: rest) = ([t.lexeme], false) := by
    cases rest <;> simp [path, ht, hnext]
  cases h with
  | name kind => exact last kind
  | next before hc ht =>
      rw [List.append_assoc, List.cons_append, List.cons_append, List.nil_append,
        path_append before hc (ht ▸ nofun), last ht]

theorem path_list {ts : List Token} {segments : List String} (h : Spells ts segments) {colons opening : Token}
    (hcolons : colons.kind = .colonColon) (hopening : opening.kind = .leftBrace) (rest : List Token) :
    path (ts ++ colons :: opening :: rest) = (segments, true) := by
  have last {t : Token} (ht : t.kind = .identifier) :
      path (t :: colons :: opening :: rest) = ([t.lexeme], true) := by
    simp [path, ht, hcolons, hopening]
  cases h with
  | name kind => exact last kind
  | next before hc ht =>
      rw [List.append_assoc, List.cons_append, List.cons_append, List.nil_append,
        path_append before hc (ht ▸ nofun), last ht]

/-- The request is what an import asks for that stands among the tokens: it points to the keyword, and asks for
the module in front of a list; without a list it asks for a module at the whole path, or else for the one that
the item is in. -/
inductive For (ts : List Token) (request : Request) : Stmt → Prop where
  | mk {keyword semicolon : Token} {path behind : List Token} {segments module names : List String}
      (tokens : keyword :: (path ++ behind ++ [semicolon]) <:+: ts) (hkeyword : keyword.kind = .kwImport)
      (hpath : Spells path segments) (hbehind : Selects segments behind module names)
      (hsemicolon : semicolon.kind = .semicolon) (hspan : request.span = keyword.span)
      (hcandidates : request.candidates = if behind.isEmpty then [module ++ names, module] else [module]) :
      For ts request (.imports module names (keyword.span.merge semicolon.span))

theorem For.mono {ts us : List Token} {request : Request} {s : Stmt} (h : request.For ts s) (hts : ts <:+: us) :
    request.For us s := by
  cases h with
  | mk tokens hkeyword hpath hbehind hsemicolon hspan hcandidates =>
      exact ⟨tokens.trans hts, hkeyword, hpath, hbehind, hsemicolon, hspan, hcandidates⟩

end Library.Request

open Library

theorem Spells.ne_nil {ts : List Token} {segments : List String} (h : Spells ts segments) : segments ≠ [] := by
  cases h <;> simp

theorem Selects.kind {segments module names : List String} {ts : List Token}
    (h : Selects segments ts module names) : ∀ t ∈ ts, t.kind ≠ .kwImport := by
  cases h with
  | list hcolons hopening hinside hclosing =>
      refine List.forall_mem_cons.mpr ⟨hcolons ▸ nofun, List.forall_mem_cons.mpr ⟨hopening ▸ nofun, ?_⟩⟩
      exact List.forall_mem_append.mpr ⟨hinside, List.forall_mem_singleton.mpr (hclosing ▸ nofun)⟩
  | item => exact nofun

/-- The path of an import and what stands behind it, as a request takes them. -/
theorem Selects.path {segments module names : List String} {path behind : List Token} {semicolon : Token}
    (h : Selects segments behind module names) (hpath : Spells path segments)
    (hsemicolon : semicolon.kind = .semicolon) (rest : List Token) :
    Request.path (path ++ behind ++ semicolon :: rest) = (segments, !behind.isEmpty) := by
  cases h with
  | list hcolons hopening hinside hclosing =>
      rw [List.append_assoc, List.cons_append, List.cons_append, Request.path_list hpath hcolons hopening]
      rfl
  | item =>
      rw [List.append_nil, Request.path_item hpath (hsemicolon ▸ nofun)]
      rfl

theorem Stmt.WrittenAs.isImport {s : Stmt} {run : List Token} (h : s.WrittenAs run) : s.isImport = true := by
  cases h
  rfl

/-- An import makes one request, that for itself. -/
theorem Stmt.WrittenAs.request {s : Stmt} {run : List Token} (h : s.WrittenAs run) :
    ∃ request : Request, request.For run s ∧
      ∀ rest, Request.ofSignificant (run ++ rest) = request :: Request.ofSignificant rest := by
  cases h with
  | @mk keyword semicolon path behind segments module names hkeyword hpath hbehind hsemicolon =>
      refine ⟨⟨segments, !behind.isEmpty, keyword.span⟩,
        ⟨List.infix_rfl, hkeyword, hpath, hbehind, hsemicolon, rfl, ?_⟩, fun rest => ?_⟩
      · cases hbehind with
        | list => rfl
        | item hmodule =>
            have two : ¬(module.length + 1 ≤ 1) := by
              have := List.length_pos_iff.mpr hmodule
              omega
            simp [Request.candidates, two]
      · have spare : ∀ t ∈ path ++ behind ++ [semicolon], t.kind ≠ .kwImport :=
          List.forall_mem_append.mpr ⟨List.forall_mem_append.mpr ⟨hpath.kind, hbehind.kind⟩,
            List.forall_mem_singleton.mpr (hsemicolon ▸ nofun)⟩
        have read := hbehind.path hpath hsemicolon rest
        obtain ⟨first, others, rfl⟩ := List.exists_cons_of_ne_nil hpath.ne_nil
        rw [List.cons_append, Request.ofSignificant, if_neg (by simpa using hkeyword),
          Request.ofSignificant_append spare rest, List.append_assoc, List.singleton_append, read]

/-! ### Imports among the parts -/

namespace Part

/-- The part is an import, or there is one below it. -/
inductive Imports : Part → Prop where
  | here {p : Part} (h : p.isImport = true) : Imports p
  | under {p q : Part} (member : q ∈ p.parts) (inside : Imports q) : Imports p

variable {g : Call → Except Diagnostic Call}

/-- Only an import becomes one, and it stays as it is. -/
theorem import_of_replaces {p p' : Part} (h : Replaces g p p') :
    p'.isImport = p.isImport ∧ (p.isImport = true → p' = p) := by
  cases p with
  | stmt s =>
      obtain ⟨s', hs, rfl⟩ := map_eq_ok.mp h
      cases Stmt.becomes hs with
      | imports => exact ⟨rfl, fun _ => rfl⟩
      | package | «module» | function | struct | enum | «variable» | cond | «while» | «for» | «return» | «break»
      | «continue» | block | expr => exact ⟨rfl, fun himport => by cases himport⟩
  | block | expr | entry =>
      obtain ⟨_, _, rfl⟩ := map_eq_ok.mp h
      exact ⟨rfl, fun himport => by cases himport⟩
  | param | field | name | member =>
      obtain rfl := pure_eq_ok.mp h
      exact ⟨rfl, fun himport => by cases himport⟩

theorem imports_of_replaces {ps ps' : List Part} (h : List.Forall₂ (Replaces g) ps ps') :
    ps'.filter isImport = ps.filter isImport := by
  induction h with
  | nil => rfl
  | cons hp _ ih =>
      obtain ⟨same, keeps⟩ := import_of_replaces hp
      rw [List.filter_cons, List.filter_cons, same, ih]
      split
      · rw [keeps ‹_›]
      · rfl

theorem Imports.of_replaces (hg : Retargets g) {p p' : Part} (hp : p.Imports) (h : Replaces g p p') :
    p'.Imports := by
  induction hp generalizing p' with
  | here hi => exact .here ((import_of_replaces h).1.trans hi)
  | under member _ ih =>
      obtain ⟨q', hq', hreplaces⟩ := exists_mem_of_forall₂ (keeps_of_replaces hg h).parts.flip member
      exact .under hq' (ih hreplaces)

theorem outermost_of_replaces (hg : Retargets g) {ps ps' : List Part} (h : List.Forall₂ (Replaces g) ps ps')
    (hps' : ∀ p ∈ ps', p.isImport = true ∨ ¬p.Imports) : ∀ p ∈ ps, p.isImport = true ∨ ¬p.Imports := by
  intro p hp
  obtain ⟨p', hp', hreplaces⟩ := exists_mem_of_forall₂ h.flip hp
  have same := (import_of_replaces hreplaces).1
  exact (hps' p' hp').imp (fun hi => same ▸ hi) fun none hi => none (hi.of_replaces hg hreplaces)

/-- A part as a part of a tree, or what it says of one: an entry stands for its value. -/
def node? : Part → Option Node
  | block b => some (.block b)
  | stmt s => some (.stmt s)
  | expr e => some (.expr e)
  | entry e => some (.expr e.value)
  | param _ | field _ | name _ | member _ => none

/-- What is below a part is below it in the tree as well, or it is the value of an entry. -/
theorem child_of_mem {p q : Part} {n m : Node} (h : q ∈ p.parts) (hp : p.node? = some n)
    (hq : q.node? = some m) (site : Site) :
    (∃ site', (site', m) ∈ n.children site) ∨ m = n ∧ ∃ e, p = .entry e := by
  cases p with
  | block b =>
      obtain rfl := Option.some.inj hp
      obtain ⟨s, hs, rfl⟩ := List.mem_map.mp h
      obtain rfl := Option.some.inj hq
      exact .inl ⟨_, List.mem_map.mpr ⟨s, hs, rfl⟩⟩
  | stmt s =>
      obtain rfl := Option.some.inj hp
      left
      cases s <;> simp only [parts, Routine.parts, List.mem_cons, List.mem_append, List.mem_map,
        List.not_mem_nil, or_false] at h <;>
        simp only [Node.children, Node.ofBody, List.mem_cons, List.mem_append, List.mem_map,
          List.not_mem_nil, or_false, Prod.mk.injEq] <;> grind [node?, StructBody.eq_field_of_mem]
  | expr e =>
      obtain rfl := Option.some.inj hp
      left
      cases e <;> simp only [parts, Routine.parts, List.mem_cons, List.mem_append, List.mem_map,
        List.not_mem_nil, or_false] at h <;>
        simp only [Node.children, Node.ofBody, List.mem_cons, List.mem_map, List.not_mem_nil, or_false,
          Prod.mk.injEq] <;> grind [node?]
  | entry e =>
      obtain rfl := List.mem_singleton.mp h
      exact .inr ⟨Option.some.inj (hq.symm.trans hp), e, rfl⟩
  | param | field | name | member => cases hp

theorem Imports.isSome_node? {p : Part} (h : p.Imports) : ∃ n, p.node? = some n := by
  cases p with
  | block | stmt | expr | entry => exact ⟨_, rfl⟩
  | param | field | name | member =>
      cases h with
      | here hi => cases hi
      | under member _ => cases member

/-- An import below a part has a place in the tree below the place of that. -/
theorem Imports.exists_trail {p : Part} (h : p.Imports) {root n : Node} {around : List Node} {site : Site}
    (hp : p.node? = some n) (trail : Trail root around site n) :
    ∃ inner site' s, s.isImport = true ∧ Trail root (inner ++ around) site' (.stmt s) := by
  induction h generalizing n around site with
  | @here p hi =>
      cases p with
      | stmt s =>
          obtain rfl := Option.some.inj hp
          exact ⟨[], site, s, hi, trail⟩
      | block | expr | entry | param | field | name | member => cases hi
  | @under p q member inside ih =>
      obtain ⟨m, hq⟩ := inside.isSome_node?
      rcases child_of_mem member hp hq site with ⟨site', hchild⟩ | ⟨rfl, _⟩
      · obtain ⟨inner, site'', s, hs, hinner⟩ := ih hq (trail.step hchild)
        exact ⟨inner ++ [n], site'', s, hs, by simpa using hinner⟩
      · exact ih hq trail

end Part

namespace Carries

variable {ts : List Token} {ps : List Part}

/-- Tokens of parts without imports have none among them. -/
theorem spares (h : Carries ts ps) (hps : ∀ p ∈ ps, ¬p.Imports) : ∀ t ∈ ts, t.kind ≠ .kwImport := by
  induction h with
  | skip h => exact h
  | append _ _ ih ih' =>
      obtain ⟨hps, hqs⟩ := List.forall_mem_append.mp hps
      exact List.forall_mem_append.mpr ⟨ih hps, ih' hqs⟩
  | node _ _ ih =>
      have none := List.forall_mem_singleton.mp hps
      exact ih fun q hq hi => none (.under hq hi)
  | imports written => exact absurd (.here written.isImport) (hps _ List.mem_cons_self)

/-- If there are no imports below the parts, the tokens make one request for each that is an import itself. -/
theorem requests (h : Carries ts ps) (hps : ∀ p ∈ ps, p.isImport = true ∨ ¬p.Imports) :
    ∃ qs : List Request, (∀ rest, Request.ofSignificant (significant ts ++ rest) = qs ++ Request.ofSignificant rest) ∧
      List.Forall₂ (fun request p => ∃ s, p = .stmt s ∧ request.For (significant ts) s) qs
        (ps.filter Part.isImport) := by
  induction h with
  | skip h =>
      exact ⟨[], fun rest => Request.ofSignificant_append (fun t ht => h t (List.mem_of_mem_filter ht)) rest, .nil⟩
  | @append ts us ps ps' _ _ ih ih' =>
      obtain ⟨hps, hps'⟩ := List.forall_mem_append.mp hps
      obtain ⟨qs, hqs, each⟩ := ih hps
      obtain ⟨qs', hqs', each'⟩ := ih' hps'
      refine ⟨qs ++ qs', fun rest => ?_, ?_⟩
      · rw [Region.significant_append, List.append_assoc, hqs, hqs', List.append_assoc]
      · rw [List.filter_append, Region.significant_append]
        refine List.rel_append (each.imp ?_) (each'.imp ?_)
        · exact fun _ _ ⟨s, hs, hfor⟩ => ⟨s, hs, hfor.mono (List.prefix_append _ _).isInfix⟩
        · exact fun _ _ ⟨s, hs, hfor⟩ => ⟨s, hs, hfor.mono (List.suffix_append _ _).isInfix⟩
  | @node ts p plain inside _ =>
      have none : ¬p.Imports := (List.forall_mem_singleton.mp hps).resolve_left (by rw [plain]; nofun)
      have spare := (node plain inside).spares (List.forall_mem_singleton.mpr none)
      refine ⟨[], fun rest => Request.ofSignificant_append (fun t ht => spare t (List.mem_of_mem_filter ht)) rest, ?_⟩
      rw [List.filter_cons_of_neg (by rw [plain]; nofun)]
      exact .nil
  | @imports ts s written =>
      obtain ⟨request, hfor, hrequest⟩ := written.request
      have isImport : (Part.stmt s).isImport = true := written.isImport
      refine ⟨[request], hrequest, ?_⟩
      rw [List.filter_cons_of_pos isImport]
      exact .cons ⟨s, rfl, hfor⟩ .nil

end Carries

/-! ### Files -/

/-- In a program all of whose parts have around them what they must have, imports are among the statements of
the program itself, and there are none below the others. -/
theorem Block.imports_outermost {body : Block}
    (placed : ∀ around site n, Trail (.block body) around site n → n.Placed body around) :
    (∀ around site s, Trail (.block body) around site (.stmt s) → s.isImport = true → s ∈ body.stmts) ∧
      ∀ p ∈ (Part.block body).parts, p.isImport = true ∨ ¬p.Imports := by
  have outermost {around : List Node} {site : Site} {s : Stmt} (trail : Trail (.block body) around site (.stmt s))
      (hs : s.isImport = true) : around = [.block body] := by
    have hplaced := placed _ _ _ trail
    cases s with
    | imports => exact hplaced
    | package | «module» | function | struct | enum | «variable» | cond | «while» | «for» | «return» | «break»
    | «continue» | block | expr => cases hs
  refine ⟨fun around site s trail hs => ?_, fun p hp => ?_⟩
  · obtain rfl := outermost trail hs
    cases trail with
    | step before member =>
        obtain ⟨_, hmem, heq⟩ := List.mem_map.mp member
        cases heq
        exact hmem
  · obtain ⟨s, hs, rfl⟩ := List.mem_map.mp hp
    by_cases hi : (Part.stmt s).isImport = true
    · exact .inl hi
    · refine .inr fun himports => ?_
      cases himports with
      | here h => exact hi h
      | under member inside =>
          have whole : Trail (.block body) [.block body] { scope := body.scope } (.stmt s) :=
            .step .root (List.mem_map.mpr ⟨s, hs, rfl⟩)
          obtain ⟨m, hm⟩ := inside.isSome_node?
          rcases Part.child_of_mem member rfl hm { scope := body.scope } with ⟨site, hchild⟩ | ⟨_, _, hentry⟩
          · obtain ⟨inner, _, _, hs', trail⟩ := inside.exists_trail hm (whole.step hchild)
            have := congrArg List.length (outermost trail hs')
            simp at this
          · cases hentry

namespace Registry

variable {reg reg' : Registry} {source : Source} {tokens : List Token} {p : Program}

/-- The tokens of an accepted unit, up to the sentinel, carry its imports. -/
theorem exists_carries (hread : reg.readTokens source tokens = (.ok p, reg')) :
    ∃ b ts, Part.Replaces (reg'.settleCall source) (.block b) (.block p.body) ∧
      Carries ts (Part.block b).parts ∧ significant ts = significant (tokens.takeWhile (·.kind ≠ .eof)) := by
  obtain ⟨package, b, hdraft, hsettle⟩ := Grammar.exists_draft hread
  obtain ⟨l, hlays, hdone, _⟩ := Grammar.draft_lays reg (package, b) reg' hdraft
  obtain ⟨ts, reads, carries⟩ := hlays.carries
  refine ⟨b, ts, Part.replaces_block hsettle, carries, ?_⟩
  have none : l.ahead = [] := by simpa [Region.hasNext] using hdone
  have whole : Region.settle (tokens.takeWhile (·.kind ≠ .eof)) = ts ++ l.ahead := reads.ahead
  rw [none, List.append_nil] at whole
  rw [← whole, Region.significant_settle]

/-- The sentinel is the only token behind those that are read. -/
theorem significant_tokens (htokens : source.tokens = .ok tokens) :
    ∃ span, significant tokens = significant (tokens.takeWhile (·.kind ≠ .eof)) ++ [Token.sentinel span] := by
  obtain ⟨front, span, rfl, hfront⟩ := Source.tokens_sentinel htokens
  have before : (front ++ [Token.sentinel span]).takeWhile (·.kind ≠ .eof) = front := by
    rw [List.takeWhile_append_of_pos (by simpa using hfront)]
    simp [Token.sentinel]
  refine ⟨span, ?_⟩
  rw [before, Region.significant_append]
  rfl

/-- What the tokens of an accepted file ask for is what it imports: one request for each import, in the same
order. A request points to the keyword of its import. If a list stands behind the path, the request is for the
module at the path; otherwise it is for that or the one that the last segment is an item of. -/
theorem readTokens_requests (h : reg.WellFormed) (htokens : source.tokens = .ok tokens)
    (hread : reg.readTokens source tokens = (.ok p, reg')) :
    List.Forall₂ (fun request s => request.For (significant tokens) s) (Request.ofTokens tokens)
        (p.body.stmts.filter Stmt.isImport) ∧
      ∀ around site s, Trail (.block p.body) around site (.stmt s) → s.isImport = true → s ∈ p.body.stmts := by
  obtain ⟨hreach, settled⟩ := readTokens_settled (.ofWellFormed h) rfl (fun _ _ => trivial) hread
  have sited : Every (Node.Sited reg') {} (.block p.body) := (settled p rfl).imp fun _ _ hn => hn.sited
  obtain ⟨outermost, others⟩ := Block.imports_outermost fun _ _ _ trail =>
    trail.placed (hreach.wellFormed h) sited
  refine ⟨?_, outermost⟩
  obtain ⟨b, ts, hreplaces, carries, hts⟩ := exists_carries hread
  have retargets := reg'.retargets source
  have parts := (Part.keeps_of_replaces retargets hreplaces).parts
  obtain ⟨qs, hqs, each⟩ := carries.requests (Part.outermost_of_replaces retargets parts others)
  obtain ⟨span, whole⟩ := significant_tokens htokens
  rw [← hts] at whole
  have all : Request.ofTokens tokens = qs := by
    rw [Request.ofTokens, ← significant, whole, hqs]
    exact List.append_nil qs
  rw [all, whole]
  rw [← Part.imports_of_replaces parts, Part.parts, List.filter_map, List.forall₂_map_right_iff] at each
  refine each.imp fun request s hrequest => ?_
  obtain ⟨s', heq, hfor⟩ := hrequest
  cases heq
  exact hfor.mono (List.prefix_append _ _).isInfix

/-- Two imports, one with a list and one without, and a comment that looks like a third. -/
theorem readTokens_requests_both :
    let source : Source := ⟨0, "unit.st", "package a; import m::\x7bx, y\x7d; // import m::v;
      fn f(): void \x7b \x7d use m::n::z;"⟩
    ∃ tokens p reg, source.tokens = .ok tokens ∧ Registry.empty.readTokens source tokens = (.ok p, reg) ∧
      (Request.ofTokens tokens).map Request.candidates = [[["m"]], [["m", "n", "z"], ["m", "n"]]] ∧
      List.Forall₂ (fun request s => request.For (significant tokens) s) (Request.ofTokens tokens)
        (p.body.stmts.filter Stmt.isImport) := by
  intro source
  obtain ⟨p, reg, hread, _⟩ :=
    exists_of_read .empty source (by rfl) (fun p _ => p.body.stmts.length) (x := 4) (by decide +kernel)
  obtain ⟨tokens, htokens, hread⟩ := exists_tokens hread
  have asked : source.tokens.toOption.map (fun ts => (Request.ofTokens ts).map Request.candidates) =
      some [[["m"]], [["m", "n", "z"], ["m", "n"]]] := by decide +kernel
  rw [htokens] at asked
  exact ⟨tokens, p, reg, htokens, hread, Option.some.inj asked, (readTokens_requests .empty htokens hread).1⟩

end Registry

end OnePass
