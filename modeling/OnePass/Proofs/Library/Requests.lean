import OnePass.Library.Basic

/-!
What a text asks for. The requests in the tokens of a file are those of its text: the number of the file only
shows in their spans, and nothing else about the file does.
-/

namespace OnePass

def Span.inFile (file : Nat) (span : Span) : Span := { span with file }

def Token.inFile (file : Nat) (t : Token) : Token := { t with span := t.span.inFile file }

@[simp]
theorem Token.kind_inFile (file : Nat) (t : Token) : (t.inFile file).kind = t.kind := rfl

@[simp]
theorem Token.lexeme_inFile (file : Nat) (t : Token) : (t.inFile file).lexeme = t.lexeme := rfl

/-- One text has the same tokens in all files. -/
theorem Token.Scan.tokens_inFile {source : Source} (source' : Source) {skip offset : Nat} {cs : List Char}
    {ts : List Token} (h : tokens source skip offset cs = .ok ts) :
    tokens source' skip offset cs = .ok (ts.map (Token.inFile source'.id)) := by
  fun_induction tokens source skip offset cs generalizing ts with
  | case1 =>
      obtain rfl := Except.ok.inj h
      rw [tokens]
      rfl
  | case2 skip offset c cs ih =>
      rw [tokens]
      exact ih h
  | case3 offset c cs hblank ih =>
      rw [tokens, if_pos hblank]
      exact ih h
  | case4 => cases h
  | case5 => cases h
  | case6 offset c cs hblank piece hpiece read later hlater =>
      rename_i ih
      obtain rfl := Except.ok.inj h
      rw [tokens, if_neg hblank, hpiece]
      simp only [ih hlater]
      rfl

namespace Library

namespace Request

def inFile (file : Nat) (request : Request) : Request := { request with span := request.span.inFile file }

theorem path_inFile (file : Nat) (ts : List Token) : path (ts.map (Token.inFile file)) = path ts := by
  fun_induction path ts with
  | case1 name separator next rest hname => exact if_pos hname
  | case2 name separator next rest hname hseparator => simp_all [path]
  | case3 name separator next rest hname hseparator hbrace => simp_all [path]
  | case4 name separator next rest hname hseparator hbrace segments isList hpath ih =>
      simp_all [path]
  | case5 name rest hshort hname | case6 name rest hshort hname =>
      obtain _ | ⟨separator, _ | ⟨next, rest⟩⟩ := rest
      · simp_all [path]
      · simp_all [path]
      · exact absurd rfl (hshort separator next rest)
  | case7 => rfl

theorem ofSignificant_inFile (file : Nat) (ts : List Token) :
    ofSignificant (ts.map (Token.inFile file)) = (ofSignificant ts).map (inFile file) := by
  induction ts with
  | nil => rfl
  | cons token rest ih =>
      rw [List.map_cons, ofSignificant, ofSignificant, path_inFile, ih, Token.kind_inFile]
      split
      · rfl
      · split <;> rfl

theorem ofTokens_inFile (file : Nat) (ts : List Token) :
    ofTokens (ts.map (Token.inFile file)) = (ofTokens ts).map (inFile file) := by
  rw [ofTokens, List.filter_map, ofSignificant_inFile]
  rfl

end Request

/-! ### Imports of a file -/

variable {disk : FileSystem} {lib lib' : Library}

/-- The files that a text imports. -/
def importedBy (lib : Library) (disk : FileSystem) (text : String) : List Location :=
  match Source.tokens ⟨0, "", text⟩ with
  | .error _ => []
  | .ok tokens => (Request.ofTokens tokens).filterMap fun request => (lib.requested? disk request).map (·.2)

/-- One file imports another. -/
def Imports (disk : FileSystem) (lib : Library) (here there : Location) : Prop :=
  ∃ text, disk.read here = .ok text ∧ there ∈ lib.importedBy disk text

/-- What is found depends on where it is searched. -/
theorem requested?_congr (h : lib'.searchPaths = lib.searchPaths) : lib'.requested? disk = lib.requested? disk := by
  funext request
  unfold requested? moduleFile?
  rw [h]

theorem imports_congr (h : lib'.searchPaths = lib.searchPaths) : Imports disk lib' = Imports disk lib := by
  unfold Imports importedBy
  rw [requested?_congr h]

/-- The imports of a text are in all tokens that are cut from it. -/
theorem exists_request_of_mem_importedBy {source : Source} {tokens : List Token} {there : Location}
    (h : there ∈ lib.importedBy disk source.text) (htokens : source.tokens = .ok tokens) :
    ∃ request ∈ Request.ofTokens tokens, ∃ name, lib.requested? disk request = some (name, there) := by
  rw [importedBy, Source.tokens, Token.Scan.tokens_inFile _ htokens] at h
  obtain ⟨moved, hmoved, hplace⟩ := List.mem_filterMap.mp h
  obtain ⟨⟨name, _⟩, hfound, rfl⟩ := Option.map_eq_some_iff.mp hplace
  rw [Request.ofTokens_inFile] at hmoved
  obtain ⟨request, hrequest, rfl⟩ := List.mem_map.mp hmoved
  exact ⟨request, hrequest, name, hfound⟩

end Library
end OnePass
