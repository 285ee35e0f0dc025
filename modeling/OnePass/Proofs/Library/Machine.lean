import OnePass.Library.Basic

/-!
Loading, one step at a time. A machine has a stack of the units that wait for their imports, and its steps
begin a unit, look at the next import of the innermost unit, or go back to the unit that waits. It comes to
rest with what the command gives, so what its steps keep holds of all that commands do.
-/

namespace OnePass
namespace Library

/-- A unit that waits for its imports. The first of `requests` is the one that is being loaded or comes next. -/
structure Frame where
  unit : Pending
  source : Source
  tokens : List Token
  requests : List Request

/-- The first import is there. -/
def Frame.next (frame : Frame) : Frame := { frame with requests := frame.requests.tail }

/-- The unit, when it has been read. -/
def Frame.entry (frame : Frame) (program : Program) : Entry :=
  { source := frame.source, program, location := frame.unit.location }

/-- `waiting` has the units that wait, the innermost first. -/
inductive Machine where
  /-- A text is about to be cut into tokens. -/
  | start (unit : Pending) (path text : String) (waiting : List Frame) (lib : Library)
  /-- A unit looks at its next import. -/
  | resume (frame : Frame) (waiting : List Frame) (lib : Library)
  /-- The innermost of `waiting` hears what has become of its import. -/
  | done (outcome : Except Diagnostic (Option Entry)) (waiting : List Frame) (lib : Library)

namespace Machine

variable {disk : FileSystem}

def library : Machine → Library
  | .start _ _ _ _ lib | .resume _ _ lib | .done _ _ lib => lib

def stack : Machine → List Frame
  | .start _ _ _ waiting _ | .done _ waiting _ => waiting
  | .resume frame waiting _ => frame :: waiting

/-- The units that wait, the innermost first. -/
def pending (m : Machine) : List Pending := m.stack.map Frame.unit

/-! ### Steps -/

/-- A unit is begun: it takes a number, and its imports are read off its tokens. -/
def beginUnit (unit : Pending) (path text : String) (waiting : List Frame) (lib : Library) : Machine :=
  let source : Source := ⟨lib.nextFile, path, text⟩
  let lib := { lib with nextFile := lib.nextFile + 1 }
  match source.tokens with
  | .error d => .done (.error d) waiting lib
  | .ok tokens => .resume ⟨unit, source, tokens, Request.ofTokens tokens⟩ waiting lib

/-- The machine after a unit. -/
def ended (waiting : List Frame) (result : Except Diagnostic Entry × Library) : Machine :=
  .done (result.1.map some) waiting result.2

/-- A unit whose imports are all there is read. -/
def endUnit (frame : Frame) (waiting : List Frame) (lib : Library) : Machine :=
  ended waiting ((finish frame.unit.location frame.source frame.tokens).run.run lib)

/-- A file that is not there yet is loaded. -/
def fetch (disk : FileSystem) (name : String) (here : Location) (frame : Frame) (waiting : List Frame)
    (lib : Library) : Machine :=
  match disk.read here with
  | .error obstacle => .done (.error { fault := .unreadable (disk.pathOf here) obstacle }) waiting lib
  | .ok text => .start ⟨name, some here⟩ (disk.pathOf here) text (frame :: waiting) lib

/-- A unit looks at an import. -/
def look (disk : FileSystem) (request : Request) (frame : Frame) (waiting : List Frame) (lib : Library) :
    Machine :=
  match lib.requested? disk request with
  | none => .resume frame.next waiting lib
  | some (name, here) =>
    let chain := (frame :: waiting).map Frame.unit
    if chain.any (·.is name here) = false then
      if (lib.loaded.lookup here).isSome then .resume frame.next waiting lib
      else fetch disk name here frame waiting lib
    else
      let names := chain.reverse.map (·.name) ++ [name]
      .done (.error (.located (.circularImport names) frame.source request.span)) waiting lib

/-- A machine that nobody waits for stays as it is. -/
def step (disk : FileSystem) : Machine → Machine
  | .start unit path text waiting lib => beginUnit unit path text waiting lib
  | .resume frame waiting lib =>
    match frame.requests with
    | [] => endUnit frame waiting lib
    | request :: _ => look disk request frame waiting lib
  | .done (.ok _) (frame :: waiting) lib => .resume frame.next waiting lib
  | .done (.error d) (_ :: waiting) lib => .done (.error d) waiting lib
  | .done outcome [] lib => .done outcome [] lib

/-- The machine after some steps. -/
def run (disk : FileSystem) : Nat → Machine → Machine
  | 0, m => m
  | n + 1, m => run disk n (m.step disk)

theorem run_add (n k : Nat) (m : Machine) : run disk (n + k) m = run disk k (run disk n m) := by
  induction n generalizing m with
  | zero => rw [Nat.zero_add, run]
  | succ n ih => rw [Nat.succ_add, run, ih, run]

theorem run_rest (n : Nat) (outcome : Except Diagnostic (Option Entry)) (lib : Library) :
    run disk n (.done outcome [] lib) = .done outcome [] lib := by
  induction n with
  | zero => rfl
  | succ n ih => rw [run, step, ih]

/-- How a machine sets out. -/
def begin (disk : FileSystem) (lib : Library) : Command → Machine
  | .addSearchPath directory => .done (.ok none) [] (lib.addSearchPath directory)
  | .file path =>
    match disk.locate path with
    | .error obstacle => .done (.error { fault := .unreadable path obstacle }) [] lib
    | .ok here =>
      match lib.entryAt? here with
      | some entry => .done (.ok (some entry)) [] lib
      | none =>
        match disk.read here with
        | .error obstacle => .done (.error { fault := .unreadable path obstacle }) [] lib
        | .ok text => .start ⟨stem path, some here⟩ path text [] lib
  | .text path text => .start ⟨stem path, none⟩ path text [] lib

/-! ### Where runs lead -/

/-- Some number of steps leads from one machine to another. -/
def Leads (disk : FileSystem) (m m' : Machine) : Prop := ∃ n, run disk n m = m'

theorem Leads.refl (m : Machine) : Leads disk m m := ⟨0, rfl⟩

theorem Leads.trans {m₁ m₂ m₃ : Machine} (h : Leads disk m₁ m₂) (h' : Leads disk m₂ m₃) : Leads disk m₁ m₃ := by
  obtain ⟨n, rfl⟩ := h
  obtain ⟨k, rfl⟩ := h'
  exact ⟨n + k, run_add n k m₁⟩

theorem Leads.step {m m' : Machine} (h : Leads disk (m.step disk) m') : Leads disk m m' := by
  obtain ⟨n, rfl⟩ := h
  exact ⟨n + 1, rfl⟩

end Machine

/-! ### Commands -/

theorem run_bind {α β : Type} (p : Loading α) (f : α → Loading β) (lib : Library) :
    (p >>= f).run.run lib = match p.run.run lib with
      | (.ok a, lib₁) => (f a).run.run lib₁
      | (.error d, lib₁) => (.error d, lib₁) := by
  rw [ExceptT.run_bind, StateT.run_bind]
  rcases p.run.run lib with ⟨_ | _, _⟩ <;> rfl

theorem run_lift {α : Type} (x : Except Diagnostic α) (lib : Library) :
    (liftM x : Loading α).run.run lib = (x, lib) := by
  cases x <;> rfl

theorem run_map {α β : Type} (f : α → β) (p : Loading α) (lib : Library) :
    (f <$> p).run.run lib = ((p.run.run lib).1.map f, (p.run.run lib).2) := by
  rw [← bind_pure_comp, run_bind]
  rcases p.run.run lib with ⟨_ | _, _⟩ <;> rfl

theorem newSource_run (path text : String) (lib : Library) : (newSource path text).run.run lib =
    (.ok ⟨lib.nextFile, path, text⟩, { lib with nextFile := lib.nextFile + 1 }) := rfl

theorem run_get (lib : Library) : (get : Loading Library).run.run lib = (.ok lib, lib) := rfl

section Satisfy

variable {disk : FileSystem} {n : Nat} {below : Below disk n} {chain : List Pending}
  {bound : idle disk chain ≤ n} {source : Source} {request : Request} {lib : Library} {name : String}
  {here : Location}

theorem satisfy_of_none (h : lib.requested? disk request = none) :
    (satisfy below chain bound source request).run.run lib = (.ok ⟨⟩, lib) := by
  unfold satisfy
  rw [run_bind, run_get]
  dsimp only
  split
  · rfl
  · rename_i found
    cases h.symm.trans found

theorem textAt_run (path : String) : (textAt disk path here).run.run lib =
    ((disk.read here).mapError fun obstacle => { fault := .unreadable path obstacle }, lib) := by
  unfold textAt
  cases disk.read here <;> rfl

theorem satisfy_of_some (h : lib.requested? disk request = some (name, here)) :
    (satisfy below chain bound source request).run.run lib =
      if fresh : chain.any (·.is name here) = false then
        if (lib.loaded.lookup here).isSome then (.ok ⟨⟩, lib)
        else match disk.read here with
          | .error obstacle => (.error { fault := .unreadable (disk.pathOf here) obstacle }, lib)
          | .ok text =>
            let done := (below ⟨name, some here⟩ chain
              (Nat.lt_of_lt_of_le (idle_cons_lt (isFile_of_requested? h) fresh) bound) (disk.pathOf here)
              text).run.run lib
            (done.1.map fun _ => ⟨⟩, done.2)
      else
        (.error (.located (.circularImport (chain.reverse.map (·.name) ++ [name])) source request.span), lib) := by
  unfold satisfy
  rw [run_bind, run_get]
  dsimp only
  split
  · rename_i found
    cases h.symm.trans found
  · rename_i found
    cases h.symm.trans found
    split
    · rw [run_bind, run_get]
      dsimp only
      split
      · rfl
      · rw [run_bind, textAt_run]
        cases disk.read here with
        | error obstacle => rfl
        | ok text =>
            dsimp only [Except.mapError]
            rw [run_bind]
            generalize (StateT.run (ExceptT.run (below _ _ _ _ _)) lib) = done
            rcases done with ⟨_ | _, _⟩ <;> rfl
    · rfl

end Satisfy

namespace Machine

variable {disk : FileSystem} {n : Nat} {below : Below disk n} {frame : Frame} {waiting : List Frame}

/-- What a unit does when it hears of an import. -/
def hear (frame : Frame) (waiting : List Frame) (result : Except Diagnostic PUnit × Library) : Machine :=
  match result.1 with
  | .ok _ => .resume frame waiting result.2
  | .error d => .done (.error d) waiting result.2

/-- The machine loads units as `below` does. -/
def Follows (below : Below disk n) : Prop :=
  ∀ unit waiting h path text lib, Leads disk (.start unit path text waiting lib)
    (ended waiting ((below unit (waiting.map Frame.unit) h path text).run.run lib))

theorem ended_leads (result : Except Diagnostic Entry × Library) :
    Leads disk (ended (frame :: waiting) result)
      (hear frame.next waiting (result.1.map fun _ => ⟨⟩, result.2)) := by
  apply Leads.step
  rcases result with ⟨_ | _, _⟩ <;> exact .refl _

theorem satisfy_leads (hbelow : Follows below) {request : Request} {requests : List Request}
    (hrequests : frame.requests = request :: requests)
    (bound : idle disk ((frame :: waiting).map Frame.unit) ≤ n) (lib : Library) :
    Leads disk (.resume frame waiting lib) (hear frame.next waiting
      ((satisfy below ((frame :: waiting).map Frame.unit) bound frame.source request).run.run lib)) := by
  apply Leads.step
  rw [step, hrequests]
  dsimp only
  unfold look
  split
  · rename_i found
    rw [satisfy_of_none found]
    exact .refl _
  · rename_i name here found
    rw [satisfy_of_some found]
    dsimp only
    split
    · split
      · exact .refl _
      · unfold fetch
        cases disk.read here with
        | error obstacle => exact .refl _
        | ok text => exact (hbelow _ (frame :: waiting) _ _ _ _).trans (ended_leads _)
    · exact .refl _

/-- A unit goes through its imports. -/
theorem imports_leads (hbelow : Follows below) {requests : List Request} (hrequests : frame.requests = requests)
    (bound : idle disk ((frame :: waiting).map Frame.unit) ≤ n) (lib : Library) :
    Leads disk (.resume frame waiting lib) (hear { frame with requests := [] } waiting
      ((requests.forM (satisfy below ((frame :: waiting).map Frame.unit) bound frame.source)).run.run lib)) := by
  induction requests generalizing frame lib with
  | nil =>
      obtain ⟨unit, source, tokens, requests⟩ := frame
      obtain rfl : requests = [] := hrequests
      exact .refl _
  | cons request requests ih =>
      rw [List.forM, run_bind]
      have first := satisfy_leads hbelow hrequests bound lib
      generalize (satisfy below _ bound frame.source request).run.run lib = result at first ⊢
      obtain ⟨d | _, lib₁⟩ := result
      · exact first
      · have rest : frame.next.requests = requests := by rw [Frame.next, hrequests, List.tail_cons]
        exact first.trans (ih rest bound lib₁)

/-- A unit goes through its imports, and is then read. -/
theorem resume_leads (hbelow : Follows below) (frame : Frame)
    (bound : idle disk ((frame :: waiting).map Frame.unit) ≤ n) (lib : Library) :
    Leads disk (.resume frame waiting lib) (ended waiting ((do
      frame.requests.forM (satisfy below ((frame :: waiting).map Frame.unit) bound frame.source)
      finish frame.unit.location frame.source frame.tokens).run.run lib)) := by
  refine (imports_leads hbelow rfl bound lib).trans ?_
  rw [run_bind]
  generalize (frame.requests.forM (satisfy below _ bound frame.source)).run.run lib = result
  obtain ⟨d | _, lib₁⟩ := result
  · exact .refl _
  · exact .step (.refl _)

theorem loadUnit_leads (hbelow : Follows below) (unit : Pending) (waiting : List Frame)
    (bound : idle disk (unit :: waiting.map Frame.unit) ≤ n) (path text : String) (lib : Library) :
    Leads disk (.start unit path text waiting lib)
      (ended waiting ((loadUnit below unit (waiting.map Frame.unit) bound path text).run.run lib)) := by
  apply Leads.step
  rw [step, beginUnit, loadUnit, run_bind, newSource_run]
  dsimp only
  rw [run_bind, run_lift]
  generalize Source.tokens _ = tokens
  obtain d | tokens := tokens
  · exact .refl _
  · exact resume_leads hbelow ⟨unit, _, tokens, Request.ofTokens tokens⟩ bound _

theorem below_follows (disk : FileSystem) (n : Nat) : Follows (Library.below disk n) := by
  induction n with
  | zero => exact fun _ _ h => absurd h (Nat.not_lt_zero _)
  | succ n ih => exact fun unit waiting h path text lib => loadUnit_leads ih unit waiting _ path text lib

theorem load_leads (disk : FileSystem) (unit : Pending) (path text : String) (lib : Library) :
    Leads disk (.start unit path text [] lib) (ended [] ((load disk unit path text).run.run lib)) :=
  below_follows disk (idle disk [unit] + 1) unit [] (Nat.lt_succ_self _) path text lib

theorem loadFile_leads (disk : FileSystem) (path : String) (lib : Library) :
    Leads disk (begin disk lib (.file path)) (ended [] ((loadFile disk path).run.run lib)) := by
  rw [begin, loadFile]
  cases disk.locate path with
  | error obstacle => exact .refl _
  | ok here =>
      dsimp only
      rw [run_bind, run_get]
      dsimp only
      cases lib.entryAt? here with
      | some entry => exact .refl _
      | none =>
          dsimp only
          rw [run_bind, textAt_run]
          cases disk.read here with
          | error obstacle => exact .refl _
          | ok text => exact load_leads disk _ path text lib

/-- A machine comes to rest with what the command gives. -/
theorem begin_leads (disk : FileSystem) (lib : Library) (command : Command) :
    Leads disk (begin disk lib command) (.done (lib.after disk command).1 [] (lib.after disk command).2) := by
  cases command with
  | addSearchPath directory => exact .refl _
  | text path text =>
      rw [after, perform, run_map]
      exact load_leads disk _ path text lib
  | file path =>
      rw [after, perform, run_map]
      exact loadFile_leads disk path lib

/-- From some step on, a machine rests. -/
theorem begin_rests (disk : FileSystem) (lib : Library) (command : Command) :
    ∃ n, ∀ k ≥ n, run disk k (begin disk lib command) =
      .done (lib.after disk command).1 [] (lib.after disk command).2 := by
  obtain ⟨n, hn⟩ := begin_leads disk lib command
  refine ⟨n, fun k hk => ?_⟩
  obtain ⟨j, rfl⟩ := Nat.exists_eq_add_of_le hk
  rw [run_add, hn, run_rest]

end Machine

/-! ### What a step can do -/

/-- A number has been taken. -/
def numbered (lib : Library) : Library := { lib with nextFile := lib.nextFile + 1 }

/-- A unit has been read, which gave the registry. -/
def add (lib : Library) (registry : Registry) (entry : Entry) : Library :=
  { lib with
    registry
    entries := lib.entries ++ [entry]
    loaded := (entry.location.map (·, lib.entries.length)).toList ++ lib.loaded }

/-- Reading a unit fails and leaves a registry behind, or adds the unit. -/
theorem finish_cases (frame : Frame) (lib : Library) :
    (∃ d registry, (finish frame.unit.location frame.source frame.tokens).run.run lib =
      (.error d, { lib with registry })) ∨
    ∃ program registry, (finish frame.unit.location frame.source frame.tokens).run.run lib =
      (.ok (frame.entry program), lib.add registry (frame.entry program)) := by
  unfold finish
  rw [run_bind, run_get]
  dsimp only
  generalize lib.registry.readTokens frame.source frame.tokens = result
  obtain ⟨d | program, registry⟩ := result
  · exact .inl ⟨d, registry, rfl⟩
  · exact .inr ⟨program, registry, rfl⟩

namespace Machine

variable {disk : FileSystem}

/-- The steps of machines that are not at rest. -/
inductive Step (disk : FileSystem) : Machine → Machine → Prop
  /-- A text is no sequence of tokens. -/
  | stuck {unit : Pending} {path text : String} {waiting : List Frame} {lib : Library} (d : Diagnostic) :
      Step disk (.start unit path text waiting lib) (.done (.error d) waiting lib.numbered)
  | begun {unit : Pending} {path text : String} {waiting : List Frame} {lib : Library} {tokens : List Token}
      (htokens : Source.tokens ⟨lib.nextFile, path, text⟩ = .ok tokens) :
      Step disk (.start unit path text waiting lib)
        (.resume ⟨unit, ⟨lib.nextFile, path, text⟩, tokens, Request.ofTokens tokens⟩ waiting lib.numbered)
  /-- An import has no file, or its file has been loaded. -/
  | passed {frame : Frame} {waiting : List Frame} {lib : Library} {request : Request} {requests : List Request}
      (hrequests : frame.requests = request :: requests)
      (hloaded : ∀ name here, lib.requested? disk request = some (name, here) →
        (lib.loaded.lookup here).isSome = true) :
      Step disk (.resume frame waiting lib) (.resume frame.next waiting lib)
  /-- An import closes a circle, or its file cannot be read. -/
  | refused {frame : Frame} {waiting : List Frame} {lib : Library} (d : Diagnostic) :
      Step disk (.resume frame waiting lib) (.done (.error d) waiting lib)
  | fetched {frame : Frame} {waiting : List Frame} {lib : Library} {request : Request} {requests : List Request}
      {name : String} {here : Location} {text : String} (hrequests : frame.requests = request :: requests)
      (hfound : lib.requested? disk request = some (name, here))
      (hfresh : ((frame :: waiting).map Frame.unit).any (·.is name here) = false)
      (hloaded : lib.loaded.lookup here = none) (htext : disk.read here = .ok text) :
      Step disk (.resume frame waiting lib)
        (.start ⟨name, some here⟩ (disk.pathOf here) text (frame :: waiting) lib)
  /-- A unit whose imports are there is at fault itself. -/
  | failed {frame : Frame} {waiting : List Frame} {lib : Library} (d : Diagnostic) (registry : Registry) :
      Step disk (.resume frame waiting lib) (.done (.error d) waiting { lib with registry })
  | finished {frame : Frame} {waiting : List Frame} {lib : Library} (hrequests : frame.requests = [])
      (program : Program) (registry : Registry) :
      Step disk (.resume frame waiting lib)
        (.done (.ok (some (frame.entry program))) waiting (lib.add registry (frame.entry program)))
  | returned {entry : Option Entry} {frame : Frame} {waiting : List Frame} {lib : Library} :
      Step disk (.done (.ok entry) (frame :: waiting) lib) (.resume frame.next waiting lib)
  | abandoned {d : Diagnostic} {frame : Frame} {waiting : List Frame} {lib : Library} :
      Step disk (.done (.error d) (frame :: waiting) lib) (.done (.error d) waiting lib)

theorem look_step {frame : Frame} {waiting : List Frame} {lib : Library} {request : Request}
    {requests : List Request} (hrequests : frame.requests = request :: requests) :
    Step disk (.resume frame waiting lib) (look disk request frame waiting lib) := by
  unfold look
  split
  · rename_i found
    exact .passed hrequests fun name here h => by cases found.symm.trans h
  · rename_i name here found
    dsimp only
    split
    · rename_i fresh
      split
      · rename_i loaded
        refine .passed hrequests fun name' here' h => ?_
        cases found.symm.trans h
        exact loaded
      · rename_i missing
        unfold Machine.fetch
        split
        · exact .refused _
        · rename_i text htext
          exact .fetched hrequests found fresh (Option.not_isSome_iff_eq_none.mp missing) htext
    · exact .refused _

theorem step_cases (disk : FileSystem) (m : Machine) :
    (∃ outcome lib, m = .done outcome [] lib) ∨ Step disk m (m.step disk) := by
  cases m with
  | start unit path text waiting lib =>
      refine .inr ?_
      rw [step, beginUnit]
      split
      · exact .stuck _
      · rename_i tokens htokens
        exact .begun htokens
  | resume frame waiting lib =>
      refine .inr ?_
      rw [step]
      split
      · rename_i hrequests
        obtain ⟨d, registry, hfinish⟩ | ⟨program, registry, hfinish⟩ := finish_cases frame lib
        · rw [endUnit, hfinish]
          exact .failed d registry
        · rw [endUnit, hfinish]
          exact .finished hrequests program registry
      · rename_i hrequests
        exact look_step hrequests
  | done outcome waiting lib =>
      cases waiting with
      | nil => exact .inl ⟨outcome, lib, rfl⟩
      | cons frame waiting =>
          cases outcome with
          | ok entry => exact .inr .returned
          | error d => exact .inr .abandoned

/-- What all steps keep, all runs keep. -/
theorem run_keeps {I : Machine → Prop} (hstep : ∀ {m m'}, Step disk m m' → I m → I m') {m : Machine} (h : I m)
    (n : Nat) : I (run disk n m) := by
  induction n generalizing m with
  | zero => exact h
  | succ n ih =>
      obtain ⟨outcome, lib, rfl⟩ | next := step_cases disk m
      · rw [run_rest]
        exact h
      · exact ih (hstep next h)

end Machine

end Library
end OnePass
