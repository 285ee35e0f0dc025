import OnePass.Proofs.Layout.Tokens
import OnePass.Proofs.Twin.Unit

/-!
Where the parts of a program stand. In a file that is accepted every part has a span within the text, which
holds the spans of the parts below it, and these follow one another as in the text.
-/

namespace OnePass
namespace Registry

/-- Every part of a program that is accepted, from its body down to parameters, fields and members, lies within
the text of its file and around the parts below it, and these stand one behind the other. -/
theorem read_laid {reg reg' : Registry} {source : Source} {p : Program}
    (hread : reg.read source = (.ok p, reg')) : (Part.block p.body).Laid source := by
  obtain ⟨tokens, htokens, hunit⟩ := exists_tokens hread
  obtain ⟨b, l, hreplaces, hlays, hspan⟩ := exists_lays hunit
  have drafted : (Part.block b).Laid source := hlays.whole (.ofTokens htokens) hspan
  exact drafted.of_replaces (reg'.retargets source) hreplaces

/-- A package, a struct and a function with a loop and a branch, and a comment behind them. -/
theorem read_laid_nested :
    let source : Source := ⟨7, "unit.st", "package a; struct P \x7b x: i32; y: i32 \x7d
      fn f(p: P, n: i32): i32 \x7b let q = n; for (let i = 0; i < n; i++) \x7b q = (p.x + 1) * -n; \x7d
        if (n > 9) return f(p, n / 2); else \x7b return (q); \x7d \x7d // ends"⟩
    ∃ p reg, Registry.empty.read source = (.ok p, reg) ∧
      p.body.stmts.map (fun s => (s.span.start, s.span.stop)) = [(0, 10), (11, 38), (45, 195)] ∧
      (Part.block p.body).Laid source := by
  intro source
  obtain ⟨p, reg, hread, hspans⟩ := exists_of_read .empty source (by rfl)
    (fun p _ => p.body.stmts.map fun s => (s.span.start, s.span.stop)) (x := [(0, 10), (11, 38), (45, 195)])
    (by decide +kernel)
  exact ⟨p, reg, hread, hspans, read_laid hread⟩

end Registry
end OnePass
