import ScriptEngine.Proofs.Evaluator.BrokenImport
import ScriptEngine.Proofs.Session.Play

/-!
# Imports that fail

At whatever moment of a session an import is halted, the frame that it ran in has the names that it
had before, and those of the items in front of the one that was refused. So an import is not all or
nothing: items that were bound stay bound, and to import them once more is refused.
-/

namespace ScriptEngine

/-- What is known of an import that is halted, at whatever depth: it has bound the items in front of
the one that was refused, or none if it did not come to its items. -/
def Moment.BindsInOrder (m : Machine) : Moment → Prop
  | .executing (.importFrom token items) => ∀ levels halt m',
    execute levels (.importFrom token items) m = .error halt m' → ∃ front,
      m.LeavesFront (evaluatorUpTo (levels - 1)) token front m' ∧
        (front = [] ∨ ∃ item back target, items = front ++ item :: back ∧
          m.ImportsFrom token target m' ∧ item.Refused target m' halt)
  | _ => True

/-- An import that is foreseen binds its items in order. -/
theorem Foreseen.bindsInOrder {w : World} {moment : Moment} {m : Machine}
    (h : Foreseen w moment m) : moment.BindsInOrder m := by
  obtain ⟨w₀, -, -, home, stack, hr⟩ := h
  cases moment with
  | evaluating e => trivial
  | executing s =>
    cases s with
    | importFrom token items =>
      intro levels halt m' heq
      cases levels with
      | zero =>
        rw [execute] at heq
        cases heq
        exact ⟨[], .none (.refl hr.inner) (Or.inl rfl), Or.inl rfl⟩
      | succ levels =>
        rw [execute] at heq
        rcases Run.bind_error heq with himport | ⟨u, m₁, himport, hpure⟩
        · exact Evaluator.importNames_halted hr himport
        · cases hpure
    | _ => trivial

namespace Session

/-- At every moment of a session, an import that is halted leaves the frame that it runs in with the
names from before and those of the items in front of the one that was refused, each of these bound
to a reference to the module that has the path of the import in the importer's tree. If it did not
come to its items, it has bound none. The names from before keep their values, unless the code of a
module that the import has run assigned to them. -/
theorem halted_imports_bind_in_order (files : FileSystem) (clock depth : Nat) (steps : List Step) :
    Throughout files clock depth steps fun moment m => moment.BindsInOrder m := by
  obtain ⟨w, -, hforeseen, -⟩ := throughout_foreseen files clock depth steps
  exact hforeseen.mono fun _ _ h => h.bindsInOrder

/-- A library that exports one name, and a program and a library that import each other. -/
def importedFiles : FileSystem :=
  ⟨[(["lib.sss"], .file (some "export var a;")),
    (["main.sss"], .file (some ("var n; export function set() \x7b n = true; \x7d " ++
      "from './setter' import nope;"))),
    (["setter.sss"], .file (some "from './main' import set; set();"))], []⟩

/-- The first name of an import that fails at the second one cannot be imported in a later step, and
what a module assigned to a variable of the importer stays when the import fails. -/
theorem halted_imports_stay :
    (play 12 (start importedFiles 0) [.source "from './lib' import a, b;",
        .source "from './lib' import a;"]).map (fun r => (r.1, r.2.machine.reporter.lines)) =
      [(.runtimeFailed, #["[line 1] Error at 'b': Unable to find exported item 'b'"]),
        (.runtimeFailed, #["[line 1] Error at 'b': Unable to find exported item 'b'",
          "[line 1] Error at 'a': Variable already exists with the name 'a'."])] ∧
    (play 12 (start importedFiles 0) [.file ⟨"main.sss"⟩, .source "print n;"]).map
        (fun r => (r.1, r.2.machine.store.output)) =
      [(.runtimeFailed, #[]), (.ok, #["true"])] := by
  decide +kernel

end Session

end ScriptEngine
