import ScriptEngine.Proofs.Session.Play

/-!
# Names in sessions

Whatever a session runs, the names of its programs are looked up where the scopes of the programs
say: the recorded distance of a name leads to the frame that was made for the scope in which the
name was found, and the frames around it end at the globals of the module that the code belongs to.
So the walk along the frames never fails.

That the frame is the right one does not mean that it binds the name already. A function in the
initializer of a variable can read the variable before the initializer is done, and the check of
the scopes, which looks only at the innermost scope, does not see it. No other read can miss its
name.
-/

namespace ScriptEngine.Session

open Scope

/-! ## Lines of diagnostics -/

/-- The front of a text does not depend on what is put behind it. -/
theorem take_append {a : String} (b : String) {n : Nat} (h : n ≤ a.toList.length) :
    (a ++ b).toList.take n = a.toList.take n := by
  rw [String.toList_append, List.take_append_of_le_length h]

/-! The three kinds of lines that matter here begin with different letters. -/

/-- A located line begins with a bracket. -/
theorem located_begins (rest : String) : ("[line " ++ rest).toList.take 3 = ['[', 'l', 'i'] := by
  rw [take_append _ (by decide +kernel)]
  decide +kernel

/-- The fault of a missing frame begins otherwise. -/
theorem noEnclosingFrame_begins (distance : Nat) :
    (InternalFault.noEnclosingFrame distance).message.toList.take 3 = ['U', 'n', 'a'] := by
  show ("Unable to find enclosing environment at distance " ++ toString distance ++ "."
    ).toList.take 3 = _
  rw [String.append_assoc, take_append _ (by decide +kernel)]
  decide +kernel

theorem unboundLocal_begins (name : String) (distance : Nat) :
    (InternalFault.unboundLocal name distance).message.toList.take 3 = ['U', 'n', 'd'] := by
  show ("Undefined local variable '" ++ name ++ "' at distance " ++ toString distance ++ "."
    ).toList.take 3 = _
  simp only [String.append_assoc]
  rw [take_append _ (by decide +kernel)]
  decide +kernel

/-- No program is ever to blame for a walk that fails. -/
theorem ne_noEnclosingFrame {sources : String → Prop} {line : String}
    (h : Explained sources line) (distance : Nat) :
    line ≠ (InternalFault.noEnclosingFrame distance).message := by
  intro heq
  have hbegins := noEnclosingFrame_begins distance
  rw [← heq] at hbegins
  rcases h with ⟨rest, rfl⟩ | ⟨fault, hblamed, rfl⟩
  · exact absurd ((located_begins rest).symm.trans hbegins) (by decide)
  · cases fault with
    | unboundLocal name d =>
      exact absurd ((unboundLocal_begins name d).symm.trans hbegins) (by decide)
    -- No other internal fault is ever blamed on a program.
    | _ => exact hblamed.elim

/-- An unbound local variable that is reported is one that some program is to blame for. -/
theorem blamed_of_unboundLocal {sources : String → Prop} {line name : String} {distance : Nat}
    (h : Explained sources line)
    (hline : line = (InternalFault.unboundLocal name distance).message) :
    ∃ name distance, Blamed sources (.unboundLocal name distance) ∧
      line = (InternalFault.unboundLocal name distance).message := by
  rcases h with ⟨rest, rfl⟩ | ⟨fault, hblamed, rfl⟩
  · have hbegins := unboundLocal_begins name distance
    rw [← hline] at hbegins
    exact absurd ((located_begins rest).symm.trans hbegins) (by decide)
  · cases fault with
    | unboundLocal name distance => exact ⟨name, distance, hblamed, rfl⟩
    | _ => exact hblamed.elim

/-! ## Names are looked up where the scopes say -/

/-- In every session there is one account of what each frame was made for, and at every moment the
part of the program that is about to run stands in the frames of its scopes by that account. The
walk along the frames never fails. -/
theorem lookups_follow_scopes (files : FileSystem) (clock depth : Nat) (steps : List Step) :
    ∃ origins : List Origin,
      (Throughout files clock depth steps fun moment m =>
        ∃ home stack, Located origins (sources files steps) moment m home stack) ∧
      ∀ r ∈ play depth (start files clock) steps, ∀ line ∈ r.2.machine.reporter.lines,
        ∀ distance, line ≠ (InternalFault.noEnclosingFrame distance).message := by
  obtain ⟨w, hsources, hforeseen, hlines⟩ := throughout_foreseen files clock depth steps
  refine ⟨w.origins, hforeseen.mono fun moment m hm => ?_, fun r hr line hline => ?_⟩
  · exact hsources ▸ hm.located
  · exact ne_noEnclosingFrame (hlines r hr line hline)

/-! ## Reading too early -/

/-- A variable that is read at its recorded distance is bound there, unless the use stands in a
function in the initializer of that very variable. Only such a use can be the reason why an unbound
local variable is reported. -/
theorem reads_bound_unless_early (files : FileSystem) (clock depth : Nat) (steps : List Step) :
    (Throughout files clock depth steps fun moment m =>
      ∀ l ∈ moment.lookups, l.role.isRead = true → ∃ home, m.active? = some home ∧
        ∀ d, (m.modules.node home).distances[l.id]? = some d →
          ∃ f, m.frames.hops? m.current d = some f ∧
            (m.frames.binds f l.name = true ∨
              0 < d ∧ ∃ program, Accepted (sources files steps) program ∧
                ∃ u ∈ programUses program, u.id = l.id ∧ u.name = l.name ∧ u.Early ∧
                  distance? u.stack.layers u.name = some d)) ∧
    ∀ r ∈ play depth (start files clock) steps, ∀ line ∈ r.2.machine.reporter.lines,
      (∃ name distance, line = (InternalFault.unboundLocal name distance).message) →
        ∃ name distance, Blamed (sources files steps) (.unboundLocal name distance) ∧
          line = (InternalFault.unboundLocal name distance).message := by
  obtain ⟨w, hsources, hforeseen, hlines⟩ := throughout_foreseen files clock depth steps
  refine ⟨hforeseen.mono fun moment m hm l hl hread => ?_, fun r hr line hline => ?_⟩
  · obtain ⟨home, stack, hlocated⟩ := hm.located
    rw [hsources] at hlocated
    obtain ⟨program, ha, u, -, hp⟩ := hlocated.placed l hl
    refine ⟨home, hlocated.active, fun d hd => ?_⟩
    rw [hp.recorded] at hd
    obtain ⟨f, hf, -, hbound⟩ := hp.lands d hd
    refine ⟨f, hf, ?_⟩
    rw [← hp.name] at hd
    obtain ⟨layer, ready, -, -, hready⟩ := ready?_of_distance? hd
    cases ready with
    | true => exact Or.inl (hbound hready)
    -- The use was accepted although its name is not ready, so it does not stand in the scope of
    -- the variable itself but in one further in.
    | false =>
      obtain ⟨distances, hresolve⟩ := ha.2
      have hallowed := (resolve_ok hresolve).2 u hp.use
      have hpending := hallowed.not_pending (hp.role ▸ hread)
      exact Or.inr ⟨Use.Early.nested hready hpending hd, program, ha, u, hp.use, hp.id, hp.name,
        hready, hd⟩
  · rintro ⟨name, distance, heq⟩
    exact blamed_of_unboundLocal (hlines r hr line hline) heq

/-- A program that is accepted and reads a variable while it is being initialized. -/
theorem early_read_reported :
    (runUpTo 12 (start ⟨[], []⟩ 0) "\x7b var a = (() -> a)(); \x7d").1 = .runtimeFailed ∧
      (runUpTo 12 (start ⟨[], []⟩ 0) "\x7b var a = (() -> a)(); \x7d").2.machine.reporter.lines =
        #["Undefined local variable 'a' at distance 1."] := by
  decide +kernel

end ScriptEngine.Session
