import ScriptEngine.Proofs.Session.Twins

/-!
# Import references stay where imports put them

An import reference is what an import statement binds a name to. It stays in the frame of that
statement, under that name: nothing that a program computes with, stores in the heap, exports or
hands to a function is ever a reference, because wherever a value is wanted the reference is
followed first. Only a name by itself can stand for one.
-/

namespace ScriptEngine

/-- Breaks a run off at some moments and leaves the machine as it is. -/
def Observer.stopping (P : Moment → Machine → Bool) : Observer :=
  fun moment m => if P moment m then some m else none

/-- Nothing but frames holds an import reference, and no frame of exports does. -/
structure Machine.ReferencesInFrames (m : Machine) : Prop where
  items : ∀ id, ∀ v ∈ (m.store.heap.array id).items, v.isImported = false
  entries : ∀ id, ∀ e ∈ (m.store.heap.map id).entries,
    e.1.isImported = false ∧ e.2.isImported = false
  messages : ∀ id, (m.store.heap.error id).message.isImported = false
  fields : ∀ id, ∀ f ∈ (m.store.heap.object id).fields, f.2.isImported = false
  exports : ∀ k < m.modules.size, ∀ name v,
    m.frames.local? (m.modules.node k).exports name = some v → v.isImported = false

/-- What programs compute with in a machine: no expression but a name comes to an import reference,
no statement returns one, and neither an operand nor an argument nor an entry of a map is one. The
line that a print adds to the output displays a value that is none, a variable is declared with such
a value, and what a `throw` turns into an error is one. -/
structure Machine.ComputesValues (m : Machine) (depth : Nat) : Prop where
  evaluated : ∀ e v m', evaluate depth e m = .ok v m' → v.isImported = true → e.IsName
  returned : ∀ s v m', execute depth s m = .ok (.returned v) m' → v.isImported = false
  operands : ∀ e v m', (evaluatorUpTo depth).value e m = .ok v m' → v.isImported = false
  arguments : ∀ es vs m', (evaluatorUpTo depth).values es m = .ok vs m' →
    ∀ v ∈ vs, v.isImported = false
  entries : ∀ es cell m', (evaluatorUpTo depth).mapValues es ⟨[]⟩ m = .ok cell m' →
    ∀ e ∈ cell.entries, e.1.isImported = false ∧ e.2.isImported = false
  printed : ∀ e flow m', execute depth (.print e) m = .ok flow m' → ∃ v m₁,
    (evaluatorUpTo (depth - 1)).value e m = .ok v m₁ ∧ v.isImported = false ∧
      m' = { m₁ with store := { m₁.store with
        output := m₁.store.output.push (m₁.store.heap.display v) } }
  declared : ∀ name e flow m', execute depth (.var name (some e)) m = .ok flow m' → ∃ v m₁,
    (evaluatorUpTo (depth - 1)).value e m = .ok v m₁ ∧ v.isImported = false ∧
      m' = { m₁ with frames := m₁.frames.put m₁.current name.lexeme v }
  thrown : ∀ keyword e halt m', execute depth (.throw keyword e) m = .error halt m' →
    (evaluatorUpTo (depth - 1)).value e m = .error halt m' ∨ ∃ v m₁,
      (evaluatorUpTo (depth - 1)).value e m = .ok v m₁ ∧ v.isImported = false ∧
        match (evaluatorUpTo (depth - 1)).thrownError keyword v m₁ with
        | .ok id m₂ => halt = .thrown id ∧ m' = m₂
        | .error halt₂ m₂ => halt = halt₂ ∧ m' = m₂

variable {σ : Setting} {m n : Machine}

/-- In a tidy machine references stand in frames only. -/
theorem Tidy.referencesInFrames (h : Tidy σ m) : m.ReferencesInFrames where
  items := fun id v hv => Setting.Plain.isImported (σ := σ) (m := m) (h.heap.arrays id v hv)
  entries := fun id e he =>
    ⟨Setting.Plain.isImported (σ := σ) (m := m) (h.heap.maps id e he).1,
      Setting.Plain.isImported (σ := σ) (m := m) (h.heap.maps id e he).2⟩
  messages := fun id => Setting.Plain.isImported (σ := σ) (m := m) (h.heap.errors id)
  fields := fun id f hf => Setting.Plain.isImported (σ := σ) (m := m) (h.heap.fields id f hf)
  exports := fun k hk => (h.exports k hk).2

/-- What the first of two runs comes to. -/
theorem Meets.ok {α β : Type} {x : Run α} {y : Run β} {f : α → β} {P : Machine → α → Prop}
    (h : Meets σ m n x y f P) {a : α} {m' : Machine} (hx : x m = .ok a m') : P m' a := by
  unfold Meets at h
  rw [hx] at h
  obtain ⟨n', -, -, -, hp⟩ := h
  exact hp

/-- An operand is never an import reference, at whatever depth it is evaluated. -/
theorem Twins.operand {depth : Nat} {ev : Evaluator} (h : Twins σ m n)
    (halike : (evaluatorUpTo depth).Alike σ ev) (hall : ∀ moment, σ.part moment) {e : Expr}
    {v : Value} {m' : Machine} (hv : (evaluatorUpTo depth).value e m = .ok v m') :
    v.isImported = false :=
  (Evaluator.meets_value halike h (everyExpr_of_forall hall e)).ok hv |>.isImported

/-- A print that has run has evaluated its operand and written the display of what it came to. -/
theorem execute_print {levels : Nat} {e : Expr} {flow : Flow} {m' : Machine}
    (hok : execute (levels + 1) (.print e) m = .ok flow m') : ∃ v m₁,
      (evaluatorUpTo levels).value e m = .ok v m₁ ∧
        m' = { m₁ with store := { m₁.store with
          output := m₁.store.output.push (m₁.store.heap.display v) } } := by
  rw [execute] at hok
  obtain ⟨v, m₁, hv, hrest⟩ := Run.bind_ok hok
  cases hrest
  exact ⟨v, m₁, hv, rfl⟩

/-- A declaration that has run has bound its name, in the current frame, to what the operand came
to. -/
theorem execute_var {levels : Nat} {name : Token} {e : Expr} {flow : Flow} {m' : Machine}
    (hok : execute (levels + 1) (.var name (some e)) m = .ok flow m') : ∃ v m₁,
      (evaluatorUpTo levels).value e m = .ok v m₁ ∧
        m' = { m₁ with frames := m₁.frames.put m₁.current name.lexeme v } := by
  rw [execute] at hok
  obtain ⟨v, m₁, hv, hrest⟩ := Run.bind_ok hok
  obtain ⟨u, m₂, hdefine, hpure⟩ := Run.bind_ok hrest
  cases hpure
  refine ⟨v, m₁, hv, ?_⟩
  change EStateM.bind (Run.ofExcept (m₁.frames.newTarget m₁.current name)) _ m₁ = _ at hdefine
  unfold Frames.newTarget at hdefine
  cases hbinds : m₁.frames.binds m₁.current name.lexeme with
  | true =>
    rw [hbinds] at hdefine
    cases hdefine
  | false =>
    rw [hbinds] at hdefine
    cases hdefine
    rfl

/-- A `throw` is halted by its operand, or by the error that it makes of what the operand came
to. -/
theorem execute_throw {levels : Nat} {keyword : Token} {e : Expr} {halt : Halt} {m' : Machine}
    (herror : execute (levels + 1) (.throw keyword e) m = .error halt m') :
    (evaluatorUpTo levels).value e m = .error halt m' ∨ ∃ v m₁,
      (evaluatorUpTo levels).value e m = .ok v m₁ ∧
        match (evaluatorUpTo levels).thrownError keyword v m₁ with
        | .ok id m₂ => halt = .thrown id ∧ m' = m₂
        | .error halt₂ m₂ => halt = halt₂ ∧ m' = m₂ := by
  rw [execute] at herror
  rcases Run.bind_error herror with hoperand | ⟨v, m₁, hv, hrest⟩
  · exact Or.inl hoperand
  · refine Or.inr ⟨v, m₁, hv, ?_⟩
    have hthrown : ((evaluatorUpTo levels).thrownError keyword v >>= fun id =>
        throw (.thrown id) : Run Flow) m₁ = .error halt m' := hrest
    rcases Run.bind_error hthrown with herror₂ | ⟨id, m₂, hid, hthrow⟩
    · rw [herror₂]
      exact ⟨rfl, rfl⟩
    · rw [hid]
      cases hthrow
      exact ⟨rfl, rfl⟩

/-- Programs compute with values only, in a machine that is a twin of another one. -/
theorem Twins.computesValues {ev : Nat → Evaluator} (h : Twins σ m n)
    (halike : ∀ depth, (evaluatorUpTo depth).Alike σ (ev depth)) (hall : ∀ moment, σ.part moment)
    (depth : Nat) : m.ComputesValues depth where
  evaluated := fun e v m' hv himported => by
    have hmeets := (halike depth).evaluate h (everyExpr_of_forall hall e)
    rcases hmeets.ok hv with hplain | hrefers
    · rw [hplain.isImported] at himported
      cases himported
    · exact hrefers.2
  returned := fun s v m' hv => by
    have hmeets := (halike depth).execute h (everyStmt_of_forall hall s)
    exact Setting.Plain.isImported (hmeets.ok hv).flow
  operands := fun e v m' hv => h.operand (halike depth) hall hv
  arguments := fun es vs m' hvs v hv => by
    have hmeets := Evaluator.meets_values (halike depth) h (everyExprs_of_forall hall es)
    exact (hmeets.ok hvs v hv).isImported
  entries := fun es cell m' hcell e he => by
    have hempty : Evaluator.EntriesPlain σ m ⟨[]⟩ := fun e he => absurd he List.not_mem_nil
    have hmeets :=
      Evaluator.meets_mapValues (halike depth) h (everyEntry_of_forall hall es) hempty
    exact ⟨(hmeets.ok hcell e he).1.isImported, (hmeets.ok hcell e he).2.isImported⟩
  -- With no depth left a statement comes to nothing; otherwise its operand is one level down.
  printed := fun e flow m' hok => by
    cases depth with
    | zero => cases hok
    | succ levels =>
      obtain ⟨v, m₁, hv, hm'⟩ := execute_print hok
      exact ⟨v, m₁, hv, h.operand (halike levels) hall hv, hm'⟩
  declared := fun name e flow m' hok => by
    cases depth with
    | zero => cases hok
    | succ levels =>
      obtain ⟨v, m₁, hv, hm'⟩ := execute_var hok
      exact ⟨v, m₁, hv, h.operand (halike levels) hall hv, hm'⟩
  thrown := fun keyword e halt m' herror => by
    cases depth with
    | zero =>
      cases herror
      exact Or.inl rfl
    | succ levels =>
      rcases execute_throw herror with hoperand | ⟨v, m₁, hv, hthrown⟩
      · exact Or.inl hoperand
      · exact Or.inr ⟨v, m₁, hv, h.operand (halike levels) hall hv, hthrown⟩

namespace Session

/-- The setting of runs that may do anything, with import references in some places only. -/
def everything (cached : Prop) (names : FrameId → String → Prop) : Setting where
  relabel := .same
  cached := cached
  strict := True
  part := fun _ => True
  known := fun _ => True
  names := names
  around := Eq
  relabel_eq := fun _ => rfl
  around_eq := fun _ _ _ => Iff.rfl
  around_alike := fun a b h => by
    subst h
    exact ⟨rfl, fun _ => rfl, fun _ => rfl, fun _ => rfl, fun _ _ _ => rfl⟩
  looked := fun _ _ _ _ => trivial
  loads := fun _ _ _ => ⟨trivial, fun _ => trivial⟩

/-- What is true of a tidy machine is true throughout a session. -/
theorem throughout_tidy (files : FileSystem) (clock depth : Nat) (steps : List Step) :
    Throughout files clock depth steps fun _ m => Tidy (everything True fun _ _ => True) m := by
  intro o ho
  rw [← playUnder_quiet]
  -- Twins are the same machine here, so an observer that keeps quiet at tidy machines is quiet.
  have halike : o.Alike (everything True fun _ _ => True) .quiet := by
    intro m n moment h _
    exact .inl ⟨ho moment m h.tidy, rfl, fun _ _ _ _ _ => trivial⟩
  exact (playUnder_eq trivial trivial (fun _ => trivial) halike files clock depth steps).1

/-- Every step of a session leaves a tidy machine. -/
theorem play_tidy (files : FileSystem) (clock depth : Nat) (steps : List Step) :
    ∀ r ∈ play depth (start files clock) steps,
      Tidy (everything True fun _ _ => True) r.2.machine := by
  rw [← playUnder_quiet]
  have halike : Observer.quiet.Alike (everything True fun _ _ => True) .quiet :=
    fun _ _ => .inl ⟨rfl, rfl, fun _ _ _ _ _ => trivial⟩
  exact (playUnder_eq trivial trivial (fun _ => trivial) halike files clock depth steps).2

/-- Nobody but an import statement binds a name to an import reference. -/
theorem stopped_tidy (files : FileSystem) (clock depth : Nat) (steps : List Step)
    {P : Moment → Machine → Bool} {f : FrameId} {name : String}
    (hP : ∀ path items m, m.current = f → name ∈ items.map (·.binding.lexeme) →
      P (.executing (.importFrom path items)) m = true) :
    ∀ r ∈ playUnder (.stopping P) depth (start files clock) steps,
      Tidy (everything True fun g x => ¬ (g = f ∧ x = name)) r.2.machine := by
  refine (playUnder_eq trivial trivial (fun _ => trivial) (show (Observer.stopping P).Alike
    (everything True fun g x => ¬ (g = f ∧ x = name)) (.stopping P) from ?_)
    files clock depth steps).2
  intro m n moment h _
  obtain rfl := h.eq trivial trivial
  have hmoment : (everything True fun g x => ¬ (g = f ∧ x = name)).relabel.moment moment =
      moment := by
    cases moment with
    | evaluating e => exact congrArg Moment.evaluating (Relabeling.expr_same e)
    | executing s => exact congrArg Moment.executing (Relabeling.stmt_same s)
  rw [hmoment]
  unfold Observer.stopping
  cases hstop : P moment n with
  | true => exact .inr ⟨n, n, rfl, rfl, h, .refl n⟩
  | false =>
    refine .inl ⟨rfl, rfl, fun path items hm item hitem => ?_⟩
    subst hm
    rintro ⟨hf, hname⟩
    rw [hP path items n hf (hname ▸ List.mem_map_of_mem hitem)] at hstop
    cases hstop

/-- At every moment of a session and after each of its steps, import references are in frames only,
and no program computes with one, prints one, declares a variable with one or throws one. A frame
binds a name to a reference only if an import statement that binds the name has run in that frame: a
session that is broken off at all such statements, and at whatever other moments, never comes to
such a binding. -/
theorem references_stay_in_frames (files : FileSystem) (clock depth : Nat) (steps : List Step) :
    (Throughout files clock depth steps fun _ m =>
      m.ReferencesInFrames ∧ ∀ depth, m.ComputesValues depth) ∧
    (∀ r ∈ play depth (start files clock) steps, r.2.machine.ReferencesInFrames) ∧
    ∀ (P : Moment → Machine → Bool) (f : FrameId) (name : String),
      (∀ path items m, m.current = f → name ∈ items.map (·.binding.lexeme) →
        P (.executing (.importFrom path items)) m = true) →
      ∀ r ∈ playUnder (.stopping P) depth (start files clock) steps,
        ∀ v, r.2.machine.frames.local? f name = some v → v.isImported = false := by
  refine ⟨?_, fun r hr => (play_tidy files clock depth steps r hr).referencesInFrames, ?_⟩
  · have halike : ∀ levels, (evaluatorUpTo levels).Alike (everything True fun _ _ => True)
        (evaluatorUpTo levels) := fun levels => by
      rw [← evaluatorUnder_quiet]
      exact alike_evaluatorUnder (fun _ _ => .inl ⟨rfl, rfl, fun _ _ _ _ _ => trivial⟩) levels
    exact (throughout_tidy files clock depth steps).mono fun _ m h =>
      ⟨h.referencesInFrames, (h.self rfl rfl).computesValues halike fun _ => trivial⟩
  · intro P f name hP r hr v hv
    rcases (stopped_tidy files clock depth steps hP r hr).values f name v hv with hplain | hrefers
    · exact hplain.isImported
    · exact absurd ⟨rfl, rfl⟩ hrefers.2

end Session

end ScriptEngine
