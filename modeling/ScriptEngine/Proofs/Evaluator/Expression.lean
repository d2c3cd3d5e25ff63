import ScriptEngine.Proofs.Evaluator.Subclass

/-!
# Expressions at run time

One lemma for each construct, and `tracks_evaluateStep` for all of them: an expression that is
ready can be followed if its parts can. The parts of an expression stand under the same scopes, so
they are ready where the whole is; only the body of an arrow function is not run on the spot.
-/

namespace ScriptEngine

open Scope hiding bind

section

variable {settled : Nat} {w w' : World} {m m' : Machine} {home : ModuleId} {stack : Stack}
  {ev : Observer → Evaluator}

/-- The value of an expression behind references can be followed. -/
theorem tracks_value (h : Evaluator.Tracks ev) {e : Expr}
    (hr : Ready settled w m home stack (exprUses stack e) (exprMarks e)) :
    Tracks settled w m (fun o => (ev o).value e) ValueOk :=
  tracks_bind (h.evaluate hr) fun _ _ _ h₁ hv => tracks_deref h₁.sound hv

/-- Arguments can be followed, one in the machine that the other leaves. -/
theorem tracks_values (h : Evaluator.Tracks ev) (es : List Expr) :
    ∀ {w : World} {m : Machine},
      Ready settled w m home stack (exprsUses stack es) (exprsMarks es) →
        Tracks settled w m (fun o => (ev o).values es) fun w' m' vs =>
          ∀ v ∈ vs, ValueOk w' m' v := by
  induction es with
  | nil => exact fun hr => tracks_pure hr.sound (by simp)
  | cons e es ih =>
    intro w m hr
    refine tracks_bind (tracks_value h hr.left) fun w₁ m₁ first h₁ hfirst => ?_
    refine tracks_bind (ih (hr.after h₁).right) fun w₂ m₂ rest h₂ hrest => ?_
    refine tracks_pure h₂.sound fun v hv => ?_
    rcases List.mem_cons.mp hv with rfl | hv
    · exact hfirst.mono h₂.moves
    · exact hrest v hv

/-- The entries of a map can be followed. -/
theorem tracks_mapValues (h : Evaluator.Tracks ev) (entries : List (Token × Expr)) :
    ∀ {w : World} {m : Machine} {cell : MapCell},
      Ready settled w m home stack (entriesUses stack entries) (entriesMarks entries) →
      (∀ e ∈ cell.entries, ValueOk w m e.1 ∧ ValueOk w m e.2) →
        Tracks settled w m (fun o => (ev o).mapValues entries cell) fun w' m' cell' =>
          ∀ e ∈ cell'.entries, ValueOk w' m' e.1 ∧ ValueOk w' m' e.2 := by
  induction entries with
  | nil => exact fun hr hcell => tracks_pure hr.sound hcell
  | cons entry entries ih =>
    obtain ⟨key, e⟩ := entry
    intro w m cell hr hcell
    refine tracks_bind (tracks_value h hr.left) fun w₁ m₁ v h₁ hv => tracks_heap ?_
    refine ih (hr.after h₁).right ?_
    -- The keys of a map literal are names, so they are strings and never need the heap.
    have hkey : ValueOk w₁ m₁ (.string key.lexeme) := trivial
    exact Heap.forall_putEntry hkey hv fun e he =>
      ⟨(hcell e he).1.mono h₁.moves, (hcell e he).2.mono h₁.moves⟩

/-- A function is made with the current frame behind it. -/
theorem tracks_closure (hs : Sound settled w m) (hactive : m.active? = some home)
    (decl : FunctionDecl) :
    Tracks settled w m (fun _ => Evaluator.closure decl) fun _ _ v =>
      ∃ id, v = .function ⟨id, decl, m.current, home, false, none⟩ := by
  refine tracks_read (Evaluator.activeModule_eq hactive) ?_
  refine tracks_bind (tracks_fresh hs) fun w₁ m₁ id h₁ _ => tracks_get ?_
  exact tracks_pure h₁.sound ⟨id, by rw [h₁.kept.2]⟩

theorem tracks_call (h : Evaluator.Tracks ev) {id : ExprId} {callee : Expr} {paren : Token}
    {arguments : List Expr}
    (hr : Ready settled w m home stack (exprUses stack (.call id callee paren arguments))
      (exprMarks (.call id callee paren arguments))) :
    Tracks settled w m (fun o => (ev o).call callee paren arguments) ValueOk := by
  refine tracks_bind (h.evaluate hr.left) fun w₁ m₁ f h₁ hf => ?_
  refine tracks_bind (tracks_values h arguments (hr.after h₁).right) fun w₂ m₂ args h₂ hargs => ?_
  have hf₂ := hf.mono h₂.moves
  cases f with
  | imported ref =>
    refine tracks_throughImport h₂.sound ref fun w₃ m₃ target hm hs htarget => ?_
    exact tracks_callValue h hs htarget (fun v hv => (hargs v hv).mono hm) paren
  | _ => exact tracks_callValue h h₂.sound hf₂ hargs paren

/-- Reading a property can be followed. -/
theorem tracks_property (h : Evaluator.Tracks ev) {id : ExprId} {object : Expr} {name : Token}
    (hr : Ready settled w m home stack (exprUses stack (.get id object name))
      (exprMarks (.get id object name))) :
    Tracks settled w m (fun o => (ev o).property object name) ValueOk := by
  refine tracks_bind (h.evaluate (hr.part (List.Subset.refl _) (List.Subset.refl _)))
    fun w₁ m₁ v h₁ hv => ?_
  cases v with
  | imported ref =>
    refine tracks_throughImport h₁.sound ref fun w₂ m₂ target _ hs htarget => ?_
    exact tracks_getProperty hs htarget name
  | _ => exact tracks_getProperty h₁.sound hv name

/-- Writing a field with a sound value can be followed. -/
theorem tracks_setField (hs : Sound settled w m) (id : ObjectId) (name : String) {v : Value}
    (hv : ValueOk w m v) :
    Tracks settled w m
      (fun _ => Run.modifyHeap fun h => h.modifyObject id fun i => i.setField name v)
      fun _ _ _ => True := by
  exact (tracks_modifyHeap hs (Heap.grows_modifyObject (.of_statuses rfl rfl))
    (hs.heap.setField id name hv)).post fun _ _ _ _ _ => trivial

/-- Writing a property can be followed. -/
theorem tracks_setProperty (h : Evaluator.Tracks ev) {id : ExprId} {object e : Expr} {name : Token}
    (hr : Ready settled w m home stack (exprUses stack (.set id object name e))
      (exprMarks (.set id object name e))) :
    Tracks settled w m (fun o => (ev o).setProperty object name e) ValueOk := by
  -- The uses of the value come first although the object is evaluated first.
  refine tracks_bind (tracks_value h hr.right) fun w₁ m₁ target h₁ htarget => ?_
  cases target with
  | object i =>
    refine tracks_bind (tracks_value h (hr.after h₁).left) fun w₂ m₂ v h₂ hv => ?_
    refine tracks_bind (tracks_setField h₂.sound i name.lexeme hv) fun w₃ m₃ _ h₃ _ => ?_
    exact tracks_pure h₃.sound (hv.mono h₃.moves)
  | _ => exact tracks_failAt h₁.sound _ _

/-- One level of evaluation can be followed if the evaluation of the parts can. -/
theorem tracks_evaluateStep (h : Evaluator.Tracks ev) {e : Expr}
    (hr : Ready settled w m home stack (exprUses stack e) (exprMarks e)) :
    Tracks settled w m (fun o => (ev o).evaluateStep e) ValueOk := by
  cases e with
  | constant id c =>
    refine tracks_pure hr.sound ?_
    cases c <;> trivial
  | reference ref =>
    obtain ⟨program, ha, hp⟩ := hr.placed_here (u := readUse stack ref) List.mem_cons_self rfl
    exact tracks_lookUp hr.sound hr.active hp ha
  | assign id name value =>
    have hplain : Plain name.lexeme := hr.code.proper (.name name) (by simp [exprMarks])
    refine tracks_bind (tracks_value h hr.left) fun w₁ m₁ v h₁ hv => ?_
    have hr₁ := hr.after h₁
    obtain ⟨program, -, hp⟩ := hr₁.placed_here (u := ⟨id, name.lexeme, .write, stack⟩)
      (List.mem_append_right _ List.mem_cons_self) rfl
    refine tracks_bind (tracks_assign hr₁.sound hr₁.active hr₁.chain.home_lt hp hr₁.code.shape
      hplain hv) fun w₂ m₂ _ h₂ _ => ?_
    exact tracks_pure h₂.sound (hv.mono h₂.moves)
  | grouping id inner => exact tracks_value h hr
  | binary id left operator right =>
    refine tracks_bind (tracks_value h hr.left) fun w₁ m₁ l h₁ hl => ?_
    refine tracks_bind (tracks_value h (hr.after h₁).right) fun w₂ m₂ r h₂ hright => ?_
    exact tracks_binaryOperation h h₂.sound (hl.mono h₂.moves) hright operator
  | unary id operator operand =>
    refine tracks_bind (tracks_value h hr) fun w₁ m₁ v h₁ hv => ?_
    exact tracks_unaryOperation h h₁.sound hv operator
  | logical id left operator right =>
    refine tracks_bind (tracks_value h hr.left) fun w₁ m₁ l h₁ hl => ?_
    dsimp only
    -- Either way the result is one of the two operands.
    generalize (if operator.kind = .or then l.isTruthy else !l.isTruthy) = decided
    cases decided with
    | true => exact tracks_pure h₁.sound hl
    | false => exact tracks_value h (hr.after h₁).right
  | call id callee paren arguments => exact tracks_call h hr
  | get id object name => exact tracks_property h hr
  | set id object name value => exact tracks_setProperty h hr
  | getItem id object bracket index =>
    refine tracks_bind (tracks_value h hr.left) fun w₁ m₁ o h₁ ho => ?_
    refine tracks_bind (tracks_value h (hr.after h₁).right) fun w₂ m₂ i h₂ hi => ?_
    exact tracks_indexGet h h₂.sound (ho.mono h₂.moves) hi bracket
  | setItem id object index equals value =>
    refine tracks_bind (tracks_value h hr.left.left) fun w₁ m₁ o h₁ ho => ?_
    have hr₁ := hr.after h₁
    refine tracks_bind (tracks_value h hr₁.left.right) fun w₂ m₂ i h₂ hi => ?_
    refine tracks_bind (tracks_value h (hr₁.after h₂).right) fun w₃ m₃ v h₃ hv => ?_
    have ho₃ := (ho.mono h₂.moves).mono h₃.moves
    refine tracks_bind (tracks_indexSet h h₃.sound ho₃ (hi.mono h₃.moves) hv equals) ?_
    exact fun w₄ m₄ _ h₄ _ => tracks_pure h₄.sound (hv.mono h₄.moves)
  | self id keyword =>
    obtain ⟨program, ha, hp⟩ := hr.placed_here (u := ⟨id, keyword.lexeme, .self, stack⟩)
      List.mem_cons_self rfl
    exact tracks_lookUp hr.sound hr.active hp ha
  | super id keyword className method => exact tracks_superMethod hr
  | array id elements =>
    refine tracks_bind (tracks_values h elements hr) fun w₁ m₁ items h₁ hitems => ?_
    refine tracks_bind (tracks_onHeap h₁.sound (Heap.grows_newArray _ _ _)
      (h₁.sound.heap.newArray fun v hv => hitems v ?_)) fun w₂ m₂ _ h₂ _ => ?_
    · simpa [ArrayCell.ofItems] using hv
    · exact tracks_pure h₂.sound trivial
  | map id entries =>
    refine tracks_bind (tracks_mapValues h entries hr (by simp)) fun w₁ m₁ cell h₁ hcell => ?_
    refine tracks_bind (tracks_onHeap h₁.sound (Heap.grows_newMap _ _ _)
      (h₁.sound.heap.newMap hcell)) fun w₂ m₂ _ h₂ _ => ?_
    exact tracks_pure h₂.sound trivial
  | lambda id decl =>
    refine (tracks_closure hr.sound hr.active decl).post ?_
    rintro w₁ m₁ _ h₁ ⟨f, rfl⟩
    -- The closure is the current frame, so the scopes around the body are those around the arrow.
    exact ⟨stack, hr.chain.mono h₁.moves, hr.code.mono h₁.moves⟩

end

end ScriptEngine
