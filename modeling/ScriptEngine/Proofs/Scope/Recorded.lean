import Std.Data.TreeMap
import ScriptEngine.Proofs.Program.Node
import ScriptEngine.Proofs.Scope.Use

/-!
# Where distances are recorded

A walk over a program records distances under the numbers of its uses, under each as often as it
is used at most (`count_stmts`). That holds of programs with errors in them as well: an error may
keep a distance from being recorded, and never adds one. So every number with a distance is that of
a node of the program (`mem_nodes_of_recorded`). In a table the last distance of a number counts.
-/

namespace ScriptEngine.Scope

/-- The numbers under which distances have been found. -/
def recorded (found : Findings) : List ExprId :=
  found.distances.map (·.1)

@[simp, grind =] theorem recorded_nothing : recorded .nothing = [] := rfl

@[simp, grind =] theorem recorded_error (fault : ScopeFault) (token : Token) :
    recorded (.error fault token) = [] := rfl

/-- What two findings record is what each of them records. -/
@[simp, grind =] theorem recorded_append (a b : Findings) :
    recorded (a ++ b) = recorded a ++ recorded b :=
  List.map_append

@[simp, grind =] theorem recorded_declareFindings (scopes : List Layer) (name : Token) :
    recorded (declareFindings scopes name) = [] := by
  rw [recorded, declareFindings_distances, List.map_nil]

@[simp, grind =] theorem recorded_bindAll (scopes : List Layer) (names : List Token) :
    recorded (bindAll scopes names).2 = [] := by
  rw [recorded, bindAll_distances, List.map_nil]

/-- A use is recorded once, if at all. -/
theorem count_record (id : ExprId) (scopes : List Layer) (own : ExprId) (name : String) :
    (recorded (record scopes own name)).count id ≤ [own].count id := by
  unfold record
  split
  · exact Nat.le_refl _
  · exact Nat.zero_le _

/-- Reading a name records its own number at most, and once. -/
theorem count_readName (id : ExprId) (scopes : List Layer) (ref : Reference) :
    (recorded (readName scopes ref)).count id ≤ [ref.id].count id := by
  unfold readName
  have hrecord := count_record id scopes ref.id ref.name.lexeme
  cases scopes with
  | nil => exact hrecord
  | cons layer outer => grind

/-- The superclasses record their own numbers at most. -/
theorem count_superclasses (id : ExprId) (scopes : List Layer) (className : Token) :
    ∀ refs, (recorded (superclasses scopes className refs)).count id ≤
      (refs.map (·.id)).count id
  | [] => Nat.le_refl _
  | ref :: refs => by
    have hread := count_readName id scopes ref
    have hrest := count_superclasses id scopes className refs
    grind [superclasses]

mutual

/-- The distances found in an expression are recorded under the numbers of its uses. -/
theorem count_expr (id : ExprId) (ctx : Context) (scopes : List Layer) :
    ∀ e, (recorded (expr ctx scopes e)).count id ≤ (numbers (exprMarks e)).count id
  | .constant _ _ => Nat.le_refl _
  | .reference ref => by grind [expr, count_readName id scopes ref]
  | .assign own name value => by
    grind [expr, count_expr id ctx scopes value, count_record id scopes own name.lexeme]
  | .binary _ left _ right | .logical _ left _ right => by
    grind [expr, count_expr id ctx scopes left, count_expr id ctx scopes right]
  | .unary _ _ operand => by grind [expr, count_expr id ctx scopes operand]
  | .grouping _ inner => by grind [expr, count_expr id ctx scopes inner]
  | .call _ callee _ arguments => by
    grind [expr, count_expr id ctx scopes callee, count_exprs id ctx scopes arguments]
  | .get _ object _ => by grind [expr, count_expr id ctx scopes object]
  | .set _ object _ value => by
    grind [expr, count_expr id ctx scopes object, count_expr id ctx scopes value]
  | .getItem _ object _ index => by
    grind [expr, count_expr id ctx scopes object, count_expr id ctx scopes index]
  | .setItem _ object index _ value => by
    grind [expr, count_expr id ctx scopes object, count_expr id ctx scopes index,
      count_expr id ctx scopes value]
  | .self own keyword => by grind [expr, count_record id scopes own keyword.lexeme]
  | .super own keyword _ _ => by grind [expr, count_record id scopes own keyword.lexeme]
  | .array _ elements => by grind [expr, count_exprs id ctx scopes elements]
  | .map _ entries => by grind [expr, count_mapEntries id ctx scopes entries]
  | .lambda _ decl => by grind [expr, count_function id ctx scopes .function decl]

/-- A list of expressions records a number at most as often as it has it. -/
theorem count_exprs (id : ExprId) (ctx : Context) (scopes : List Layer) :
    ∀ es, (recorded (exprs ctx scopes es)).count id ≤ (numbers (exprsMarks es)).count id
  | [] => Nat.le_refl _
  | e :: es => by grind [exprs, count_expr id ctx scopes e, count_exprs id ctx scopes es]

theorem count_mapEntries (id : ExprId) (ctx : Context) (scopes : List Layer) :
    ∀ es, (recorded (mapEntries ctx scopes es)).count id ≤ (numbers (entriesMarks es)).count id
  | [] => Nat.le_refl _
  | (_, e) :: es => by
    grind [mapEntries, count_expr id ctx scopes e, count_mapEntries id ctx scopes es]

theorem count_expr? (id : ExprId) (ctx : Context) (scopes : List Layer) :
    ∀ e?, (recorded (expr? ctx scopes e?)).count id ≤ (numbers (optionalMarks e?)).count id
  | none => Nat.le_refl _
  | some e => count_expr id ctx scopes e

theorem count_function (id : ExprId) (ctx : Context) (scopes : List Layer)
    (kind : FunctionContext) :
    ∀ decl, (recorded (function ctx scopes kind decl)).count id ≤
      (numbers (functionMarks decl)).count id
  | .mk _ params body _ => by
    grind [function, count_stmts id { ctx with function := kind }
      (bindAll ([] :: scopes) params).1 body]

theorem count_methods (id : ExprId) (ctx : Context) (scopes : List Layer) :
    ∀ decls, (recorded (methods ctx scopes decls)).count id ≤
      (numbers (methodsMarks decls)).count id
  | [] => Nat.le_refl _
  | decl :: decls => by
    grind [methods, count_function id ctx scopes
      (if decl.name.lexeme == "init" then .initializer else .method) decl,
      count_methods id ctx scopes decls]

/-- A statement records a number at most as often as it has it. -/
theorem count_stmt (id : ExprId) (ctx : Context) (scopes : List Layer) :
    ∀ s, (recorded (stmt ctx scopes s).2).count id ≤ (numbers (stmtMarks s)).count id
  | .expression value | .print value | .throw _ value => count_expr id ctx scopes value
  | .var name init? => by
    grind [stmt, count_expr? id ctx (bind scopes name.lexeme false) init?]
  | .block body => count_stmts id ctx ([] :: scopes) body
  | .branch condition thenPart elsePart? => by
    grind [stmt, count_expr id ctx scopes condition, count_stmt id ctx scopes thenPart,
      count_stmt? id ctx (stmt ctx scopes thenPart).1 elsePart?]
  | .loop condition body => by
    grind [stmt, count_expr id ctx scopes condition, count_stmt id ctx scopes body]
  | .function decl => by
    grind [stmt, count_function id ctx (bind scopes decl.name.lexeme true) .function decl]
  | .ret _ value? => by grind [stmt, count_expr? id ctx scopes value?]
  | .classDecl name refs decls => by
    have hmethods := count_methods id
      { ctx with cls := if refs.isEmpty then .plain else .subclass }
      (classScopes (bind scopes name.lexeme true) refs) decls
    have hheads := count_superclasses id (bind scopes name.lexeme true) name refs
    simp only [stmt, stmtMarks, recorded_append, recorded_declareFindings, List.nil_append,
      numbers_append, numbers_name, numbers_refs, List.cons_append, List.count_append]
    exact Nat.add_le_add hheads hmethods
  | .importFrom _ items => by simp [stmt]
  | .exported inner => count_stmt id ctx scopes inner
  | .attempt body param? handler? cleanup? => by
    grind [stmt, count_stmts id ctx ([] :: scopes) body,
      count_stmts? id ctx (bindAll ([] :: scopes) param?.toList).1 handler?,
      count_stmts? id ctx ([] :: scopes) cleanup?]

theorem count_stmt? (id : ExprId) (ctx : Context) (scopes : List Layer) :
    ∀ s?, (recorded (stmt? ctx scopes s?).2).count id ≤ (numbers (elseMarks s?)).count id
  | none => Nat.le_refl _
  | some s => count_stmt id ctx scopes s

theorem count_stmts (id : ExprId) (ctx : Context) (scopes : List Layer) :
    ∀ ss, (recorded (stmts ctx scopes ss).2).count id ≤ (numbers (stmtsMarks ss)).count id
  | [] => Nat.le_refl _
  | s :: ss => by
    grind [stmts, count_stmt id ctx scopes s, count_stmts id ctx (stmt ctx scopes s).1 ss]

theorem count_stmts? (id : ExprId) (ctx : Context) (scopes : List Layer) :
    ∀ body?, (recorded (stmts? ctx scopes body?)).count id ≤
      (numbers (blockMarks body?)).count id
  | none => Nat.le_refl _
  | some body => count_stmts id ctx scopes body

end

/-- What is found in a program is recorded under numbers of its nodes, with errors or without. -/
theorem mem_nodes_of_recorded {program : List Stmt} {entry : ExprId × Nat}
    (h : entry ∈ (findings program).distances) : entry.1 ∈ ids (stmtsNodes program) := by
  have hpos : 0 < (recorded (findings program)).count entry.1 :=
    List.count_pos_iff.mpr (List.mem_map_of_mem h)
  exact List.count_pos_iff.mp (Nat.lt_of_lt_of_le hpos
    (Nat.le_trans (count_stmts entry.1 _ [] program) (count_stmtsMarks entry.1 program)))

/-! ## Tables of distances -/

/-- Distances by the number of the expression. The last one recorded for a number counts. -/
def distanceTable (distances : List (ExprId × Nat)) : Std.TreeMap ExprId Nat :=
  (∅ : Std.TreeMap ExprId Nat).insertMany distances

/-- The last entry that was inserted for a number stands in the table. -/
theorem getElem?_insertMany (table : Std.TreeMap ExprId Nat) (distances : List (ExprId × Nat))
    (id : ExprId) :
    (table.insertMany distances)[id]? = (distances.reverse.lookup id).or table[id]? := by
  induction distances generalizing table with
  | nil => rfl
  | cons entry distances ih =>
    obtain ⟨key, distance⟩ := entry
    rw [Std.TreeMap.insertMany_cons, ih, List.reverse_cons, List.lookup_append, Option.or_assoc,
      Std.TreeMap.getElem?_insert, List.lookup_cons]
    by_cases h : id = key
    · simp [h]
    · simp [beq_false_of_ne h, Ne.symm h]

/-- The last distance recorded for a number counts, as in the union of two tables the second. -/
theorem distanceTable_append (ds es : List (ExprId × Nat)) (id : ExprId) :
    (distanceTable (ds ++ es))[id]? = (distanceTable ds ∪ distanceTable es)[id]? := by
  rw [Std.TreeMap.getElem?_union]
  unfold distanceTable
  rw [Std.TreeMap.insertMany_append, getElem?_insertMany, getElem?_insertMany _ es,
    Std.TreeMap.getElem?_emptyc, Option.or_none]

end ScriptEngine.Scope
