import ScriptEngine.Proofs.Evaluator.Observer
import ScriptEngine.Proofs.Program.Relabeling

/-!
# Every part of a program

What runs, runs part by part, so a property of a program that matters when it runs is often one that
each of its parts has on its own: it is no import statement, or it looks up no number but those of a
given kind. `everyExpr` and `everyStmt` say that an expression or a statement has such a property in
all its parts, the bodies of functions included.

Such a property carries over to a relabeled program (`everyStmts_relabel`).
-/

namespace ScriptEngine

open Scope hiding bind

mutual

/-- Every part of an expression has a property, the expression included. -/
def everyExpr (P : Moment → Prop) : Expr → Prop
  | .constant id value => P (.evaluating (.constant id value))
  | .reference ref => P (.evaluating (.reference ref))
  | .assign id name value => P (.evaluating (.assign id name value)) ∧ everyExpr P value
  | .binary id left operator right =>
    P (.evaluating (.binary id left operator right)) ∧ everyExpr P left ∧ everyExpr P right
  | .logical id left operator right =>
    P (.evaluating (.logical id left operator right)) ∧ everyExpr P left ∧ everyExpr P right
  | .unary id operator operand =>
    P (.evaluating (.unary id operator operand)) ∧ everyExpr P operand
  | .grouping id inner => P (.evaluating (.grouping id inner)) ∧ everyExpr P inner
  | .call id callee paren arguments =>
    P (.evaluating (.call id callee paren arguments)) ∧ everyExpr P callee ∧
      everyExprs P arguments
  | .get id object name => P (.evaluating (.get id object name)) ∧ everyExpr P object
  | .set id object name value =>
    P (.evaluating (.set id object name value)) ∧ everyExpr P object ∧ everyExpr P value
  | .getItem id object bracket index =>
    P (.evaluating (.getItem id object bracket index)) ∧ everyExpr P object ∧ everyExpr P index
  | .setItem id object index equals value =>
    P (.evaluating (.setItem id object index equals value)) ∧ everyExpr P object ∧
      everyExpr P index ∧ everyExpr P value
  | .self id keyword => P (.evaluating (.self id keyword))
  | .super id keyword className method =>
    P (.evaluating (.super id keyword className method))
  | .array id elements => P (.evaluating (.array id elements)) ∧ everyExprs P elements
  | .map id entries => P (.evaluating (.map id entries)) ∧ everyEntry P entries
  | .lambda id decl => P (.evaluating (.lambda id decl)) ∧ everyDecl P decl

/-- Every part of some expressions has a property. -/
def everyExprs (P : Moment → Prop) : List Expr → Prop
  | [] => True
  | e :: es => everyExpr P e ∧ everyExprs P es

/-- Every part of the values of a map has a property. -/
def everyEntry (P : Moment → Prop) : List (Token × Expr) → Prop
  | [] => True
  | (_, e) :: es => everyExpr P e ∧ everyEntry P es

/-- Every part of an optional expression has a property. -/
def everyExpr? (P : Moment → Prop) : Option Expr → Prop
  | none => True
  | some e => everyExpr P e

/-- Every part of the body of a function has a property. -/
def everyDecl (P : Moment → Prop) : FunctionDecl → Prop
  | .mk _ _ body _ => everyStmts P body

/-- Every part of the bodies of some functions has a property. -/
def everyDecls (P : Moment → Prop) : List FunctionDecl → Prop
  | [] => True
  | d :: ds => everyDecl P d ∧ everyDecls P ds

/-- Every part of a statement has a property, the statement included. -/
def everyStmt (P : Moment → Prop) : Stmt → Prop
  | .expression value => P (.executing (.expression value)) ∧ everyExpr P value
  | .print value => P (.executing (.print value)) ∧ everyExpr P value
  | .var name init? => P (.executing (.var name init?)) ∧ everyExpr? P init?
  | .block body => P (.executing (.block body)) ∧ everyStmts P body
  | .branch condition thenPart elsePart? =>
    P (.executing (.branch condition thenPart elsePart?)) ∧ everyExpr P condition ∧
      everyStmt P thenPart ∧ everyStmt? P elsePart?
  | .loop condition body =>
    P (.executing (.loop condition body)) ∧ everyExpr P condition ∧ everyStmt P body
  | .function decl => P (.executing (.function decl)) ∧ everyDecl P decl
  | .ret keyword value? => P (.executing (.ret keyword value?)) ∧ everyExpr? P value?
  | .classDecl name superclasses methods =>
    P (.executing (.classDecl name superclasses methods)) ∧ everyDecls P methods
  | .importFrom path items => P (.executing (.importFrom path items))
  | .exported inner => P (.executing (.exported inner)) ∧ everyStmt P inner
  | .throw keyword value => P (.executing (.throw keyword value)) ∧ everyExpr P value
  | .attempt body param? handler? cleanup? =>
    P (.executing (.attempt body param? handler? cleanup?)) ∧ everyStmts P body ∧
      everyStmts? P handler? ∧ everyStmts? P cleanup?

/-- Every part of an optional statement has a property. -/
def everyStmt? (P : Moment → Prop) : Option Stmt → Prop
  | none => True
  | some s => everyStmt P s

/-- Every part of some statements has a property. -/
def everyStmts (P : Moment → Prop) : List Stmt → Prop
  | [] => True
  | s :: ss => everyStmt P s ∧ everyStmts P ss

/-- Every part of an optional list of statements has a property. -/
def everyStmts? (P : Moment → Prop) : Option (List Stmt) → Prop
  | none => True
  | some ss => everyStmts P ss

end

variable {P Q : Moment → Prop}

theorem everyDecl_body {d : FunctionDecl} : everyDecl P d ↔ everyStmts P d.body := by
  cases d
  exact Iff.rfl

/-- An expression has the property of all its parts. -/
theorem everyExpr.self {e : Expr} (h : everyExpr P e) : P (.evaluating e) := by
  cases e with
  | constant id value => exact h
  | reference ref => exact h
  | self id keyword => exact h
  | super id keyword className method => exact h
  | _ => exact h.1

/-- A statement has the property of all its parts. -/
theorem everyStmt.self {s : Stmt} (h : everyStmt P s) : P (.executing s) := by
  cases s with
  | importFrom path items => exact h
  | _ => exact h.1

/-! ## A property of everything -/

mutual

/-- What is true of everything is true of every part of an expression, by induction on the tree. -/
theorem everyExpr_of_forall (hP : ∀ moment, P moment) : ∀ e, everyExpr P e
  | .constant _ _ => hP _
  | .reference _ => hP _
  | .assign _ _ value => ⟨hP _, everyExpr_of_forall hP value⟩
  | .binary _ left _ right => ⟨hP _, everyExpr_of_forall hP left, everyExpr_of_forall hP right⟩
  | .logical _ left _ right => ⟨hP _, everyExpr_of_forall hP left, everyExpr_of_forall hP right⟩
  | .unary _ _ operand => ⟨hP _, everyExpr_of_forall hP operand⟩
  | .grouping _ inner => ⟨hP _, everyExpr_of_forall hP inner⟩
  | .call _ callee _ arguments =>
    ⟨hP _, everyExpr_of_forall hP callee, everyExprs_of_forall hP arguments⟩
  | .get _ object _ => ⟨hP _, everyExpr_of_forall hP object⟩
  | .set _ object _ value => ⟨hP _, everyExpr_of_forall hP object, everyExpr_of_forall hP value⟩
  | .getItem _ object _ index => ⟨hP _, everyExpr_of_forall hP object, everyExpr_of_forall hP index⟩
  | .setItem _ object index _ value =>
    ⟨hP _, everyExpr_of_forall hP object, everyExpr_of_forall hP index,
      everyExpr_of_forall hP value⟩
  | .self _ _ => hP _
  | .super _ _ _ _ => hP _
  | .array _ elements => ⟨hP _, everyExprs_of_forall hP elements⟩
  | .map _ entries => ⟨hP _, everyEntry_of_forall hP entries⟩
  | .lambda _ decl => ⟨hP _, everyDecl_of_forall hP decl⟩

theorem everyExprs_of_forall (hP : ∀ moment, P moment) : ∀ es, everyExprs P es
  | [] => trivial
  | e :: es => ⟨everyExpr_of_forall hP e, everyExprs_of_forall hP es⟩

theorem everyEntry_of_forall (hP : ∀ moment, P moment) : ∀ es, everyEntry P es
  | [] => trivial
  | (_, e) :: es => ⟨everyExpr_of_forall hP e, everyEntry_of_forall hP es⟩

theorem everyExpr?_of_forall (hP : ∀ moment, P moment) : ∀ e?, everyExpr? P e?
  | none => trivial
  | some e => everyExpr_of_forall hP e

/-- And of every part of a declaration. -/
theorem everyDecl_of_forall (hP : ∀ moment, P moment) : ∀ d, everyDecl P d
  | .mk _ _ body _ => everyStmts_of_forall hP body

theorem everyDecls_of_forall (hP : ∀ moment, P moment) : ∀ ds, everyDecls P ds
  | [] => trivial
  | d :: ds => ⟨everyDecl_of_forall hP d, everyDecls_of_forall hP ds⟩

theorem everyStmt_of_forall (hP : ∀ moment, P moment) : ∀ s, everyStmt P s
  | .expression value => ⟨hP _, everyExpr_of_forall hP value⟩
  | .print value => ⟨hP _, everyExpr_of_forall hP value⟩
  | .var _ init? => ⟨hP _, everyExpr?_of_forall hP init?⟩
  | .block body => ⟨hP _, everyStmts_of_forall hP body⟩
  | .branch condition thenPart elsePart? =>
    ⟨hP _, everyExpr_of_forall hP condition, everyStmt_of_forall hP thenPart,
      everyStmt?_of_forall hP elsePart?⟩
  | .loop condition body => ⟨hP _, everyExpr_of_forall hP condition, everyStmt_of_forall hP body⟩
  | .function decl => ⟨hP _, everyDecl_of_forall hP decl⟩
  | .ret _ value? => ⟨hP _, everyExpr?_of_forall hP value?⟩
  | .classDecl _ _ methods => ⟨hP _, everyDecls_of_forall hP methods⟩
  | .importFrom _ _ => hP _
  | .exported inner => ⟨hP _, everyStmt_of_forall hP inner⟩
  | .throw _ value => ⟨hP _, everyExpr_of_forall hP value⟩
  | .attempt body _ handler? cleanup? =>
    ⟨hP _, everyStmts_of_forall hP body, everyStmts?_of_forall hP handler?,
      everyStmts?_of_forall hP cleanup?⟩

theorem everyStmt?_of_forall (hP : ∀ moment, P moment) : ∀ s?, everyStmt? P s?
  | none => trivial
  | some s => everyStmt_of_forall hP s

theorem everyStmts_of_forall (hP : ∀ moment, P moment) : ∀ ss, everyStmts P ss
  | [] => trivial
  | s :: ss => ⟨everyStmt_of_forall hP s, everyStmts_of_forall hP ss⟩

theorem everyStmts?_of_forall (hP : ∀ moment, P moment) : ∀ ss?, everyStmts? P ss?
  | none => trivial
  | some ss => everyStmts_of_forall hP ss

end

/-! ## From one property to another -/

section

variable {K : ExprId → Prop}

/-- From a property of a moment, and from the kind of the numbers that it looks up, another property
follows. -/
def Entails (K : ExprId → Prop) (P Q : Moment → Prop) : Prop :=
  ∀ moment, P moment → (∀ l ∈ moment.lookups, K l.id) → Q moment

/-- A part that looks up no name needs nothing to be known of numbers. -/
theorem Entails.of_nil (hQ : Entails K P Q) {moment : Moment} (h : P moment)
    (hnone : moment.lookups = []) : Q moment :=
  hQ moment h fun l hl => by
    rw [hnone] at hl
    cases hl

mutual

/-- If every part has a property and the numbers that are looked up are of a kind, then every part
has what follows from both. -/
theorem everyExpr_imp (hQ : Entails K P Q) :
    ∀ e, everyExpr P e →
      (∀ id, .number id ∈ exprMarks e → K id) → everyExpr Q e
  | .constant _ _, h, _ => hQ.of_nil h rfl
  | .reference ref, h, hK => hQ _ h fun l hl => by
    rw [List.mem_singleton.mp hl]
    exact hK ref.id List.mem_cons_self
  | .assign id name value, h, hK => by
    simp only [exprMarks, List.mem_append, or_imp, forall_and] at hK
    refine ⟨hQ _ h.1 fun l hl => ?_, everyExpr_imp hQ value h.2 hK.1⟩
    rw [List.mem_singleton.mp hl]
    exact hK.2 id List.mem_cons_self
  | .binary _ left _ right, h, hK => by
    simp only [exprMarks, List.mem_append, or_imp, forall_and] at hK
    exact ⟨hQ.of_nil h.1 rfl, everyExpr_imp hQ left h.2.1 hK.1,
      everyExpr_imp hQ right h.2.2 hK.2⟩
  | .logical _ left _ right, h, hK => by
    simp only [exprMarks, List.mem_append, or_imp, forall_and] at hK
    exact ⟨hQ.of_nil h.1 rfl, everyExpr_imp hQ left h.2.1 hK.1,
      everyExpr_imp hQ right h.2.2 hK.2⟩
  | .unary _ _ operand, h, hK =>
    ⟨hQ.of_nil h.1 rfl, everyExpr_imp hQ operand h.2 hK⟩
  | .grouping _ inner, h, hK =>
    ⟨hQ.of_nil h.1 rfl, everyExpr_imp hQ inner h.2 hK⟩
  | .call _ callee _ arguments, h, hK => by
    simp only [exprMarks, List.mem_append, or_imp, forall_and] at hK
    exact ⟨hQ.of_nil h.1 rfl, everyExpr_imp hQ callee h.2.1 hK.1,
      everyExprs_imp hQ arguments h.2.2 hK.2⟩
  | .get _ object _, h, hK =>
    ⟨hQ.of_nil h.1 rfl, everyExpr_imp hQ object h.2 hK⟩
  | .set _ object _ value, h, hK => by
    simp only [exprMarks, List.mem_append, or_imp, forall_and] at hK
    exact ⟨hQ.of_nil h.1 rfl, everyExpr_imp hQ object h.2.1 hK.2,
      everyExpr_imp hQ value h.2.2 hK.1⟩
  | .getItem _ object _ index, h, hK => by
    simp only [exprMarks, List.mem_append, or_imp, forall_and] at hK
    exact ⟨hQ.of_nil h.1 rfl, everyExpr_imp hQ object h.2.1 hK.1,
      everyExpr_imp hQ index h.2.2 hK.2⟩
  | .setItem _ object index _ value, h, hK => by
    simp only [exprMarks, List.mem_append, or_imp, forall_and] at hK
    exact ⟨hQ.of_nil h.1 rfl, everyExpr_imp hQ object h.2.1 hK.1.1,
      everyExpr_imp hQ index h.2.2.1 hK.1.2, everyExpr_imp hQ value h.2.2.2 hK.2⟩
  | .self id _, h, hK => hQ _ h fun l hl => by
    rw [List.mem_singleton.mp hl]
    exact hK id List.mem_cons_self
  | .super id _ _ _, h, hK => hQ _ h fun l hl => by
    rw [List.mem_singleton.mp hl]
    exact hK id List.mem_cons_self
  | .array _ elements, h, hK =>
    ⟨hQ.of_nil h.1 rfl, everyExprs_imp hQ elements h.2 hK⟩
  | .map _ entries, h, hK =>
    ⟨hQ.of_nil h.1 rfl, everyEntry_imp hQ entries h.2 hK⟩
  | .lambda _ decl, h, hK =>
    ⟨hQ.of_nil h.1 rfl, everyDecl_imp hQ decl h.2 hK⟩

/-- A property of the parts of expressions that entails another under known numbers gives that one,
if the numbers in them are known. -/
theorem everyExprs_imp (hQ : Entails K P Q) :
    ∀ es, everyExprs P es →
      (∀ id, .number id ∈ exprsMarks es → K id) → everyExprs Q es
  | [], _, _ => trivial
  | e :: es, h, hK => by
    simp only [exprsMarks, List.mem_append, or_imp, forall_and] at hK
    exact ⟨everyExpr_imp hQ e h.1 hK.1, everyExprs_imp hQ es h.2 hK.2⟩

theorem everyEntry_imp (hQ : Entails K P Q) :
    ∀ es, everyEntry P es →
      (∀ id, .number id ∈ entriesMarks es → K id) → everyEntry Q es
  | [], _, _ => trivial
  | (_, e) :: es, h, hK => by
    simp only [entriesMarks, List.mem_append, or_imp, forall_and] at hK
    exact ⟨everyExpr_imp hQ e h.1 hK.1, everyEntry_imp hQ es h.2 hK.2⟩

theorem everyExpr?_imp (hQ : Entails K P Q) :
    ∀ e?, everyExpr? P e? →
      (∀ id, .number id ∈ optionalMarks e? → K id) → everyExpr? Q e?
  | none, _, _ => trivial
  | some e, h, hK => everyExpr_imp hQ e h hK

theorem everyDecl_imp (hQ : Entails K P Q) :
    ∀ d, everyDecl P d →
      (∀ id, .number id ∈ functionMarks d → K id) → everyDecl Q d
  | .mk _ _ body _, h, hK =>
    everyStmts_imp hQ body h fun id hid => hK id (List.mem_append_right _ hid)

theorem everyDecls_imp (hQ : Entails K P Q) :
    ∀ ds, everyDecls P ds →
      (∀ id, .number id ∈ methodsMarks ds → K id) → everyDecls Q ds
  | [], _, _ => trivial
  | d :: ds, h, hK => by
    simp only [methodsMarks, List.mem_append, or_imp, forall_and] at hK
    exact ⟨everyDecl_imp hQ d h.1 hK.1, everyDecls_imp hQ ds h.2 hK.2⟩

theorem everyStmt_imp (hQ : Entails K P Q) :
    ∀ s, everyStmt P s →
      (∀ id, .number id ∈ stmtMarks s → K id) → everyStmt Q s
  | .expression value, h, hK =>
    ⟨hQ.of_nil h.1 rfl, everyExpr_imp hQ value h.2 hK⟩
  | .print value, h, hK => ⟨hQ.of_nil h.1 rfl, everyExpr_imp hQ value h.2 hK⟩
  | .var _ init?, h, hK =>
    ⟨hQ.of_nil h.1 rfl,
      everyExpr?_imp hQ init? h.2 fun id hid => hK id (List.mem_cons_of_mem _ hid)⟩
  | .block body, h, hK => ⟨hQ.of_nil h.1 rfl, everyStmts_imp hQ body h.2 hK⟩
  | .branch condition thenPart elsePart?, h, hK => by
    simp only [stmtMarks, List.mem_append, List.mem_cons, or_imp, forall_and] at hK
    exact ⟨hQ.of_nil h.1 rfl, everyExpr_imp hQ condition h.2.1 hK.1.1,
      everyStmt_imp hQ thenPart h.2.2.1 hK.1.2.2, everyStmt?_imp hQ elsePart? h.2.2.2 hK.2⟩
  | .loop condition body, h, hK => by
    simp only [stmtMarks, List.mem_append, List.mem_cons, or_imp, forall_and] at hK
    exact ⟨hQ.of_nil h.1 rfl, everyExpr_imp hQ condition h.2.1 hK.1,
      everyStmt_imp hQ body h.2.2 hK.2.2⟩
  | .function decl, h, hK =>
    ⟨hQ.of_nil h.1 rfl,
      everyDecl_imp hQ decl h.2 fun id hid => hK id (List.mem_cons_of_mem _ hid)⟩
  | .ret _ value?, h, hK => ⟨hQ.of_nil h.1 rfl, everyExpr?_imp hQ value? h.2 hK⟩
  | .classDecl name refs decls, h, hK => by
    simp only [stmtMarks, List.cons_append, List.mem_append, List.mem_cons, or_imp, forall_and]
      at hK
    refine ⟨hQ _ h.1 fun l hl => ?_, everyDecls_imp hQ decls h.2 hK.2.2⟩
    obtain ⟨ref, href, rfl⟩ := List.mem_map.mp hl
    exact hK.2.1 ref.id (List.mem_map.mpr ⟨ref, href, rfl⟩)
  | .importFrom _ _, h, _ => hQ.of_nil h rfl
  | .exported inner, h, hK => ⟨hQ.of_nil h.1 rfl, everyStmt_imp hQ inner h.2 hK⟩
  | .throw _ value, h, hK => ⟨hQ.of_nil h.1 rfl, everyExpr_imp hQ value h.2 hK⟩
  | .attempt body param? handler? cleanup?, h, hK => by
    simp only [stmtMarks, List.mem_append, or_imp, forall_and] at hK
    exact ⟨hQ.of_nil h.1 rfl, everyStmts_imp hQ body h.2.1 hK.1.1.2,
      everyStmts?_imp hQ handler? h.2.2.1 hK.1.2, everyStmts?_imp hQ cleanup? h.2.2.2 hK.2⟩

theorem everyStmt?_imp (hQ : Entails K P Q) :
    ∀ s?, everyStmt? P s? →
      (∀ id, .number id ∈ elseMarks s? → K id) → everyStmt? Q s?
  | none, _, _ => trivial
  | some s, h, hK => everyStmt_imp hQ s h fun id hid => hK id (List.mem_cons_of_mem _ hid)

theorem everyStmts_imp (hQ : Entails K P Q) :
    ∀ ss, everyStmts P ss →
      (∀ id, .number id ∈ stmtsMarks ss → K id) → everyStmts Q ss
  | [], _, _ => trivial
  | s :: ss, h, hK => by
    simp only [stmtsMarks, List.mem_append, or_imp, forall_and] at hK
    exact ⟨everyStmt_imp hQ s h.1 hK.1, everyStmts_imp hQ ss h.2 hK.2⟩

theorem everyStmts?_imp (hQ : Entails K P Q) :
    ∀ ss?, everyStmts? P ss? →
      (∀ id, .number id ∈ blockMarks ss? → K id) → everyStmts? Q ss?
  | none, _, _ => trivial
  | some ss, h, hK => everyStmts_imp hQ ss h hK

end

end

/-- A property of every part of a declaration may be weakened. -/
theorem everyDecl.mono (hPQ : ∀ moment, P moment → Q moment) {d : FunctionDecl}
    (h : everyDecl P d) : everyDecl Q d :=
  have hQ : Entails (fun _ => True) P Q := fun moment hm _ => hPQ moment hm
  everyDecl_imp hQ d h fun _ _ => trivial

/-! ## Relabeled programs -/

/-- A moment with its new lines and numbers. -/
def Relabeling.moment (r : Relabeling) : Moment → Moment
  | .evaluating e => .evaluating (r.expr e)
  | .executing s => .executing (r.stmt s)

section

variable {r : Relabeling}

mutual

/-- If a property of a moment leads to another one of the relabeled moment, then so it is with the
parts of a program. -/
theorem everyExpr_relabel (hr : ∀ moment, P moment → Q (r.moment moment)) :
    ∀ e, everyExpr P e → everyExpr Q (r.expr e)
  | .constant _ _, h => hr _ h
  | .reference _, h => hr _ h
  | .assign _ _ value, h => ⟨hr _ h.1, everyExpr_relabel hr value h.2⟩
  | .binary _ left _ right, h =>
    ⟨hr _ h.1, everyExpr_relabel hr left h.2.1, everyExpr_relabel hr right h.2.2⟩
  | .logical _ left _ right, h =>
    ⟨hr _ h.1, everyExpr_relabel hr left h.2.1, everyExpr_relabel hr right h.2.2⟩
  | .unary _ _ operand, h => ⟨hr _ h.1, everyExpr_relabel hr operand h.2⟩
  | .grouping _ inner, h => ⟨hr _ h.1, everyExpr_relabel hr inner h.2⟩
  | .call _ callee _ arguments, h =>
    ⟨hr _ h.1, everyExpr_relabel hr callee h.2.1, everyExprs_relabel hr arguments h.2.2⟩
  | .get _ object _, h => ⟨hr _ h.1, everyExpr_relabel hr object h.2⟩
  | .set _ object _ value, h =>
    ⟨hr _ h.1, everyExpr_relabel hr object h.2.1, everyExpr_relabel hr value h.2.2⟩
  | .getItem _ object _ index, h =>
    ⟨hr _ h.1, everyExpr_relabel hr object h.2.1, everyExpr_relabel hr index h.2.2⟩
  | .setItem _ object index _ value, h =>
    ⟨hr _ h.1, everyExpr_relabel hr object h.2.1, everyExpr_relabel hr index h.2.2.1,
      everyExpr_relabel hr value h.2.2.2⟩
  | .self _ _, h => hr _ h
  | .super _ _ _ _, h => hr _ h
  | .array _ elements, h => ⟨hr _ h.1, everyExprs_relabel hr elements h.2⟩
  | .map _ entries, h => ⟨hr _ h.1, everyEntry_relabel hr entries h.2⟩
  | .lambda _ decl, h => ⟨hr _ h.1, everyDecl_relabel hr decl h.2⟩

/-- What is true of the parts of expressions is true, relabeled, of the parts of the relabeled
ones. -/
theorem everyExprs_relabel (hr : ∀ moment, P moment → Q (r.moment moment)) :
    ∀ es, everyExprs P es → everyExprs Q (r.exprs es)
  | [], _ => trivial
  | e :: es, h => ⟨everyExpr_relabel hr e h.1, everyExprs_relabel hr es h.2⟩

theorem everyEntry_relabel (hr : ∀ moment, P moment → Q (r.moment moment)) :
    ∀ es, everyEntry P es → everyEntry Q (r.entries es)
  | [], _ => trivial
  | (_, e) :: es, h => ⟨everyExpr_relabel hr e h.1, everyEntry_relabel hr es h.2⟩

theorem everyExpr?_relabel (hr : ∀ moment, P moment → Q (r.moment moment)) :
    ∀ e?, everyExpr? P e? → everyExpr? Q (r.expr? e?)
  | none, _ => trivial
  | some e, h => everyExpr_relabel hr e h

theorem everyDecl_relabel (hr : ∀ moment, P moment → Q (r.moment moment)) :
    ∀ d, everyDecl P d → everyDecl Q (r.decl d)
  | .mk _ _ body _, h => everyStmts_relabel hr body h

theorem everyDecls_relabel (hr : ∀ moment, P moment → Q (r.moment moment)) :
    ∀ ds, everyDecls P ds → everyDecls Q (r.decls ds)
  | [], _ => trivial
  | d :: ds, h => ⟨everyDecl_relabel hr d h.1, everyDecls_relabel hr ds h.2⟩

theorem everyStmt_relabel (hr : ∀ moment, P moment → Q (r.moment moment)) :
    ∀ s, everyStmt P s → everyStmt Q (r.stmt s)
  | .expression value, h => ⟨hr _ h.1, everyExpr_relabel hr value h.2⟩
  | .print value, h => ⟨hr _ h.1, everyExpr_relabel hr value h.2⟩
  | .var _ init?, h => ⟨hr _ h.1, everyExpr?_relabel hr init? h.2⟩
  | .block body, h => ⟨hr _ h.1, everyStmts_relabel hr body h.2⟩
  | .branch condition thenPart elsePart?, h =>
    ⟨hr _ h.1, everyExpr_relabel hr condition h.2.1, everyStmt_relabel hr thenPart h.2.2.1,
      everyStmt?_relabel hr elsePart? h.2.2.2⟩
  | .loop condition body, h =>
    ⟨hr _ h.1, everyExpr_relabel hr condition h.2.1, everyStmt_relabel hr body h.2.2⟩
  | .function decl, h => ⟨hr _ h.1, everyDecl_relabel hr decl h.2⟩
  | .ret _ value?, h => ⟨hr _ h.1, everyExpr?_relabel hr value? h.2⟩
  | .classDecl _ _ methods, h => ⟨hr _ h.1, everyDecls_relabel hr methods h.2⟩
  | .importFrom _ _, h => hr _ h
  | .exported inner, h => ⟨hr _ h.1, everyStmt_relabel hr inner h.2⟩
  | .throw _ value, h => ⟨hr _ h.1, everyExpr_relabel hr value h.2⟩
  | .attempt body _ handler? cleanup?, h =>
    ⟨hr _ h.1, everyStmts_relabel hr body h.2.1, everyStmts?_relabel hr handler? h.2.2.1,
      everyStmts?_relabel hr cleanup? h.2.2.2⟩

theorem everyStmt?_relabel (hr : ∀ moment, P moment → Q (r.moment moment)) :
    ∀ s?, everyStmt? P s? → everyStmt? Q (r.stmt? s?)
  | none, _ => trivial
  | some s, h => everyStmt_relabel hr s h

theorem everyStmts_relabel (hr : ∀ moment, P moment → Q (r.moment moment)) :
    ∀ ss, everyStmts P ss → everyStmts Q (r.stmts ss)
  | [], _ => trivial
  | s :: ss, h => ⟨everyStmt_relabel hr s h.1, everyStmts_relabel hr ss h.2⟩

theorem everyStmts?_relabel (hr : ∀ moment, P moment → Q (r.moment moment)) :
    ∀ ss?, everyStmts? P ss? → everyStmts? Q (r.stmts? ss?)
  | none, _ => trivial
  | some ss, h => everyStmts_relabel hr ss h

end

end

end ScriptEngine
