import ScriptEngine.Proofs.Evaluator.TwinModules

/-!
# Statements in two runs

Twins that execute the same statement end in the same way and as twins, and so at every depth: this
is proved once for a step of execution, given evaluators for the parts, and then by induction for
whole runs (`alike_evaluatorUnder`). Runs may be watched, provided that the two observers break off
twins at the same moments.
-/

namespace ScriptEngine

open Run

variable {σ : Setting} {m n : Machine} {ev ev' : Evaluator}

/-- A returned value that is no import reference stays so in a machine that has grown. -/
theorem Setting.FlowPlain.mono {m m' : Machine} {flow : Flow} (h : σ.FlowPlain m flow)
    (hg : m.Grown m') : σ.FlowPlain m' flow := by
  cases flow with
  | normal => trivial
  | returned v => exact Setting.Plain.mono h hg

namespace Evaluator

/-! ## Loops and try statements -/

/-- A loop ends in the same way in both runs, after the same number of rounds. -/
theorem meets_loopUpTo (hev : ev.Alike σ ev') {condition : Expr} {body : Stmt}
    (hcondition : everyExpr σ.part condition) (hbody : everyStmt σ.part body) (rounds : Nat) :
    ∀ {m n : Machine}, Twins σ m n →
      Meets σ m n (ev.loopUpTo condition body rounds)
        (ev'.loopUpTo (σ.relabel.expr condition) (σ.relabel.stmt body) rounds) σ.relabel.flow
        fun m' flow => σ.FlowPlain m' flow := by
  induction rounds with
  | zero => exact fun h => meets_throw h (show Halt.Fits _ .exhausted from trivial)
  | succ rounds ih =>
    intro m n h
    rw [loopUpTo_succ, loopUpTo_succ]
    refine meets_bind (meets_value hev h hcondition) fun m₁ n₁ c h₁ _ _ => ?_
    rw [Relabeling.value_isTruthy]
    cases c.isTruthy with
    | false => exact meets_pure h₁ rfl trivial
    | true =>
      refine meets_bind (hev.execute h₁ hbody) fun m₂ n₂ flow h₂ _ hflow => ?_
      cases flow with
      | normal => exact ih h₂
      | returned v => exact meets_pure h₂ rfl hflow.flow

/-- A handler runs in a frame that binds the same error in both runs. -/
theorem meets_handle (hev : ev.Alike σ ev') (h : Twins σ m n) (param? : Option Token)
    {handler : List Stmt} (hhandler : everyStmts σ.part handler) {error : ErrorId}
    (herror : error < m.store.heap.errors.size) :
    Meets σ m n (ev.handle param? handler error)
      (ev'.handle (param?.map σ.relabel.token) (handler.map σ.relabel.stmt) error) σ.relabel.flow
      fun m' flow => σ.FlowPlain m' flow := by
  have hbindings : (param?.map σ.relabel.token).toList.map
      (fun p => (p.lexeme, Value.datum (.error error))) =
      (param?.toList.map fun p => (p.lexeme, Value.datum (.error error))).map
        σ.relabel.binding := by
    cases param? <;> rfl
  unfold handle
  dsimp only
  rw [hbindings]
  refine meets_bind (meets_childFrame h fun b hb => ?_) fun m₁ n₁ frame h₁ _ hframe =>
    meets_runIn hev h₁ hhandler hframe.2
  obtain ⟨p, -, rfl⟩ := List.mem_map.mp hb
  exact herror

/-- A body and its handler end in the same way in both runs. -/
theorem meets_runGuarded (hev : ev.Alike σ ev') (h : Twins σ m n) {body : List Stmt}
    (hbody : everyStmts σ.part body) (param? : Option Token) {handler? : Option (List Stmt)}
    (hhandler : everyStmts? σ.part handler?) :
    Meets σ m n (ev.runGuarded body param? handler?)
      (ev'.runGuarded (body.map σ.relabel.stmt) (param?.map σ.relabel.token)
        (handler?.map (·.map σ.relabel.stmt))) σ.relabel.flow
      fun m' flow => σ.FlowPlain m' flow := by
  rw [runGuarded_eq, runGuarded_eq]
  refine meets_either (meets_runBlock hev h hbody) (fun m₁ n₁ flow h₁ _ hflow =>
    meets_pure h₁ rfl hflow) fun m₁ n₁ halt h₁ _ hfits => ?_
  cases halt with
  | thrown error =>
    cases handler? with
    | some handler => exact meets_handle hev h₁ param? hhandler hfits
    | none => exact meets_throw h₁ hfits
  | failed e => exact meets_throw h₁ hfits
  | exhausted => exact meets_throw h₁ hfits

/-- What stands behind `finally` runs in both machines however the rest ended, and decides alike. -/
theorem meets_cleaningUp (hev : ev.Alike σ ev') (h : Twins σ m n) {cleanup : List Stmt}
    (hcleanup : everyStmts σ.part cleanup) {outcome outcome' : Run Flow}
    (ho : ∀ m' n', Twins σ m' n' → m.Grown m' → Meets σ m' n' outcome outcome' σ.relabel.flow
      fun m' flow => σ.FlowPlain m' flow) :
    Meets σ m n (cleaningUp ev cleanup outcome)
      (cleaningUp ev' (cleanup.map σ.relabel.stmt) outcome') σ.relabel.flow
      fun m' flow => σ.FlowPlain m' flow := by
  refine meets_bind (meets_runBlock hev h hcleanup) fun m₁ n₁ flow h₁ hg₁ hflow => ?_
  cases flow with
  | normal => exact ho m₁ n₁ h₁ hg₁
  | returned v => exact meets_pure h₁ rfl hflow

/-- A try statement ends in the same way in both runs. -/
theorem meets_attempt (hev : ev.Alike σ ev') (h : Twins σ m n) {body : List Stmt}
    (hbody : everyStmts σ.part body) (param? : Option Token)
    {handler? cleanup? : Option (List Stmt)} (hhandler : everyStmts? σ.part handler?)
    (hcleanup : everyStmts? σ.part cleanup?) :
    Meets σ m n (ev.attempt body param? handler? cleanup?)
      (ev'.attempt (body.map σ.relabel.stmt) (param?.map σ.relabel.token)
        (handler?.map (·.map σ.relabel.stmt)) (cleanup?.map (·.map σ.relabel.stmt)))
      σ.relabel.flow fun m' flow => σ.FlowPlain m' flow := by
  have hguarded := meets_runGuarded hev h hbody param? hhandler
  cases cleanup? with
  | none => exact hguarded
  | some cleanup =>
    rw [Option.map_some, attempt_eq, attempt_eq]
    refine meets_either hguarded (fun m₁ n₁ flow h₁ _ hflow => ?_) fun m₁ n₁ halt h₁ _ hfits => ?_
    · exact meets_cleaningUp hev h₁ hcleanup fun m₂ n₂ h₂ hg₂ =>
        meets_pure h₂ rfl (hflow.mono hg₂)
    · have hclean := meets_cleaningUp hev h₁ hcleanup fun m₂ n₂ h₂ hg₂ =>
        meets_throw h₂ (hfits.mono hg₂.heap)
      cases halt with
      | exhausted => exact meets_throw h₁ hfits
      | failed e => exact hclean
      | thrown error => exact hclean

/-- A thrown value turns into the same error in both runs, or is refused in both. -/
theorem meets_thrownError (hev : ev.Alike σ ev') (h : Twins σ m n) (keyword : Token) {v : Value}
    (hv : σ.Plain m v) :
    Meets σ m n (ev.thrownError keyword v)
      (ev'.thrownError (σ.relabel.token keyword) (σ.relabel.value v)) (fun id => id)
      fun m' id => id < m'.store.heap.errors.size := by
  cases v with
  | datum d =>
    cases d with
    | error id =>
      have htoken : ∀ cell : ErrorCell, cell.token?.isSome = true →
          ({ cell with token? := some keyword } : ErrorCell).token?.isSome = true := fun _ _ => rfl
      refine meets_bind (meets_modifyHeap h (Heap.grows_modifyError _ _ _ htoken)
        (h.tidy.heap.modifyError id htoken fun _ => rfl) rfl fun imports _ =>
          m.store.heap.modifyError_image imports id fun _ => rfl) fun m₁ n₁ _ h₁ hg₁ _ => ?_
      exact meets_pure h₁ rfl (Nat.lt_of_lt_of_le hv hg₁.heap.errors)
    | _ => exact meets_failAt h _ _
  | object id =>
    refine meets_heap ?_
    rw [h.object]
    show Meets σ m n (if ((m.store.heap.object id).native? .error).isSome = true then _ else _)
      (if ((m.store.heap.object id).native? .error).isSome = true then _ else _) _ _
    split
    · refine meets_bind (meets_callMethod hev h hv "getMessage" (fun v hv =>
        absurd hv List.not_mem_nil) keyword) fun m₁ n₁ message h₁ hg₁ hmessage => ?_
      refine meets_heap ?_
      -- Both runs say the same: neither the message nor the instance is an import reference.
      have htext := h₁.display hmessage
      have hself := h₁.display (hv.mono hg₁)
      dsimp only
      rw [htext, show n₁.store.heap.display (.object id) = _ from hself]
      refine (meets_onHeap h₁ (Heap.grows_newError _ _ _)
        (h₁.tidy.heap.newError (show Value.Fits _ _ (.string _) from trivial)) rfl (f := fun i => i)
        fun imports _ => m₁.store.heap.newError_image σ.relabel imports
          ⟨.string _, some keyword⟩).post ?_
      rintro m₂ n₂ id - - ⟨rfl, rfl⟩
      simp [Machine.withHeap, Heap.newError]
    · exact meets_failAt h _ _
  | _ => exact meets_failAt h _ _

/-- An optional expression comes to the same in both runs, and to no import reference. -/
theorem meets_optionalValue (hev : ev.Alike σ ev') (h : Twins σ m n) {e? : Option Expr}
    (he : everyExpr? σ.part e?) :
    Meets σ m n (ev.optionalValue e?) (ev'.optionalValue (e?.map σ.relabel.expr))
      σ.relabel.value fun m' v => σ.Plain m' v := by
  cases e? with
  | none => exact meets_pure h rfl trivial
  | some e => exact meets_value hev h he

/-! ## Exports -/

/-- A relabeled declaration declares the relabeled name. -/
theorem declaredName?_stmt (r : Relabeling) (s : Stmt) :
    declaredName? (r.stmt s) = (declaredName? s).map r.token := by
  cases s with
  | function d => exact congrArg some (r.decl_name d)
  | _ => rfl

/-- A name that the frame itself binds is looked up there. -/
theorem get_of_local? {fs : Frames} {f : FrameId} {name : Token} {v : Value}
    (h : fs.local? f name.lexeme = some v) : fs.get f name = .ok v := by
  have hbinds : fs.binds f name.lexeme = true := by
    rw [Frames.binds, h]
    rfl
  have hholder : fs.holder? f name.lexeme = some f := by
    rw [Frames.holder?, if_pos hbinds]
  rw [Frames.get, hholder, Option.bind_some, h]

/-- What is exported is what was declared, so it is no import reference. -/
theorem meets_exportDeclared (hev : ev.Alike σ ev') (h : Twins σ m n) {inner : Stmt}
    (hinner : everyStmt σ.part inner) :
    Meets σ m n (ev.exportDeclared inner) (ev'.exportDeclared (σ.relabel.stmt inner))
      σ.relabel.flow fun m' flow => σ.FlowPlain m' flow := by
  refine meets_bind (hev.execute h hinner) fun m₁ n₁ flow h₁ _ hdone => ?_
  refine meets_bind (meets_activeModule h₁) ?_
  rintro m₂ n₂ id h₂ - ⟨rfl, -⟩
  refine meets_get ?_
  rw [declaredName?_stmt]
  cases hname : declaredName? inner with
  | none => exact meets_pure h₂ rfl hdone.flow
  | some name =>
    dsimp only [Option.map_some]
    rw [h₂.trees.isImported, h₂.trees.exports]
    split
    · obtain ⟨v, hlocal, hnone⟩ := hdone.declared name hname
      have hplain : σ.Plain m₂ v := by
        rcases h₂.tidy.values _ _ _ hlocal with hp | hr
        · exact hp
        · rw [hr.1.isImported] at hnone
          cases hnone
      have hlocal' : n₂.frames.local? n₂.current (σ.relabel.token name).lexeme =
          some (σ.relabel.value v) := by
        rw [h₂.current, h₂.local?, Relabeling.token_lexeme, hlocal]
        rfl
      rw [get_of_local? hlocal, get_of_local? hlocal']
      obtain ⟨htwins, hg⟩ := h₂.withPlain (m₂.modules.node id).exports name.lexeme hplain
      refine meets_read (a := v) (b := σ.relabel.value v) rfl rfl ?_
      refine meets_bind (meets_modify htwins hg trivial :
        Meets σ m₂ n₂ _ _ (fun u => u) fun _ _ => True) fun m₃ n₃ _ h₃ hg₃ _ => ?_
      exact meets_pure h₃ rfl (hdone.flow.mono hg₃)
    · exact meets_pure h₂ rfl hdone.flow

/-! ## Statements -/

/-- A value that is no import reference is printed as the same line in both runs. -/
theorem meets_print_value (h : Twins σ m n) {v : Value} (hv : σ.Plain m v) :
    Meets σ m n (do print ((← heap).display v); pure .normal : Run Flow)
      (do print ((← heap).display (σ.relabel.value v)); pure .normal) σ.relabel.flow
      fun m' flow => σ.FlowPlain m' flow := by
  refine meets_heap ?_
  rw [h.display hv]
  exact meets_bind (meets_print h _) fun m₁ n₁ _ h₁ _ _ => meets_pure h₁ rfl trivial

/-- One step of execution: the parts of a statement are run by the two evaluators. -/
theorem meets_executeStep (hev : ev.Alike σ ev') (rounds : Nat) (h : Twins σ m n) {s : Stmt}
    (hs : everyStmt σ.part s)
    (hnames : ∀ path items, s = .importFrom path items → ∀ item ∈ items,
      σ.names m.current item.binding.lexeme) :
    Meets σ m n (ev.executeStep rounds s) (ev'.executeStep rounds (σ.relabel.stmt s))
      σ.relabel.flow (σ.Done s) := by
  have hdone : ∀ {x y : Run Flow}, declaredName? s = none →
      (Meets σ m n x y σ.relabel.flow fun m' flow => σ.FlowPlain m' flow) →
      Meets σ m n x y σ.relabel.flow (σ.Done s) := fun hnone hm => hm.post
    fun _ _ _ _ _ hp => ⟨hp, fun name hname => by rw [hnone] at hname; cases hname⟩
  cases s with
  | expression e =>
    refine hdone rfl (meets_bind (hev.evaluate h hs.2) fun m₁ n₁ _ h₁ _ _ => ?_)
    exact meets_pure h₁ rfl trivial
  | print e =>
    exact hdone rfl (meets_bind (meets_value hev h hs.2) fun m₁ n₁ v h₁ _ hv =>
      meets_print_value h₁ hv)
  | var name init? =>
    rw [Relabeling.stmt, Relabeling.expr?_eq_map]
    refine meets_bind (meets_optionalValue hev h hs.2) fun m₁ n₁ v h₁ _ hv => ?_
    refine meets_bind (meets_define h₁ name hv) fun m₂ n₂ _ h₂ _ hdef => ?_
    refine meets_pure h₂ rfl ⟨trivial, fun name' hname => ?_⟩
    cases hname
    exact hdef.2
  | block body =>
    rw [Relabeling.stmt, Relabeling.stmts_eq_map]
    exact hdone rfl (meets_runBlock hev h hs.2)
  | branch condition thenPart elsePart? =>
    refine hdone rfl (meets_bind (meets_value hev h hs.2.1) fun m₁ n₁ c h₁ _ _ => ?_)
    have hpart : ∀ {s : Stmt}, everyStmt σ.part s → Meets σ m₁ n₁ (ev.execute s)
        (ev'.execute (σ.relabel.stmt s)) σ.relabel.flow fun m' flow => σ.FlowPlain m' flow :=
      fun hs => (hev.execute h₁ hs).post fun _ _ _ _ _ hd => hd.flow
    rw [Relabeling.value_isTruthy]
    cases c.isTruthy with
    | true => exact hpart hs.2.2.1
    | false =>
      cases elsePart? with
      | none => exact meets_pure h₁ rfl trivial
      | some elsePart => exact hpart hs.2.2.2
  | loop condition body => exact hdone rfl (meets_loopUpTo hev hs.2.1 hs.2.2 rounds h)
  | function decl =>
    refine meets_bind (meets_closure h hs.2) fun m₁ n₁ f h₁ _ hf => ?_
    rw [Relabeling.decl_name]
    refine meets_bind (meets_define h₁ decl.name hf) fun m₂ n₂ _ h₂ _ hdef => ?_
    refine meets_pure h₂ rfl ⟨trivial, fun name hname => ?_⟩
    cases hname
    exact hdef.2
  | ret keyword value? =>
    rw [Relabeling.stmt, Relabeling.expr?_eq_map]
    exact hdone rfl (meets_bind (meets_optionalValue hev h hs.2) fun m₁ n₁ v h₁ _ hv =>
      meets_pure h₁ rfl hv)
  | classDecl name refs decls =>
    rw [Relabeling.stmt, Relabeling.decls_eq_map]
    have hrefs : ∀ ref ∈ refs, σ.known ref.id := fun ref href =>
      σ.looked _ hs.1 ⟨ref.id, ref.name.lexeme, .head name.lexeme⟩ (List.mem_map_of_mem href)
    refine meets_bind (meets_declareClass h name hrefs hs.2) fun m₁ n₁ _ h₁ _ hdef => ?_
    refine meets_pure h₁ rfl ⟨trivial, fun name' hname => ?_⟩
    cases hname
    exact hdef
  | importFrom path items =>
    obtain ⟨hσ, hall⟩ := σ.loads path items hs
    have hsame : σ.relabel.stmt (.importFrom path items) = .importFrom path items := by
      rw [σ.relabel_eq hσ, Relabeling.stmt_same]
    rw [hsame]
    refine hdone rfl (meets_bind (meets_importNames hσ hall hev h path (hnames path items rfl))
      fun m₁ n₁ _ h₁ _ _ => ?_)
    exact meets_pure h₁ rfl trivial
  | exported inner => exact hdone rfl (meets_exportDeclared hev h hs.2)
  | throw keyword e =>
    refine hdone rfl (meets_bind (meets_value hev h hs.2) fun m₁ n₁ v h₁ _ hv => ?_)
    exact meets_bind (meets_thrownError hev h₁ keyword hv) fun m₂ n₂ id h₂ _ hid =>
      meets_throw h₂ (show Halt.Fits _ (.thrown id) from hid)
  | attempt body param? handler? cleanup? =>
    rw [Relabeling.stmt, Relabeling.stmts_eq_map, Relabeling.stmts?_eq_map,
      Relabeling.stmts?_eq_map]
    exact hdone rfl (meets_attempt hev h hs.2.1 param? hs.2.2.1 hs.2.2.2)

end Evaluator

/-! ## Whole runs -/

/-- An import that may bind its names in the current frame. -/
def Setting.Allows (σ : Setting) (m : Machine) (moment : Moment) : Prop :=
  ∀ path items, moment = .executing (.importFrom path items) → ∀ item ∈ items,
    σ.names m.current item.binding.lexeme

/-- Two observers that do the same to twins: both keep quiet, which they do only if the moment is
allowed, or both break off and leave twins. -/
def Observer.Alike (σ : Setting) (o o' : Observer) : Prop :=
  ∀ {m n : Machine} {moment : Moment}, Twins σ m n → σ.part moment →
    (o moment m = none ∧ o' (σ.relabel.moment moment) n = none ∧ σ.Allows m moment) ∨
    ∃ m' n', o moment m = some m' ∧ o' (σ.relabel.moment moment) n = some n' ∧ Twins σ m' n' ∧
      m.Grown m'

variable {o o' : Observer}

/-- If both observers break the runs off at the same moments, watching twins leaves twins. -/
theorem meets_watch {α β : Type} {x : Run α} {y : Run β} {f : α → β} {P : Machine → α → Prop}
    (ho : o.Alike σ o') (h : Twins σ m n) {moment : Moment} (hp : σ.part moment)
    (hx : σ.Allows m moment → Meets σ m n x y f P) :
    Meets σ m n (o.watch moment x) (o'.watch (σ.relabel.moment moment) y) f P := by
  rcases ho h hp with ⟨hm, hn, hallows⟩ | ⟨m', n', hm, hn, ht, hg⟩
  · have := hx hallows
    unfold Meets Observer.watch at *
    rw [hm, hn]
    exact this
  · unfold Meets Observer.watch
    rw [hm, hn]
    exact ⟨n', rfl, ht, hg, trivial⟩

/-- At every depth, two runs of the same part of a program do the same. -/
theorem alike_evaluatorUnder (ho : o.Alike σ o') (depth : Nat) :
    (evaluatorUnder o depth).Alike σ (evaluatorUnder o' depth) := by
  induction depth with
  | zero =>
    refine ⟨fun {m n e} h he => ?_, fun {m n s} h hs => ?_⟩
    · show Meets σ m n (evaluateUnder o 0 e) (evaluateUnder o' 0 (σ.relabel.expr e)) _ _
      rw [evaluateUnder, evaluateUnder]
      exact meets_throw h (show Halt.Fits _ .exhausted from trivial)
    · show Meets σ m n (executeUnder o 0 s) (executeUnder o' 0 (σ.relabel.stmt s)) _ _
      rw [executeUnder, executeUnder]
      exact meets_throw h (show Halt.Fits _ .exhausted from trivial)
  | succ depth ih =>
    refine ⟨fun {m n e} h he => ?_, fun {m n s} h hs => ?_⟩
    · show Meets σ _ _ (evaluateUnder o (depth + 1) _) (evaluateUnder o' (depth + 1) _) _ _
      rw [evaluateUnder, evaluateUnder]
      exact meets_watch ho h (show σ.part (.evaluating e) from he.self) fun _ =>
        Evaluator.meets_evaluateStep ih h he
    · show Meets σ _ _ (executeUnder o (depth + 1) _) (executeUnder o' (depth + 1) _) _ _
      rw [executeUnder, executeUnder]
      exact meets_watch ho h (show σ.part (.executing s) from hs.self) fun hallows =>
        Evaluator.meets_executeStep ih depth h hs fun path items heq =>
          hallows path items (congrArg Moment.executing heq)

end ScriptEngine
