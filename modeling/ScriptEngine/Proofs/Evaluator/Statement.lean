import ScriptEngine.Proofs.Evaluator.Expression
import ScriptEngine.Proofs.Evaluator.Loading

/-!
# Statements at run time

One lemma for each construct, and `tracks_executeStep` for all of them. A declaration leaves the
name bound in the current frame, so the statements behind it are ready under the scope that has
grown; a statement that runs on a condition declares nothing, so it does not matter whether it has
run. From the two steps, one induction on the depth gives the whole evaluator under an observer:
at every moment the part of the program that is about to run is ready, and so its names are
located.
-/

namespace ScriptEngine

open Scope hiding bind

section

variable {settled : Nat} {w w' : World} {m m' : Machine} {home : ModuleId} {stack : Stack}
  {uses : List Use} {marks : List Mark} {ev : Observer → Evaluator}

/-- A statement that adds nothing to its scope ends as its parts do. -/
theorem Ends.of_flow {s : Stmt} {flow : Flow} (hr : Ready settled w m home stack uses marks)
    (ha : Advances settled m.SamePlace w m w' m') (hflow : FlowOk w' m' flow)
    (hadded : added s = []) : Ends home stack s w' m' flow := by
  cases flow with
  | normal =>
    show Chain w' m' home m'.current (stack.extend (added s))
    rw [hadded, Stack.extend_nil]
    exact (hr.after ha).chain
  | returned v => exact hflow

/-- However a statement ends, its end is sound. -/
theorem Ends.flow {s : Stmt} {flow : Flow} (h : Ends home stack s w m flow) : FlowOk w m flow := by
  cases flow with
  | normal => trivial
  | returned v => exact h

/-! ## Loops -/

/-- Every round of a loop begins as the first one did. -/
theorem tracks_loopUpTo (h : Evaluator.Tracks ev) {condition : Expr} {body : Stmt}
    (rounds : Nat) :
    ∀ {w : World} {m : Machine},
      Ready settled w m home stack (exprUses stack condition ++ stmtUses stack body)
        (exprMarks condition ++ .body body :: stmtMarks body) →
      Tracks settled w m (fun o => (ev o).loopUpTo condition body rounds) FlowOk := by
  induction rounds with
  | zero => exact fun hr => tracks_throw hr.sound trivial
  | succ rounds ih =>
    intro w m hr
    simp only [loopUpTo_succ]
    refine tracks_bind (tracks_value h hr.left) fun w₁ m₁ c h₁ _ => ?_
    have hr₁ := hr.after h₁
    cases c.isTruthy with
    | false => exact tracks_pure h₁.sound trivial
    | true =>
      refine tracks_bind (h.execute (hr₁.right.part (List.Subset.refl _)
        (List.subset_cons_self _ _))) fun w₂ m₂ flow h₂ hflow => ?_
      cases flow with
      -- The body is a mark of its own kind: it adds nothing, so the next round has the same scopes.
      | normal => exact ih (hr₁.after h₂)
      | returned v => exact tracks_pure h₂.sound hflow

/-! ## Try statements -/

/-- An error that has a place is there. -/
theorem error_lt {h : Heap} {id : ErrorId} (ht : (h.error id).token?.isSome = true) :
    id < h.errors.size := by
  refine Nat.lt_of_not_le fun hle => ?_
  rw [Heap.error, Array.getD_eq_getD_getElem?, Array.getElem?_eq_none hle] at ht
  exact absurd ht (by simp [default])

/-- The handler of an error can be followed. -/
theorem tracks_handle (h : Evaluator.Tracks ev) {param? : Option Token} {handler : List Stmt}
    (hr : Ready settled w m home stack (handlerUses stack param? (some handler))
      (stmtsMarks handler))
    (hparam : ∀ p ∈ param?, Plain p.lexeme) {error : ErrorId}
    (herror : error < m.store.heap.errors.size) :
    Tracks settled w m (fun o => (ev o).handle param? handler error) FlowOk := by
  refine tracks_runChild h (.handler param? handler) rfl
    (plain_readyNames fun p hp => hparam p (by simpa using hp)) hr (fun b hb => ?_)
    fun entry hentry => ?_
  · obtain ⟨p, -, rfl⟩ := List.mem_map.mp hb
    exact herror
  · obtain ⟨p, hp, rfl⟩ := mem_readyNames hentry
    rw [List.map_map]
    exact List.mem_map_of_mem hp

/-- A guarded block can be followed, also where its handler takes over. -/
theorem tracks_runGuarded (h : Evaluator.Tracks ev) {body : List Stmt} {param? : Option Token}
    {handler? : Option (List Stmt)}
    (hr : Ready settled w m home stack
      (stmtsUses ((.block body, []) :: stack) body ++ handlerUses stack param? handler?)
      (param?.toList.map .name ++ stmtsMarks body ++ blockMarks handler?)) :
    Tracks settled w m (fun o => (ev o).runGuarded body param? handler?) FlowOk := by
  have hbody : Ready settled w m home stack (stmtsUses ((.block body, []) :: stack) body)
      (stmtsMarks body) :=
    hr.part (List.subset_append_left _ _) fun k hk => by simp [hk]
  simp only [runGuarded_eq]
  refine tracksTo_either (tracks_runBlock h hbody) (fun w₁ m₁ flow h₁ hflow => ?_)
    fun w₁ m₁ halt h₁ hh => ?_
  · exact (tracks_pure h₁.sound hflow).mono (fun _ hk => h₁.kept.trans hk) fun _ _ _ _ hq => hq
  · split
    · next error handler =>
      -- What was thrown has left the block, so the handler starts in the place of the statement.
      have hplace : m.SamePlace m₁ := h₁.kept.resolve_left (by simp)
      have hr₁ := hr.after ⟨h₁.moves, h₁.sound, hplace⟩
      have hhandle := tracks_handle h (hr₁.right.part (List.Subset.refl _) (List.Subset.refl _))
        (fun p hp => hr.code.proper (.name p) (by simp [Option.mem_def.mp hp])) (error_lt hh)
      exact hhandle.mono (fun _ hk => hplace.trans hk) fun _ _ _ _ hq => hq
    · exact tracksTo_throw h₁.sound h₁.kept hh

/-- Cleaning up can be followed, and then the outcome of the rest. -/
theorem tracks_cleaningUp (h : Evaluator.Tracks ev) {cleanup : List Stmt} (outcome : Run Flow)
    (hr : Ready settled w m home stack (cleanupUses stack (some cleanup)) (stmtsMarks cleanup))
    (ho : ∀ {w' m'}, Advances settled m.SamePlace w m w' m' →
      Tracks settled w' m' (fun _ => outcome) FlowOk) :
    Tracks settled w m (fun o => cleaningUp (ev o) cleanup outcome) FlowOk := by
  refine tracks_bind (tracks_runBlock h hr) fun w₁ m₁ flow h₁ hflow => ?_
  cases flow with
  | normal => exact ho h₁
  | returned v => exact tracks_pure h₁.sound hflow

theorem tracks_attempt (h : Evaluator.Tracks ev) {body : List Stmt} {param? : Option Token}
    {handler? cleanup? : Option (List Stmt)}
    (hr : Ready settled w m home stack (stmtUses stack (.attempt body param? handler? cleanup?))
      (stmtMarks (.attempt body param? handler? cleanup?))) :
    Tracks settled w m (fun o => (ev o).attempt body param? handler? cleanup?) FlowOk := by
  cases cleanup? with
  | none => exact tracks_runGuarded h hr.left
  | some cleanup =>
    simp only [attempt_eq]
    refine tracksTo_either (tracks_runGuarded h hr.left) (fun w₁ m₁ flow h₁ hflow => ?_)
      fun w₁ m₁ halt h₁ hh => ?_
    · have hclean := tracks_cleaningUp h (pure flow) (hr.after h₁).right
        fun h₂ => tracks_pure h₂.sound (hflow.mono h₂.moves)
      exact hclean.mono (fun _ hk => h₁.kept.trans hk) fun _ _ _ _ hq => hq
    -- A run that was broken off does not clean up; every other halt is passed on after the cleanup.
    · have hclean : halt ≠ .exhausted →
          TracksTo settled m.SamePlace w₁ m₁ (fun o => cleaningUp (ev o) cleanup (throw halt))
            FlowOk := by
        intro hne
        have hplace := h₁.kept.resolve_left hne
        have hr₁ := hr.after ⟨h₁.moves, h₁.sound, hplace⟩
        exact (tracks_cleaningUp h _ hr₁.right fun h₂ => tracks_throw h₂.sound
          (hh.mono h₂.moves)).mono (fun _ hk => hplace.trans hk) fun _ _ _ _ hq => hq
      cases halt with
      | exhausted => exact tracksTo_throw h₁.sound (Or.inl rfl) trivial
      | failed e => exact hclean (by simp)
      | thrown id => exact hclean (by simp)

/-- What is thrown has a place. -/
theorem tracks_thrownError (h : Evaluator.Tracks ev) (hs : Sound settled w m) (keyword : Token)
    {v : Value} (hv : ValueOk w m v) :
    Tracks settled w m (fun o => (ev o).thrownError keyword v) fun _ m' id =>
      (m'.store.heap.error id).token?.isSome = true := by
  unfold Evaluator.thrownError
  split
  · next id =>
    -- An error gets the place of this throw, also if it was thrown before.
    have htoken : ∀ cell : ErrorCell, cell.token?.isSome = true →
        ({ cell with token? := some keyword } : ErrorCell).token?.isSome = true := fun _ _ => rfl
    refine tracks_bind (tracks_modifyHeap hs (Heap.grows_modifyError _ _ _ htoken)
      (hs.heap.modifyError id htoken fun _ => rfl)) ?_
    rintro w₁ m₁ _ h₁ ⟨rfl, rfl⟩
    refine tracks_pure h₁.sound ?_
    rw [Machine.withHeap, Heap.error_modifyError, if_pos ⟨rfl, hv⟩]
    rfl
  · next id =>
    refine tracks_heap ?_
    split
    · refine tracks_bind (tracks_callMethod h hs hv _ (by simp) keyword) ?_
      intro w₁ m₁ message h₁ _
      refine tracks_heap ?_
      have htext : ∀ text, Value.Fits (CodeValue w₁ m₁) m₁.store.heap (.string text) :=
        fun _ => trivial
      refine (tracks_onHeap h₁.sound (Heap.grows_newError _ _ _)
        (h₁.sound.heap.newError (htext _))).post ?_
      -- An instance is thrown as a new error with its message, made at this place.
      rintro w₂ m₂ id _ ⟨rfl, rfl, rfl⟩
      rw [Machine.withHeap, Heap.error_newError]
      exact if_pos rfl ▸ rfl
    · exact tracks_failAt hs _ _
  · exact tracks_failAt hs _ _

/-! ## Declarations -/

/-- A value that may be missing can be followed. -/
theorem tracks_optionalValue (h : Evaluator.Tracks ev) {e? : Option Expr}
    (hr : Ready settled w m home stack (optionalUses stack e?) (optionalMarks e?)) :
    Tracks settled w m (fun o => (ev o).optionalValue e?) ValueOk := by
  cases e? with
  | none => exact tracks_pure hr.sound trivial
  | some e => exact tracks_value h hr

/-- The initializer of a variable runs under a scope that has the name but may not read it. -/
theorem tracks_var (h : Evaluator.Tracks ev) {name : Token} {init? : Option Expr}
    (hr : Ready settled w m home stack (stmtUses stack (.var name init?))
      (stmtMarks (.var name init?))) :
    Tracks settled w m (fun o => do
      let v ← (ev o).optionalValue init?
      Run.define name v
      pure .normal) (Ends home stack (.var name init?)) := by
  have hplain : ∀ entry ∈ [(name.lexeme, false)], Plain entry.1 := by
    intro entry hentry
    rw [List.mem_singleton.mp hentry]
    exact hr.code.proper (.name name) List.mem_cons_self
  have hinit : Ready settled w m home (stack.extend [(name.lexeme, false)])
      (optionalUses (stack.extend [(name.lexeme, false)]) init?) (optionalMarks init?) := by
    refine (hr.part (List.Subset.refl _) (List.subset_cons_self _ _)).extend ?_ hplain
    -- The name is there but may not be read, so the frame does not have to bind it yet.
    refine hr.chain.extend fun entry hentry hready => ?_
    rw [List.mem_singleton.mp hentry] at hready
    cases hready
  refine tracks_bind (tracks_optionalValue h hinit) fun w₁ m₁ v h₁ hv => ?_
  have hr₁ := hr.after h₁
  refine tracks_bind (tracks_define hr₁.sound hr₁.not_sealed
    (hv.withBinding hr₁.not_sealed _)) ?_
  rintro w₂ m₂ _ h₂ ⟨rfl, rfl⟩
  refine tracks_pure h₂.sound ((hr₁.after h₂).chain.extend fun entry hentry _ => ?_)
  have hbound := binds_withBinding hr₁.sound (hr₁.chain.origin hr₁.sound) name.lexeme v
  simp only [added, List.mem_cons, List.not_mem_nil, or_false] at hentry
  rcases hentry with rfl | rfl
  · exact hbound
  · exact hbound

/-- A function may call itself, so it is as it should be only once its name is bound. -/
theorem tracks_function {decl : FunctionDecl}
    (hr : Ready settled w m home stack (stmtUses stack (.function decl))
      (stmtMarks (.function decl))) :
    Tracks settled w m (fun _ => do
      let f ← Evaluator.closure decl
      Run.define decl.name f
      pure .normal) (Ends home stack (.function decl)) := by
  refine tracks_bind (tracks_closure hr.sound hr.active decl) ?_
  rintro w₁ m₁ _ h₁ ⟨id, rfl⟩
  have hr₁ := hr.after h₁
  -- What is asked of the function holds in the machine that has its name bound, and there only.
  rw [← h₁.kept.2]
  have hmoves : ∀ v, Moves settled w₁ m₁ w₁ (m₁.withBinding m₁.current decl.name.lexeme v) :=
    fun v => .withBinding hr₁.not_sealed _ _
  have hchain : ∀ v, Chain w₁ (m₁.withBinding m₁.current decl.name.lexeme v) home m₁.current
      (stack.extend [(decl.name.lexeme, true)]) := by
    intro v
    refine (hr₁.chain.mono (hmoves v)).extend fun entry hentry _ => ?_
    rw [List.mem_singleton.mp hentry]
    exact binds_withBinding hr₁.sound (hr₁.chain.origin hr₁.sound) _ _
  have hplain : ∀ entry ∈ [(decl.name.lexeme, true)], Plain entry.1 := by
    intro entry hentry
    rw [List.mem_singleton.mp hentry]
    exact hr.code.proper (.name decl.name) List.mem_cons_self
  refine tracks_bind (tracks_define hr₁.sound hr₁.not_sealed
    ⟨stack.extend [(decl.name.lexeme, true)], hchain _, ?_⟩) ?_
  · exact ((hr₁.code.part (List.Subset.refl _) (List.subset_cons_self _ _)).extend hplain
      hr.unsealed).mono (hmoves _)
  · rintro w₂ m₂ _ h₂ ⟨rfl, rfl⟩
    exact tracks_pure h₂.sound (hchain _)

/-! ## All statements -/

theorem tracks_print (hs : Sound settled w m) (line : String) :
    Tracks settled w m (fun _ => Run.print line) fun _ _ _ => True :=
  tracks_modify ⟨.of_same w ⟨rfl, rfl, rfl, rfl⟩,
    hs.of_same ⟨rfl, rfl, rfl, rfl⟩ (Nat.le_refl _) fun _ hl => Or.inl hl, .refl m⟩ trivial

/-- One level of execution can be followed if the evaluation of the parts can. -/
theorem tracks_executeStep (h : Evaluator.Tracks ev) (rounds : Nat) {s : Stmt}
    (hr : Ready settled w m home stack (stmtUses stack s) (stmtMarks s)) :
    Tracks settled w m (fun o => (ev o).executeStep rounds s) (Ends home stack s) := by
  cases s with
  | expression e =>
    refine tracks_bind (h.evaluate hr) fun w₁ m₁ _ h₁ _ => ?_
    exact tracks_pure h₁.sound (.of_flow hr h₁ trivial rfl)
  | print e =>
    refine tracks_bind (tracks_value h hr) fun w₁ m₁ v h₁ _ => tracks_heap ?_
    refine tracks_bind (tracks_print h₁.sound _) fun w₂ m₂ _ h₂ _ => ?_
    exact tracks_pure h₂.sound (.of_flow (hr.after h₁) h₂ trivial rfl)
  | var name init? => exact tracks_var h hr
  | block body =>
    exact (tracks_runBlock h hr).post fun _ _ _ h₁ hflow => .of_flow hr h₁ hflow rfl
  | branch condition thenPart elsePart? =>
    have hthen : added thenPart = [] := hr.code.proper (.body thenPart) (by simp [stmtMarks])
    have helse : ∀ s, elsePart? = some s → added s = [] := by
      rintro s rfl
      exact hr.code.proper (.body s) (by simp [stmtMarks, elseMarks])
    have hadded : added (.branch condition thenPart elsePart?) = [] := by
      cases elsePart? with
      | none => exact hthen
      | some s => rw [added, hthen, helse s rfl, List.append_nil]
    refine tracks_bind (tracks_value h hr.left.left) fun w₁ m₁ c h₁ _ => ?_
    have hr₁ := hr.after h₁
    split
    · refine (h.execute (hr₁.left.right.part (List.Subset.refl _) (List.subset_cons_self _ _))).post
        fun _ _ _ h₂ hends => .of_flow hr₁ h₂ hends.flow hadded
    · cases elsePart? with
      | none => exact tracks_pure h₁.sound (.of_flow hr h₁ trivial hadded)
      | some s =>
        have hs := hr₁.right
        -- The scopes give the second part the names of the first, which has none.
        rw [hthen, Stack.extend_nil] at hs
        exact (h.execute (hs.part (List.Subset.refl _) (List.subset_cons_self _ _))).post
          fun _ _ _ h₂ hends => .of_flow hr₁ h₂ hends.flow hadded
  | loop condition body =>
    have hbody : added body = [] := hr.code.proper (.body body) (by simp [stmtMarks])
    exact (tracks_loopUpTo h rounds hr).post fun _ _ _ h₁ hflow => .of_flow hr h₁ hflow hbody
  | function decl => exact tracks_function hr
  | ret keyword value? =>
    refine tracks_bind (tracks_optionalValue h hr) fun w₁ m₁ v h₁ hv => ?_
    exact tracks_pure h₁.sound hv
  | classDecl name refs decls =>
    refine tracks_bind (tracks_declareClass hr) fun w₁ m₁ _ h₁ hchain => ?_
    exact tracks_pure h₁.sound hchain
  | importFrom path items =>
    refine tracks_bind (tracks_importNames h hr) fun w₁ m₁ _ h₁ hchain => ?_
    exact tracks_pure h₁.sound hchain
  | exported inner => exact tracks_exportDeclared h hr
  | throw keyword e =>
    refine tracks_bind (tracks_value h hr) fun w₁ m₁ v h₁ hv => ?_
    refine tracks_bind (tracks_thrownError h h₁.sound keyword hv) fun w₂ m₂ id h₂ htoken => ?_
    exact tracks_throw h₂.sound htoken
  | attempt body param? handler? cleanup? =>
    exact (tracks_attempt h hr).post fun _ _ _ h₁ hflow => .of_flow hr h₁ hflow rfl

/-! ## Moments are located -/

/-- Whatever is ready to run is located. -/
theorem Ready.located {moment : Moment}
    (hr : Ready settled w m home stack (moment.uses stack) moment.marks) :
    Located w.origins w.sources moment m home stack where
  active := hr.active
  known := fun u hu => (hr.code.known u hu).accepted
  inside := hr.chain.hops.1
  outside := hr.chain.hops.2
  placed := by
    -- Four kinds of expressions look up their own use.
    have hone : ∀ u ∈ moment.uses stack, u.stack = stack →
        ∀ l ∈ [(⟨u.id, u.name, u.role⟩ : Lookup)], ∃ program, Accepted w.sources program ∧
          ∃ u ∈ moment.uses stack, Placed w.origins m home program l u := by
      intro u hu hstack l hl
      obtain ⟨program, ha, hp⟩ := hr.placed_here hu hstack
      rw [List.mem_singleton.mp hl]
      exact ⟨program, ha, u, hu, hp⟩
    cases moment with
    | evaluating e =>
      cases e with
      | reference ref => exact hone (readUse stack ref) List.mem_cons_self rfl
      | assign id name value =>
        exact hone ⟨id, name.lexeme, .write, stack⟩ (List.mem_append_right _ List.mem_cons_self) rfl
      | self id keyword => exact hone ⟨id, keyword.lexeme, .self, stack⟩ List.mem_cons_self rfl
      | super id keyword className method =>
        exact hone ⟨id, keyword.lexeme, .super, stack⟩ List.mem_cons_self rfl
      | _ => exact fun l hl => absurd hl (by simp [Moment.lookups])
    | executing s =>
      cases s with
      | classDecl name refs decls =>
        intro l hl
        obtain ⟨ref, href, rfl⟩ := List.mem_map.mp hl
        have hu : headUse name.lexeme (stack.extend [(name.lexeme, true)]) ref ∈
            stmtUses stack (.classDecl name refs decls) :=
          List.mem_append_left _ (List.mem_map_of_mem href)
        obtain ⟨program, ha, hp⟩ := hr.placed_head hu
        exact ⟨program, ha, _, hu, hp⟩
      | _ => exact fun l hl => absurd hl (by simp [Moment.lookups])

end

/-- A moment that is foreseen is located. -/
theorem Foreseen.located {w : World} {moment : Moment} {m : Machine} (h : Foreseen w moment m) :
    ∃ home stack, Located w.origins w.sources moment m home stack := by
  obtain ⟨w₀, ho, hs, home, stack, hr⟩ := h
  exact ⟨home, stack, hs ▸ hr.located.mono ho⟩

/-! ## The whole evaluator -/

/-- A part of a program that is ready to run is met without notice. -/
theorem tracks_watch {α : Type} {settled : Nat} {w : World} {m : Machine} {home : ModuleId}
    {stack : Stack} (moment : Moment) {x : Observer → Run α} {Q : World → Machine → α → Prop}
    (hr : Ready settled w m home stack (moment.uses stack) moment.marks)
    (hx : Tracks settled w m x Q) :
    Tracks settled w m (fun o => o.watch moment (x o)) Q := by
  obtain ⟨w', hreach, ho⟩ := hx
  refine ⟨w', hreach, fun o hso => ?_⟩
  obtain ⟨m', hm⟩ := hreach.moves
  have hnone : o moment m = none := by
    refine hso moment m ⟨w, hm.origins, hm.sources.symm, home, stack, ?_⟩
    exact { hr with sound := hr.sound.weaken (Nat.zero_le settled) }
  show o.watch moment (x o) m = x .quiet m
  rw [Observer.watch, hnone]
  exact ho o hso

/-- The whole evaluator can be followed, at every depth. -/
theorem tracks_evaluatorUnder (depth : Nat) :
    Evaluator.Tracks fun o => evaluatorUnder o depth := by
  induction depth with
  | zero =>
    refine ⟨fun hr => ?_, fun hr => ?_⟩
    · simp only [evaluatorUnder, evaluateUnder]
      exact tracks_throw hr.sound trivial
    · simp only [evaluatorUnder, executeUnder]
      exact tracks_throw hr.sound trivial
  | succ depth ih =>
    refine ⟨fun {_ _ _ _ _ e} hr => ?_, fun {_ _ _ _ _ s} hr => ?_⟩
    · simp only [evaluatorUnder, evaluateUnder]
      exact tracks_watch (.evaluating e) hr (tracks_evaluateStep ih hr)
    · simp only [evaluatorUnder, executeUnder]
      exact tracks_watch (.executing s) hr (tracks_executeStep ih depth hr)

end ScriptEngine
