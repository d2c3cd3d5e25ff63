import ScriptEngine.Proofs.Evaluator.Stack

/-!
# Earlier and later moments

Of two watchers that leave the machine as it is, one may break every run off where the other does,
if it has not done so before. The two machines that they leave are then those of an earlier and of
a later moment of the same run. What is left of the run at the earlier moment only goes onward, so
the later machine has all the modules of the earlier one.

With a watcher that never breaks a run off, the later moment is the end of the run.
-/

namespace ScriptEngine

/-- The first watcher breaks a run off where the second does, if not before, and neither changes the
machine when it does. -/
structure Watcher.Before (o₁ o₂ : Watcher) : Prop where
  first : ∀ loads moment m m', o₁ loads moment m = some m' → m' = m
  second : ∀ loads moment m m', o₂ loads moment m = some m' →
    m' = m ∧ o₁ loads moment m = some m

namespace Run

/-- Two outcomes of a run that began in a machine. They are the same, or else the first was broken
off before the second came to be, and the run went onward all the time. -/
structure EarlierAt {α : Type} (m : Machine) (r₁ r₂ : EStateM.Result Halt Machine α) : Prop where
  onward : m.Onward (left r₂)
  order : r₁ = r₂ ∨ ∃ m₁, r₁ = .error .exhausted m₁ ∧ m₁.Onward (left r₂)

/-- The first computation is the second one, or breaks off in the course of it. -/
def Earlier {α : Type} (x₁ x₂ : Run α) : Prop :=
  ∀ m, EarlierAt m (x₁ m) (x₂ m)

section

variable {α β : Type} {m m' : Machine} {x₁ x₂ : Run α}

/-- An outcome is no later than itself. -/
theorem EarlierAt.same {r : EStateM.Result Halt Machine α} (h : m.Onward (left r)) :
    EarlierAt m r r :=
  ⟨h, Or.inl rfl⟩

/-- What went onward before two outcomes does not change their order. -/
theorem EarlierAt.before {r₁ r₂ : EStateM.Result Halt Machine α} (h : EarlierAt m' r₁ r₂)
    (hm : m.Onward m') : EarlierAt m r₁ r₂ :=
  ⟨hm.trans h.onward, h.order⟩

/-- Whichever outcome the order is about, the first machine leads to the second. -/
theorem EarlierAt.left {r₁ r₂ : EStateM.Result Halt Machine α} (h : EarlierAt m r₁ r₂) :
    (Run.left r₁).Onward (Run.left r₂) := by
  rcases h.order with rfl | ⟨m₁, rfl, hm₁⟩
  · exact .refl _
  · exact hm₁

/-- A run that has gone onward is no later than itself. -/
theorem earlier_same {x : Run α} (h : ∀ m : Machine, m.Onward (left (x m))) : Earlier x x :=
  fun m => .same (h m)

theorem earlier_local {x : Run α} (h : x.Local) : Earlier x x :=
  earlier_same fun m => (proceeds_local h m).onward

/-- Choices between runs in order are in order, unless something was broken off. -/
theorem earlierAt_either {f₁ f₂ : α → Run β} {g₁ g₂ : Halt → Run β}
    (hx : EarlierAt m (x₁ m) (x₂ m)) (hf : ∀ a, Earlier (f₁ a) (f₂ a))
    (hg : ∀ halt, halt ≠ .exhausted → Earlier (g₁ halt) (g₂ halt))
    (h₁ : g₁ .exhausted = throw .exhausted) (h₂ : g₂ .exhausted = throw .exhausted) :
    EarlierAt m (x₁.either f₁ g₁ m) (x₂.either f₂ g₂ m) := by
  -- From where the second computation stands after its first half it goes onward.
  have hrest : (left (x₂ m)).Onward (left (x₂.either f₂ g₂ m)) := by
    unfold either
    cases x₂ m with
    | ok a m₁ => exact (hf a m₁).onward
    | error halt m₁ =>
      by_cases hne : halt = .exhausted
      · subst hne
        dsimp only
        rw [h₂]
        exact .refl m₁
      · exact (hg halt hne m₁).onward
  refine ⟨hx.onward.trans hrest, ?_⟩
  rcases hx.order with heq | ⟨m₁, hcut, hm₁⟩
  · unfold either
    rw [heq]
    cases x₂ m with
    | ok a m₁ => exact (hf a m₁).order
    | error halt m₁ =>
      by_cases hne : halt = .exhausted
      · subst hne
        dsimp only
        rw [h₁, h₂]
        exact Or.inl rfl
      · exact (hg halt hne m₁).order
  · refine Or.inr ⟨m₁, ?_, hm₁.trans hrest⟩
    unfold either
    rw [hcut]
    dsimp only
    rw [h₁]
    rfl

theorem earlierAt_bind {f₁ f₂ : α → Run β} (hx : EarlierAt m (x₁ m) (x₂ m))
    (hf : ∀ a, Earlier (f₁ a) (f₂ a)) : EarlierAt m ((x₁ >>= f₁) m) ((x₂ >>= f₂) m) := by
  rw [bind_eq_either, bind_eq_either]
  exact earlierAt_either hx hf (fun halt _ => earlier_local (plain_throw halt).local) rfl rfl

theorem EarlierAt.adjust {r₁ r₂ : EStateM.Result Halt Machine α} {f : Machine → Machine}
    (h : EarlierAt m r₁ r₂) (hf : ∀ m₁ m₂ : Machine, m₁.Onward m₂ → (f m₁).Onward (f m₂))
    (hm : ∀ m' : Machine, m'.Onward (f m')) :
    EarlierAt m (Run.adjust f r₁) (Run.adjust f r₂) := by
  have hleft : ∀ r : EStateM.Result Halt Machine α, Run.left (Run.adjust f r) = f (Run.left r) := by
    intro r
    cases r with
    | ok a m => rfl
    | error halt m => rfl
  refine ⟨?_, ?_⟩
  · rw [hleft]
    exact h.onward.trans (hm _)
  · rcases h.order with rfl | ⟨m₁, rfl, hm₁⟩
    · exact Or.inl rfl
    · refine Or.inr ⟨f m₁, rfl, ?_⟩
      rw [hleft]
      exact hf _ _ hm₁

/-- What runs in a frame keeps its order. -/
theorem earlier_inFrame (frame : FrameId) (h : Earlier x₁ x₂) :
    Earlier (inFrame frame x₁) (inFrame frame x₂) := by
  intro m
  rw [inFrame_eq, inFrame_eq]
  have hin : m.Onward { m with current := frame } := ⟨rfl, .refl _, fun he => he⟩
  exact ((h _).before hin).adjust (fun _ _ ho => ⟨ho.files, ho.modules, ho.errors⟩)
    fun _ => ⟨rfl, .refl _, fun he => he⟩

/-- What runs as a module keeps its order. -/
theorem earlier_inModule (id : ModuleId) (h : Earlier x₁ x₂) :
    Earlier (inModule id x₁) (inModule id x₂) := by
  intro m
  rw [inModule_eq, inModule_eq]
  have hin : m.Onward { m with active? := some id } := ⟨rfl, .refl _, fun he => he⟩
  exact ((h _).before hin).adjust (fun _ _ ho => ⟨ho.files, ho.modules, ho.errors⟩)
    fun _ => ⟨rfl, .refl _, fun he => he⟩

/-- At one moment the first watcher may break off what the second lets pass. -/
theorem earlierAt_watch {o₁ o₂ : Watcher} (ho : o₁.Before o₂) (loads : Loads) (moment : Moment)
    (h : EarlierAt m (x₁ m) (x₂ m)) :
    EarlierAt m ((o₁ loads).watch moment x₁ m) ((o₂ loads).watch moment x₂ m) := by
  unfold Observer.watch
  cases h₂ : o₂ loads moment m with
  | some m' =>
    obtain ⟨rfl, h₁⟩ := ho.second loads moment m m' h₂
    rw [h₁]
    exact .same (.refl m')
  | none =>
    cases h₁ : o₁ loads moment m with
    | some m' =>
      obtain rfl := ho.first loads moment m m' h₁
      exact ⟨h.onward, Or.inr ⟨m', rfl, h.onward⟩⟩
    | none => exact h

end

end Run

/-! ## Parts of a program -/

namespace Evaluator

open Run

/-- Parts of a program are evaluated in the same way, or broken off in the course of it. -/
structure Earlier (ev₁ ev₂ : Evaluator) : Prop where
  evaluate : ∀ e, Run.Earlier (ev₁.evaluate e) (ev₂.evaluate e)
  execute : ∀ s, Run.Earlier (ev₁.execute s) (ev₂.execute s)

variable {ev₁ ev₂ : Evaluator}

/-- What is composed is in order if the parts are. -/
theorem Composed.earlier {α : Type} {x : Evaluator → Run α} (hx : Composed x)
    (h : ev₁.Earlier ev₂) : Run.Earlier (x ev₁) (x ev₂) := by
  induction hx with
  | basic hlocal => exact earlier_local hlocal
  | evaluate e => exact h.evaluate e
  | execute s => exact h.execute s
  | either _ _ _ hexhausted ihx ihf ihg =>
    exact fun m => earlierAt_either (ihx m) ihf ihg (hexhausted ev₁) (hexhausted ev₂)
  | inNewFrame enclosing bindings _ ih =>
    exact fun m => earlierAt_bind (earlier_local (plain_newFrame _ _).local m) fun frame =>
      earlier_inFrame frame ih
  | inModule id _ ih => exact earlier_inModule id ih

/-- Statements of a module are in order if the parts are. -/
theorem earlier_runTopLevel (h : ev₁.Earlier ev₂) (statements : List Stmt) :
    Run.Earlier (ev₁.runTopLevel statements) (ev₂.runTopLevel statements) := by
  induction statements with
  | nil => exact earlier_local (plain_pure ()).local
  | cons s rest ih =>
    rw [runTopLevel_cons, runTopLevel_cons]
    exact fun m => earlierAt_either (h.execute s m) (fun _ => ih)
      (fun halt _ => earlier_same fun m => (proceeds_closing halt m).onward) rfl rfl

/-- A module is run and then left. -/
theorem earlierAt_leave {x₁ x₂ : Run Unit} {m : Machine} {f : Machine → Machine}
    (hx : EarlierAt m (x₁ m) (x₂ m)) (hf : ∀ m' : Machine, m'.Onward (f m')) :
    EarlierAt m ((do x₁; modify f : Run Unit) m) ((do x₂; modify f : Run Unit) m) :=
  earlierAt_bind hx fun _ => earlier_same hf

theorem earlier_runModule (h : ev₁.Earlier ev₂) (id : ModuleId) (statements : List Stmt) :
    Run.Earlier (ev₁.runModule id statements) (ev₂.runModule id statements) := by
  intro m
  rcases runModule_cases id statements m with ⟨errors, -, hrun⟩ | ⟨distances, -, hrun⟩
  · rw [hrun, hrun]
    have hreported : m.Onward { m with
        active? := some id, current := (m.modules.node id).globals,
        reporter := errors.foldl Reporter.scope m.reporter } :=
      ⟨rfl, .refl _, fun he => Reporter.hadError_foldl (fun _ _ => rfl) errors (Or.inl he)⟩
    exact .same (hreported.trans (onward_closeModule id _))
  · rw [hrun, hrun]
    exact (earlierAt_leave (earlier_runTopLevel h statements _) (onward_closeModule id)).before
      (later_openModule id distances m).toOnward

theorem earlier_loadModule (h : ev₁.Earlier ev₂) (importer : ModuleId) (path : Path)
    (token : Token) :
    Run.Earlier (ev₁.loadModule importer path token) (ev₂.loadModule importer path token) := by
  intro m
  rcases loadModule_cases importer path token m with ⟨existing, -, hload⟩ |
    ⟨-, reporter, nextExpr, herrors, ⟨e, hload⟩ | ⟨source, statements, -, -, hload⟩⟩
  · rw [hload, hload]
    exact .same (later_addChild m importer existing).toOnward
  · rw [hload, hload]
    exact .same ⟨rfl, .refl _, herrors⟩
  · rw [hload, hload, runImported_run, runImported_run]
    have hcompiled : m.Onward { m with reporter := reporter, nextExpr := nextExpr } :=
      ⟨rfl, .refl _, herrors⟩
    refine EarlierAt.before ?_ (hcompiled.trans (onward_sprout _ importer path))
    exact earlierAt_leave (earlier_runModule h m.modules.size statements _)
      (f := fun m' => { m' with active? := some importer, current := m.current })
      fun _ => ⟨rfl, .refl _, fun he => he⟩

theorem earlier_importNames (h : ev₁.Earlier ev₂) (token : Token) (items : List ImportItem) :
    Run.Earlier (ev₁.importNames token items) (ev₂.importNames token items) := by
  intro m
  rcases importNames_cases token items m with ⟨e, -, himport⟩ | ⟨importer, -, -, himport⟩
  · rw [himport, himport]
    exact .same (.refl m)
  · rw [himport, himport]
    exact earlierAt_bind (earlier_loadModule h _ _ _ m) fun _ =>
      earlier_local (plain_bindLoaded _ _ _ _).local

theorem earlier_runRoot (h : ev₁.Earlier ev₂) (path : Path) (statements : List Stmt) :
    Run.Earlier (ev₁.runRoot path statements) (ev₂.runRoot path statements) := by
  intro m
  have hleave : ∀ root m, EarlierAt m
      (((do
        ev₁.runModule root statements
        modify fun m => { m with current := Machine.builtins }) : Run Unit) m)
      (((do
        ev₂.runModule root statements
        modify fun m => { m with current := Machine.builtins }) : Run Unit) m) := fun root m =>
    earlierAt_leave (earlier_runModule h root statements m) fun _ => ⟨rfl, .refl _, fun he => he⟩
  rcases runRoot_cases path statements m with ⟨root, -, hrun⟩ | hrun
  · rw [hrun, hrun]
    exact hleave root m
  · rw [hrun, hrun]
    have hcreated : m.Onward (m.createModule none path).2 :=
      ⟨rfl, m.modules.extends_create none path _ _, fun he => he⟩
    exact (hleave _ _).before hcreated

end Evaluator

/-! ## The whole evaluator -/

/-- Whatever loads are under way, a part of a program is broken off by the first watcher in the
course of what it does under the second. -/
theorem earlier_within {o₁ o₂ : Watcher} (ho : o₁.Before o₂) (depth : Nat) : ∀ loads,
    (∀ e, Run.Earlier (evaluateWithin o₁ depth loads e) (evaluateWithin o₂ depth loads e)) ∧
      ∀ s, Run.Earlier (executeWithin o₁ depth loads s) (executeWithin o₂ depth loads s) := by
  induction depth with
  | zero =>
    refine fun loads => ⟨fun e => ?_, fun s => ?_⟩
    · rw [evaluateWithin, evaluateWithin]
      exact Run.earlier_local (Run.plain_throw _).local
    · rw [executeWithin, executeWithin]
      exact Run.earlier_local (Run.plain_throw _).local
  | succ depth ih =>
    have hev : ∀ loads, (evaluatorWithin o₁ depth loads).Earlier (evaluatorWithin o₂ depth loads) :=
      fun loads => ⟨(ih loads).1, (ih loads).2⟩
    have hload : ∀ loads, (loaderWithin o₁ depth loads).Earlier (loaderWithin o₂ depth loads) :=
      fun loads => ⟨(ih loads).1, fun s m => (ih (loads.enter m)).2 s m⟩
    refine fun loads => ⟨fun e m => ?_, fun s m => ?_⟩
    · rw [evaluateWithin, evaluateWithin]
      exact Run.earlierAt_watch ho loads _
        ((Evaluator.composed_evaluateStep e).earlier (hev loads) m)
    · rw [executeWithin, executeWithin]
      refine Run.earlierAt_watch ho loads _ ?_
      cases s with
      | importFrom token items =>
        exact Run.earlierAt_bind (Evaluator.earlier_importNames (hload loads) token items m)
          fun _ => Run.earlier_local (Run.plain_pure _).local
      | _ => exact (Evaluator.composed_executeStep depth (by simp)).earlier (hev loads) m

/-- Loads under the two watchers are in order. -/
theorem earlier_loaderWithin {o₁ o₂ : Watcher} (ho : o₁.Before o₂) (depth : Nat) (loads : Loads) :
    (loaderWithin o₁ depth loads).Earlier (loaderWithin o₂ depth loads) :=
  ⟨(earlier_within ho depth loads).1, fun s m =>
    (earlier_within ho depth (loads.enter m)).2 s m⟩

end ScriptEngine
