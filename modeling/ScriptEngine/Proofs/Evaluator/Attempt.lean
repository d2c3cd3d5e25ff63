import ScriptEngine.Proofs.Evaluator.Later
import ScriptEngine.Proofs.Evaluator.Place

/-!
# Try statements

A try statement runs up to three blocks, each at most once: its body, its handler and what stands
behind `finally`. `attempt_runs_blocks` says of every try statement, at every depth and from every
machine, which of them run, in which order and in which frames, and what the statement comes to.

The blocks run in turn, each from the machine that the one before it left, and each in a new frame
that is a child of the frame of the statement itself. That holds however deep calls, blocks and
imports have led away from that frame in between, because every block comes back to its place.
-/

namespace ScriptEngine

/-- The machine in a new frame, a child of the current one, that holds the given bindings. -/
def Machine.inChild (m : Machine) (bindings : List (String × Value)) : Machine :=
  { m with
    frames := ⟨m.frames.frames.push ⟨bindings, some m.current⟩⟩
    current := m.frames.frames.size }

namespace Run

/-- How a computation ended, leaving the machine aside. -/
def ending {α : Type} : EStateM.Result Halt Machine α → Except Halt α
  | .ok a _ => .ok a
  | .error halt _ => .error halt

/-- An outcome is its ending with the machine that it leaves. -/
theorem eq_of_ending {α : Type} {r : EStateM.Result Halt Machine α} {e : Except Halt α}
    (h : ending r = e) :
    r = match e with
      | .ok a => .ok a (left r)
      | .error halt => .error halt (left r) := by
  subst h
  cases r <;> rfl

/-- What was not broken off has come back. -/
theorem EndsAt.samePlace {α : Type} {m : Machine} {r : EStateM.Result Halt Machine α}
    (h : EndsAt m r) (hr : ending r ≠ .error .exhausted) : m.SamePlace (left r) := by
  cases r with
  | ok a m' => exact h
  | error halt m' =>
    cases halt with
    | exhausted => exact absurd rfl hr
    | failed e => exact h
    | thrown id => exact h

end Run

/-! ## Runs of blocks -/

/-- Statements, and the names that are bound for them. -/
structure Block where
  body : List Stmt
  bindings : List (String × Value)

/-- A run of a block: the machine it started from and what it came to. -/
structure BlockRun where
  block : Block
  start : Machine
  result : EStateM.Result Halt Machine Flow

namespace BlockRun

/-- How the block ended. -/
def ending (b : BlockRun) : Except Halt Flow := Run.ending b.result

/-- The machine that the block left. -/
def finish (b : BlockRun) : Machine := Run.left b.result

/-- The statements of the block have run in order, in a new frame with its bindings, and the frame
of the start is current again. -/
def By (ev : Evaluator) (b : BlockRun) : Prop :=
  b.result = Run.adjust (fun m => { m with current := b.start.current })
    (ev.runAll b.block.body (b.start.inChild b.block.bindings))

/-- The blocks have run one after the other and have led from `m` to `m'`. Each started in the same
place, from the machine that the one before it left. -/
def InTurn (ev : Evaluator) (place m : Machine) : List BlockRun → Machine → Prop
  | [], m' => m' = m
  | b :: bs, m' => b.start = m ∧ place.SamePlace m ∧ b.By ev ∧ InTurn ev place b.finish bs m'

/-- Runs of blocks are joined where the first ones end. -/
theorem InTurn.append {ev : Evaluator} {place m m₁ m' : Machine} {bs cs : List BlockRun}
    (hbs : InTurn ev place m bs m₁) (hcs : InTurn ev place m₁ cs m') :
    InTurn ev place m (bs ++ cs) m' := by
  induction bs generalizing m with
  | nil =>
    obtain rfl : m₁ = m := hbs
    exact hcs
  | cons b bs ih =>
    obtain ⟨hstart, hplace, hby, hrest⟩ := hbs
    exact ⟨hstart, hplace, hby, ih hrest⟩

/-- A block that starts in the place is a run by itself. -/
theorem inTurn_single {ev : Evaluator} {place : Machine} {b : BlockRun}
    (hplace : place.SamePlace b.start) (hby : b.By ev) :
    InTurn ev place b.start [b] b.finish :=
  ⟨rfl, hplace, hby, rfl⟩

/-- The run of a block from a machine. -/
def of (ev : Evaluator) (m : Machine) (block : Block) : BlockRun where
  block := block
  start := m
  result := (do ev.runIn (← Run.childFrame block.bindings) block.body) m

/-- A new frame holds just what is bound for the block if no name is bound twice. -/
theorem by_of (ev : Evaluator) (m : Machine) {block : Block}
    (h : block.bindings.foldl (fun bs b => putBinding b.1 b.2 bs) [] = block.bindings) :
    (of ev m block).By ev := by
  have hchild : (of ev m block).result =
      Run.inFrame m.frames.frames.size (ev.runAll block.body)
        { m with frames := (m.frames.createWith (some m.current) block.bindings).2 } := rfl
  unfold By
  rw [hchild, Run.inFrame_eq, Frames.createWith, h]
  rfl

/-- The outcome of a block ends where the block began. -/
theorem endsAt_of (depth : Nat) (m : Machine) (block : Block) :
    Run.EndsAt m (of (evaluatorUpTo depth) m block).result :=
  (Evaluator.composed_runInChild block.bindings block.body).returns (returns_evaluatorUpTo depth) m

end BlockRun

/-! ## Try statements -/

/-- What the handler is for an error: its statements, with the error bound to the parameter if there
is one. -/
def handlerBlock (param? : Option Token) (handler : List Stmt) (error : ErrorId) : Block where
  body := handler
  bindings := param?.toList.map fun p => (p.lexeme, .datum (.error error))

/-- What the rest of the statement comes to, unless what stands behind `finally` decides. -/
def decided (ending : Except Halt Flow) : Option (Except Halt Flow) → Except Halt Flow
  | none => ending
  | some (.ok .normal) => ending
  | some (.ok (.returned v)) => .ok (.returned v)
  | some (.error halt) => .error halt

/-- What happens when a try statement is run from `m` and comes to `r`: the run of its body, of its
handler and of what stands behind `finally`. Only a block that used up its depth is not followed by
another one. -/
structure Attempted (ev : Evaluator) (body : List Stmt) (param? : Option Token)
    (handler? cleanup? : Option (List Stmt)) (m : Machine) (r : EStateM.Result Halt Machine Flow)
    (tried : BlockRun) (handled? cleaned? : Option BlockRun) : Prop where
  inTurn : BlockRun.InTurn ev m m (tried :: (handled?.toList ++ cleaned?.toList)) (Run.left r)
  tried_block : tried.block = ⟨body, []⟩
  handled_block : ∀ b, handled?.map (·.block) = some b ↔ ∃ handler error,
    handler? = some handler ∧ tried.ending = .error (.thrown error) ∧
      b = handlerBlock param? handler error
  cleaned_block : ∀ b, cleaned?.map (·.block) = some b ↔ ∃ cleanup,
    cleanup? = some cleanup ∧ (handled?.getD tried).ending ≠ .error .exhausted ∧ b = ⟨cleanup, []⟩
  outcome : Run.ending r = decided (handled?.getD tried).ending (cleaned?.map (·.ending))
  place : Run.EndsAt m r

section Parts

open BlockRun

variable {ev : Evaluator} {body : List Stmt} {param? : Option Token}
  {handler? : Option (List Stmt)} {m : Machine}

/-- A body that throws is followed by the handler. -/
theorem runGuarded_thrown {handler : List Stmt} {error : ErrorId}
    (h : (of ev m ⟨body, []⟩).ending = .error (.thrown error)) :
    ev.runGuarded body param? (some handler) m =
      (of ev (of ev m ⟨body, []⟩).finish (handlerBlock param? handler error)).result := by
  have hrun : ev.runBlock body m = .error (.thrown error) (of ev m ⟨body, []⟩).finish :=
    Run.eq_of_ending h
  unfold Evaluator.runGuarded
  rw [hrun]
  rfl

/-- A body that ends in another way, or has no handler, is all that runs. -/
theorem runGuarded_unhandled
    (h : ∀ handler error, handler? = some handler →
      (of ev m ⟨body, []⟩).ending ≠ .error (.thrown error)) :
    ev.runGuarded body param? handler? m = (of ev m ⟨body, []⟩).result := by
  have hrun : (of ev m ⟨body, []⟩).result = ev.runBlock body m := rfl
  unfold BlockRun.ending at h
  rw [hrun] at h ⊢
  unfold Evaluator.runGuarded
  split
  · next error m₁ hthrown =>
    rw [hthrown] at h
    split
    · next handler => exact absurd rfl (h handler error rfl)
    · exact hthrown.symm
  · rfl

/-- A handler is run by the evaluator as a block, with its error bound. -/
theorem by_handler (ev : Evaluator) (param? : Option Token) (handler : List Stmt)
    (error : ErrorId) (m : Machine) : (of ev m (handlerBlock param? handler error)).By ev := by
  refine by_of ev m ?_
  cases param? <;> rfl

/-- What stands behind `finally` runs behind a rest that was not broken off. -/
theorem attempt_cleaning {last : BlockRun} (cleanup : List Stmt)
    (hlast : ev.runGuarded body param? handler? m = last.result)
    (hgoes : last.ending ≠ .error .exhausted) :
    let cleaned := of ev last.finish ⟨cleanup, []⟩
    let r := ev.attempt body param? handler? (some cleanup) m
    Run.left r = cleaned.finish ∧ Run.ending r = decided last.ending (some cleaned.ending) := by
  intro cleaned r
  have hcleaned : ev.runBlock cleanup last.finish = cleaned.result := rfl
  -- What stands behind `finally` runs in the same way whatever it is to be followed by.
  have hdone : ∀ outcome : Run Flow,
      (∀ m', Run.left (outcome m') = m' ∧ Run.ending (outcome m') = last.ending) →
      r = cleaningUp ev cleanup outcome last.finish →
      Run.left r = cleaned.finish ∧ Run.ending r = decided last.ending (some cleaned.ending) := by
    intro outcome houtcome hr
    rw [hr, cleaningUp_eq, hcleaned]
    show _ = Run.left cleaned.result ∧ _ = decided _ (some (Run.ending cleaned.result))
    cases cleaned.result with
    | error halt m' => exact ⟨rfl, rfl⟩
    | ok flow m' =>
      cases flow with
      | normal => exact houtcome m'
      | returned v => exact ⟨rfl, rfl⟩
  have hr : r = _ := congrFun (attempt_eq ev body param? handler? cleanup) m
  unfold Run.either at hr
  rw [hlast] at hr
  cases hresult : last.result with
  | ok flow m' =>
    rw [hresult] at hr
    have hending : Run.ending last.result = .ok flow := congrArg Run.ending hresult
    have hfinish : last.finish = m' := congrArg Run.left hresult
    exact hdone (pure flow) (fun _ => ⟨rfl, hending.symm⟩) (by rw [hfinish]; exact hr)
  | error halt m' =>
    rw [hresult] at hr
    have hending : last.ending = .error halt := congrArg Run.ending hresult
    have hfinish : last.finish = m' := congrArg Run.left hresult
    refine hdone (throw halt) (fun _ => ⟨rfl, hending.symm⟩) ?_
    rw [hfinish, hr]
    cases halt with
    | exhausted => exact absurd hending hgoes
    | failed e => rfl
    | thrown id => rfl

/-- Nothing runs behind a rest that was broken off. -/
theorem attempt_broken {last : BlockRun} {cleanup? : Option (List Stmt)}
    (hlast : ev.runGuarded body param? handler? m = last.result)
    (h : cleanup? = none ∨ last.ending = .error .exhausted) :
    ev.attempt body param? handler? cleanup? m = last.result := by
  cases cleanup? with
  | none => exact hlast
  | some cleanup =>
    have hbroken : last.ending = .error .exhausted := h.resolve_left (by simp)
    rw [attempt_eq]
    unfold Run.either
    rw [hlast, Run.eq_of_ending hbroken]
    rfl

end Parts

open BlockRun in
/-- The body runs, and if it throws and there is a handler, that runs behind it. -/
theorem guarded_runs (depth : Nat) (body : List Stmt) (param? : Option Token)
    (handler? : Option (List Stmt)) (m : Machine) :
    let ev := evaluatorUpTo depth
    ∃ (tried : BlockRun) (handled? : Option BlockRun),
      ev.runGuarded body param? handler? m = (handled?.getD tried).result ∧
      InTurn ev m m (tried :: handled?.toList) (handled?.getD tried).finish ∧
      tried.block = ⟨body, []⟩ ∧
      ∀ b, handled?.map (·.block) = some b ↔ ∃ handler error,
        handler? = some handler ∧ tried.ending = .error (.thrown error) ∧
          b = handlerBlock param? handler error := by
  intro ev
  obtain ⟨tried, htried⟩ : ∃ tried, tried = of ev m ⟨body, []⟩ := ⟨_, rfl⟩
  have hbody : InTurn ev m m [tried] tried.finish := by
    rw [htried]
    exact inTurn_single (Machine.SamePlace.refl m) (by_of ev m rfl)
  have hblock : tried.block = ⟨body, []⟩ := by rw [htried]; rfl
  by_cases h : ∃ handler error, handler? = some handler ∧ tried.ending = .error (.thrown error)
  · obtain ⟨handler, error, rfl, hthrown⟩ := h
    have hplace : m.SamePlace tried.finish := by
      have hends : Run.EndsAt m tried.result := htried ▸ endsAt_of depth m ⟨body, []⟩
      refine hends.samePlace ?_
      rw [show Run.ending tried.result = _ from hthrown]
      simp
    have hhandler := inTurn_single hplace (by_handler ev param? handler error tried.finish)
    refine ⟨tried, some (of ev tried.finish (handlerBlock param? handler error)), ?_,
      hbody.append hhandler, hblock, fun b => ⟨fun hb => ?_, ?_⟩⟩
    · rw [htried] at hthrown ⊢
      exact runGuarded_thrown hthrown
    · exact ⟨handler, error, rfl, hthrown, (Option.some.inj hb).symm⟩
    · rintro ⟨handler', error', hsome, hthrown', rfl⟩
      obtain rfl := Option.some.inj hsome
      cases hthrown.symm.trans hthrown'
      rfl
  · refine ⟨tried, none, ?_, hbody, hblock, fun b => iff_of_false (by simp) ?_⟩
    · rw [htried] at h ⊢
      exact runGuarded_unhandled fun handler error hsome hthrown =>
        h ⟨handler, error, hsome, hthrown⟩
    · rintro ⟨handler, error, hsome, hthrown, -⟩
      exact h ⟨handler, error, hsome, hthrown⟩

/-- A run of a try statement. The body runs once, in a new frame. The handler, if there is one, runs
exactly if the body has thrown an error, and not if a runtime error ended it: once, behind the body,
in a new frame that binds the error to the parameter if there is one. What stands behind `finally`,
if anything does, runs once behind both, however they ended, in a new frame of its own. All these
frames are children of the frame in which the statement itself stands, and that frame is current
again between the blocks and at the end. The statement ends as what stands behind `finally` does, if
that returns, throws or fails, and else as the last block in front of it. -/
theorem attempt_runs_blocks (depth : Nat) (body : List Stmt) (param? : Option Token)
    (handler? cleanup? : Option (List Stmt)) (m : Machine) :
    ∃ tried handled? cleaned?, Attempted (evaluatorUpTo depth) body param? handler? cleanup? m
      (execute (depth + 1) (.attempt body param? handler? cleanup?) m) tried handled? cleaned? := by
  have hexecute : execute (depth + 1) (.attempt body param? handler? cleanup?) m =
      (evaluatorUpTo depth).attempt body param? handler? cleanup? m := by
    unfold execute
    rfl
  have hplace : Run.EndsAt m (execute (depth + 1) (.attempt body param? handler? cleanup?) m) :=
    (returns_evaluatorUpTo (depth + 1)).execute (.attempt body param? handler? cleanup?) m
  obtain ⟨tried, handled?, hguarded, hinTurn, htried, hhandled⟩ :=
    guarded_runs depth body param? handler? m
  obtain ⟨last, hlast⟩ : ∃ last, last = handled?.getD tried := ⟨_, rfl⟩
  rw [← hlast] at hguarded hinTurn
  have hends : Run.EndsAt m last.result := by
    rw [← hguarded]
    exact (Evaluator.composed_runGuarded body param? handler?).returns
      (returns_evaluatorUpTo depth) m
  by_cases hstop : cleanup? = none ∨ last.ending = .error .exhausted
  · have hattempt := hexecute.trans (attempt_broken hguarded hstop)
    refine ⟨tried, handled?, none,
      ⟨?_, htried, hhandled, fun b => iff_of_false (by simp) ?_, ?_, hplace⟩⟩
    · rw [hattempt, Option.toList_none, List.append_nil]
      exact hinTurn
    · rintro ⟨cleanup, rfl, hgoes, -⟩
      rw [← hlast] at hgoes
      exact hgoes (hstop.resolve_left (by simp))
    · rw [hattempt, ← hlast]
      rfl
  · obtain ⟨hsome, hgoes⟩ := not_or.mp hstop
    obtain ⟨cleanup, rfl⟩ := Option.ne_none_iff_exists'.mp hsome
    obtain ⟨hleft, houtcome⟩ := attempt_cleaning cleanup hguarded hgoes
    have hcleanup := BlockRun.inTurn_single (b := .of _ last.finish ⟨cleanup, []⟩)
      (hends.samePlace hgoes) (BlockRun.by_of (evaluatorUpTo depth) _ rfl)
    refine ⟨tried, handled?, some (.of (evaluatorUpTo depth) last.finish ⟨cleanup, []⟩),
      ⟨?_, htried, hhandled, fun b => ⟨fun hb => ?_, ?_⟩, ?_, hplace⟩⟩
    · rw [hexecute, hleft]
      exact hinTurn.append hcleanup
    · rw [← hlast]
      exact ⟨cleanup, rfl, hgoes, (Option.some.inj hb).symm⟩
    · rintro ⟨cleanup', hsome', -, rfl⟩
      obtain rfl := Option.some.inj hsome'
      rfl
    · rw [hexecute, ← hlast]
      exact houtcome

end ScriptEngine
