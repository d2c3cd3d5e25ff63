import ScriptEngine.Proofs.Evaluator.Stack

/-!
# Where something becomes the case

A run visits a moment if every observer that would break it off there does so, there or before. The
number that the observer leaves tells that it was the observer, and not the bound on the depth, that
the run ended by.

`Traced` is for statements of the form: something about the heap becomes the case only at certain
moments. It says of a computation that if the heap is like this in the end, then it was so at the
beginning, or the computation visits such a moment, or there is a cause outside the moments that it
visits. The cause is what is carried from the beginning of a moment to the place in the evaluator
where the heap changes: when the moment is over, the cause is that it was such a moment itself
(`traced_watch`).
-/

namespace ScriptEngine

/-- Wherever the observer breaks a run off, it leaves the number. -/
def Observer.Leaves (o : Observer) (n : Nat) : Prop :=
  ∀ moment m m', o moment m = some m' → m'.nextExpr = n

/-- A run from a machine comes to a moment: observers that would break it off there do so, there or
before. -/
def Visits {α : Type} (x : Observer → Run α) (m : Machine) (moment : Moment) (m' : Machine) :
    Prop :=
  ∀ (o : Observer) n, o.Leaves n → (o moment m').isSome = true → Spoiled n (x o m)

/-- If the heap is as `K` says in the end, then it was so at the beginning, or there is the cause,
or the run visits a moment at which `C` holds. Observers can do nothing but break the run off. -/
structure Traced {α : Type} (K : Heap → Prop) (C : Moment → Machine → Prop) (cause : Prop)
    (x : Observer → Run α) (m : Machine) : Prop where
  broken : ∀ o n, o.Leaves n → x o m = x .quiet m ∨ Spoiled n (x o m)
  becomes : K (Run.left (x .quiet m)).store.heap →
    K m.store.heap ∨ cause ∨ ∃ moment m', C moment m' ∧ Visits x m moment m'

section Logic

variable {α β : Type} {K : Heap → Prop} {C : Moment → Machine → Prop} {cause : Prop}
  {m m' : Machine} {x : Observer → Run α}

/-- Where no part of a program is evaluated there is nothing to observe. -/
theorem traced_basic {x : Run α}
    (h : K (Run.left (x m)).store.heap → K m.store.heap ∨ cause) :
    Traced K C cause (fun _ => x) m where
  broken := fun _ _ _ => Or.inl rfl
  becomes := fun hk => (h hk).imp_right Or.inl

/-- The run is one from another machine with the same heap, up to what is put back at its end. -/
theorem Traced.adjust {y : Observer → Run α} {f : Machine → Machine} (h : Traced K C cause y m')
    (hm : m'.store.heap = m.store.heap)
    (hf : ∀ m : Machine, (f m).nextExpr = m.nextExpr ∧ (f m).store.heap = m.store.heap)
    (heq : ∀ o, x o m = Run.adjust f (y o m')) : Traced K C cause x m := by
  have hspoiled : ∀ {o : Observer} {n : Nat}, Spoiled n (y o m') → Spoiled n (x o m) := by
    rintro o n ⟨m₁, hr, hn⟩
    refine ⟨f m₁, ?_, (hf m₁).1.trans hn⟩
    rw [heq, hr]
    rfl
  have hleft : (Run.left (x .quiet m)).store.heap = (Run.left (y .quiet m')).store.heap := by
    rw [heq]
    cases y .quiet m' with
    | ok a m₁ => exact (hf m₁).2
    | error halt m₁ => exact (hf m₁).2
  refine ⟨fun o n ho => ?_, fun hk => ?_⟩
  · rcases h.broken o n ho with hsame | hbroken
    · exact Or.inl (by rw [heq, heq, hsame])
    · exact Or.inr (hspoiled hbroken)
  · rw [hleft] at hk
    rcases h.becomes hk with hbefore | hcause | ⟨moment, m₁, hC, hvisits⟩
    · exact Or.inl (hm ▸ hbefore)
    · exact Or.inr (Or.inl hcause)
    · exact Or.inr (Or.inr ⟨moment, m₁, hC, fun o n ho hs => hspoiled (hvisits o n ho hs)⟩)

/-- What a computation is in one machine may be said of what it is in another with the same heap. -/
theorem Traced.of_eq {y : Observer → Run α} (h : Traced K C cause y m')
    (hm : m'.store.heap = m.store.heap) (heq : ∀ o, x o m = y o m') : Traced K C cause x m := by
  refine h.adjust (f := fun m => m) hm (fun _ => ⟨rfl, rfl⟩) fun o => ?_
  rw [heq]
  cases y o m' with
  | ok a m₁ => rfl
  | error halt m₁ => rfl

/-- A run that is broken off in its first half is broken off. -/
theorem spoiled_either {n : Nat} {x : Run α} {f : α → Run β} {g : Halt → Run β}
    (h : Spoiled n (x m)) (hexhausted : g .exhausted = throw .exhausted) :
    Spoiled n (x.either f g m) := by
  obtain ⟨m₁, hr, hn⟩ := h
  refine ⟨m₁, ?_, hn⟩
  rw [Run.either, hr]
  dsimp only
  rw [hexhausted]
  rfl

/-- What a first half has left to do is known, and it is done by the second half from there. -/
theorem Traced.andThen {f : Observer → α → Run β} {g : Observer → Halt → Run β}
    {y : Observer → Run β} (hx : Traced K C cause x m)
    (hexhausted : ∀ o, g o .exhausted = throw .exhausted)
    (hm : m' = Run.left (x .quiet m))
    (heq : ∀ o, x o m = x .quiet m → (x o).either (f o) (g o) m = y o m')
    (hy : Traced K C cause y m') : Traced K C cause (fun o => (x o).either (f o) (g o)) m := by
  have hfirst : ∀ {o : Observer} {n : Nat}, Spoiled n (x o m) →
      Spoiled n ((x o).either (f o) (g o) m) := fun h => spoiled_either h (hexhausted _)
  have hsecond : ∀ {o : Observer} {n : Nat}, o.Leaves n → Spoiled n (y o m') →
      Spoiled n ((x o).either (f o) (g o) m) := by
    intro o n ho hbroken
    rcases hx.broken o n ho with hsame | hbroken'
    · rw [heq o hsame]
      exact hbroken
    · exact hfirst hbroken'
  refine ⟨fun o n ho => ?_, fun hk => ?_⟩
  · rcases hx.broken o n ho with hsame | hbroken
    · rcases hy.broken o n ho with hsame' | hbroken'
      · refine Or.inl ?_
        show (x o).either (f o) (g o) m = (x .quiet).either (f .quiet) (g .quiet) m
        rw [heq o hsame, heq .quiet rfl, hsame']
      · exact Or.inr (hsecond ho hbroken')
    · exact Or.inr (hfirst hbroken)
  · change K (Run.left ((x .quiet).either (f .quiet) (g .quiet) m)).store.heap at hk
    rw [heq .quiet rfl] at hk
    rcases hy.becomes hk with hbefore | hcause | ⟨moment, m₁, hC, hvisits⟩
    -- The heap was so at the end of the first half, which it may have come to there.
    · rw [hm] at hbefore
      rcases hx.becomes hbefore with hbefore | hcause | ⟨moment, m₁, hC, hvisits⟩
      · exact Or.inl hbefore
      · exact Or.inr (Or.inl hcause)
      · exact Or.inr (Or.inr ⟨moment, m₁, hC, fun o n ho hs => hfirst (hvisits o n ho hs)⟩)
    · exact Or.inr (Or.inl hcause)
    · exact Or.inr (Or.inr ⟨moment, m₁, hC, fun o n ho hs => hsecond ho (hvisits o n ho hs)⟩)

/-- Where something becomes the case in a choice it does so in one of its parts. -/
theorem traced_either {f : Observer → α → Run β} {g : Observer → Halt → Run β}
    (hx : Traced K C cause x m)
    (hf : ∀ a m', x .quiet m = .ok a m' → Traced K C cause (fun o => f o a) m')
    (hg : ∀ halt m', halt ≠ .exhausted → x .quiet m = .error halt m' →
      Traced K C cause (fun o => g o halt) m')
    (hexhausted : ∀ o, g o .exhausted = throw .exhausted) :
    Traced K C cause (fun o => (x o).either (f o) (g o)) m := by
  cases hr : x .quiet m with
  | ok a m' =>
    have hleft : m' = Run.left (x .quiet m) := by rw [hr]; rfl
    refine hx.andThen hexhausted hleft (fun o ho => ?_) (hf a m' hr)
    rw [Run.either, ho, hr]
  | error halt m' =>
    have hleft : m' = Run.left (x .quiet m) := by rw [hr]; rfl
    refine hx.andThen (y := fun o => g o halt) hexhausted hleft (fun o ho => ?_) ?_
    · rw [Run.either, ho, hr]
    · by_cases hne : halt = .exhausted
      · subst hne
        exact (traced_basic (x := (throw .exhausted : Run β)) Or.inl).of_eq rfl fun o => by
          rw [hexhausted]
      · exact hg halt m' hne hr

/-- Where something becomes the case in a sequence it does so in one of its parts. -/
theorem traced_bind {f : Observer → α → Run β} (hx : Traced K C cause x m)
    (hf : ∀ a m', x .quiet m = .ok a m' → Traced K C cause (fun o => f o a) m') :
    Traced K C cause (fun o => x o >>= f o) m := by
  simp only [Run.bind_eq_either]
  exact traced_either hx hf (fun halt m' _ _ => traced_basic (x := throw halt) Or.inl) fun _ => rfl

/-- Nothing becomes the case by a change of the frame. -/
theorem traced_inFrame (frame : FrameId)
    (h : Traced K C cause x { m with current := frame }) :
    Traced K C cause (fun o => Run.inFrame frame (x o)) m :=
  h.adjust (f := fun m' => { m' with current := m.current }) rfl (fun _ => ⟨rfl, rfl⟩) fun o =>
    Run.inFrame_eq frame (x o) m

/-- Nothing becomes the case by a change of the module. -/
theorem traced_inModule (id : ModuleId) (h : Traced K C cause x { m with active? := some id }) :
    Traced K C cause (fun o => Run.inModule id (x o)) m :=
  h.adjust (f := fun m' => { m' with active? := m.active? }) rfl (fun _ => ⟨rfl, rfl⟩) fun o =>
    Run.inModule_eq id (x o) m

/-- Once the moment is over, a cause that goes back to its beginning is that it was a moment of the
kind itself. -/
theorem traced_watch {moment : Moment} (h : Traced K C (C moment m) x m) :
    Traced K C cause (fun o => o.watch moment (x o)) m := by
  have hpass : ∀ {o : Observer}, o moment m = none → o.watch moment (x o) m = x o m := by
    intro o ho
    rw [Observer.watch, ho]
  have hbreak : ∀ {o : Observer} {n : Nat}, o.Leaves n → (o moment m).isSome = true →
      Spoiled n (o.watch moment (x o) m) := by
    intro o n hleaves hs
    obtain ⟨m₁, ho⟩ := Option.isSome_iff_exists.mp hs
    refine ⟨m₁, ?_, hleaves moment m m₁ ho⟩
    rw [Observer.watch, ho]
  refine ⟨fun o n hleaves => ?_, fun hk => ?_⟩
  · cases ho : o moment m with
    | some m₁ => exact Or.inr (hbreak hleaves (by rw [ho]; rfl))
    | none =>
      show o.watch moment (x o) m = Observer.quiet.watch moment (x .quiet) m ∨
        Spoiled n (o.watch moment (x o) m)
      rw [hpass ho, Observer.watch_quiet]
      exact h.broken o n hleaves
  · rcases h.becomes hk with hbefore | hmoment | ⟨moment', m₁, hC, hvisits⟩
    · exact Or.inl hbefore
    · exact Or.inr (Or.inr ⟨moment, m, hmoment, fun o n hleaves hs => hbreak hleaves hs⟩)
    · refine Or.inr (Or.inr ⟨moment', m₁, hC, fun o n hleaves hs => ?_⟩)
      cases ho : o moment m with
      | some m₂ => exact hbreak hleaves (by rw [ho]; rfl)
      | none =>
        show Spoiled n (o.watch moment (x o) m)
        rw [hpass ho]
        exact hvisits o n hleaves hs

end Logic

end ScriptEngine
