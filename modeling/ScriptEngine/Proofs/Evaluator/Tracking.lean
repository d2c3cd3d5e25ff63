import ScriptEngine.Proofs.Evaluator.Step

/-!
# Following a run

`Tracks` follows a computation from a sound machine to its end. The machine that it leaves behind
is sound in a world that has only grown, it stands in the same place unless the computation was
broken off, what halts it has a place or is a fault that the program is to blame for, and no
observer that keeps quiet at foreseen moments can tell that it is there. Rules for sequencing, for
the frames and the heap, and for names follow; all of the evaluator is built from them.

Where a computation goes on after a halt, as a try statement does, sequencing is not enough:
`Run.either` names what is common to both, and its rule is the one that all others rest on.
-/

namespace ScriptEngine

open Scope hiding bind

/-- A machine that a computation has come to. -/
structure Advances (settled : Nat) (kept : Machine → Prop) (w : World) (m : Machine)
    (w' : World) (m' : Machine) : Prop where
  moves : Moves settled w m w' m'
  sound : Sound settled w' m'
  kept : kept m'

/-- An outcome that a computation may have. -/
def Reaches {α : Type} (settled : Nat) (kept : Machine → Prop) (w : World) (m : Machine)
    (w' : World) (Q : World → Machine → α → Prop) : EStateM.Result Halt Machine α → Prop
  | .ok a m' => Advances settled kept w m w' m' ∧ Q w' m' a
  | .error halt m' =>
    Advances settled (fun m' => halt = .exhausted ∨ kept m') w m w' m' ∧ HaltOk w' m' halt

/-- The computation has such an outcome, and no observer that keeps quiet at foreseen moments
changes it. -/
def TracksTo {α : Type} (settled : Nat) (kept : Machine → Prop) (w : World) (m : Machine)
    (x : Observer → Run α) (Q : World → Machine → α → Prop) : Prop :=
  ∃ w', Reaches settled kept w m w' Q (x .quiet m) ∧
    ∀ o : Observer, o.SilentOn w' → x o m = x .quiet m

/-- The same for a computation that comes back to its place. -/
def Tracks {α : Type} (settled : Nat) (w : World) (m : Machine) (x : Observer → Run α)
    (Q : World → Machine → α → Prop) : Prop :=
  TracksTo settled m.SamePlace w m x Q

/-- The same for a computation that may end anywhere. -/
def Passes {α : Type} (settled : Nat) (w : World) (m : Machine) (x : Observer → Run α)
    (Q : World → Machine → α → Prop) : Prop :=
  TracksTo settled (fun _ => True) w m x Q

/-- An observer that keeps quiet in a later world does so in an earlier one. -/
theorem Observer.SilentOn.mono {o : Observer} {settled : Nat} {w w' : World} {m m' : Machine}
    (h : o.SilentOn w') (hm : Moves settled w m w' m') : o.SilentOn w := by
  rintro moment machine ⟨w₀, ho, hs, hready⟩
  refine h moment machine ⟨w₀, fun f origin hf => hm.origins f origin (ho f origin hf), ?_, hready⟩
  rw [hs, hm.sources]

section Logic

variable {α β : Type} {settled : Nat} {kept kept' : Machine → Prop} {w w' w'' : World}
  {m m' m'' : Machine} {Q Q' : World → Machine → α → Prop} {R : World → Machine → β → Prop}

theorem Advances.trans (h : Advances settled kept' w m w' m')
    (h' : Advances settled kept w' m' w'' m'') :
    Advances settled kept w m w'' m'' :=
  ⟨h.moves.trans h'.moves, h'.sound, h'.kept⟩

/-- An outcome after an advance is an outcome. -/
theorem Reaches.trans {r : EStateM.Result Halt Machine α} (h : Advances settled kept' w m w' m')
    (hr : Reaches settled kept w' m' w'' Q r) : Reaches settled kept w m w'' Q r := by
  cases r with
  | ok a m'' => exact ⟨h.trans hr.1, hr.2⟩
  | error halt m'' => exact ⟨h.trans hr.1, hr.2⟩

/-- Every outcome has a machine to which the run has moved. -/
theorem Reaches.moves {r : EStateM.Result Halt Machine α} (h : Reaches settled kept w m w' Q r) :
    ∃ m', Moves settled w m w' m' := by
  cases r with
  | ok a m' => exact ⟨m', h.1.moves⟩
  | error halt m' => exact ⟨m', h.1.moves⟩

theorem Reaches.mono {r : EStateM.Result Halt Machine α} (h : Reaches settled kept' w m w' Q r)
    (hkept : ∀ m', kept' m' → kept m')
    (hQ : ∀ m' a, Advances settled kept' w m w' m' → Q w' m' a → Q' w' m' a) :
    Reaches settled kept w m w' Q' r := by
  cases r with
  | ok a m' => exact ⟨⟨h.1.moves, h.1.sound, hkept _ h.1.kept⟩, hQ m' a h.1 h.2⟩
  | error halt m' => exact ⟨⟨h.1.moves, h.1.sound, h.1.kept.imp_right (hkept _)⟩, h.2⟩

/-- A computation that is followed may be said to do less. -/
theorem TracksTo.mono {x : Observer → Run α} (h : TracksTo settled kept' w m x Q)
    (hkept : ∀ m', kept' m' → kept m')
    (hQ : ∀ w' m' a, Advances settled kept' w m w' m' → Q w' m' a → Q' w' m' a) :
    TracksTo settled kept w m x Q' := by
  obtain ⟨w', hr, ho⟩ := h
  exact ⟨w', hr.mono hkept (hQ w'), ho⟩

/-! ## Sequencing -/

/-- A choice can be followed if its cases can, each in the machine that the first part leaves. -/
theorem tracksTo_either {x : Observer → Run α} {f : Observer → α → Run β}
    {g : Observer → Halt → Run β} (hx : TracksTo settled kept' w m x Q)
    (hf : ∀ w' m' a, Advances settled kept' w m w' m' → Q w' m' a →
      TracksTo settled kept w' m' (fun o => f o a) R)
    (hg : ∀ w' m' halt, Advances settled (fun m' => halt = .exhausted ∨ kept' m') w m w' m' →
      HaltOk w' m' halt → TracksTo settled kept w' m' (fun o => g o halt) R) :
    TracksTo settled kept w m (fun o => (x o).either (f o) (g o)) R := by
  obtain ⟨w₁, h₁, ho₁⟩ := hx
  -- The second half starts where the first has ended, and is told apart by nobody either.
  have hgo : ∀ (y : Observer → Run β) (m₁ : Machine) (kept₁ : Machine → Prop),
      (∀ o, x o m = x .quiet m → (x o).either (f o) (g o) m = y o m₁) →
      Advances settled kept₁ w m w₁ m₁ → TracksTo settled kept w₁ m₁ y R →
      TracksTo settled kept w m (fun o => (x o).either (f o) (g o)) R := by
    intro y m₁ kept₁ heq hadv ⟨w₂, h₂, ho₂⟩
    refine ⟨w₂, ?_, fun o hso => ?_⟩
    · show Reaches settled kept w m w₂ R ((x .quiet).either (f .quiet) (g .quiet) m)
      rw [heq .quiet rfl]
      exact Reaches.trans hadv h₂
    · obtain ⟨m₂, hm₂⟩ := h₂.moves
      -- A moment that the first half foresees is also foreseen in the larger world of the second.
      show (x o).either (f o) (g o) m = (x .quiet).either (f .quiet) (g .quiet) m
      rw [heq o (ho₁ o (hso.mono hm₂)), heq .quiet rfl, ho₂ o hso]
  cases hr : x .quiet m with
  | ok a m₁ =>
    rw [hr] at h₁
    refine hgo (fun o => f o a) m₁ _ (fun o ho => ?_) h₁.1 (hf w₁ m₁ a h₁.1 h₁.2)
    rw [Run.either, ho, hr]
  | error halt m₁ =>
    rw [hr] at h₁
    refine hgo (fun o => g o halt) m₁ _ (fun o ho => ?_) h₁.1 (hg w₁ m₁ halt h₁.1 h₁.2)
    rw [Run.either, ho, hr]

/-- A halt can be followed if it has a place or a fault to blame. -/
theorem tracksTo_throw {halt : Halt} (hs : Sound settled w m) (hk : halt = .exhausted ∨ kept m)
    (hh : HaltOk w m halt) : TracksTo settled kept w m (fun _ => (throw halt : Run α)) Q :=
  ⟨w, ⟨⟨.refl settled w m, hs, hk⟩, hh⟩, fun _ _ => rfl⟩

/-- A sequence can be followed if its parts can. -/
theorem tracksTo_bind {x : Observer → Run α} {f : Observer → α → Run β}
    (hx : TracksTo settled kept' w m x Q) (hkept : ∀ m', kept' m' → kept m')
    (hf : ∀ w' m' a, Advances settled kept' w m w' m' → Q w' m' a →
      TracksTo settled kept w' m' (fun o => f o a) R) :
    TracksTo settled kept w m (fun o => x o >>= f o) R := by
  simp only [Run.bind_eq_either]
  refine tracksTo_either hx hf fun w' m' halt ha hh => ?_
  exact tracksTo_throw ha.sound (ha.kept.imp_right (hkept m')) hh

/-- A sequence whose parts come back to their place can be followed and comes back. -/
theorem tracks_bind {x : Observer → Run α} {f : Observer → α → Run β} (hx : Tracks settled w m x Q)
    (hf : ∀ w' m' a, Advances settled m.SamePlace w m w' m' → Q w' m' a →
      Tracks settled w' m' (fun o => f o a) R) :
    Tracks settled w m (fun o => x o >>= f o) R :=
  -- The two halves keep different places, each its own; the first has come back to that of `m`.
  tracksTo_bind hx (fun _ h => h) fun w' m' a ha hq =>
    (hf w' m' a ha hq).mono (fun _ hk => ha.kept.trans hk) fun _ _ _ _ h => h

/-- More may be said of the value in the machine that was advanced to. -/
theorem Tracks.post {x : Observer → Run α} (h : Tracks settled w m x Q)
    (hQ : ∀ w' m' a, Advances settled m.SamePlace w m w' m' → Q w' m' a → Q' w' m' a) :
    Tracks settled w m x Q' :=
  TracksTo.mono h (fun _ hk => hk) hQ

/-- What the values of a computation are like may be known from elsewhere. -/
theorem Tracks.also {x : Observer → Run α} (h : Tracks settled w m x Q) {P : Machine → α → Prop}
    (hP : ∀ a m', x .quiet m = .ok a m' → P m' a) :
    Tracks settled w m x fun w' m' a => Q w' m' a ∧ P m' a := by
  obtain ⟨w', hr, ho⟩ := h
  refine ⟨w', ?_, ho⟩
  cases hx : x .quiet m with
  | ok a m' =>
    rw [hx] at hr
    exact ⟨hr.1, hr.2, hP a m' hx⟩
  | error halt m' =>
    rw [hx] at hr
    exact hr

/-- What is known when the computation has given a value. -/
theorem Tracks.ok {x : Observer → Run α} (h : Tracks settled w m x Q) {a : α}
    (hx : x .quiet m = .ok a m') :
    ∃ w', Advances settled m.SamePlace w m w' m' ∧ Q w' m' a := by
  obtain ⟨w', hr, -⟩ := h
  rw [hx] at hr
  exact ⟨w', hr⟩

theorem tracks_pure {a : α} (hs : Sound settled w m) (h : Q w m a) :
    Tracks settled w m (fun _ => pure a) Q :=
  ⟨w, ⟨⟨.refl settled w m, hs, .refl m⟩, h⟩, fun _ _ => rfl⟩

theorem tracks_throw {halt : Halt} (hs : Sound settled w m) (h : HaltOk w m halt) :
    Tracks settled w m (fun _ => (throw halt : Run α)) Q :=
  tracksTo_throw hs (Or.inr (.refl m)) h

/-- A failure at a token can be followed, for it has a place. -/
theorem tracks_failAt (hs : Sound settled w m) (token : Token) (cause : Cause) :
    Tracks settled w m (fun _ => (Run.failAt token cause : Run α)) Q :=
  tracks_throw hs trivial

/-- A check that fails ends the computation. -/
theorem tracks_failAt_bind (hs : Sound settled w m) (token : Token) (cause : Cause)
    (f : Observer → α → Run β) :
    Tracks settled w m (fun o => Run.failAt token cause >>= f o) R :=
  tracks_bind (tracks_failAt hs token cause (Q := fun _ _ _ => False)) fun _ _ _ _ h => h.elim

/-- What is done already can be followed if its error is excused. -/
theorem tracks_ofExcept {r : Except RuntimeError α} (hs : Sound settled w m)
    (hok : ∀ a, r = .ok a → Q w m a) (herror : ∀ e, r = .error e → Excused w.sources e) :
    Tracks settled w m (fun _ => Run.ofExcept r) Q := by
  cases r with
  | ok a => exact tracks_pure hs (hok a rfl)
  | error e => exact tracks_throw hs (herror e rfl)

/-- A computation that only reads leads straight to what follows. -/
theorem tracks_read {x : Run α} {f : Observer → α → Run β} {a : α} (hx : x m = .ok a m)
    (h : Tracks settled w m (fun o => f o a) R) : Tracks settled w m (fun o => x >>= f o) R := by
  have heq : ∀ o, (x >>= f o) m = f o a m := by
    intro o
    show EStateM.bind x (f o) m = f o a m
    rw [EStateM.bind, hx]
  obtain ⟨w', hr, ho⟩ := h
  refine ⟨w', ?_, fun o hso => ?_⟩
  · show Reaches settled m.SamePlace w m w' R ((x >>= f .quiet) m)
    rw [heq]
    exact hr
  · show (x >>= f o) m = (x >>= f .quiet) m
    rw [heq, heq]
    exact ho o hso

/-- Reading the machine can be followed by what is done with it. -/
theorem tracks_get {f : Observer → Machine → Run β} (h : Tracks settled w m (fun o => f o m) R) :
    Tracks settled w m (fun o => get >>= f o) R :=
  tracks_read rfl h

theorem tracks_heap {f : Observer → Heap → Run β}
    (h : Tracks settled w m (fun o => f o m.store.heap) R) :
    Tracks settled w m (fun o => Run.heap >>= f o) R :=
  tracks_read rfl h

/-- A change of the machine that is an advance can be followed. -/
theorem tracks_modify {f : Machine → Machine} {Q : World → Machine → Unit → Prop}
    (ha : Advances settled m.SamePlace w m w' (f m)) (hq : Q w' (f m) ()) :
    Tracks settled w m (fun _ => modify f) Q :=
  ⟨w', ⟨ha, hq⟩, fun _ _ => rfl⟩

theorem tracks_modifyGet {f : Machine → α × Machine}
    (ha : Advances settled m.SamePlace w m w' (f m).2) (hq : Q w' (f m).2 (f m).1) :
    Tracks settled w m (fun _ => (modifyGet f : Run α)) Q :=
  ⟨w', ⟨ha, hq⟩, fun _ _ => rfl⟩

/-- What comes back to its place ends anywhere. -/
theorem Tracks.passes {x : Observer → Run α} (h : Tracks settled w m x Q) :
    Passes settled w m x Q :=
  TracksTo.mono h (fun _ _ => trivial) fun _ _ _ _ hq => hq

/-- A sequence can be followed, wherever its parts end. -/
theorem passes_bind {x : Observer → Run α} {f : Observer → α → Run β} (hx : Passes settled w m x Q)
    (hf : ∀ w' m' a, Advances settled (fun _ => True) w m w' m' → Q w' m' a →
      Passes settled w' m' (fun o => f o a) R) :
    Passes settled w m (fun o => x o >>= f o) R :=
  tracksTo_bind hx (fun _ h => h) hf

/-- A change of the machine that is sound can be followed, also one of the place. -/
theorem passes_modify {f : Machine → Machine} {Q : World → Machine → Unit → Prop}
    (hm : Moves settled w m w' (f m)) (hs : Sound settled w' (f m)) (hq : Q w' (f m) ()) :
    Passes settled w m (fun _ => modify f) Q :=
  ⟨w', ⟨⟨hm, hs, trivial⟩, hq⟩, fun _ _ => rfl⟩

/-- A computation that only its bound on depth can stop comes back if its place is restored at
the end. -/
theorem tracks_restore {x : Observer → Run α} {f : Machine → Machine}
    (hx : Passes settled w m x fun _ _ _ => True)
    (hsettled : Evaluator.Settled (fun _ => True) (x .quiet m))
    (hf : ∀ w' m', Sound settled w' m' → Moves settled w' m' w' (f m') ∧ Sound settled w' (f m') ∧
      m.SamePlace (f m')) :
    Tracks settled w m (fun o => x o >>= fun _ => modify f) fun _ _ _ => True := by
  obtain ⟨w', hr, ho⟩ := hx
  refine ⟨w', ?_, fun o hso => ?_⟩
  · show Reaches settled m.SamePlace w m w' _ (EStateM.bind (x .quiet) _ m)
    unfold EStateM.bind
    cases hq : x .quiet m with
    | ok a m' =>
      rw [hq] at hr
      obtain ⟨hm, hs, hp⟩ := hf w' m' hr.1.sound
      exact ⟨⟨hr.1.moves.trans hm, hs, hp⟩, trivial⟩
    | error halt m' =>
      -- What was broken off does not have to come back, and nothing else can have halted it.
      rw [hq] at hr hsettled
      exact ⟨⟨hr.1.moves, hr.1.sound, Or.inl hsettled⟩, hr.2⟩
  · show EStateM.bind (x o) _ m = EStateM.bind (x .quiet) _ m
    unfold EStateM.bind
    rw [ho o hso]

/-! ## Settling instances for a while -/

/-- A move under which more instances are settled is one under which fewer are. -/
theorem Moves.weaken {settled' : Nat} (h : Moves settled' w m w' m') (hle : settled ≤ settled') :
    Moves settled w m w' m' :=
  { h with heap := h.heap.weaken hle }

theorem Sound.weaken {settled' : Nat} (h : Sound settled' w m) (hle : settled ≤ settled') :
    Sound settled w m :=
  { h with bounded := Nat.le_trans hle h.bounded }

/-- A computation that treats more instances as settled may be followed as one that does not. -/
theorem Tracks.resettle {settled' : Nat} {x : Observer → Run α} (h : Tracks settled' w m x Q)
    (hle : settled ≤ settled') :
    Tracks settled w m x fun w' m' a =>
      m.store.heap.Grows settled' m'.store.heap ∧ Q w' m' a := by
  obtain ⟨w', hr, ho⟩ := h
  refine ⟨w', ?_, ho⟩
  cases hx : x .quiet m with
  | ok a m' =>
    rw [hx] at hr
    exact ⟨⟨hr.1.moves.weaken hle, hr.1.sound.weaken hle, hr.1.kept⟩, hr.1.moves.heap, hr.2⟩
  | error halt m' =>
    rw [hx] at hr
    exact ⟨⟨hr.1.moves.weaken hle, hr.1.sound.weaken hle, hr.1.kept⟩, hr.2⟩

end Logic

section Parts

variable {α : Type} {settled : Nat} {w w' : World} {m m' : Machine}
  {Q R : World → Machine → α → Prop}

/-! ## The place -/

/-- What runs in another frame can be followed if it can there. -/
theorem tracks_inFrame {body : Observer → Run α} {frame : FrameId}
    (hb : Tracks settled w { m with current := frame } body Q)
    (hQ : ∀ w' m' m'' a, Moves settled w' m' w' m'' → Q w' m' a → R w' m'' a) :
    Tracks settled w m (fun o => Run.inFrame frame (body o)) R := by
  -- Sequencing does not apply: the frame is put back also after a halt.
  obtain ⟨w', hr, ho⟩ := hb
  refine ⟨w', ?_, fun o hso => ?_⟩
  · have hin : Moves settled w m w { m with current := frame } := .of_same w ⟨rfl, rfl, rfl, rfl⟩
    have hout : ∀ m', Moves settled w' m' w' { m' with current := m.current } := fun m' =>
      .of_same w' ⟨rfl, rfl, rfl, rfl⟩
    unfold Run.inFrame
    dsimp only
    cases hb : body .quiet { m with current := frame } with
    | ok a m' =>
      rw [hb] at hr
      exact ⟨⟨(hin.trans hr.1.moves).trans (hout m'), hr.1.sound.place m'.active? m.current,
        hr.1.kept.1, rfl⟩, hQ w' m' _ a (hout m') hr.2⟩
    | error halt m' =>
      rw [hb] at hr
      exact ⟨⟨(hin.trans hr.1.moves).trans (hout m'), hr.1.sound.place m'.active? m.current,
        hr.1.kept.imp_right fun hk => ⟨hk.1, rfl⟩⟩, hr.2.mono (hout m')⟩
  · unfold Run.inFrame
    dsimp only
    rw [ho o hso]

/-- What runs as another module can be followed if it can there. -/
theorem tracks_inModule {body : Observer → Run α} {id : ModuleId}
    (hb : Tracks settled w { m with active? := some id } body Q)
    (hQ : ∀ w' m' m'' a, Moves settled w' m' w' m'' → Q w' m' a → R w' m'' a) :
    Tracks settled w m (fun o => Run.inModule id (body o)) R := by
  obtain ⟨w', hr, ho⟩ := hb
  refine ⟨w', ?_, fun o hso => ?_⟩
  · have hin : Moves settled w m w { m with active? := some id } := .of_same w ⟨rfl, rfl, rfl, rfl⟩
    have hout : ∀ m', Moves settled w' m' w' { m' with active? := m.active? } := fun m' =>
      .of_same w' ⟨rfl, rfl, rfl, rfl⟩
    unfold Run.inModule
    dsimp only
    cases hb : body .quiet { m with active? := some id } with
    | ok a m' =>
      rw [hb] at hr
      exact ⟨⟨(hin.trans hr.1.moves).trans (hout m'), hr.1.sound.place m.active? m'.current,
        rfl, hr.1.kept.2⟩, hQ w' m' _ a (hout m') hr.2⟩
    | error halt m' =>
      rw [hb] at hr
      exact ⟨⟨(hin.trans hr.1.moves).trans (hout m'), hr.1.sound.place m.active? m'.current,
        hr.1.kept.imp_right fun hk => ⟨rfl, hk.2⟩⟩, hr.2.mono (hout m')⟩
  · unfold Run.inModule
    dsimp only
    rw [ho o hso]

/-! ## The heap -/

/-- A value that fits the heap that a computation has left. -/
theorem ValueOk.of_fits {v : Value} (hv : v.Fits (CodeValue w m) m'.store.heap)
    (hm : Moves settled w m w' m') : ValueOk w' m' v :=
  Value.Fits.mono hv (.refl 0 _) fun _ hc => hc.mono hm

/-- A fit heap that has grown is an advance. -/
theorem advances_withHeap (hs : Sound settled w m) {h : Heap} (hg : m.store.heap.Grows settled h)
    (hfit : h.Fit (CodeValue w m)) : Advances settled m.SamePlace w m w (m.withHeap h) :=
  ⟨.withHeap hg, hs.withHeap hg hfit, .refl m⟩

/-- A change of the heap can be followed if the heap grows and stays fit. -/
theorem tracks_modifyHeap (hs : Sound settled w m) {f : Heap → Heap}
    (hg : m.store.heap.Grows settled (f m.store.heap))
    (hfit : (f m.store.heap).Fit (CodeValue w m)) :
    Tracks settled w m (fun _ => Run.modifyHeap f) fun w' m' _ =>
      w' = w ∧ m' = m.withHeap (f m.store.heap) :=
  tracks_modify (advances_withHeap hs hg hfit) ⟨rfl, rfl⟩

theorem tracks_onHeap (hs : Sound settled w m) {f : Heap → α × Heap}
    (hg : m.store.heap.Grows settled (f m.store.heap).2)
    (hfit : (f m.store.heap).2.Fit (CodeValue w m)) :
    Tracks settled w m (fun _ => Run.onHeap f) fun w' m' a =>
      w' = w ∧ m' = m.withHeap (f m.store.heap).2 ∧ a = (f m.store.heap).1 :=
  tracks_modifyGet (advances_withHeap hs hg hfit) ⟨rfl, rfl, rfl⟩

/-- Giving out a number can be followed. -/
theorem tracks_fresh (hs : Sound settled w m) :
    Tracks settled w m (fun _ => Run.onHeap Heap.fresh) fun w' m' _ =>
      w' = w ∧ m' = m.withHeap m.store.heap.fresh.2 :=
  (tracks_onHeap hs (Heap.grows_fresh _ _) (hs.heap.of_eq rfl rfl rfl rfl)).post
    fun _ _ _ _ h => ⟨h.1, h.2.1⟩

/-- A built-in function can be followed if it keeps the heap fit. -/
theorem tracks_action (hs : Sound settled w m) {token : Token} {a : Action α} {P : α → Heap → Prop}
    (h : a.Keeps (CodeValue w m) settled m.store P) :
    Tracks settled w m (fun _ => Run.action token a) fun w' m' v => w' = w ∧ P v m'.store.heap := by
  -- A built-in may also write output and read the clock. Only its heap matters to the world.
  have hstore : ∀ s' : Store, m.store.heap.Grows settled s'.heap → s'.heap.Fit (CodeValue w m) →
      Advances settled m.SamePlace w m w { m with store := s' } := by
    intro s' hg hfit
    have hsame : (m.withHeap s'.heap).SameContents { m with store := s' } := ⟨rfl, rfl, rfl, rfl⟩
    exact ⟨(Moves.withHeap hg).trans (.of_same w hsame),
      (hs.withHeap hg hfit).of_same hsame (Nat.le_refl _) fun _ hl => .inl hl, .refl m⟩
  refine ⟨w, ?_, fun _ _ => rfl⟩
  unfold Action.Keeps at h
  unfold Run.action
  dsimp only
  cases hr : a m.store with
  | ok v s' =>
    rw [hr] at h
    exact ⟨hstore s' h.1 h.2.1, rfl, h.2.2⟩
  | error fault s' =>
    rw [hr] at h
    obtain ⟨hm, hsound, hp⟩ := hstore s' h.1 h.2
    exact ⟨⟨hm, hsound, Or.inr hp⟩, trivial⟩

/-- A built-in function that answers with a value that fits. -/
theorem tracks_action_value (hs : Sound settled w m) {token : Token} {a : Action Value}
    (h : a.Keeps (CodeValue w m) settled m.store fun v h => v.Fits (CodeValue w m) h) :
    Tracks settled w m (fun _ => Run.action token a) ValueOk :=
  (tracks_action hs h).post fun _ _ _ ha hv => .of_fits hv.2 ha.moves

/-! ## Frames -/

/-- The frame that `newFrame` makes, with its bindings. -/
def boundFrame (enclosing : FrameId) (bindings : List (String × Value)) : Frame :=
  ⟨bindings.foldl (fun bs b => putBinding b.1 b.2 bs) [], some enclosing⟩

/-- What a new frame binds is among its bindings. -/
theorem boundFrame_lookup (enclosing : FrameId) {bindings : List (String × Value)} {name : String}
    {v : Value} (h : (boundFrame enclosing bindings).bindings.lookup name = some v) :
    (name, v) ∈ bindings := by
  rcases foldl_putBinding_lookup bindings [] h with hnil | hmem
  · simp at hnil
  · exact hmem

/-- The new frame is found with its bindings. -/
theorem local?_withFrame (frame : Frame) (name : String) :
    (m.withFrame frame).frames.local? m.frames.frames.size name = frame.bindings.lookup name := by
  rw [Frames.local?, Machine.withFrame, Frames.frame_add, if_pos rfl]

/-- The new frame is found with its outer frame. -/
theorem enclosing?_withFrame (frame : Frame) :
    ((m.withFrame frame).frames.frame m.frames.frames.size).enclosing? = frame.enclosing? := by
  rw [Machine.withFrame, Frames.frame_add, if_pos rfl]

/-- A frame that is made for a scope inside others extends the chain of their frames. -/
theorem Chain.withFrame (hs : Sound settled w m) {home : ModuleId} {enclosing : FrameId}
    {outer : Stack}
    (hc : Chain w m home enclosing outer) (site : Site) {layer : Layer}
    {bindings : List (String × Value)}
    (hnames : ∀ entry ∈ layer, entry.1 ∈ bindings.map (·.1)) :
    Chain (w.withOrigin ⟨home, site :: outer.sites⟩) (m.withFrame (boundFrame enclosing bindings))
      home m.frames.frames.size ((site, layer) :: outer) := by
  refine ⟨hs.labelled ▸ w.withOrigin_get _, fun name hname => ?_, enclosing, ?_, ?_⟩
  · rw [Frames.binds, local?_withFrame]
    exact foldl_putBinding_isSome bindings [] (.inr (hnames _ (mem_of_lookup hname)))
  · exact enclosing?_withFrame _
  · exact hc.mono (.withFrame hs _ _)

/-- A new frame can be followed, and it stands for the scope that it was made for. -/
theorem tracks_newFrame (hs : Sound settled w m) {home : ModuleId} {enclosing : FrameId}
    {outer : Stack}
    (hc : Chain w m home enclosing outer) (site : Site) {layer : Layer}
    {bindings : List (String × Value)} (hvalues : ∀ b ∈ bindings, ValueOk w m b.2)
    (hnames : ∀ entry ∈ layer, entry.1 ∈ bindings.map (·.1))
    (hsite : ∀ decls, site ≠ .receiver decls) :
    Tracks settled w m (fun _ => Run.newFrame enclosing bindings) fun w' m' f =>
      Chain w' m' home f ((site, layer) :: outer) ∧
        ∀ name v, m'.frames.local? f name = some v → (name, v) ∈ bindings := by
  have hadvances : Advances settled m.SamePlace w m (w.withOrigin ⟨home, site :: outer.sites⟩)
      (m.withFrame (boundFrame enclosing bindings)) := by
    refine ⟨.withFrame hs _ _, hs.withFrame (fun name v hv => ?_) fun decls sites heq => ?_,
      .refl m⟩
    · exact hvalues _ (boundFrame_lookup enclosing hv)
    -- Frames for a `this` owe more than their bindings; they are made by `advances_receiver`.
    · exact absurd (List.cons.inj heq).1 (hsite decls)
  refine tracks_modifyGet hadvances ⟨hc.withFrame hs site hnames, fun name v hv => ?_⟩
  refine boundFrame_lookup enclosing ?_
  rw [← local?_withFrame (m := m)]
  exact hv

end Parts

end ScriptEngine
