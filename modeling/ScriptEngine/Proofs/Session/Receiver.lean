import ScriptEngine.Proofs.Evaluator.Flow
import ScriptEngine.Proofs.Session.Name

/-!
# Receivers in sessions

What the walk over the scopes lets pass at `this`, `super` and `return` never goes wrong when it
runs. A `this` stands in a class, so the frame at its distance is one that was made for a receiver,
and such a frame binds an instance. A `super` stands in a class with superclasses, so its distance
leads to the frame that holds them, and the frame that the walk passes last is that of the receiver.
A `return` stands in a function, so a statement of a module never returns to the module.

The faults that the engine keeps for these cases, and for code that runs in no module, can
therefore not arise.
-/

namespace ScriptEngine

open Scope hiding bind

/-! ## The receiver of a piece of program -/

/-- Inside of a class, the frame at the distance of `this` binds an instance. -/
theorem Ready.receiver {settled : Nat} {w : World} {m : Machine} {home : ModuleId} {stack : Stack}
    {uses : List Use} {marks : List Mark} (hr : Ready settled w m home stack uses marks)
    (hin : surrounding stack.sites ≠ .none) :
    ∃ k f decls rest, distance? stack.layers "this" = some k ∧
      m.frames.hops? m.current k = some f ∧ stack.sites.drop k = .receiver decls :: rest ∧
      ReceiverOk w m f decls rest ∧
      (surrounding stack.sites = .subclass → distance? stack.layers "super" = some (k + 1)) := by
  obtain ⟨k, decls, rest, hk, hdrop, hsuper⟩ := distance?_this hr.code.shape hin
  have hlt : k < stack.sites.length := by
    have hlayers := distance?_lt hk
    rw [Stack.layers, List.length_map] at hlayers
    rwa [Stack.sites, List.length_map]
  obtain ⟨f, hf, ho, -⟩ := hr.chain.hops.1 k hlt
  rw [hdrop] at ho
  exact ⟨k, f, decls, rest, hk, hf, hdrop, hr.sound.receivers f home decls rest ho, hsuper⟩

/-- A use that is about to be looked up stands in the class that it needs. -/
theorem Ready.inside {settled : Nat} {w : World} {m : Machine} {home : ModuleId} {stack : Stack}
    {uses : List Use} {marks : List Mark} (hr : Ready settled w m home stack uses marks) {u : Use}
    (hu : u ∈ uses) : u.Inside := by
  obtain ⟨program, ⟨-, distances, hresolve⟩, hmem⟩ := (hr.code.known u hu).accepted
  exact inside_findings hresolve u hmem

/-- What a superclass access finds: its recorded distance leads to a frame that holds nothing but
classes, and the frame one hop inside binds `this` to an instance. A `this` in the same place would
be looked up in that very frame. -/
structure FindsReceiver (sources : String → Prop) (m : Machine) (id : ExprId) (home : ModuleId)
    (k : Nat) (receiver superclasses : FrameId) (object : ObjectId) : Prop where
  active : m.active? = some home
  recorded : (m.modules.node home).distances[id]? = some (k + 1)
  inner : m.frames.hops? m.current k = some receiver
  outer : m.frames.hops? m.current (k + 1) = some superclasses
  this : m.frames.local? receiver "this" = some (.object object)
  there : object < m.store.heap.objects.size
  classes : ∀ name v, m.frames.local? superclasses name = some v → ∃ s : Superclass, v = s.toValue
  place : ∃ program, Accepted sources program ∧ ∃ u ∈ programUses program, u.id = id ∧
    distance? u.stack.layers "super" = some (k + 1) ∧ distance? u.stack.layers "this" = some k

/-- What a `this` or a superclass access that is about to be evaluated comes upon: the value of a
`this` is an instance, and a superclass access finds its receiver. -/
def Moment.ReceiverFound (sources : String → Prop) (m : Machine) : Moment → Prop
  | .evaluating (.self id keyword) => ∃ object, object < m.store.heap.objects.size ∧
    ∀ levels, evaluate (levels + 1) (.self id keyword) m = .ok (.object object) m
  | .evaluating (.super id _ _ _) => ∃ home k receiver superclasses object,
    FindsReceiver sources m id home k receiver superclasses object
  | _ => True

/-- Code that is ready finds its receiver. -/
theorem Ready.self_found {settled : Nat} {w : World} {m : Machine} {home : ModuleId}
    {stack : Stack} {id : ExprId} {keyword : Token}
    (hr : Ready settled w m home stack (exprUses stack (.self id keyword))
      (exprMarks (.self id keyword))) :
    ∃ object, object < m.store.heap.objects.size ∧
      ∀ levels, evaluate (levels + 1) (.self id keyword) m = .ok (.object object) m := by
  have hkeyword : keyword.lexeme = "this" :=
    hr.code.proper (.receiver keyword) (by simp [exprMarks])
  have hin : surrounding stack.sites ≠ .none := hr.inside (List.mem_singleton.mpr rfl)
  obtain ⟨k, f, decls, rest, hk, hf, -, ⟨object, -, hthis, hobject, -⟩, -⟩ := hr.receiver hin
  have hrecorded : (m.modules.node home).distances[id]? = some k := by
    rw [(hr.code.known _ (List.mem_singleton.mpr rfl)).recorded]
    show distance? stack.layers keyword.lexeme = some k
    rw [hkeyword, hk]
  have hget : m.frames.getAt m.current k keyword.lexeme = .ok (.object object) := by
    rw [hkeyword, Frames.getAt_eq hf, hthis]
  refine ⟨object, hobject, fun levels => ?_⟩
  rw [evaluate]
  show EStateM.bind (Run.distance? id) _ m = _
  rw [EStateM.bind, distance?_eq hr.active id, hrecorded]
  show Run.ofExcept (m.frames.getAt m.current k keyword.lexeme) m = _
  rw [hget]
  rfl

/-- A superclass access finds its receiver and the superclasses of a class in its lineage. -/
theorem Ready.super_holder {settled : Nat} {w : World} {m : Machine} {home : ModuleId}
    {stack : Stack} {id : ExprId} {keyword method : Token} (className : Token)
    (hr : Ready settled w m home stack (exprUses stack (.super id keyword className method))
      (exprMarks (.super id keyword className method))) :
    ∃ k receiver superclasses object c,
      FindsReceiver w.sources m id home k receiver superclasses object ∧
        c ∈ (m.store.heap.object object).cls.lineage ∧ HoldsSuperclasses m superclasses c := by
  have hkeyword : keyword.lexeme = "super" :=
    hr.code.proper (.access keyword method) (by simp [exprMarks])
  have hin : surrounding stack.sites = .subclass := hr.inside (List.mem_singleton.mpr rfl)
  obtain ⟨k, f, decls, rest, hk, hf, hdrop, ⟨object, c, hthis, hobject, hc, -, hsuper⟩, hplace⟩ :=
    hr.receiver (by rw [hin]; simp)
  have hd := hplace hin
  -- The constructs where `super` is found are the same as those where `this` is found.
  obtain ⟨k', decls', refs, rest', heq, hdrop'⟩ := sites_of_super hr.code.shape hd
  obtain rfl : k = k' := by omega
  rw [hdrop] at hdrop'
  obtain ⟨g, hg, -, hholds⟩ := hsuper refs rest' (List.cons.inj hdrop').2
  have hknown := hr.code.known _ (List.mem_singleton.mpr rfl)
  obtain ⟨program, ha, hu⟩ := hknown.accepted
  refine ⟨k, f, g, object, c, ⟨hr.active, ?_, hf, ?_, hthis, hobject, ?_, program, ha, _, hu, rfl,
    hd, hk⟩, hc, hholds⟩
  · rw [hknown.recorded]
    show distance? stack.layers keyword.lexeme = some (k + 1)
    rw [hkeyword, hd]
  · rw [hops?_succ, hf]
    exact hg
  · intro name v hv
    obtain ⟨s, -, heq⟩ := hholds name v hv
    exact ⟨s, heq⟩

/-- Code that is ready finds its receiver and the superclasses around it. -/
theorem Ready.super_found {settled : Nat} {w : World} {m : Machine} {home : ModuleId}
    {stack : Stack} {id : ExprId} {keyword method : Token} (className : Token)
    (hr : Ready settled w m home stack (exprUses stack (.super id keyword className method))
      (exprMarks (.super id keyword className method))) :
    ∃ k receiver superclasses object,
      FindsReceiver w.sources m id home k receiver superclasses object := by
  obtain ⟨k, f, g, object, -, h, -, -⟩ := hr.super_holder className
  exact ⟨k, f, g, object, h⟩

/-- Whatever is about to be evaluated finds the receiver that it needs. -/
theorem Foreseen.receiverFound {w : World} {moment : Moment} {m : Machine}
    (h : Foreseen w moment m) : moment.ReceiverFound w.sources m := by
  obtain ⟨w₀, -, hs, home, stack, hr⟩ := h
  cases moment with
  | executing s => trivial
  | evaluating e =>
    cases e with
    | self id keyword => exact hr.self_found
    | super id keyword className method => exact hs ▸ ⟨home, hr.super_found className⟩
    | _ => trivial

/-! ## Internal faults -/

/-- The internal faults of code that runs in no module, of `this` and of superclass accesses. -/
def receiverFaults : List InternalFault :=
  [.noActiveModule, .noThisFrame, .thisNotInstance, .superNotClass]

/-- With a bound on the depth, what is about to run halts with an internal fault. -/
def Moment.Fails (levels : Nat) (m : Machine) (fault : InternalFault) : Moment → Prop
  | .evaluating e => ∃ m', evaluate levels e m = .error (.failed (.internal fault)) m'
  | .executing s => ∃ m', execute levels s m = .error (.failed (.internal fault)) m'

/-- No program is to blame for any of these faults. -/
theorem not_blamed_receiverFaults {sources : String → Prop} {fault : InternalFault}
    (h : fault ∈ receiverFaults) : ¬ Blamed sources fault := by
  intro hblamed
  cases fault with
  | unboundLocal name distance => exact absurd h (by simp [receiverFaults])
  | _ => exact hblamed

/-- A computation that can be followed halts with none of these faults. -/
theorem Tracks.not_receiverFault {α : Type} {settled : Nat} {w : World} {m : Machine}
    {x : Observer → Run α} {Q : World → Machine → α → Prop} (h : Tracks settled w m x Q)
    {fault : InternalFault} (hf : fault ∈ receiverFaults) (m' : Machine) :
    x .quiet m ≠ .error (.failed (.internal fault)) m' := by
  intro heq
  obtain ⟨w', hreaches, -⟩ := h
  rw [heq] at hreaches
  exact not_blamed_receiverFaults hf hreaches.2

/-- At a foreseen moment none of the internal faults about receivers occurs. -/
theorem Foreseen.not_fails {w : World} {moment : Moment} {m : Machine} (h : Foreseen w moment m)
    (levels : Nat) {fault : InternalFault} (hf : fault ∈ receiverFaults) :
    ¬ moment.Fails levels m fault := by
  obtain ⟨w₀, -, -, home, stack, hr⟩ := h
  have htracks := tracks_evaluatorUnder levels
  -- Under the quiet observer the evaluator is the one that a session runs with.
  have hquiet := evaluatorUnder_quiet levels
  cases moment with
  | evaluating e =>
    rintro ⟨m', heq⟩
    refine (htracks.evaluate hr).not_receiverFault hf m' ?_
    rw [hquiet]
    exact heq
  | executing s =>
    rintro ⟨m', heq⟩
    refine (htracks.execute hr).not_receiverFault hf m' ?_
    rw [hquiet]
    exact heq

namespace Session

/-- None of these faults is reported: lines with a place begin differently, and so does the one
internal fault that a program can be blamed for. -/
theorem ne_receiverFault {sources : String → Prop} {line : String} (h : Explained sources line)
    {fault : InternalFault} (hf : fault ∈ receiverFaults) : line ≠ fault.message := by
  rintro rfl
  have hbegins : ∀ fault ∈ receiverFaults, fault.message.toList.take 3 ≠ ['[', 'l', 'i'] := by
    decide +kernel
  rcases h with ⟨rest, heq⟩ | ⟨fault', hblamed, heq⟩
  · exact hbegins fault hf (heq ▸ located_begins rest)
  · cases fault' with
    | unboundLocal name distance =>
      have hother : ∀ fault ∈ receiverFaults, fault.message.toList.take 3 ≠ ['U', 'n', 'd'] := by
        decide +kernel
      exact hother fault hf (heq ▸ unboundLocal_begins name distance)
    | _ => exact hblamed.elim

/-- In every session, at every moment, a `this` that is about to be evaluated comes to an instance
and a superclass access finds its receiver one hop inside the frame of the superclasses; nothing
that is about to run halts with one of the faults kept for the contrary, and none is reported. A
statement of a program without scope errors never returns, in any machine. -/
theorem receivers_found (files : FileSystem) (clock depth : Nat) (steps : List Step) :
    (Throughout files clock depth steps fun moment m =>
      moment.ReceiverFound (sources files steps) m ∧
        ∀ levels, ∀ fault ∈ receiverFaults, ¬ moment.Fails levels m fault) ∧
    (∀ r ∈ play depth (start files clock) steps, ∀ line ∈ r.2.machine.reporter.lines,
      ∀ fault ∈ receiverFaults, line ≠ fault.message) ∧
    ∀ program distances, Scope.resolve program = .ok distances →
      ∀ s ∈ program, ∀ levels m value m', execute levels s m ≠ .ok (.returned value) m' := by
  obtain ⟨w, hsources, hforeseen, hlines⟩ := throughout_foreseen files clock depth steps
  refine ⟨hforeseen.mono fun moment m hm => ?_, fun r hr line hline fault hf => ?_, ?_⟩
  · exact ⟨hsources ▸ hm.receiverFound, fun levels fault hf => hm.not_fails levels hf⟩
  · exact ne_receiverFault (hlines r hr line hline) hf
  · intro program distances hresolve s hs levels m value m' heq
    have hnormal := goesOn_execute levels s (outside_program hresolve s hs) m _ m' heq
    cases hnormal

end Session

end ScriptEngine
