import ScriptEngine.Proofs.Evaluator.ClosingStep
import ScriptEngine.Proofs.Session.Instance
import ScriptEngine.Proofs.Session.Load

/-!
# Which steps of a session close a slot

If a step of a session closes the slot of a superclass in an instance, then it visits a moment that
closes this slot, in one of the four ways of `Slot.ClosesAt`: an initializer that is bound to the
instance comes back, or the native initializer of a built-in superclass does, or a class without an
initializer skips the superclass, or a method asks a superclass without an initializer of its own
for one. In the last case nothing has to be called: asking is enough.

So a call of a class with an initializer of its own, which checks all slots at its end, gives an
instance only if it has visited such a moment for every direct superclass.
-/

namespace ScriptEngine

variable {slot : Slot} {levels : Nat}

/-- Runs the part of a program that a moment is about. -/
def Moment.run (ev : Evaluator) : Moment → Run Unit
  | .evaluating e => do let _ ← ev.evaluate e
  | .executing s => do let _ ← ev.execute s

/-- A moment closes a slot at the moments that it visits only. -/
theorem Moment.traced_run {cause : Prop} (moment : Moment) (m : Machine) :
    slot.Traced cause (fun o => moment.run (evaluatorUnder o levels)) m := by
  cases moment with
  | evaluating e =>
    exact traced_bind ((tracedUpTo slot levels).evaluate e) fun _ _ _ => Slot.traced_pure _
  | executing s =>
    exact traced_bind ((tracedUpTo slot levels).execute s) fun _ _ _ => Slot.traced_pure _

/-- A part of a program that closes a slot visits a moment that closes it. -/
theorem Moment.run_closes (levels : Nat) (moment : Moment) (m : Machine) (slot : Slot)
    (hclosed : slot.Closed (Run.left (moment.run (evaluatorUpTo levels) m)).store.heap) :
    slot.Closed m.store.heap ∨ ∃ moment' m', slot.ClosesAt moment' m' ∧
      Visits (fun o => moment.run (evaluatorUnder o levels)) m moment' m' := by
  have htraced : slot.Traced False (fun o => moment.run (evaluatorUnder o levels)) m :=
    moment.traced_run m
  have hbecomes := htraced.becomes
  simp only [evaluatorUnder_quiet] at hbecomes
  exact (hbecomes hclosed).imp_right fun hrest => hrest.resolve_left id

/-- Compiling a source leaves the instances. -/
theorem Evaluator.compile?_objects (source : String) (m : Machine) :
    (Run.left (Evaluator.compile? source m)).store.heap.objects = m.store.heap.objects := by
  obtain ⟨statements?, reporter, nextExpr, hcompile, -⟩ := Evaluator.compile?_spec source m
  rw [hcompile]
  rfl

namespace Session

/-- A step of a session comes to a moment: observers that would break it off there do so, there or
before. -/
def StepVisits (depth : Nat) (s : Session) (step : Step) (moment : Moment) (m : Machine) : Prop :=
  ∀ (o : Observer) n, o.Leaves n → (o moment m).isSome = true →
    (s.takeUnder o depth step).1 = .unfinished ∧
      (s.takeUnder o depth step).2.machine.nextExpr = n

/-- Running a source closes a slot at the moments that it visits only. -/
theorem traced_runSource {cause : Prop} (root : Path) (source : String) (m : Machine) :
    slot.Traced cause (fun o => runSourceUnder o levels root source) m := by
  refine traced_bind (Slot.traced_of_objects fun _ => rfl) fun _ m₁ _ => ?_
  refine traced_bind (Slot.traced_of_objects (Evaluator.compile?_objects source))
    fun statements? _ _ => ?_
  cases statements? with
  | none => exact Slot.traced_pure _
  | some statements =>
    exact traced_bind (Evaluator.traced_runRoot (tracedUpTo slot levels) root statements)
      fun _ _ _ => Slot.traced_pure _

/-- A step that closes a slot visits a moment that closes it. -/
theorem take_closes (depth : Nat) (s : Session) (step : Step) (slot : Slot)
    (hclosed : slot.Closed (s.take depth step).2.machine.store.heap) :
    slot.Closed s.machine.store.heap ∨
      ∃ moment m, slot.ClosesAt moment m ∧ s.StepVisits depth step moment m := by
  rw [← takeUnder_quiet] at hclosed
  unfold takeUnder at hclosed
  unfold StepVisits takeUnder
  cases hopened : s.opened step with
  | error fault =>
    rw [hopened] at hclosed
    exact Or.inl hclosed
  | ok pair =>
    obtain ⟨text, s'⟩ := pair
    rw [hopened] at hclosed
    dsimp only at hclosed ⊢
    rw [machine_left] at hclosed
    have htraced : slot.Traced False (fun o => runSourceUnder o depth s'.root text) s'.machine :=
      traced_runSource s'.root text s'.machine
    rcases htraced.becomes hclosed with hbefore | hfalse | ⟨moment, m, hcloses, hvisits⟩
    · exact Or.inl (opened_machine hopened ▸ hbefore)
    · exact hfalse.elim
    · refine Or.inr ⟨moment, m, hcloses, fun o n ho hspeaks => ?_⟩
      obtain ⟨m', hr, hn⟩ := hvisits o n ho hspeaks
      dsimp only at hr
      rw [hr]
      exact ⟨rfl, hn⟩

end Session

/-- A call of a class with an initializer of its own runs the initializer, bound to a new instance
whose superclass slots are open, and does nothing after that but look at the slots. -/
theorem Evaluator.callTarget_ownInit {ev : Evaluator} {c : Class} {init : Function}
    {args : List Value} {paren : Token} {m m' : Machine} {v : Value} (hown : c.ownInit? = some init)
    (hcall : ev.callTarget (.cls c) args paren m = .ok v m') :
    ∃ id bound m₁ u, v = .object id ∧ bound.owner? = init.owner? ∧
      (∀ n name, ¬ Slot.Closed ⟨id, n, name⟩ m₁.store.heap) ∧
      ev.callFunction bound args m₁ = .ok u m' ∧
      ∀ ev' : Evaluator, ∃ k : Value → Run Value, ev'.callTarget (.cls c) args paren m =
        (ev'.callFunction bound args >>= k) m₁ := by
  obtain ⟨_, m₁, harity, hrest⟩ := Run.bind_ok hcall
  obtain ⟨id, m₂, hnew, hrest⟩ := Run.bind_ok hrest
  rw [hown] at hrest
  obtain ⟨bound, m₃, hbound, hrest⟩ := Run.bind_ok hrest
  obtain ⟨u, m₄, hrun, hrest⟩ := Run.bind_ok hrest
  rw [Run.heap_bind] at hrest
  obtain ⟨rfl, rfl⟩ : v = .object id ∧ m' = m₄ := by
    cases hmissing : (m₄.store.heap.object id).firstUninitialized? with
    | some missing =>
      rw [hmissing] at hrest
      cases hrest
    | none =>
      rw [hmissing] at hrest
      cases hrest
      exact ⟨rfl, rfl⟩
  refine ⟨id, bound, m₃, u, rfl, ?_, fun n name hclosed => ?_, hrun, fun ev' => ?_⟩
  · cases hbound
    rfl
  · have hobjects := (Run.plain_bindMethod init (.object id)).objects m₂
    rw [hbound] at hobjects
    exact Run.open_newInstance hnew n name (Slot.closed_of_objects hobjects hclosed)
  · have hinstantiate : ev'.instantiate c args paren m₁ = _ := Run.bind_of_ok hnew
    rw [hown] at hinstantiate
    exact ⟨_, (Run.bind_of_ok harity).trans (hinstantiate.trans (Run.bind_of_ok hbound))⟩

/-- The superclass slots of an instance that a class with an initializer of its own has made were
closed at moments that the call has visited. -/
theorem Evaluator.callTarget_closes {c : Class} {init : Function} {args : List Value}
    {paren : Token} {m m' : Machine} {id : ObjectId} (hown : c.ownInit? = some init)
    (howner : init.owner? = some c.name)
    (hcall : (evaluatorUpTo levels).callTarget (.cls c) args paren m = .ok (.object id) m')
    (hmade : Made c (m'.store.heap.object id)) {n : Nat} {s : Superclass}
    (hs : c.superclasses[n]? = some s) :
    ∃ moment m₁, Slot.ClosesAt ⟨id, n, s.name⟩ moment m₁ ∧
      Visits (fun o => (evaluatorUnder o levels).callTarget (.cls c) args paren) m moment m₁ := by
  obtain ⟨id', bound, m₁, u, hid, hbound, hopen, hrun, hunder⟩ := callTarget_ownInit hown hcall
  obtain rfl : id = id' := Value.object.inj hid
  have hnames : ∀ k : Nat, (m'.store.heap.object id).statuses[k]?.map (·.className) =
      (c.name :: c.superclasses.map (·.name))[k]? := by
    intro k
    rw [← List.getElem?_map, hmade.names]
  have hclosed : Slot.Closed ⟨id, n, s.name⟩ m'.store.heap := by
    obtain ⟨a, ha, hname⟩ := Option.map_eq_some_iff.mp ((hnames (n + 1)).trans (by
      rw [List.getElem?_cons_succ, List.getElem?_map, hs]
      rfl : _ = some s.name))
    have hstatus := hmade.checked (by rw [hown]; rfl) a (List.mem_of_getElem? ha)
    show (m'.store.heap.object id).statuses[n + 1]? = some ⟨s.name, .initialized⟩
    rw [ha, ← hname, ← hstatus]
  -- The class's own slot comes first, so its own initializer closes no other slot with its name.
  have hend : ¬ Slot.Completes ⟨id, n, s.name⟩ (evaluatorUpTo levels) bound args m₁ := by
    rintro ⟨-, hbelongs, v, m₂, hcomes, -, hfirst⟩
    obtain ⟨rfl, rfl⟩ : v = u ∧ m₂ = m' := by
      cases hcomes.symm.trans hrun
      exact ⟨rfl, rfl⟩
    rw [hbound, howner] at hbelongs
    refine hfirst 0 (Nat.succ_pos n) ?_
    rw [hnames, hnames, List.getElem?_cons_zero, List.getElem?_cons_succ, List.getElem?_map, hs]
    exact hbelongs
  have htraced : Slot.Traced ⟨id, n, s.name⟩ False
      (fun o => (evaluatorUnder o levels).callFunction bound args) m₁ :=
    traced_callFunction (tracedUpTo _ levels) hend
  have hbecomes := htraced.becomes
  simp only [evaluatorUnder_quiet, hrun] at hbecomes
  rcases hbecomes hclosed with hbefore | hfalse | ⟨moment, m₂, hcloses, hvisits⟩
  · exact absurd hbefore (hopen n s.name)
  · exact hfalse.elim
  · refine ⟨moment, m₂, hcloses, fun o k ho hspeaks => ?_⟩
    obtain ⟨rest, heq⟩ := hunder (evaluatorUnder o levels)
    show Spoiled k ((evaluatorUnder o levels).callTarget (.cls c) args paren m)
    rw [heq, Run.bind_eq_either]
    exact spoiled_either (hvisits o k ho hspeaks) rfl

namespace Session

/-- Whatever part of a program runs, and whatever step of a session, it closes the slot of a
superclass only by visiting a moment at which an initializer for the slot comes back, a class
without an initializer skips the superclass, or a superclass without an initializer of its own is
asked for one, called or not. And in every session, whenever a call of a class with an initializer
of its own gives an instance, it has visited such a moment for every direct superclass. -/
theorem slots_closed_by_initializers (files : FileSystem) (clock depth : Nat) (steps : List Step) :
    (∀ levels (moment : Moment) m (slot : Slot),
      slot.Closed (Run.left (moment.run (evaluatorUpTo levels) m)).store.heap →
        slot.Closed m.store.heap ∨ ∃ moment' m', slot.ClosesAt moment' m' ∧
          Visits (fun o => moment.run (evaluatorUnder o levels)) m moment' m') ∧
    (∀ (s : Session) (step : Step) (slot : Slot),
      slot.Closed (s.take depth step).2.machine.store.heap →
        slot.Closed s.machine.store.heap ∨
          ∃ moment m, slot.ClosesAt moment m ∧ s.StepVisits depth step moment m) ∧
    Throughout files clock depth steps fun moment m =>
      ∀ levels vs m₁ active? c init args paren v m₂,
        (evaluatorUpTo levels).Gathers moment.operands m vs m₁ → .cls c ∈ vs →
        (∀ a ∈ args, a ∈ vs) → c.ownInit? = some init →
        (evaluatorUpTo levels).callTarget (.cls c) args paren { m₁ with active? := active? } =
          .ok v m₂ →
        ∃ id, v = .object id ∧ ∀ n s, c.superclasses[n]? = some s →
          ∃ moment' m', Slot.ClosesAt ⟨id, n, s.name⟩ moment' m' ∧
            Visits (fun o => (evaluatorUnder o levels).callTarget (.cls c) args paren)
              { m₁ with active? := active? } moment' m' := by
  refine ⟨Moment.run_closes, take_closes depth, ?_⟩
  obtain ⟨w, -, hforeseen, -⟩ := throughout_foreseen files clock depth steps
  refine hforeseen.mono fun moment m hm => ?_
  intro levels vs m₁ active? c init args paren v m₂ hgathers hc hargs hown hcall
  obtain ⟨w₀, -, -, home, stack, hr⟩ := hm
  obtain ⟨w₁, h₁, hvs⟩ := hgathers.sound hr
  -- The class may belong to another module, which is the active one during the call.
  have hplace : Moves 0 w₁ m₁ w₁ { m₁ with active? := active? } := .of_same w₁ ⟨rfl, rfl, rfl, rfl⟩
  have hclass : ClassOk w₁ { m₁ with active? := active? } c := ClassOk.mono (hvs _ hc) hplace
  have htracks := tracks_callClass (tracks_evaluatorUnder levels)
    (h₁.sound.place active? m₁.current) hclass (fun a ha => (hvs a (hargs a ha)).mono hplace) paren
  obtain ⟨w₂, -, -, id, rfl, hmade⟩ := htracks.ok (evaluatorUnder_quiet levels ▸ hcall)
  have howner := (hclass c (Class.mem_lineage_self c) _ (mem_of_lookup hown)).owner
  exact ⟨id, rfl, fun n s hs => Evaluator.callTarget_closes hown howner hcall hmade hs⟩

/-- Two programs that make an instance without ever calling the initializer of its superclass: the
superclass declares none, and asking for it is enough. In the first program the superclass inherits
one, which is not run. -/
theorem asking_closes_slot :
    Prod.map id (fun s => s.machine.store.output)
      (runUpTo 16 (start ⟨[], []⟩ 0)
        ("class Q \x7b init() \x7b print 'q'; \x7d \x7d class P extends Q \x7b \x7d " ++
          "class C extends P \x7b init() \x7b super(P).init; \x7d \x7d C(); print 'made';")) =
      (.ok, #["made"]) ∧
    Prod.map id (fun s => s.machine.store.output)
      (runUpTo 16 (start ⟨[], []⟩ 0)
        ("class P \x7b \x7d class C extends P \x7b init() \x7b super(P).init; \x7d \x7d " ++
          "C(); print 'made';")) =
      (.ok, #["made"]) := by
  decide +kernel

end Session

end ScriptEngine
