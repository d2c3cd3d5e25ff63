import ScriptEngine.Proofs.Evaluator.Lookup

/-!
# Calls at run time

A function that is called runs in a frame that was made for its parameters and body, inside the
frames behind its closure; a method gets a frame for `this` in between. So the body of every
function finds itself in the frames of its scopes, whoever calls it and from whichever module.

None of this depends on the place from which a call is made, only on the machine being sound and
on the values being ones that it may hold. The evaluation of parts of a program is a parameter:
`Evaluator.Tracks` is what is asked of it.
-/

namespace ScriptEngine

open Scope hiding bind

/-- A method that is bound to an instance: the frame behind it holds `this`. -/
structure BoundTo (w : World) (m : Machine) (id : ObjectId) (c : Class) (method : String)
    (f : Function) : Prop where
  owner : f.owner? = some c.name
  initializer : f.isInitializer = (method == "init")
  isSealed : w.Sealed f.closure
  this : m.frames.local? f.closure "this" = some (.object id)

section

variable {settled : Nat} {w w' : World} {m m' : Machine}

/-- A bound method stays bound in a later machine. -/
theorem BoundTo.mono {id : ObjectId} {c : Class} {method : String} {f : Function}
    (h : BoundTo w m id c method f) (hm : Moves settled w m w' m') :
    BoundTo w' m' id c method f where
  owner := h.owner
  initializer := h.initializer
  isSealed := hm.sealed h.isSealed
  this := by
    rw [Frames.local?, hm.unchanged _ h.isSealed]
    exact h.this

/-! ## Methods -/

/-- The frame for `this` that is put around a method of a class in the lineage of an instance. -/
theorem advances_receiver (hs : Sound settled w m) {id : ObjectId}
    (hid : id < m.store.heap.objects.size) {c : Class}
    (hc : c ∈ (m.store.heap.object id).cls.lineage) {f : Function} {stack : Stack}
    {decls : List FunctionDecl} (hchain : Chain w m f.home f.closure stack)
    (hasks : AsksInit decls → c.AsksInit)
    (hsuper : ∀ refs rest, stack.sites = .superclasses refs :: rest →
      HoldsSuperclasses m f.closure c) :
    Advances settled m.SamePlace w m (w.withOrigin ⟨f.home, .receiver decls :: stack.sites⟩)
      (m.withFrame (boundFrame f.closure [("this", .object id)])) := by
  have hmoves := Moves.withFrame hs ⟨f.home, .receiver decls :: stack.sites⟩
    (boundFrame f.closure [("this", .object id)])
  refine ⟨hmoves, hs.withFrame (fun name v hv => ?_) fun decls' sites heq => ?_, .refl m⟩
  · have hmem := boundFrame_lookup f.closure hv
    simp only [List.mem_singleton, Prod.mk.injEq] at hmem
    rw [hmem.2]
    exact hid
  · simp only [List.cons.injEq, Site.receiver.injEq] at heq
    obtain ⟨rfl, rfl⟩ := heq
    refine ⟨id, c, ?_, hid, hc, hasks, fun refs rest hsites => ?_⟩
    · rw [local?_withFrame]
      rfl
    -- What the frame of the superclasses holds must stay so for good, and it does: it is sealed.
    · have hsealed : w.Sealed f.closure := by
        have ho := hchain.origin hs
        rw [hsites] at ho
        exact ⟨f.home, .superclasses refs, rest, ho, rfl⟩
      exact ⟨f.closure, enclosing?_withFrame _, hmoves.sealed hsealed,
        (hsuper refs rest hsites).mono hsealed hmoves⟩

/-- Binding a method that a class of the lineage declares answers a sound function. -/
theorem tracks_bindMethod (hs : Sound settled w m) {id : ObjectId}
    (hid : id < m.store.heap.objects.size) {c : Class}
    (hc : c ∈ (m.store.heap.object id).cls.lineage) {method : String} {f : Function}
    (hf : (method, f) ∈ c.methods) :
    Tracks settled w m (fun _ => Run.bindMethod f (.object id)) fun w' m' bound =>
      FunctionOk w' m' bound ∧ BoundTo w' m' id c method bound := by
  have hclass : ClassOk w m (m.store.heap.object id).cls := hs.heap.classes id hid
  obtain ⟨howner, hinit, stack, decls, hchain, hcode, hasks, hsuper⟩ := hclass c hc _ hf
  have hadvances := advances_receiver hs hid hc hchain hasks hsuper
  refine tracks_bind (tracks_modifyGet hadvances ⟨rfl, rfl, rfl⟩ :
    Tracks settled w m (fun _ => Run.newFrame f.closure [("this", .object id)]) fun w' m' frame =>
      w' = w.withOrigin ⟨f.home, .receiver decls :: stack.sites⟩ ∧
        m' = m.withFrame (boundFrame f.closure [("this", .object id)]) ∧
        frame = m.frames.frames.size) ?_
  -- `tracks_newFrame` leaves out frames for a `this`, so the new machine is named here.
  rintro w₁ m₁ frame h₁ ⟨rfl, rfl, rfl⟩
  have hchain₁ : Chain (w.withOrigin ⟨f.home, .receiver decls :: stack.sites⟩)
      (m.withFrame (boundFrame f.closure [("this", .object id)])) f.home m.frames.frames.size
      ((.receiver decls, [("this", true)]) :: stack) :=
    hchain.withFrame hs (.receiver decls) (by simp)
  refine tracks_bind (tracks_fresh h₁.sound) ?_
  intro w₂ m₂ fresh h₂ _
  have hall := h₁.moves.trans h₂.moves
  refine tracks_pure h₂.sound ⟨⟨_, hchain₁.mono h₂.moves, hcode.mono hall⟩, howner, hinit, ?_, ?_⟩
  · exact h₂.moves.sealed ⟨f.home, .receiver decls, stack.sites, hchain₁.1, rfl⟩
  · have hsealed : (w.withOrigin ⟨f.home, .receiver decls :: stack.sites⟩).Sealed
        m.frames.frames.size := ⟨f.home, .receiver decls, stack.sites, hchain₁.1, rfl⟩
    rw [Frames.local?, h₂.moves.unchanged _ hsealed]
    exact local?_withFrame _ _

/-! ## Properties -/

/-- In a fit heap the backing of an instance is fit. -/
theorem Heap.Fit.native? {code : Value → Prop} {h : Heap} (hfit : h.Fit code) {id : ObjectId}
    {b : BuiltinClass} {d : Datum} (hd : (h.object id).native? b = some d) : d.Fits h := by
  obtain ⟨n, hn, rfl⟩ := Option.map_eq_some_iff.mp hd
  exact hfit.natives id n (List.mem_of_find?_eq_some hn)

/-- Reading a backing as a field can be followed. -/
theorem tracks_nativeField (hs : Sound settled w m) {i : Instance}
    (hnatives : ∀ n ∈ i.natives, n.2.Fits m.store.heap) (name : Token) :
    Tracks settled w m (fun _ => Run.nativeField i name) ValueOk := by
  refine tracks_heap ?_
  split
  · next value hvalue =>
    obtain ⟨n, hn, hfield⟩ := List.exists_of_findSome?_eq_some hvalue
    exact tracks_pure hs (Builtin.fits_field? hs.heap (hnatives n hn) _ value hfield)
  · exact tracks_failAt hs _ _

/-- Reading a property of an instance can be followed. -/
theorem tracks_objectProperty (hs : Sound settled w m) {id : ObjectId}
    (hid : id < m.store.heap.objects.size) (name : Token) :
    Tracks settled w m (fun _ => Run.objectProperty id name) ValueOk := by
  have hnatives := hs.heap.natives id
  refine tracks_heap ?_
  dsimp only
  split
  · next value hvalue =>
    exact tracks_pure hs (hs.heap.fields id _ (mem_of_lookup hvalue))
  · split
    -- The method may come from any class of the lineage, and its own class is what it is bound for.
    · next f hfound =>
      obtain ⟨c, hc, hf⟩ := Class.mem_methods_of_findMethod? _ hfound
      refine tracks_bind (tracks_bindMethod hs hid hc hf) fun w₁ m₁ bound h₁ hbound => ?_
      exact tracks_pure h₁.sound hbound.1
    · split
      -- A built-in method works on the data of its class that the instance holds.
      · next native hnative =>
        refine tracks_bind (tracks_action hs
          (Builtin.keeps_bindMethod? hs.heap (hs.heap.native? hnative) name.lexeme)) ?_
        intro w₁ m₁ method? h₁ hmethod
        cases method? with
        | some method => exact tracks_pure h₁.sound (.of_fits (hmethod.2 method rfl) h₁.moves)
        | none =>
          exact tracks_nativeField h₁.sound (fun n hn => (hnatives n hn).mono h₁.moves.heap) name
      · exact tracks_nativeField hs hnatives name
    · exact tracks_nativeField hs hnatives name

/-- Reading a property of any sound value can be followed. -/
theorem tracks_getProperty (hs : Sound settled w m) {v : Value} (hv : ValueOk w m v)
    (name : Token) : Tracks settled w m (fun _ => Run.getProperty v name) ValueOk := by
  cases v with
  | object id => exact tracks_objectProperty hs hv name
  | datum d =>
    refine tracks_bind (tracks_action hs (Builtin.keeps_property? hs.heap hv name.lexeme)) ?_
    intro w₁ m₁ value? h₁ hvalue
    cases value? with
    | some value => exact tracks_pure h₁.sound (.of_fits (hvalue.2 value rfl) h₁.moves)
    | none => exact tracks_failAt h₁.sound _ _
  | _ => exact tracks_failAt hs _ _

end

/-! ## Running statements -/

/-- How a list of statements may end. -/
def FlowOk (w : World) (m : Machine) : Flow → Prop
  | .normal => True
  | .returned v => ValueOk w m v

/-- A sound end of a statement stays sound in a later machine. -/
theorem FlowOk.mono {settled : Nat} {w w' : World} {m m' : Machine} {flow : Flow}
    (h : FlowOk w m flow) (hm : Moves settled w m w' m') : FlowOk w' m' flow := by
  cases flow with
  | normal => trivial
  | returned v => exact ValueOk.mono h hm

/-- How a statement may end: if nothing is returned, what it adds to its scope has been bound. -/
def Ends (home : ModuleId) (stack : Stack) (s : Stmt) (w : World) (m : Machine) : Flow → Prop
  | .normal => Chain w m home m.current (stack.extend (added s))
  | .returned v => ValueOk w m v

namespace Evaluator

/-- The evaluation of every part of a program that is ready can be followed. -/
structure Tracks (ev : Observer → Evaluator) : Prop where
  evaluate : ∀ {settled : Nat} {w : World} {m : Machine} {home : ModuleId} {stack : Stack}
    {e : Expr}, Ready settled w m home stack (exprUses stack e) (exprMarks e) →
      ScriptEngine.Tracks settled w m (fun o => (ev o).evaluate e) ValueOk
  execute : ∀ {settled : Nat} {w : World} {m : Machine} {home : ModuleId} {stack : Stack}
    {s : Stmt}, Ready settled w m home stack (stmtUses stack s) (stmtMarks s) →
      ScriptEngine.Tracks settled w m (fun o => (ev o).execute s) (Ends home stack s)

end Evaluator

section

variable {settled : Nat} {w w' : World} {m m' : Machine} {home : ModuleId} {stack : Stack}
  {uses : List Use} {marks : List Mark} {ev : Observer → Evaluator}

/-- Code stays sound where plain names are added to its scope. -/
theorem CodeOk.extend (h : CodeOk w m home stack uses marks) {names : Layer}
    (hplain : ∀ entry ∈ names, Plain entry.1) (hopen : stack.Open) :
    CodeOk w m home (stack.extend names) uses marks where
  shape := h.shape.extend hopen hplain
  known := h.known
  proper := h.proper
  asks := by
    rw [Stack.sites_extend]
    exact h.asks

/-- The same code inside one more scope that a program has made. -/
theorem CodeOk.enter (h : CodeOk w m home stack uses marks) {site : Site}
    (hsite : site.isSealed = false) {layer : Layer} (hplain : ∀ entry ∈ layer, Plain entry.1) :
    CodeOk w m home ((site, layer) :: stack) uses marks where
  shape := .plain hsite hplain h.shape
  known := h.known
  proper := h.proper
  asks := fun hask decls hmem => by
    refine h.asks hask decls ?_
    -- The new scope is not that of a `this`, so the receivers are those that were there before.
    rcases List.mem_cons.mp hmem with rfl | hmem
    · exact absurd hsite (by simp [Site.isSealed])
    · exact hmem

/-- A machine that has bound more plain names is ready for the code in the larger scope. -/
theorem Ready.extend (h : Ready settled w m home stack uses marks) {names : Layer}
    (hchain : Chain w m home m.current (stack.extend names))
    (hplain : ∀ entry ∈ names, Plain entry.1) :
    Ready settled w m home (stack.extend names) uses marks :=
  ⟨h.sound, h.active, hchain, h.unsealed.extend names, h.code.extend hplain h.unsealed⟩

/-- Code is ready in a frame that was just made for it. -/
theorem Ready.enter {site : Site} {layer : Layer} {frame : FrameId} (hs : Sound settled w m)
    (hsite : site.isSealed = false) (hchain : Chain w m home frame ((site, layer) :: stack))
    (hcode : CodeOk w m home ((site, layer) :: stack) uses marks) {active? : Option ModuleId}
    (hactive : active? = some home) :
    Ready settled w { m with active? := active?, current := frame } home
      ((site, layer) :: stack) uses marks := by
  have hm : Moves settled w m w { m with active? := active?, current := frame } :=
    .place w m active? frame
  exact ⟨hs.place _ _, hactive, hchain.mono hm, .cons hsite layer stack, hcode.mono hm⟩

/-- Statements in sequence can be followed, each with the names that those before it have bound. -/
theorem tracks_runAll (h : Evaluator.Tracks ev) (body : List Stmt) :
    ∀ {w : World} {m : Machine} {stack : Stack},
      Ready settled w m home stack (stmtsUses stack body) (stmtsMarks body) →
        Tracks settled w m (fun o => (ev o).runAll body) FlowOk := by
  induction body with
  | nil => exact fun hr => tracks_pure hr.sound trivial
  | cons s rest ih =>
    intro w m stack hr
    have hs : Ready settled w m home stack (stmtUses stack s) (stmtMarks s) := hr.left
    refine tracks_bind (h.execute hs) fun w₁ m₁ flow h₁ hflow => ?_
    cases flow with
    -- The rest stands under the names that `s` has added, and `Ends` says that they are bound now.
    | normal => exact ih ((hr.after h₁).right.extend hflow (plain_added s hs.code.proper))
    | returned v => exact tracks_pure h₁.sound hflow

/-- Statements in a new frame inside the current one. -/
theorem tracks_runChild (h : Evaluator.Tracks ev) (site : Site) (hsite : site.isSealed = false)
    {layer : Layer} (hplain : ∀ entry ∈ layer, Plain entry.1) {body : List Stmt}
    (hr : Ready settled w m home stack (stmtsUses ((site, layer) :: stack) body) (stmtsMarks body))
    {bindings : List (String × Value)} (hvalues : ∀ b ∈ bindings, ValueOk w m b.2)
    (hnames : ∀ entry ∈ layer, entry.1 ∈ bindings.map (·.1)) :
    Tracks settled w m
      (fun o => Run.childFrame bindings >>= fun frame => (ev o).runIn frame body) FlowOk := by
  have hnot : ∀ decls, site ≠ .receiver decls := by
    rintro decls rfl
    exact absurd hsite (by simp [Site.isSealed])
  refine tracks_bind (tracks_get (tracks_newFrame hr.sound hr.chain site hvalues hnames hnot)) ?_
  intro w₁ m₁ frame h₁ hframe
  have hcode := (hr.code.enter hsite hplain).mono h₁.moves
  have hready := Ready.enter h₁.sound hsite hframe.1 hcode (h₁.kept.1.trans hr.active)
  exact tracks_inFrame (tracks_runAll h body hready) fun _ _ _ _ hm hflow => hflow.mono hm

/-- A block can be followed in a frame of its own. -/
theorem tracks_runBlock (h : Evaluator.Tracks ev) {body : List Stmt}
    (hr : Ready settled w m home stack (stmtsUses ((.block body, []) :: stack) body)
      (stmtsMarks body)) :
    Tracks settled w m (fun o => (ev o).runBlock body) FlowOk :=
  tracks_runChild h (.block body) rfl (by simp) hr (by simp) (by simp)

/-! ## Calling functions -/

/-- The uses of a function are those of its body inside the frame of a call. -/
theorem functionUses_eq (stack : Stack) (decl : FunctionDecl) :
    functionUses stack decl =
      stmtsUses ((.call decl, readyNames decl.params) :: stack) decl.body := by
  cases decl
  rfl

/-- The marks of a function are its parameters and those of its body. -/
theorem functionMarks_eq (decl : FunctionDecl) :
    functionMarks decl = decl.params.map .name ++ stmtsMarks decl.body := by
  cases decl
  rfl

/-- The parameters are bound in their order. -/
theorem bindParams_names (params : List Token) :
    ∀ args, (Evaluator.bindParams params args).map (·.1) = params.map (·.lexeme) := by
  induction params with
  | nil => exact fun args => rfl
  | cons p ps ih =>
    intro args
    cases args with
    | nil => simp [Evaluator.bindParams, ih]
    | cons a as => simp [Evaluator.bindParams, ih]

/-- A parameter is bound to an argument, or to null. -/
theorem mem_bindParams {b : String × Value} (params : List Token) :
    ∀ args, b ∈ Evaluator.bindParams params args → b.2 = .null ∨ b.2 ∈ args := by
  induction params with
  | nil => exact fun args hb => absurd hb (by simp [Evaluator.bindParams])
  | cons p ps ih =>
    intro args hb
    cases args with
    | nil =>
      rcases List.mem_cons.mp hb with rfl | hb
      · exact Or.inl rfl
      · exact ih [] hb
    | cons a as =>
      rcases List.mem_cons.mp hb with rfl | hb
      · exact Or.inr List.mem_cons_self
      · exact (ih as hb).imp_right (List.mem_cons_of_mem a)

/-- A call up to the point where its result is known. What an initializer then does to its
instance is left open. -/
theorem tracks_callFunction_then (h : Evaluator.Tracks ev) (hs : Sound settled w m) {f : Function}
    (hf : FunctionOk w m f) {args : List Value} (hargs : ∀ v ∈ args, ValueOk w m v)
    {Q : World → Machine → Value → Prop}
    (hfinish : ∀ w' m' v, Advances settled m.SamePlace w m w' m' → ValueOk w' m' v →
      Tracks settled w' m'
        (fun _ => if f.isInitializer then Evaluator.finishInit f v else pure v) Q) :
    Tracks settled w m (fun o => (ev o).callFunction f args) Q := by
  obtain ⟨stack, hchain, hcode⟩ := hf
  rw [functionUses_eq, functionMarks_eq] at hcode
  have hnames : ∀ entry ∈ readyNames f.decl.params,
      entry.1 ∈ (Evaluator.bindParams f.decl.params args).map (·.1) := by
    intro entry hentry
    obtain ⟨p, hp, rfl⟩ := mem_readyNames hentry
    rw [bindParams_names]
    exact List.mem_map_of_mem hp
  have hvalues : ∀ b ∈ Evaluator.bindParams f.decl.params args, ValueOk w m b.2 := by
    intro b hb
    rcases mem_bindParams f.decl.params args hb with hnull | hmem
    · rw [hnull]
      trivial
    · exact hargs b.2 hmem
  have hplain : ∀ entry ∈ readyNames f.decl.params, Plain entry.1 :=
    plain_readyNames fun p hp => hcode.proper (.name p)
      (List.mem_append_left _ (List.mem_map_of_mem hp))
  refine tracks_bind (tracks_newFrame hs hchain (.call f.decl) hvalues hnames ?_) ?_
  · exact fun decls => by simp
  intro w₁ m₁ frame h₁ hframe
  have hbody : CodeOk w m f.home ((.call f.decl, readyNames f.decl.params) :: stack)
      (stmtsUses ((.call f.decl, readyNames f.decl.params) :: stack) f.decl.body)
      (stmtsMarks f.decl.body) :=
    (hcode.part (List.Subset.refl _) (List.subset_append_right _ _)).enter rfl hplain
  -- The body runs as code of the module of the function, whatever module has called it.
  have hready := Ready.enter h₁.sound rfl hframe.1 (hbody.mono h₁.moves) rfl
  refine tracks_bind (tracks_inModule (tracks_inFrame (tracks_runAll h f.decl.body hready)
    fun _ _ _ _ hm hflow => hflow.mono hm) fun _ _ _ _ hm hflow => hflow.mono hm) ?_
  intro w₂ m₂ flow h₂ hflow
  have h₁₂ : Advances settled m.SamePlace w m w₂ m₂ :=
    ⟨h₁.moves.trans h₂.moves, h₂.sound, h₁.kept.trans h₂.kept⟩
  cases flow with
  -- Falling off the end is returning null.
  | normal => exact hfinish w₂ m₂ .null h₁₂ trivial
  | returned v => exact hfinish w₂ m₂ v h₁₂ hflow

/-- Marking a class as initialized never hurts. -/
theorem tracks_setInitialized (hs : Sound settled w m) (id : ObjectId) (name : String) :
    Tracks settled w m (fun _ => Evaluator.setStatus id name .initialized) fun w' m' _ =>
      w' = w ∧ m' = m.withHeap
        (m.store.heap.modifyObject id fun i => i.setStatus name .initialized) :=
  tracks_modifyHeap hs
    (Heap.grows_modifyObject (Instance.keeps_setStatus _ _ _ (Or.inl rfl)))
    (hs.heap.setStatus id name .initialized)

/-- The end of an initializer can be followed. -/
theorem tracks_finishInit (hs : Sound settled w m) (f : Function) {v : Value}
    (hv : ValueOk w m v) : Tracks settled w m (fun _ => Evaluator.finishInit f v) ValueOk := by
  refine tracks_get ?_
  split
  · exact tracks_pure hs hv
  · next this hthis =>
    have hok := hs.values _ _ this hthis
    split
    · next id owner heq =>
      refine tracks_bind (tracks_setInitialized hs id owner) fun w₁ m₁ _ h₁ _ => ?_
      exact tracks_pure h₁.sound (hok.mono h₁.moves)
    · exact tracks_pure hs hok

/-- A call of a sound function with sound arguments can be followed. -/
theorem tracks_callFunction (h : Evaluator.Tracks ev) (hs : Sound settled w m) {f : Function}
    (hf : FunctionOk w m f) {args : List Value} (hargs : ∀ v ∈ args, ValueOk w m v) :
    Tracks settled w m (fun o => (ev o).callFunction f args) ValueOk := by
  refine tracks_callFunction_then h hs hf hargs fun w₁ m₁ v h₁ hv => ?_
  split
  · exact tracks_finishInit h₁.sound f hv
  · exact tracks_pure h₁.sound hv

end

end ScriptEngine
