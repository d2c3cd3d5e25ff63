import ScriptEngine.Proofs.Evaluator.Place
import ScriptEngine.Proofs.Heap.Builtin
import ScriptEngine.Proofs.ModuleTree.Search
import ScriptEngine.Proofs.Program.Numbering
import ScriptEngine.Proofs.Scope.Shape

/-!
# How frames stand for scopes

A world says what the frames of a machine were made for: every frame has an origin, the module
whose code made it and the constructs from the one it belongs to outward. Frames are only added,
so a world only grows.

`Chain` is the agreement between the scopes around a piece of program and the frames it runs in:
hop by hop the frame is one that was made for the scope, it binds every name that the scope says
may be read, and behind the last scope stand the globals of the module. A machine is `Sound` if
this agreement holds for the code of every function and class that it holds anywhere, so that
whatever the program calls, it finds its own frames. `Moves` is what a run may do to a machine
without disturbing any of this: whatever is known of a value or a piece of program stays known.
-/

namespace ScriptEngine

open Scope

/-- What a frame was made for: the module of the code and the constructs around it, that of the
frame first. The globals of a module have no construct around them. -/
structure Origin where
  home : ModuleId
  sites : List Site

/-- What is known of a machine besides its contents: what its frames were made for, the sources
that its programs come from, and a bound on the numbers of expressions that have been recorded. -/
structure World where
  origins : List Origin
  sources : String → Prop
  issued : ExprId

/-- A program that was read from one of some sources and has no scope errors. -/
def Accepted (sources : String → Prop) (program : List Stmt) : Prop :=
  (∃ source first tokens, sources source ∧ Token.scan source = .ok tokens ∧
    (parse first tokens).result = .ok program) ∧
  ∃ distances, Scope.resolve program = .ok distances

/-- The frame was made by the engine, for a `this` or for superclasses. -/
def World.Sealed (w : World) (f : FrameId) : Prop :=
  ∃ home site sites, w.origins[f]? = some ⟨home, site :: sites⟩ ∧ site.isSealed = true

/-! ## Agreement of scopes and frames -/

/-- From a frame outward, the frames are those of the scopes, and then the globals of the
module. -/
def Chain (w : World) (m : Machine) (home : ModuleId) : FrameId → Stack → Prop
  | f, [] => home < m.modules.size ∧ f = (m.modules.node home).globals
  | f, (site, layer) :: outer =>
    w.origins[f]? = some ⟨home, site :: Stack.sites outer⟩ ∧
      (∀ name, layer.lookup name = some true → m.frames.binds f name = true) ∧
        ∃ g, (m.frames.frame f).enclosing? = some g ∧ Chain w m home g outer

/-- A use of an accepted program whose distance is recorded in its module. -/
structure Known (w : World) (m : Machine) (home : ModuleId) (u : Use) : Prop where
  issued : u.id < w.issued
  recorded : (m.modules.node home).distances[u.id]? = distance? u.stack.layers u.name
  accepted : ∃ program, Accepted w.sources program ∧ u ∈ programUses program

/-- A piece of program under some scopes, given by its uses and its marks, may run in a module. -/
structure CodeOk (w : World) (m : Machine) (home : ModuleId) (stack : Stack) (uses : List Use)
    (marks : List Mark) : Prop where
  shape : stack.Shape
  known : ∀ u ∈ uses, Known w m home u
  proper : ∀ k ∈ marks, k.Proper
  /-- Code that asks for the initializer of a superclass stands in methods that do. -/
  asks : (∃ k ∈ marks, k.AsksInit) → ∀ decls, .receiver decls ∈ stack.sites → AsksInit decls

/-- A function finds the frames of the scopes around it behind its closure. -/
def FunctionOk (w : World) (m : Machine) (f : Function) : Prop :=
  ∃ stack, Chain w m f.home f.closure stack ∧
    CodeOk w m f.home stack (functionUses stack f.decl) (functionMarks f.decl)

/-- The frame holds nothing but superclasses of a class. -/
def HoldsSuperclasses (m : Machine) (f : FrameId) (c : Class) : Prop :=
  ∀ name v, m.frames.local? f name = some v → ∃ s ∈ c.superclasses, v = s.toValue

/-- A method of a class finds its frames once a `this` is put around it. -/
structure MethodOk (w : World) (m : Machine) (c : Class) (name : String) (f : Function) :
    Prop where
  owner : f.owner? = some c.name
  initializer : f.isInitializer = (name == "init")
  frames : ∃ stack decls, Chain w m f.home f.closure stack ∧
    CodeOk w m f.home ((.receiver decls, [("this", true)]) :: stack)
      (functionUses ((.receiver decls, [("this", true)]) :: stack) f.decl)
      (functionMarks f.decl) ∧
    (AsksInit decls → c.AsksInit) ∧
    ∀ refs rest, stack.sites = .superclasses refs :: rest → HoldsSuperclasses m f.closure c

/-- Every method of a class and of the classes above it is as it should be. -/
def ClassOk (w : World) (m : Machine) (c : Class) : Prop :=
  ∀ d ∈ c.lineage, ∀ e ∈ d.methods, MethodOk w m d e.1 e.2

/-- An initializer of a built-in superclass was made for an instance whose class has that class
above it. -/
def NativeOk (m : Machine) (f : NativeFunction) : Prop :=
  ∀ object b, f.action = .superInit object b → object < m.store.heap.objects.size ∧
    b ∈ (m.store.heap.object object).cls.builtinAncestors

/-- What functions and classes must be like. -/
def CodeValue (w : World) (m : Machine) : Value → Prop
  | .function f => FunctionOk w m f
  | .cls c => ClassOk w m c
  | .native f => NativeOk m f
  | _ => True

/-- A value that the machine may hold. -/
def ValueOk (w : World) (m : Machine) (v : Value) : Prop :=
  v.Fits (CodeValue w m) m.store.heap

/-! ## Sound machines -/

/-- An internal fault that an accepted program can be blamed for: it reads a variable in the
initializer of that very variable. -/
def Blamed (sources : String → Prop) : InternalFault → Prop
  | .unboundLocal name distance =>
    ∃ program, Accepted sources program ∧ ∃ u ∈ programUses program,
      u.Early ∧ u.name = name ∧ distance? u.stack.layers name = some distance
  | _ => False

/-- A runtime error has a place, or it is an internal fault that a program is to blame for. -/
def Excused (sources : String → Prop) : RuntimeError → Prop
  | .located _ _ => True
  | .internal fault => Blamed sources fault

/-- A line of diagnostics names a place, or it is an internal fault that a program is to blame
for. -/
def Explained (sources : String → Prop) (line : String) : Prop :=
  (∃ rest, line = "[line " ++ rest) ∨ ∃ fault, Blamed sources fault ∧ line = fault.message

/-- What may halt a computation. What is thrown has a place. -/
def HaltOk (w : World) (m : Machine) : Halt → Prop
  | .failed e => Excused w.sources e
  | .thrown id => (m.store.heap.error id).token?.isSome
  | .exhausted => True

/-- A frame that was made for a `this` binds it to an instance whose class has the methods that
the frame was made for. -/
def ReceiverOk (w : World) (m : Machine) (f : FrameId) (decls : List FunctionDecl)
    (sites : List Site) : Prop :=
  ∃ id c, m.frames.local? f "this" = some (.object id) ∧ id < m.store.heap.objects.size ∧
    c ∈ (m.store.heap.object id).cls.lineage ∧ (AsksInit decls → c.AsksInit) ∧
    ∀ refs rest, sites = .superclasses refs :: rest →
      ∃ g, (m.frames.frame f).enclosing? = some g ∧ w.Sealed g ∧ HoldsSuperclasses m g c

/-- The machine and the world agree, and the instances below a bound are there. -/
structure Sound (settled : Nat) (w : World) (m : Machine) : Prop where
  labelled : w.origins.length = m.frames.frames.size
  values : ∀ f name v, m.frames.local? f name = some v → ValueOk w m v
  heap : m.store.heap.Fit (CodeValue w m)
  bounded : settled ≤ m.store.heap.objects.size
  issued : w.issued ≤ m.nextExpr
  tables : ∀ k id d, (m.modules.node k).distances[id]? = some d → id < w.issued
  globals : ∀ k < m.modules.size, w.origins[(m.modules.node k).globals]? = some ⟨k, []⟩ ∧
    (m.frames.frame (m.modules.node k).globals).enclosing? = some Machine.builtins
  exports : ∀ k < m.modules.size, w.origins[(m.modules.node k).exports]? = some ⟨k, []⟩ ∧
    (m.frames.frame (m.modules.node k).exports).enclosing? = none
  linked : m.modules.Linked
  imported : m.modules.FromFiles m.files
  builtins : ∃ home, w.origins[Machine.builtins]? = some ⟨home, []⟩ ∧
    (m.frames.frame Machine.builtins).enclosing? = none
  receivers : ∀ (f : FrameId) home decls sites,
    w.origins[f]? = some ⟨home, .receiver decls :: sites⟩ → ReceiverOk w m f decls sites
  files : ∀ path text, m.files.read path = .ok text → w.sources text
  lines : ∀ line ∈ m.reporter.lines, Explained w.sources line

/-- What a run may do to a machine and its world. The slots of the instances below the bound are
settled. -/
structure Moves (settled : Nat) (w : World) (m : Machine) (w' : World) (m' : Machine) : Prop where
  origins : ∀ (f : FrameId) o, w.origins[f]? = some o → w'.origins[f]? = some o
  sources : w'.sources = w.sources
  issued : w.issued ≤ w'.issued
  enclosing : ∀ (f : FrameId) o, w.origins[f]? = some o →
    (m'.frames.frame f).enclosing? = (m.frames.frame f).enclosing?
  binds : ∀ f name, m.frames.binds f name = true → m'.frames.binds f name = true
  unchanged : ∀ f, w.Sealed f → m'.frames.frame f = m.frames.frame f
  modules : m.modules.size ≤ m'.modules.size
  globals : ∀ k < m.modules.size, (m'.modules.node k).globals = (m.modules.node k).globals
  tables : ∀ k, ∀ id < w.issued,
    (m'.modules.node k).distances[id]? = (m.modules.node k).distances[id]?
  heap : m.store.heap.Grows settled m'.store.heap

namespace Moves

variable {settled : Nat}

/-- A machine that was left alone has moved nowhere. -/
theorem refl (settled : Nat) (w : World) (m : Machine) : Moves settled w m w m where
  origins := fun _ _ h => h
  sources := rfl
  issued := Nat.le_refl _
  enclosing := fun _ _ _ => rfl
  binds := fun _ _ h => h
  unchanged := fun _ _ => rfl
  modules := Nat.le_refl _
  globals := fun _ _ => rfl
  tables := fun _ _ _ => rfl
  heap := .refl _ _

theorem sealed {w w' : World} {m m' : Machine} (h : Moves settled w m w' m') {f : FrameId}
    (hf : w.Sealed f) : w'.Sealed f := by
  obtain ⟨home, site, sites, ho, hs⟩ := hf
  exact ⟨home, site, sites, h.origins f _ ho, hs⟩

theorem trans {w₁ w₂ w₃ : World} {m₁ m₂ m₃ : Machine} (h : Moves settled w₁ m₁ w₂ m₂)
    (h' : Moves settled w₂ m₂ w₃ m₃) : Moves settled w₁ m₁ w₃ m₃ where
  origins := fun f o ho => h'.origins f o (h.origins f o ho)
  sources := h'.sources.trans h.sources
  issued := Nat.le_trans h.issued h'.issued
  enclosing := fun f o ho => (h'.enclosing f o (h.origins f o ho)).trans (h.enclosing f o ho)
  binds := fun f name hb => h'.binds f name (h.binds f name hb)
  unchanged := fun f hf => (h'.unchanged f (h.sealed hf)).trans (h.unchanged f hf)
  modules := Nat.le_trans h.modules h'.modules
  globals := fun k hk =>
    (h'.globals k (Nat.lt_of_lt_of_le hk h.modules)).trans (h.globals k hk)
  tables := fun k id hid =>
    (h'.tables k id (Nat.lt_of_lt_of_le hid h.issued)).trans (h.tables k id hid)
  heap := h.heap.trans h'.heap

end Moves

/-! ## What is known stays known -/

section Monotone

variable {settled : Nat} {w w' : World} {m m' : Machine}

/-- A chain stays one in a machine that has moved. -/
theorem Chain.mono {home : ModuleId} {f : FrameId} {stack : Stack} (h : Chain w m home f stack)
    (hm : Moves settled w m w' m') : Chain w' m' home f stack := by
  induction stack generalizing f with
  | nil => exact ⟨Nat.lt_of_lt_of_le h.1 hm.modules, h.2.trans (hm.globals home h.1).symm⟩
  | cons scope outer ih =>
    obtain ⟨site, layer⟩ := scope
    obtain ⟨ho, hb, g, hg, hc⟩ := h
    exact ⟨hm.origins _ _ ho, fun name hn => hm.binds _ _ (hb name hn), g,
      (hm.enclosing f _ ho).trans hg, ih hc⟩

theorem Known.mono {home : ModuleId} {u : Use} (h : Known w m home u)
    (hm : Moves settled w m w' m') : Known w' m' home u where
  issued := Nat.lt_of_lt_of_le h.issued hm.issued
  recorded := (hm.tables home u.id h.issued).trans h.recorded
  accepted := by
    rw [hm.sources]
    exact h.accepted

theorem CodeOk.mono {home : ModuleId} {stack : Stack} {uses : List Use} {marks : List Mark}
    (h : CodeOk w m home stack uses marks) (hm : Moves settled w m w' m') :
    CodeOk w' m' home stack uses marks where
  shape := h.shape
  known := fun u hu => (h.known u hu).mono hm
  proper := h.proper
  asks := h.asks

theorem FunctionOk.mono {f : Function} (h : FunctionOk w m f) (hm : Moves settled w m w' m') :
    FunctionOk w' m' f := by
  obtain ⟨stack, hc, hcode⟩ := h
  exact ⟨stack, hc.mono hm, hcode.mono hm⟩

/-- A sealed frame keeps its superclasses. -/
theorem HoldsSuperclasses.mono {f : FrameId} {c : Class} (h : HoldsSuperclasses m f c)
    (hf : w.Sealed f) (hm : Moves settled w m w' m') : HoldsSuperclasses m' f c := by
  intro name v hv
  rw [Frames.local?, hm.unchanged f hf] at hv
  exact h name v hv

theorem ReceiverOk.mono {f : FrameId} {home : ModuleId} {decls : List FunctionDecl}
    {sites : List Site} (h : ReceiverOk w m f decls sites)
    (ho : w.origins[f]? = some ⟨home, .receiver decls :: sites⟩) (hm : Moves settled w m w' m') :
    ReceiverOk w' m' f decls sites := by
  obtain ⟨id, c, hthis, hid, hc, hasks, hsuper⟩ := h
  -- The frame is sealed, so its `this` is the same for good.
  have hf : w.Sealed f := ⟨home, _, sites, ho, rfl⟩
  refine ⟨id, c, ?_, Nat.lt_of_lt_of_le hid hm.heap.objects, ?_, hasks, ?_⟩
  · rw [Frames.local?, hm.unchanged f hf]
    exact hthis
  · rw [(hm.heap.instances id hid).cls]
    exact hc
  · intro refs rest hsites
    obtain ⟨g, hg, hgs, hh⟩ := hsuper refs rest hsites
    exact ⟨g, (hm.enclosing f _ ho).trans hg, hm.sealed hgs, hh.mono hgs hm⟩

theorem MethodOk.mono {c : Class} {name : String} {f : Function} (h : MethodOk w m c name f)
    (hm : Moves settled w m w' m') : MethodOk w' m' c name f where
  owner := h.owner
  initializer := h.initializer
  frames := by
    obtain ⟨stack, decls, hc, hcode, hasks, hsuper⟩ := h.frames
    refine ⟨stack, decls, hc.mono hm, hcode.mono hm, hasks, fun refs rest hsites => ?_⟩
    refine (hsuper refs rest hsites).mono ?_ hm
    -- The frame behind the method is that of the superclasses, which is sealed as well.
    cases stack with
    | nil => simp at hsites
    | cons scope outer =>
      obtain ⟨site, layer⟩ := scope
      simp only [Stack.sites_cons, List.cons.injEq] at hsites
      exact ⟨_, site, _, hc.1, hsites.1 ▸ rfl⟩

theorem ClassOk.mono {c : Class} (h : ClassOk w m c) (hm : Moves settled w m w' m') :
    ClassOk w' m' c :=
  fun d hd e he => (h d hd e he).mono hm

theorem NativeOk.mono {f : NativeFunction} (h : NativeOk m f) (hm : Moves settled w m w' m') :
    NativeOk m' f := by
  intro object b hf
  obtain ⟨hlt, hb⟩ := h object b hf
  refine ⟨Nat.lt_of_lt_of_le hlt hm.heap.objects, ?_⟩
  rw [(hm.heap.instances object hlt).cls]
  exact hb

/-- A value that holds sound code does so later. -/
theorem CodeValue.mono {v : Value} (h : CodeValue w m v) (hm : Moves settled w m w' m') :
    CodeValue w' m' v := by
  cases v with
  | function f => exact FunctionOk.mono h hm
  | cls c => exact ClassOk.mono h hm
  | native f => exact NativeOk.mono h hm
  | _ => trivial

theorem ValueOk.mono {v : Value} (h : ValueOk w m v) (hm : Moves settled w m w' m') :
    ValueOk w' m' v :=
  Value.Fits.mono h hm.heap fun _ hc => hc.mono hm

theorem HaltOk.mono {halt : Halt} (h : HaltOk w m halt) (hm : Moves settled w m w' m') :
    HaltOk w' m' halt := by
  cases halt with
  | failed e =>
    show Excused w'.sources e
    rw [hm.sources]
    exact h
  | thrown id => exact hm.heap.tokens id h
  | exhausted => trivial

end Monotone

/-- A piece of program under some scopes can run in the current frame. -/
structure Ready (settled : Nat) (w : World) (m : Machine) (home : ModuleId) (stack : Stack)
    (uses : List Use) (marks : List Mark) : Prop where
  sound : Sound settled w m
  active : m.active? = some home
  chain : Chain w m home m.current stack
  unsealed : stack.Open
  code : CodeOk w m home stack uses marks

end ScriptEngine
