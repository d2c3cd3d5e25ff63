import ScriptEngine.Proofs.Evaluator.Tracking
import ScriptEngine.Proofs.Frame.Image
import ScriptEngine.Proofs.Heap.Mirror
import ScriptEngine.Proofs.Program.Part

/-!
# Two runs of one program

Two machines are twins if one is the image of the other: the same values, frames and lines of
output, up to the lines and numbers in the code of functions and up to what import references last
saw. A `Setting` says how far the likeness goes. Twins that run the same part of a program, up to
lines and numbers, end in the same way and as twins (`Meets`).

The argument rests on where import references may be, because what is remembered in them is nowhere
else to be seen. So a machine that has a twin is `Tidy`: a reference is bound to a name in a frame,
and only where the setting allows it; the heap, the exports of modules and the arguments of
functions hold none.
-/

namespace ScriptEngine

/-- What a run that imports nothing leaves alone. -/
structure Surroundings where
  modules : ModuleTree
  reporter : Reporter
  files : FileSystem
  nextExpr : ExprId

/-- What stands around the run in a machine. -/
def Machine.surroundings (m : Machine) : Surroundings :=
  ⟨m.modules, m.reporter, m.files, m.nextExpr⟩

/-- The modules of two runs, as far as a run that imports nothing can see them: they have the same
frames, and the same distances under known numbers. -/
structure AlikeTrees (r : Relabeling) (known : ExprId → Prop) (t u : ModuleTree) : Prop where
  size : u.size = t.size
  globals : ∀ k, (u.node k).globals = (t.node k).globals
  exports : ∀ k, (u.node k).exports = (t.node k).exports
  isImported : ∀ k, (u.node k).isImported = (t.node k).isImported
  distances : ∀ k id, known id →
    (u.node k).distances[r.number id]? = (t.node k).distances[id]?

/-- How two runs are compared. -/
structure Setting where
  /-- What becomes of lines and numbers in the second run. -/
  relabel : Relabeling
  /-- Both runs remember the same in their import references. -/
  cached : Prop
  /-- Both runs have the same surroundings, so that an import does the same in both. -/
  strict : Prop
  /-- The parts of programs that may run. -/
  part : Moment → Prop
  /-- The numbers for which both runs have the same distances. -/
  known : ExprId → Prop
  /-- The places in frames where an import reference may be. -/
  names : FrameId → String → Prop
  /-- The surroundings of both runs. -/
  around : Surroundings → Surroundings → Prop
  relabel_eq : strict → relabel = .same
  around_eq : strict → ∀ a b, around a b ↔ a = b
  around_alike : ∀ a b, around a b → AlikeTrees relabel known a.modules b.modules
  looked : ∀ moment, part moment → ∀ l ∈ moment.lookups, known l.id
  loads : ∀ path items, part (.executing (.importFrom path items)) →
    strict ∧ ∀ moment, part moment

/-- The frame binds the name to something that is no import reference. -/
def Frames.BindsPlain (fs : Frames) (f : FrameId) (name : String) : Prop :=
  ∃ v, fs.local? f name = some v ∧ v.isImported = false

/-- What has happened to a machine: frames, modules and cells were added, numbers were given out,
and a name that was bound to no import reference has stayed so. -/
structure Machine.Grown (m m' : Machine) : Prop where
  frames : m.frames.frames.size ≤ m'.frames.frames.size
  plain : ∀ f name, m.frames.BindsPlain f name → m'.frames.BindsPlain f name
  heap : m.store.heap.Grows 0 m'.store.heap
  imports : m.store.heap.imports.size ≤ m'.store.heap.imports.size
  numbers : m.nextExpr ≤ m'.nextExpr
  modules : m.modules.size ≤ m'.modules.size
  globals : ∀ k < m.modules.size, (m'.modules.node k).globals = (m.modules.node k).globals
  exports : ∀ k < m.modules.size, (m'.modules.node k).exports = (m.modules.node k).exports
  added : ∀ k < m'.modules.size, m.modules.size ≤ k →
    m.frames.frames.size ≤ (m'.modules.node k).exports

namespace Machine.Grown

variable {m m' m'' : Machine}

/-- A machine to which nothing has happened has grown. -/
theorem refl (m : Machine) : m.Grown m where
  frames := Nat.le_refl _
  plain := fun _ _ h => h
  heap := .refl _ _
  imports := Nat.le_refl _
  numbers := Nat.le_refl _
  modules := Nat.le_refl _
  globals := fun _ _ => rfl
  exports := fun _ _ => rfl
  added := fun _ hk hle => absurd hk (Nat.not_lt_of_le hle)

/-- What has grown in two steps has grown. -/
theorem trans (h : m.Grown m') (h' : m'.Grown m'') : m.Grown m'' where
  frames := Nat.le_trans h.frames h'.frames
  plain := fun f name hf => h'.plain f name (h.plain f name hf)
  heap := h.heap.trans h'.heap
  imports := Nat.le_trans h.imports h'.imports
  numbers := Nat.le_trans h.numbers h'.numbers
  modules := Nat.le_trans h.modules h'.modules
  globals := fun k hk => (h'.globals k (Nat.lt_of_lt_of_le hk h.modules)).trans (h.globals k hk)
  exports := fun k hk => (h'.exports k (Nat.lt_of_lt_of_le hk h.modules)).trans (h.exports k hk)
  added := fun k hk hle => by
    by_cases hlt : k < m'.modules.size
    · rw [h'.exports k hlt]
      exact h.added k hlt hle
    · exact Nat.le_trans h.frames (h'.added k hk (Nat.le_of_not_lt hlt))

/-- Nothing has happened to the modules. -/
theorem of_modules (hframes : m.frames.frames.size ≤ m'.frames.frames.size)
    (hplain : ∀ f name, m.frames.BindsPlain f name → m'.frames.BindsPlain f name)
    (hheap : m.store.heap.Grows 0 m'.store.heap)
    (himports : m.store.heap.imports.size ≤ m'.store.heap.imports.size)
    (hnumbers : m.nextExpr ≤ m'.nextExpr) (hmodules : m'.modules = m.modules) : m.Grown m' where
  frames := hframes
  plain := hplain
  heap := hheap
  imports := himports
  numbers := hnumbers
  modules := Nat.le_of_eq (by rw [hmodules])
  globals := fun _ _ => by rw [hmodules]
  exports := fun _ _ => by rw [hmodules]
  added := fun k hk hle => absurd (hmodules ▸ hk) (Nat.not_lt_of_le hle)

/-- Nothing has happened to what the machine holds. -/
theorem of_contents (hstore : m'.store = m.store) (hframes : m'.frames = m.frames)
    (hmodules : m'.modules = m.modules) (hnumbers : m.nextExpr ≤ m'.nextExpr) :
    m.Grown m' := by
  refine .of_modules (Nat.le_of_eq (by rw [hframes])) ?_ ?_ (Nat.le_of_eq (by rw [hstore]))
    hnumbers hmodules
  · rw [hframes]
    exact fun _ _ h => h
  · rw [hstore]
    exact .refl _ _

end Machine.Grown

/-- The frame is there and holds the exports of no module. -/
def Machine.Inner (m : Machine) (f : FrameId) : Prop :=
  f < m.frames.frames.size ∧ ∀ k < m.modules.size, (m.modules.node k).exports ≠ f

/-- An inner frame stays one: modules that are added keep their exports in frames that are new. -/
theorem Machine.Inner.mono {m m' : Machine} {f : FrameId} (h : m.Inner f) (hg : m.Grown m') :
    m'.Inner f := by
  refine ⟨Nat.lt_of_lt_of_le h.1 hg.frames, fun k hk => ?_⟩
  by_cases hlt : k < m.modules.size
  · rw [hg.exports k hlt]
    exact h.2 k hlt
  -- The exports of a new module are in a frame that was not there before.
  · exact Nat.ne_of_gt (Nat.lt_of_lt_of_le h.1 (hg.added k hk (Nat.le_of_not_lt hlt)))

/-- The value is an import reference that is there. -/
def Value.Refers (h : Heap) : Value → Prop
  | .imported id => id < h.imports.size
  | _ => False

/-- What refers to a cell of imports is an import reference. -/
theorem Value.Refers.isImported {h : Heap} {v : Value} (hv : v.Refers h) : v.isImported = true := by
  cases v with
  | imported id => rfl
  | _ => exact hv.elim

/-- An import reference of a heap is one of any heap with as many cells. -/
theorem Value.Refers.mono {h h' : Heap} {v : Value} (hv : v.Refers h)
    (hle : h.imports.size ≤ h'.imports.size) : v.Refers h' := by
  cases v with
  | imported id => exact Nat.lt_of_lt_of_le hv hle
  | _ => exact hv

/-- What halted a computation is there. -/
def Halt.Fits (h : Heap) : Halt → Prop
  | .thrown id => id < h.errors.size
  | _ => True

namespace Setting

variable (σ : Setting)

/-- What functions and classes must be like. An initializer finds its instance. -/
def Code (fs : Frames) : Value → Prop
  | .imported _ => False
  | .function f =>
    everyDecl σ.part f.decl ∧ (f.isInitializer = true → fs.BindsPlain f.closure "this")
  | .cls c => ∀ d ∈ c.lineage, ∀ e ∈ d.methods, everyDecl σ.part e.2.decl
  | _ => True

/-- A value that may be stored anywhere: it is no import reference. -/
def Plain (m : Machine) (v : Value) : Prop :=
  v.Fits (σ.Code m.frames) m.store.heap

/-- A value that an expression may have. -/
def Seen (m : Machine) (v : Value) : Prop :=
  σ.Plain m v ∨ v.Refers m.store.heap

variable {σ} {m m' : Machine} {v : Value}

/-- Code that may be called may still be called when more names are bound. -/
theorem code_mono {fs fs' : Frames}
    (h : ∀ f name, fs.BindsPlain f name → fs'.BindsPlain f name) {v : Value}
    (hv : σ.Code fs v) : σ.Code fs' v := by
  cases v with
  | function f => exact ⟨hv.1, fun hinit => h _ _ (hv.2 hinit)⟩
  | cls c => exact hv
  | imported id => exact hv
  | _ => trivial

theorem not_code_imported (fs : Frames) (id : ImportId) : ¬ σ.Code fs (.imported id) :=
  fun h => h

/-- A plain value stays one in a machine that has grown. -/
theorem Plain.mono (hv : σ.Plain m v) (hg : m.Grown m') : σ.Plain m' v :=
  Value.Fits.mono hv hg.heap fun _ => code_mono hg.plain

/-- A value that fits the heap of a machine with the same frames is plain in it. -/
theorem plain_of_frames (hframes : m'.frames = m.frames)
    (hv : v.Fits (σ.Code m.frames) m'.store.heap) : σ.Plain m' v := by
  unfold Plain
  rw [hframes]
  exact hv

/-- A plain value is no import reference. -/
theorem Plain.isImported (hv : σ.Plain m v) : v.isImported = false := by
  cases v with
  | imported id => exact hv.elim
  | _ => rfl

/-- A value that may be held in frames may still be in a machine that has grown. -/
theorem Seen.mono (hv : σ.Seen m v) (hg : m.Grown m') : σ.Seen m' v :=
  hv.imp (fun h => h.mono hg) fun h => h.mono hg.imports

end Setting

/-- What halted a computation is still there in a heap that has grown. -/
theorem Halt.Fits.mono {h h' : Heap} {halt : Halt} (hh : halt.Fits h) {settled : Nat}
    (hg : h.Grows settled h') : halt.Fits h' := by
  cases halt with
  | thrown id => exact Nat.lt_of_lt_of_le hh hg.errors
  | _ => trivial

/-- An import reference is where the setting allows it, or nowhere. -/
structure Tidy (σ : Setting) (m : Machine) : Prop where
  values : ∀ f name v, m.frames.local? f name = some v →
    σ.Plain m v ∨ v.Refers m.store.heap ∧ σ.names f name
  heap : m.store.heap.Fit (σ.Code m.frames)
  current : m.Inner m.current
  builtins : m.Inner Machine.builtins
  globals : ∀ k < m.modules.size, m.Inner (m.modules.node k).globals
  exports : ∀ k < m.modules.size, (m.modules.node k).exports < m.frames.frames.size ∧
    ∀ name v, m.frames.local? (m.modules.node k).exports name = some v → v.isImported = false

/-- Two import references that point to the same name of the same module. -/
structure AlikeCell (σ : Setting) (c d : ImportCell) : Prop where
  name : d.name = σ.relabel.token c.name
  home : d.home = c.home
  cache : σ.cached → d.cache? = c.cache?.map σ.relabel.value

/-- The import references of both runs. -/
structure AlikeCells (σ : Setting) (a b : Array ImportCell) : Prop where
  size : b.size = a.size
  cell : ∀ i < a.size, AlikeCell σ (a.getD i default) (b.getD i default)

/-- The second machine is the image of the first. -/
structure Twins (σ : Setting) (m n : Machine) : Prop where
  tidy : Tidy σ m
  cells : AlikeCells σ m.store.heap.imports n.store.heap.imports
  store : n.store = m.store.image σ.relabel n.store.heap.imports
  frames : n.frames = σ.relabel.frames m.frames
  active : n.active? = m.active?
  current : n.current = m.current
  around : σ.around m.surroundings n.surroundings

/-- The two computations end in the same way, as twins. -/
def Meets {α β : Type} (σ : Setting) (m n : Machine) (x : Run α) (y : Run β) (f : α → β)
    (P : Machine → α → Prop) : Prop :=
  match x m with
  | .ok a m' => ∃ n', y n = .ok (f a) n' ∧ Twins σ m' n' ∧ m.Grown m' ∧ P m' a
  | .error halt m' => ∃ n', y n = .error (σ.relabel.halt halt) n' ∧ Twins σ m' n' ∧ m.Grown m' ∧
    halt.Fits m'.store.heap

section Rules

variable {α β γ δ : Type} {σ : Setting} {m n : Machine}

/-! ## Sequencing -/

/-- Two computations that go on after two others, however these end. -/
theorem meets_either {x : Run α} {y : Run β} {f : α → β} {P : Machine → α → Prop}
    {x₁ : α → Run γ} {y₁ : β → Run δ} {x₂ : Halt → Run γ} {y₂ : Halt → Run δ} {g : γ → δ}
    {Q : Machine → γ → Prop} (h : Meets σ m n x y f P)
    (h₁ : ∀ m' n' a, Twins σ m' n' → m.Grown m' → P m' a → Meets σ m' n' (x₁ a) (y₁ (f a)) g Q)
    (h₂ : ∀ m' n' halt, Twins σ m' n' → m.Grown m' → halt.Fits m'.store.heap →
      Meets σ m' n' (x₂ halt) (y₂ (σ.relabel.halt halt)) g Q) :
    Meets σ m n (x.either x₁ x₂) (y.either y₁ y₂) g Q := by
  -- What the second half leads to has grown from where the first half began.
  have hgo : ∀ {m' n' : Machine} {x' : Run γ} {y' : Run δ}, m.Grown m' →
      x.either x₁ x₂ m = x' m' → y.either y₁ y₂ n = y' n' → Meets σ m' n' x' y' g Q →
      Meets σ m n (x.either x₁ x₂) (y.either y₁ y₂) g Q := by
    intro m' n' x' y' hg hx hy h'
    unfold Meets at h' ⊢
    rw [hx, hy]
    cases hr : x' m' with
    | ok b m'' =>
      rw [hr] at h'
      obtain ⟨n'', hn, ht, hg', hq⟩ := h'
      exact ⟨n'', hn, ht, hg.trans hg', hq⟩
    | error halt m'' =>
      rw [hr] at h'
      obtain ⟨n'', hn, ht, hg', hf⟩ := h'
      exact ⟨n'', hn, ht, hg.trans hg', hf⟩
  unfold Meets at h
  cases hr : x m with
  | ok a m' =>
    rw [hr] at h
    obtain ⟨n', hn, ht, hg, hp⟩ := h
    exact hgo hg (by rw [Run.either, hr]) (by rw [Run.either, hn]) (h₁ m' n' a ht hg hp)
  | error halt m' =>
    rw [hr] at h
    obtain ⟨n', hn, ht, hg, hf⟩ := h
    exact hgo hg (by rw [Run.either, hr]) (by rw [Run.either, hn]) (h₂ m' n' halt ht hg hf)

/-- Two runs that are halted in the same way leave twins. -/
theorem meets_throw {f : α → β} {P : Machine → α → Prop} (h : Twins σ m n) {halt : Halt}
    (hf : halt.Fits m.store.heap) :
    Meets σ m n (throw halt) (throw (σ.relabel.halt halt)) f P :=
  ⟨n, rfl, h, .refl m, hf⟩

/-- Two runs meet again after each half if they do so after the first, and after the second from any
twins. -/
theorem meets_bind {x : Run α} {y : Run β} {f : α → β} {P : Machine → α → Prop}
    {x₁ : α → Run γ} {y₁ : β → Run δ} {g : γ → δ} {Q : Machine → γ → Prop}
    (h : Meets σ m n x y f P)
    (h₁ : ∀ m' n' a, Twins σ m' n' → m.Grown m' → P m' a → Meets σ m' n' (x₁ a) (y₁ (f a)) g Q) :
    Meets σ m n (x >>= x₁) (y >>= y₁) g Q := by
  rw [Run.bind_eq_either, Run.bind_eq_either]
  exact meets_either h h₁ fun m' n' halt ht _ hf => meets_throw ht hf

/-- What is known of the end may be weakened. -/
theorem Meets.post {x : Run α} {y : Run β} {f : α → β} {P Q : Machine → α → Prop}
    (h : Meets σ m n x y f P)
    (hQ : ∀ m' n' a, Twins σ m' n' → m.Grown m' → P m' a → Q m' a) : Meets σ m n x y f Q := by
  unfold Meets at h ⊢
  cases hr : x m with
  | ok a m' =>
    rw [hr] at h
    obtain ⟨n', hn, ht, hg, hp⟩ := h
    exact ⟨n', hn, ht, hg, hQ m' n' a ht hg hp⟩
  | error halt m' =>
    rw [hr] at h
    exact h

/-- Two answers that correspond leave twins as they are. -/
theorem meets_pure {f : α → β} {P : Machine → α → Prop} (h : Twins σ m n) {a : α} {b : β}
    (hb : b = f a) (hp : P m a) : Meets σ m n (pure a) (pure b) f P :=
  ⟨n, by rw [hb]; rfl, h, .refl m, hp⟩

/-- A runtime error at corresponding tokens is the same way to end. -/
theorem meets_failAt {f : α → β} {P : Machine → α → Prop} (h : Twins σ m n) (token : Token)
    (cause : Cause) :
    Meets σ m n (Run.failAt token cause) (Run.failAt (σ.relabel.token token) cause) f P :=
  ⟨n, rfl, h, .refl m, trivial⟩

theorem meets_fail {f : α → β} {P : Machine → α → Prop} (h : Twins σ m n) (e : RuntimeError) :
    Meets σ m n (Run.fail e) (Run.fail (σ.relabel.error e)) f P :=
  ⟨n, rfl, h, .refl m, trivial⟩

/-- A check that fails ends both computations. -/
theorem meets_failAt_bind {x : γ → Run α} {y : γ → Run β} {f : α → β} {P : Machine → α → Prop}
    (h : Twins σ m n) (token : Token) (cause : Cause) :
    Meets σ m n (Run.failAt token cause >>= x)
      (Run.failAt (σ.relabel.token token) cause >>= y) f P :=
  ⟨n, rfl, h, .refl m, trivial⟩

/-- Going on with a result, or failing with its error, does the same in both runs. -/
theorem meets_ofExcept {f : α → β} {P : Machine → α → Prop} (h : Twins σ m n)
    {r : Except RuntimeError α} {r' : Except RuntimeError β} (hr' : r' = σ.relabel.except f r)
    (hr : ∀ a, r = .ok a → P m a) : Meets σ m n (Run.ofExcept r) (Run.ofExcept r') f P := by
  subst hr'
  cases r with
  | ok a => exact meets_pure h rfl (hr a rfl)
  | error e => exact meets_fail h e

/-- Computations that only read lead straight to what follows. -/
theorem meets_read {x : Run α} {y : Run β} {x₁ : α → Run γ} {y₁ : β → Run δ} {g : γ → δ}
    {Q : Machine → γ → Prop} {a : α} {b : β} (hx : x m = .ok a m) (hy : y n = .ok b n)
    (h : Meets σ m n (x₁ a) (y₁ b) g Q) : Meets σ m n (x >>= x₁) (y >>= y₁) g Q := by
  unfold Meets at h ⊢
  have hx₁ : (x >>= x₁) m = x₁ a m := by
    show EStateM.bind x x₁ m = _
    rw [EStateM.bind, hx]
  have hy₁ : (y >>= y₁) n = y₁ b n := by
    show EStateM.bind y y₁ n = _
    rw [EStateM.bind, hy]
  rw [hx₁, hy₁]
  exact h

/-- Each run goes on with its own machine. -/
theorem meets_get {x₁ : Machine → Run γ} {y₁ : Machine → Run δ} {g : γ → δ}
    {Q : Machine → γ → Prop} (h : Meets σ m n (x₁ m) (y₁ n) g Q) :
    Meets σ m n (get >>= x₁) (get >>= y₁) g Q :=
  meets_read rfl rfl h

/-- Each run goes on with its own heap. -/
theorem meets_heap {x₁ : Heap → Run γ} {y₁ : Heap → Run δ} {g : γ → δ} {Q : Machine → γ → Prop}
    (h : Meets σ m n (x₁ m.store.heap) (y₁ n.store.heap) g Q) :
    Meets σ m n (Run.heap >>= x₁) (Run.heap >>= y₁) g Q :=
  meets_read rfl rfl h

/-- A change of both machines that leaves twins. -/
theorem meets_modify {f f' : Machine → Machine} {P : Machine → Unit → Prop}
    (h : Twins σ (f m) (f' n)) (hg : m.Grown (f m)) (hp : P (f m) ()) :
    Meets σ m n (modify f) (modify f') (fun u => u) P :=
  ⟨f' n, rfl, h, hg, hp⟩

/-- A change of both machines that leaves twins and answers alike. -/
theorem meets_modifyGet {f : Machine → α × Machine} {f' : Machine → β × Machine} {g : α → β}
    {P : Machine → α → Prop} (h : Twins σ (f m).2 (f' n).2) (hg : m.Grown (f m).2)
    (hb : (f' n).1 = g (f m).1) (hp : P (f m).2 (f m).1) :
    Meets σ m n (modifyGet f) (modifyGet f') g P := by
  refine ⟨(f' n).2, ?_, h, hg, hp⟩
  rw [← hb]
  rfl

end Rules

/-! ## What twins have in common -/

namespace Twins

variable {σ : Setting} {m n : Machine}

/-- The heap of the second machine is the image of the first. -/
theorem heap (h : Twins σ m n) :
    n.store.heap = m.store.heap.image σ.relabel n.store.heap.imports :=
  congrArg Store.heap h.store

/-- An instance of the second machine is the image of the one with its number. -/
theorem object (h : Twins σ m n) (id : ObjectId) :
    n.store.heap.object id = σ.relabel.object (m.store.heap.object id) := by
  rw [h.heap, Heap.object_image]

/-- An error of the second machine is the image of the one with its number. -/
theorem error (h : Twins σ m n) (id : ErrorId) :
    n.store.heap.error id = σ.relabel.errorCell (m.store.heap.error id) := by
  rw [h.heap, Heap.error_image]

/-- A frame of the second machine binds a name to the image of what the first has. -/
theorem local? (h : Twins σ m n) (f : FrameId) (name : String) :
    n.frames.local? f name = (m.frames.local? f name).map σ.relabel.value := by
  rw [h.frames, Relabeling.frames_local?]

/-- A plain value looks the same in both machines. -/
theorem display (h : Twins σ m n) {v : Value} (hv : σ.Plain m v) :
    n.store.heap.display (σ.relabel.value v) = m.store.heap.display v := by
  rw [h.heap]
  exact m.store.heap.display_image _ (Setting.not_code_imported m.frames) h.tidy.heap
    h.cells.size hv

/-- The modules of both machines have the same frames, and the same distances under known
numbers. -/
theorem trees (h : Twins σ m n) : AlikeTrees σ.relabel σ.known m.modules n.modules :=
  σ.around_alike _ _ h.around

/-- With the strict setting twins have the same surroundings. -/
theorem same (h : Twins σ m n) (hσ : σ.strict) : n.surroundings = m.surroundings :=
  ((σ.around_eq hσ _ _).mp h.around).symm

/-- A value that is looked up. -/
theorem seen (h : Twins σ m n) {f : FrameId} {name : String} {v : Value}
    (hv : m.frames.local? f name = some v) : σ.Seen m v :=
  (h.tidy.values f name v hv).imp_right fun hr => hr.1

end Twins

/-! ## Changes of twins -/

section Changes

variable {σ : Setting} {m n : Machine}

/-- A machine whose heap has grown has grown. -/
theorem Machine.Grown.withStore {s : Store} (hg : m.store.heap.Grows 0 s.heap)
    (hi : m.store.heap.imports.size ≤ s.heap.imports.size) : m.Grown { m with store := s } :=
  .of_modules (Nat.le_refl _) (fun _ _ h => h) hg hi (Nat.le_refl _) rfl

/-- A machine stays tidy with a fit heap. -/
theorem Tidy.withStore (h : Tidy σ m) {s : Store} (hg : m.store.heap.Grows 0 s.heap)
    (hi : m.store.heap.imports.size ≤ s.heap.imports.size) (hfit : s.heap.Fit (σ.Code m.frames)) :
    Tidy σ { m with store := s } where
  values := fun f name v hv =>
    (h.values f name v hv).imp (fun hp => hp.grow hg) fun hr => ⟨hr.1.mono hi, hr.2⟩
  heap := hfit
  current := h.current
  builtins := h.builtins
  globals := h.globals
  exports := h.exports

/-- Both heaps, outputs and clocks have changed alike. -/
theorem Twins.withStore (h : Twins σ m n) {s s' : Store} (hg : m.store.heap.Grows 0 s.heap)
    (hi : m.store.heap.imports.size ≤ s.heap.imports.size) (hfit : s.heap.Fit (σ.Code m.frames))
    (hcells : AlikeCells σ s.heap.imports s'.heap.imports)
    (hs' : s' = s.image σ.relabel s'.heap.imports) :
    Twins σ { m with store := s } { n with store := s' } where
  tidy := h.tidy.withStore hg hi hfit
  cells := hcells
  store := hs'
  frames := h.frames
  active := h.active
  current := h.current
  around := h.around

/-- A change of both heaps that leaves import references alone. -/
theorem Twins.withHeap (h : Twins σ m n) {h₁ : Heap} (hg : m.store.heap.Grows 0 h₁)
    (hfit : h₁.Fit (σ.Code m.frames)) (hi : h₁.imports = m.store.heap.imports) :
    Twins σ (m.withHeap h₁) (n.withHeap (h₁.image σ.relabel n.store.heap.imports)) := by
  refine h.withStore hg (Nat.le_of_eq (by rw [hi])) hfit (hi ▸ h.cells) ?_
  rw [h.store]
  rfl

/-- Both runs change their heap in the same way. -/
theorem meets_modifyHeap (h : Twins σ m n) {g g' : Heap → Heap}
    (hg : m.store.heap.Grows 0 (g m.store.heap)) (hfit : (g m.store.heap).Fit (σ.Code m.frames))
    (hi : (g m.store.heap).imports = m.store.heap.imports)
    (himage : ∀ imports, imports.size = m.store.heap.imports.size →
      g' (m.store.heap.image σ.relabel imports) = (g m.store.heap).image σ.relabel imports) :
    Meets σ m n (Run.modifyHeap g) (Run.modifyHeap g') (fun u => u)
      fun m' _ => m' = m.withHeap (g m.store.heap) := by
  refine ⟨n.withHeap (g' n.store.heap), rfl, ?_, .withStore hg (Nat.le_of_eq (by rw [hi])), rfl⟩
  rw [h.heap, himage _ h.cells.size]
  exact h.withHeap hg hfit hi

/-- Both runs make the same in their heap. -/
theorem meets_onHeap {α β : Type} (h : Twins σ m n) {g : Heap → α × Heap} {g' : Heap → β × Heap}
    {f : α → β} (hg : m.store.heap.Grows 0 (g m.store.heap).2)
    (hfit : (g m.store.heap).2.Fit (σ.Code m.frames))
    (hi : (g m.store.heap).2.imports = m.store.heap.imports)
    (himage : ∀ imports, imports.size = m.store.heap.imports.size →
      g' (m.store.heap.image σ.relabel imports) =
        (f (g m.store.heap).1, (g m.store.heap).2.image σ.relabel imports)) :
    Meets σ m n (Run.onHeap g) (Run.onHeap g') f
      fun m' a => m' = m.withHeap (g m.store.heap).2 ∧ a = (g m.store.heap).1 := by
  have hn : g' n.store.heap = (f (g m.store.heap).1,
      (g m.store.heap).2.image σ.relabel n.store.heap.imports) := by
    rw [← himage _ h.cells.size, ← h.heap]
  refine ⟨n.withHeap (g' n.store.heap).2, ?_, ?_, .withStore hg (Nat.le_of_eq (by rw [hi])), rfl,
    rfl⟩
  · rw [show f (g m.store.heap).1 = (g' n.store.heap).1 by rw [hn]]
    rfl
  · rw [hn]
    exact h.withHeap hg hfit hi

/-- A fresh number is the same in both runs. -/
theorem meets_fresh (h : Twins σ m n) :
    Meets σ m n (Run.onHeap Heap.fresh) (Run.onHeap Heap.fresh) (fun i => i)
      fun m' _ => m' = m.withHeap m.store.heap.fresh.2 :=
  (meets_onHeap h (Heap.grows_fresh _ _) (h.tidy.heap.of_eq rfl rfl rfl rfl) rfl
    fun _ _ => rfl).post fun _ _ _ _ _ hp => hp.1

/-- A line of output is written in both runs. -/
theorem meets_print (h : Twins σ m n) (line : String) :
    Meets σ m n (Run.print line) (Run.print line) (fun u => u) fun _ _ => True := by
  refine meets_modify ?_ (.withStore (.refl _ _) (Nat.le_refl _)) trivial
  refine h.withStore (.refl _ _) (Nat.le_refl _) h.tidy.heap h.cells ?_
  rw [h.store]
  rfl

/-- Both runs call the same built-in function. -/
theorem meets_action {α β : Type} (h : Twins σ m n) (token : Token) {a : Action α} {b : Action β}
    {f : α → β} {P : α → Heap → Prop}
    (hkeeps : a.Keeps (σ.Code m.frames) 0 m.store P)
    (hmirrors : ∀ imports, imports.size = m.store.heap.imports.size →
      Action.Mirrors σ.relabel imports m.store a b f) :
    Meets σ m n (Run.action token a) (Run.action (σ.relabel.token token) b) f
      fun m' v => m'.frames = m.frames ∧ P v m'.store.heap := by
  have hm := hmirrors _ h.cells.size
  unfold Action.Mirrors at hm
  rw [← h.store] at hm
  unfold Action.Keeps at hkeeps
  unfold Meets Run.action
  dsimp only
  have hstep : ∀ s' : Store, m.store.heap.Grows 0 s'.heap → s'.heap.Fit (σ.Code m.frames) →
      s'.heap.imports = m.store.heap.imports →
      Twins σ { m with store := s' }
        { n with store := s'.image σ.relabel n.store.heap.imports } ∧
      m.Grown { m with store := s' } := by
    intro s' hg hfit hi
    have hle : m.store.heap.imports.size ≤ s'.heap.imports.size := Nat.le_of_eq (by rw [hi])
    exact ⟨h.withStore hg hle hfit (hi ▸ h.cells) rfl, .withStore hg hle⟩
  cases hr : a m.store with
  | ok v s' =>
    rw [hr] at hm hkeeps
    obtain ⟨htwins, hgrown⟩ := hstep s' hkeeps.1 hkeeps.2.1 hm.2
    rw [hm.1]
    exact ⟨_, rfl, htwins, hgrown, rfl, hkeeps.2.2⟩
  | error fault s' =>
    rw [hr] at hm hkeeps
    obtain ⟨htwins, hgrown⟩ := hstep s' hkeeps.1 hkeeps.2 hm.2
    rw [hm.1]
    exact ⟨_, rfl, htwins, hgrown, trivial⟩

/-- Both runs call the same built-in function, which answers with a value. -/
theorem meets_action_value (h : Twins σ m n) (token : Token) {a b : Action Value}
    (hkeeps : a.Keeps (σ.Code m.frames) 0 m.store fun v h => v.Fits (σ.Code m.frames) h)
    (hmirrors : ∀ imports, imports.size = m.store.heap.imports.size →
      Action.Mirrors σ.relabel imports m.store a b σ.relabel.value) :
    Meets σ m n (Run.action token a) (Run.action (σ.relabel.token token) b) σ.relabel.value
      fun m' v => σ.Plain m' v :=
  (meets_action h token hkeeps hmirrors).post fun _ _ _ _ _ hp => Setting.plain_of_frames hp.1 hp.2

/-! ### Frames -/

/-- Binding a plain value unbinds no plain name. -/
theorem Frames.BindsPlain.put {fs : Frames} {f g : FrameId} {name name' : String} {v : Value}
    (h : fs.BindsPlain g name) (hv : v.isImported = false) :
    (fs.put f name' v).BindsPlain g name := by
  obtain ⟨w, hw, hp⟩ := h
  by_cases hsame : g = f ∧ f < fs.frames.size ∧ name = name'
  · exact ⟨v, by rw [Frames.local?_put, if_pos hsame], hv⟩
  · exact ⟨w, by rw [Frames.local?_put, if_neg hsame, hw], hp⟩

/-- A binding that leaves plain names plain makes a machine grow. -/
theorem Machine.Grown.withBinding {f : FrameId} {name : String} {v : Value}
    (hplain : ∀ g x, m.frames.BindsPlain g x → (m.frames.put f name v).BindsPlain g x) :
    m.Grown (m.withBinding f name v) :=
  .of_modules (by simp [Machine.withBinding, Frames.put]) hplain (.refl _ _) (Nat.le_refl _)
    (Nat.le_refl _) rfl

/-- A binding that may be there: a value in any frame, or an import reference in a frame that holds
no exports, where the setting allows it. -/
theorem Tidy.withBinding (h : Tidy σ m) {f : FrameId} {name : String} {v : Value}
    (hg : m.Grown (m.withBinding f name v))
    (hv : σ.Plain m v ∨ v.Refers m.store.heap ∧ σ.names f name ∧ m.Inner f) :
    Tidy σ (m.withBinding f name v) where
  values := fun g x w hw => by
    rw [Machine.withBinding, Frames.local?_put] at hw
    split at hw
    · next hsame =>
      obtain ⟨rfl, -, rfl⟩ := hsame
      cases hw
      exact hv.imp (fun hp => hp.mono hg) fun hr => ⟨hr.1, hr.2.1⟩
    · exact (h.values g x w hw).imp_left fun hp => hp.mono hg
  heap := h.heap.mono fun _ hc => Setting.code_mono hg.plain hc
  current := h.current.mono hg
  builtins := h.builtins.mono hg
  globals := fun k hk => (h.globals k hk).mono hg
  exports := fun k hk => by
    refine ⟨Nat.lt_of_lt_of_le (h.exports k hk).1 hg.frames, fun x w hw => ?_⟩
    rw [Machine.withBinding, Frames.local?_put] at hw
    split at hw
    · next hsame =>
      cases hw
      rcases hv with hp | ⟨-, -, hinner⟩
      · exact hp.isImported
      · exact absurd hsame.1 (hinner.2 k hk)
    · exact (h.exports k hk).2 x w hw

/-- Twins stay twins when a name is bound in both, to a plain value or to a reference where one may
stand. -/
theorem Twins.withBinding (h : Twins σ m n) {f : FrameId} {name : String} {v : Value}
    (hg : m.Grown (m.withBinding f name v))
    (hv : σ.Plain m v ∨ v.Refers m.store.heap ∧ σ.names f name ∧ m.Inner f) :
    Twins σ (m.withBinding f name v) (n.withBinding f name (σ.relabel.value v)) where
  tidy := h.tidy.withBinding hg hv
  cells := h.cells
  store := h.store
  frames := by
    rw [Machine.withBinding, h.frames, Relabeling.frames_put]
    rfl
  active := h.active
  current := h.current
  around := h.around

/-- Both runs bind a name to a value that is no import reference. -/
theorem Twins.withPlain (h : Twins σ m n) (f : FrameId) (name : String) {v : Value}
    (hv : σ.Plain m v) :
    Twins σ (m.withBinding f name v) (n.withBinding f name (σ.relabel.value v)) ∧
      m.Grown (m.withBinding f name v) := by
  have hg : m.Grown (m.withBinding f name v) := .withBinding fun _ _ hb => hb.put hv.isImported
  exact ⟨h.withBinding hg (.inl hv), hg⟩

theorem Machine.Grown.withFrame (m : Machine) (frame : Frame) : m.Grown (m.withFrame frame) := by
  refine .of_modules ?_ (fun f name hf => ?_) (.refl _ _) (Nat.le_refl _) (Nat.le_refl _) rfl
  · simp [Machine.withFrame, Frames.add]
  · obtain ⟨v, hv, hp⟩ := hf
    refine ⟨v, ?_, hp⟩
    rw [Frames.local?, Machine.withFrame, Frames.frame_add, if_neg]
    · exact hv
    -- A frame that binds something is not the one that was not there yet.
    · rintro rfl
      rw [Frames.local?_of_size_le (Nat.le_refl _)] at hv
      cases hv

/-- A new frame that binds plain values keeps a machine tidy. -/
theorem Tidy.withFrame (h : Tidy σ m) {frame : Frame}
    (hvalues : ∀ name v, frame.bindings.lookup name = some v → σ.Plain m v) :
    Tidy σ (m.withFrame frame) := by
  have hg := Machine.Grown.withFrame m frame
  refine ⟨fun f name v hv => ?_, h.heap.mono fun _ hc => Setting.code_mono hg.plain hc,
    h.current.mono hg, h.builtins.mono hg, fun k hk => (h.globals k hk).mono hg,
    fun k hk => ⟨Nat.lt_of_lt_of_le (h.exports k hk).1 hg.frames, fun name v hv => ?_⟩⟩
  · rw [Frames.local?, Machine.withFrame, Frames.frame_add] at hv
    split at hv
    · exact .inl ((hvalues name v hv).mono hg)
    · exact (h.values f name v hv).imp_left fun hp => hp.mono hg
  · rw [Frames.local?, Machine.withFrame, Frames.frame_add,
      if_neg (Nat.ne_of_lt (h.exports k hk).1)] at hv
    exact (h.exports k hk).2 name v hv

/-- Twins stay twins with a new frame and its image. -/
theorem Twins.withFrame (h : Twins σ m n) {frame : Frame}
    (hvalues : ∀ name v, frame.bindings.lookup name = some v → σ.Plain m v) :
    Twins σ (m.withFrame frame) (n.withFrame (σ.relabel.frame frame)) where
  tidy := h.tidy.withFrame hvalues
  cells := h.cells
  store := h.store
  frames := by
    rw [Machine.withFrame, h.frames]
    exact congrArg Frames.mk (Heap.map_push σ.relabel.frame m.frames.frames frame).symm
  active := h.active
  current := h.current
  around := h.around

/-- A frame that is new is there and holds the exports of no module. -/
theorem Tidy.inner_new (h : Tidy σ m) (frame : Frame) :
    (m.withFrame frame).Inner m.frames.frames.size := by
  refine ⟨by simp [Machine.withFrame, Frames.add], fun k hk => ?_⟩
  exact Nat.ne_of_lt (h.exports k hk).1

/-- A new frame has the same number in both runs, and holds the exports of no module. -/
theorem meets_newFrame (h : Twins σ m n) (enclosing : FrameId) {bindings : List (String × Value)}
    (hvalues : ∀ b ∈ bindings, σ.Plain m b.2) :
    Meets σ m n (Run.newFrame enclosing bindings)
      (Run.newFrame enclosing (bindings.map σ.relabel.binding)) (fun f => f)
      fun m' f => f = m.frames.frames.size ∧ m' = m.withFrame (boundFrame enclosing bindings) ∧
        m'.Inner f := by
  have hframe : boundFrame enclosing (bindings.map σ.relabel.binding) =
      σ.relabel.frame (boundFrame enclosing bindings) := by
    rw [boundFrame, ← List.map_nil (f := σ.relabel.binding), Relabeling.putBindings_map]
    rfl
  have htwins : Twins σ (m.withFrame (boundFrame enclosing bindings)) _ :=
    h.withFrame fun name v hv => hvalues _ (boundFrame_lookup enclosing hv)
  rw [← hframe] at htwins
  refine meets_modifyGet htwins (.withFrame _ _) ?_ ⟨rfl, rfl, h.tidy.inner_new _⟩
  show n.frames.frames.size = m.frames.frames.size
  rw [h.frames, Relabeling.frames_size]

theorem meets_childFrame (h : Twins σ m n) {bindings : List (String × Value)}
    (hvalues : ∀ b ∈ bindings, σ.Plain m b.2) :
    Meets σ m n (Run.childFrame bindings) (Run.childFrame (bindings.map σ.relabel.binding))
      (fun f => f) fun m' f => m'.current = m.current ∧ m'.Inner f := by
  refine meets_get ?_
  rw [h.current]
  refine (meets_newFrame h m.current hvalues).post fun m' n' f _ _ hp => ⟨?_, hp.2.2⟩
  rw [hp.2.1]
  rfl

/-! ### The place -/

/-- Whether a machine has grown does not depend on where it stands. -/
theorem Machine.Grown.place {m' : Machine} (h : m.Grown m') (active? active?' : Option ModuleId)
    (current current' : FrameId) :
    ({ m with active? := active?, current := current } : Machine).Grown
      { m' with active? := active?', current := current' } :=
  ⟨h.frames, h.plain, h.heap, h.imports, h.numbers, h.modules, h.globals, h.exports, h.added⟩

/-- Twins may stand in any frame that holds no exports. -/
theorem Twins.inFrame (h : Twins σ m n) {frame : FrameId} (hinner : m.Inner frame) :
    Twins σ { m with current := frame } { n with current := frame } :=
  { h with
    tidy := { h.tidy with current := hinner }
    current := rfl }

theorem Twins.inModule (h : Twins σ m n) (active? : Option ModuleId) :
    Twins σ { m with active? := active? } { n with active? := active? } :=
  { h with
    tidy := { h.tidy with current := h.tidy.current }
    active := rfl }

/-- A property that does not depend on the place. -/
def Placeless {α : Type} (P : Machine → α → Prop) : Prop :=
  ∀ m a active? current, P m a → P { m with active? := active?, current := current } a

/-- A computation in another frame, and back. -/
theorem meets_inFrame {α β : Type} {body : Run α} {body' : Run β} {f : α → β}
    {P : Machine → α → Prop} {frame : FrameId} (ht : Twins σ m n) (hP : Placeless P)
    (h : Meets σ { m with current := frame } { n with current := frame } body body' f P) :
    Meets σ m n (Run.inFrame frame body) (Run.inFrame frame body') f P := by
  unfold Meets at h ⊢
  unfold Run.inFrame
  dsimp only
  rw [ht.current]
  cases hr : body { m with current := frame } with
  | ok a m' =>
    rw [hr] at h
    obtain ⟨n', hn, ht', hg, hp⟩ := h
    have hg' : m.Grown m' := hg.place m.active? m'.active? m.current m'.current
    rw [hn]
    exact ⟨_, rfl, ht'.inFrame (ht.tidy.current.mono hg'), hg'.place _ _ _ _, hP m' a _ _ hp⟩
  | error halt m' =>
    rw [hr] at h
    obtain ⟨n', hn, ht', hg, hf⟩ := h
    have hg' : m.Grown m' := hg.place m.active? m'.active? m.current m'.current
    rw [hn]
    exact ⟨_, rfl, ht'.inFrame (ht.tidy.current.mono hg'), hg'.place _ _ _ _, hf⟩

/-- A computation as code of another module, and back. -/
theorem meets_inModule {α β : Type} {body : Run α} {body' : Run β} {f : α → β}
    {P : Machine → α → Prop} {id : ModuleId} (ht : Twins σ m n) (hP : Placeless P)
    (h : Meets σ { m with active? := some id } { n with active? := some id } body body' f P) :
    Meets σ m n (Run.inModule id body) (Run.inModule id body') f P := by
  unfold Meets at h ⊢
  unfold Run.inModule
  dsimp only
  rw [ht.active]
  cases hr : body { m with active? := some id } with
  | ok a m' =>
    rw [hr] at h
    obtain ⟨n', hn, ht', hg, hp⟩ := h
    have hg' : m.Grown m' := hg.place m.active? m'.active? m.current m'.current
    rw [hn]
    exact ⟨_, rfl, ht'.inModule m.active?, hg'.place _ _ _ _, hP m' a _ _ hp⟩
  | error halt m' =>
    rw [hr] at h
    obtain ⟨n', hn, ht', hg, hf⟩ := h
    have hg' : m.Grown m' := hg.place m.active? m'.active? m.current m'.current
    rw [hn]
    exact ⟨_, rfl, ht'.inModule m.active?, hg'.place _ _ _ _, hf⟩

end Changes

end ScriptEngine
