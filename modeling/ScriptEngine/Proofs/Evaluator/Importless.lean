import ScriptEngine.Proofs.Evaluator.TwinStatements

/-!
# Runs that import nothing

A run without import statements leaves the modules, the reporter and the counter of numbers alone,
and of the modules it sees no more than their frames and the distances under the numbers that its
code looks up. So it can be compared with a run in other surroundings, where more distances are
recorded or the counter stands elsewhere (`Setting.confined`).
-/

namespace ScriptEngine

/-- The moment is no import statement. -/
def Moment.Importless (moment : Moment) : Prop :=
  ∀ path items, moment ≠ .executing (.importFrom path items)

/-- The moment is no import statement and looks up known numbers only. -/
structure Moment.Confined (known : ExprId → Prop) (moment : Moment) : Prop where
  importless : moment.Importless
  looked : ∀ l ∈ moment.lookups, known l.id

/-- A part of a program that is no import statement is none in a relabeled program either. -/
theorem Moment.Importless.relabel {moment : Moment} (h : moment.Importless) (r : Relabeling) :
    (r.moment moment).Importless := by
  intro path items heq
  cases moment with
  | evaluating e => cases heq
  | executing s =>
    cases s with
    | importFrom path' items' => exact h path' items' rfl
    | _ => cases heq

/-- On other lines the same numbers are looked up. -/
theorem lookups_lines (f : Nat → Nat) (moment : Moment) :
    ((Relabeling.lines f).moment moment).lookups = moment.lookups := by
  cases moment with
  | evaluating e => cases e <;> rfl
  | executing s =>
    cases s with
    | classDecl name refs decls =>
      show (refs.map (Relabeling.lines f).reference).map _ = _
      rw [List.map_map]
      rfl
    | _ => rfl

/-- Other lines change nothing about which numbers are looked up. -/
theorem Moment.Confined.lines {known : ExprId → Prop} {moment : Moment}
    (h : moment.Confined known) (f : Nat → Nat) :
    ((Relabeling.lines f).moment moment).Confined known :=
  ⟨h.importless.relabel _, by rw [lookups_lines]; exact h.looked⟩

namespace AlikeTrees

variable {known : ExprId → Prop} {t u : ModuleTree}

/-- A tree is like itself on any lines. -/
theorem refl (f : Nat → Nat) (t : ModuleTree) : AlikeTrees (.lines f) known t t :=
  ⟨rfl, fun _ => rfl, fun _ => rfl, fun _ => rfl, fun _ _ _ => rfl⟩

/-- Trees that are alike on some lines are so the other way round. -/
theorem symm {f g : Nat → Nat} (h : AlikeTrees (.lines f) known t u) :
    AlikeTrees (.lines g) known u t where
  size := h.size.symm
  globals := fun k => (h.globals k).symm
  exports := fun k => (h.exports k).symm
  isImported := fun k => (h.isImported k).symm
  distances := fun k id hid => (h.distances k id hid).symm

end AlikeTrees

namespace Setting

/-- Two runs that import nothing, each in its own surroundings. -/
def confined (r : Relabeling) (known : ExprId → Prop) (a b : Surroundings)
    (h : AlikeTrees r known a.modules b.modules) : Setting where
  relabel := r
  cached := False
  strict := False
  part := Moment.Confined known
  known := known
  names := fun _ _ => False
  around := fun a' b' => a' = a ∧ b' = b
  relabel_eq := False.elim
  around_eq := False.elim
  around_alike := by
    rintro _ _ ⟨rfl, rfl⟩
    exact h
  looked := fun _ hm => hm.looked
  loads := fun path items hm => absurd rfl (hm.importless path items)

/-- Evaluation does the same in both runs. -/
theorem alike_confined {r : Relabeling} {known : ExprId → Prop} {a b : Surroundings}
    (h : AlikeTrees r known a.modules b.modules) (depth : Nat) :
    (evaluatorUpTo depth).Alike (confined r known a b h) (evaluatorUpTo depth) := by
  rw [← evaluatorUnder_quiet]
  refine alike_evaluatorUnder (fun {m n moment} _ hpart => .inl ⟨rfl, rfl, ?_⟩) depth
  rintro path items rfl
  exact absurd rfl (hpart.importless path items)

end Setting

variable {σ σ' : Setting} {m m' : Machine}

/-! ## From one setting to another -/

/-- Code that fits a setting fits one with weaker demands on its moments. -/
theorem Setting.Code.change (hpart : ∀ moment, σ.part moment → σ'.part moment) {fs : Frames}
    {v : Value} (hv : σ.Code fs v) : σ'.Code fs v := by
  cases v with
  | function f => exact ⟨everyDecl.mono hpart hv.1, hv.2⟩
  | cls c => exact fun d hd e he => everyDecl.mono hpart (hv d hd e he)
  | imported id => exact hv
  | _ => trivial

/-- A machine that is tidy in a setting is tidy in one that allows more, and so is every machine
that differs from it in its surroundings, in its place and in what its import references say. -/
theorem Tidy.change (h : Tidy σ m) (hpart : ∀ moment, σ.part moment → σ'.part moment)
    (hnames : ∀ f name, σ.names f name → σ'.names f name)
    (hheap : m'.store.heap = { m.store.heap with imports := m'.store.heap.imports })
    (himports : m'.store.heap.imports.size = m.store.heap.imports.size)
    (hframes : m'.frames = m.frames) (hmodules : m.modules.SameFrames m'.modules)
    (hcurrent : m.Inner m'.current) : Tidy σ' m' := by
  have hgrows : m.store.heap.Grows 0 m'.store.heap := by
    rw [hheap]
    exact .of_eq 0 rfl rfl
  have hplain : ∀ {v}, σ.Plain m v → σ'.Plain m' v := fun hv =>
    Setting.plain_of_frames hframes (Value.Fits.mono hv hgrows fun _ hc => hc.change hpart)
  have hinner : ∀ {f}, m.Inner f → m'.Inner f := by
    intro f hf
    refine ⟨by rw [hframes]; exact hf.1, fun k hk => ?_⟩
    rw [hmodules.exports]
    exact hf.2 k (hmodules.size ▸ hk)
  refine ⟨fun f name v hv => ?_, ?_, hinner hcurrent, hinner h.builtins, fun k hk => ?_,
    fun k hk => ?_⟩
  · rw [hframes] at hv
    refine (h.values f name v hv).imp hplain fun hr => ⟨hr.1.mono (Nat.le_of_eq himports.symm), ?_⟩
    exact hnames f name hr.2
  · rw [hframes]
    have hfit : m.store.heap.Fit (σ'.Code m.frames) := h.heap.mono fun _ hc => hc.change hpart
    rw [hheap]
    exact hfit.of_eq rfl rfl rfl rfl
  · rw [hmodules.globals]
    exact hinner (h.globals k (hmodules.size ▸ hk))
  · rw [hmodules.exports, hframes]
    exact h.exports k (hmodules.size ▸ hk)

end ScriptEngine
