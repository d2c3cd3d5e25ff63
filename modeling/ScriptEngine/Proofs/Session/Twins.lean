import ScriptEngine.Proofs.Evaluator.TwinStatements
import ScriptEngine.Proofs.Session.Play

/-!
# Two sessions

Sessions with twin machines that take the same steps have twin machines after each of them and end
each in the same way. A machine that has run nothing is its own twin, so this holds of any session
and itself. A twin that remembers the same in its import references is the machine itself; then
what is left of twins is that a session stays tidy.
-/

namespace ScriptEngine

variable {σ : Setting} {m n : Machine} {o o' : Observer}

/-! ## Twins with the same lines and numbers -/

/-- A machine with other import references is a twin, if what the references name is the same. -/
theorem Tidy.twins (h : Tidy σ m) (hσ : σ.relabel = .same)
    (hcells : AlikeCells σ m.store.heap.imports n.store.heap.imports)
    (hstore : n.store =
      { m.store with heap := { m.store.heap with imports := n.store.heap.imports } })
    (hframes : n.frames = m.frames) (hactive : n.active? = m.active?)
    (hcurrent : n.current = m.current) (haround : σ.around m.surroundings n.surroundings) :
    Twins σ m n where
  tidy := h
  cells := hcells
  store := by rw [hσ, Store.image, Heap.image_same, ← hstore]
  frames := by rw [hσ, Relabeling.frames_same, hframes]
  active := hactive
  current := hcurrent
  around := haround

theorem AlikeCells.refl (hσ : σ.relabel = .same) (cells : Array ImportCell) :
    AlikeCells σ cells cells where
  size := rfl
  cell := fun i _ => by
    refine ⟨?_, rfl, fun _ => ?_⟩
    · rw [hσ]
      rfl
    · rw [hσ, show Relabeling.same.value = id from funext Relabeling.value_same, Option.map_id]
      rfl

/-- A tidy machine is its own twin. -/
theorem Tidy.self (h : Tidy σ m) (hσ : σ.relabel = .same)
    (haround : σ.around m.surroundings m.surroundings) : Twins σ m m :=
  h.twins hσ (.refl hσ _) rfl rfl rfl rfl haround

/-- Where it counts what references remember, alike ones are the same. -/
theorem AlikeCells.eq (hσ : σ.relabel = .same) (hcached : σ.cached) {a b : Array ImportCell}
    (h : AlikeCells σ a b) : b = a := by
  refine Array.ext h.size fun i hb ha => ?_
  have hcell := h.cell i ha
  rw [Array.getD_eq_getD_getElem?, Array.getElem?_eq_getElem ha, Array.getD_eq_getD_getElem?,
    Array.getElem?_eq_getElem hb, Option.getD_some, Option.getD_some] at hcell
  obtain ⟨hname, hhome, hcache⟩ := hcell
  have hcache := hcache hcached
  rw [hσ] at hname hcache
  rw [show Relabeling.same.value = id from funext Relabeling.value_same, Option.map_id] at hcache
  cases hc : a[i] with
  | mk name home cache? =>
    cases hd : b[i] with
    | mk name' home' cache?' =>
      rw [hc, hd] at hname hhome hcache
      obtain rfl : name' = name := hname
      obtain rfl : home' = home := hhome
      obtain rfl : cache?' = cache? := hcache
      rfl

/-- Twins that remember the same are the same machine. -/
theorem Twins.eq (h : Twins σ m n) (hσ : σ.strict) (hcached : σ.cached) : n = m := by
  have hsame := σ.relabel_eq hσ
  have hcells := h.cells.eq hsame hcached
  have hstore := h.store
  rw [hsame, Store.image, Heap.image_same, hcells] at hstore
  have hframes := h.frames
  rw [hsame, Relabeling.frames_same] at hframes
  have haround := h.same hσ
  obtain ⟨store, frames, modules, active?, current, reporter, files, nextExpr⟩ := m
  obtain ⟨store', frames', modules', active?', current', reporter', files', nextExpr'⟩ := n
  obtain ⟨rfl, rfl, rfl, rfl⟩ := Surroundings.mk.inj haround
  obtain rfl : store' = store := hstore
  obtain rfl : frames' = frames := hframes
  obtain rfl : active?' = active? := h.active
  obtain rfl : current' = current := h.current
  rfl

/-! ## New machines -/

theorem tidy_start (files : FileSystem) (clock : Nat) : Tidy σ (Machine.start files clock) where
  values := fun f name v hv => by
    cases f with
    | zero =>
      refine .inl ?_
      rcases List.mem_append.mp (mem_of_lookup hv) with hmem | hmem
      · obtain ⟨c, -, heq⟩ := List.mem_map.mp hmem
        rw [← (Prod.mk.inj heq).2]
        trivial
      · rw [(Prod.mk.inj (List.mem_singleton.mp hmem)).2]
        trivial
    | succ f => cases hv
  heap := (Heap.Fit.empty _).of_eq rfl rfl rfl rfl
  current := ⟨Nat.zero_lt_one, fun k hk => absurd hk (Nat.not_lt_zero k)⟩
  builtins := ⟨Nat.zero_lt_one, fun k hk => absurd hk (Nat.not_lt_zero k)⟩
  globals := fun k hk => absurd hk (Nat.not_lt_zero k)
  exports := fun k hk => absurd hk (Nat.not_lt_zero k)

namespace Session

/-! ## Running a source -/

/-- The program of a source may run in a machine. -/
def Admits (σ : Setting) (m : Machine) (source : String) : Prop :=
  ∀ tokens statements, Token.scan source = .ok tokens →
    (parse m.nextExpr tokens).result = .ok statements → everyStmts σ.part statements

/-- Twins that run the same source meet. -/
theorem meets_runSource (hσ : σ.strict) (ho : o.Alike σ o') (depth : Nat) (root : Path)
    (source : String) (h : Twins σ m n) (hsource : Admits σ m source) :
    Meets σ m n (runSourceUnder o depth root source) (runSourceUnder o' depth root source)
      (fun b => b) fun _ _ => True := by
  refine meets_bind (meets_modify (P := fun m' _ => m'.nextExpr = m.nextExpr)
    (h.withReporter hσ _) (.of_contents rfl rfl rfl (Nat.le_refl _)) rfl)
    fun m₁ n₁ _ h₁ _ hnext => ?_
  refine meets_bind (Evaluator.meets_compile? hσ h₁ source) fun m₂ n₂ s? h₂ _ hcompiled => ?_
  cases s? with
  | none => exact meets_pure h₂ rfl trivial
  | some statements =>
    obtain ⟨tokens, hscan, hparse⟩ := hcompiled.2 statements rfl
    have hs := hsource tokens statements hscan (hnext ▸ hparse)
    refine meets_bind (Evaluator.meets_runRoot hσ (alike_evaluatorUnder ho depth) h₂ root hs)
      fun m₃ n₃ _ h₃ _ _ => ?_
    exact meets_pure h₃ rfl trivial

/-! ## Steps -/

/-- Two sessions in the same place whose machines are twins. -/
structure Twins (σ : Setting) (s t : Session) : Prop where
  machine : ScriptEngine.Twins σ s.machine t.machine
  root : t.root = s.root
  directory : t.directory = s.directory

variable {s t : Session}

/-- Twins read the same source in a step. -/
theorem Twins.opened (hσ : σ.strict) (h : s.Twins σ t) (step : Step) :
    (∃ fault, s.opened step = .error fault ∧ t.opened step = .error fault) ∨
    ∃ text s' t', s.opened step = .ok (text, s') ∧ t.opened step = .ok (text, t') ∧
      s'.Twins σ t' ∧ s'.machine = s.machine := by
  have hfiles : t.machine.files = s.machine.files :=
    congrArg Surroundings.files (h.machine.same hσ)
  cases step with
  | source text => exact .inr ⟨text, s, t, rfl, rfl, h, rfl⟩
  | file path =>
    unfold Session.opened
    dsimp only
    rw [hfiles, h.directory]
    cases s.machine.files.canonicalize path with
    | error fault => exact .inl ⟨fault, rfl, rfl⟩
    | ok path =>
      dsimp only
      cases s.machine.files.read path with
      | error fault => exact .inl ⟨fault, rfl, rfl⟩
      | ok text => exact .inr ⟨text, _, _, rfl, rfl, ⟨h.machine, rfl, rfl⟩, rfl⟩

theorem Twins.left (hσ : σ.strict) (h : s.Twins σ t) {x y : Run Bool}
    (hm : Meets σ s.machine t.machine x y (fun b => b) fun _ _ => True) :
    (t.left (y t.machine)).1 = (s.left (x s.machine)).1 ∧
      (s.left (x s.machine)).2.Twins σ (t.left (y t.machine)).2 ∧
      s.machine.Grown (s.left (x s.machine)).2.machine := by
  unfold Meets at hm
  cases hx : x s.machine with
  | ok compiled m =>
    rw [hx] at hm
    obtain ⟨n, hn, ht, hg, -⟩ := hm
    rw [hn]
    have hreporter : n.reporter = m.reporter := congrArg Surroundings.reporter (ht.same hσ)
    cases compiled with
    | false => exact ⟨rfl, ⟨ht, h.root, h.directory⟩, hg⟩
    | true => exact ⟨congrArg reportedStatus hreporter, ⟨ht, h.root, h.directory⟩, hg⟩
  | error halt m =>
    rw [hx] at hm
    obtain ⟨n, hn, ht, hg, -⟩ := hm
    rw [hn]
    exact ⟨rfl, ⟨ht, h.root, h.directory⟩, hg⟩

/-- One step of both sessions. -/
theorem Twins.takeUnder (hσ : σ.strict) (ho : o.Alike σ o') (depth : Nat) (step : Step)
    (h : s.Twins σ t)
    (hstep : ∀ text s', s.opened step = .ok (text, s') → Admits σ s.machine text) :
    (t.takeUnder o' depth step).1 = (s.takeUnder o depth step).1 ∧
      (s.takeUnder o depth step).2.Twins σ (t.takeUnder o' depth step).2 ∧
      s.machine.Grown (s.takeUnder o depth step).2.machine := by
  unfold Session.takeUnder
  rcases h.opened hσ step with ⟨fault, hs, ht⟩ | ⟨text, s', t', hs, ht, h', hmachine⟩
  · rw [hs, ht]
    exact ⟨rfl, h, .refl _⟩
  · have hadmits : Admits σ s'.machine text := hmachine ▸ hstep text s' hs
    rw [hs, ht]
    dsimp only
    rw [h'.root, ← hmachine]
    exact h'.left hσ (meets_runSource hσ ho depth s'.root text h'.machine hadmits)

/-- All steps of both sessions, if everything may run. -/
theorem Twins.playUnder (hσ : σ.strict) (hall : ∀ moment, σ.part moment) (ho : o.Alike σ o')
    (depth : Nat) (steps : List Step) : ∀ {s t : Session}, s.Twins σ t →
      List.Forall₂ (fun a b => b.1 = a.1 ∧ a.2.Twins σ b.2)
        (Session.playUnder o depth s steps) (Session.playUnder o' depth t steps) := by
  induction steps with
  | nil => exact fun _ => .nil
  | cons step steps ih =>
    intro s t h
    obtain ⟨hstatus, htwins, -⟩ := Twins.takeUnder hσ ho depth step h
      fun _ _ _ _ _ _ _ => everyStmts_of_forall hall _
    exact .cons ⟨hstatus, htwins⟩ (ih htwins)

/-- A new session is its own twin. -/
theorem twins_start (hσ : σ.strict) (files : FileSystem) (clock : Nat) :
    (start files clock).Twins σ (start files clock) :=
  ⟨(tidy_start files clock).self (σ.relabel_eq hσ) ((σ.around_eq hσ _ _).mpr rfl), rfl, rfl⟩

/-- Twin sessions that remember the same are the same session, and it is tidy. -/
theorem playUnder_eq (hσ : σ.strict) (hcached : σ.cached) (hall : ∀ moment, σ.part moment)
    (ho : o.Alike σ o') (files : FileSystem) (clock depth : Nat) (steps : List Step) :
    Session.playUnder o depth (start files clock) steps =
        Session.playUnder o' depth (start files clock) steps ∧
      ∀ r ∈ Session.playUnder o depth (start files clock) steps, Tidy σ r.2.machine := by
  have h := (twins_start hσ files clock).playUnder hσ hall ho depth steps
  have heq : ∀ a b : Status × Session, b.1 = a.1 ∧ a.2.Twins σ b.2 → a = b := by
    intro a b hab
    obtain ⟨status, machine, root, directory⟩ := a
    obtain ⟨status', machine', root', directory'⟩ := b
    obtain ⟨rfl, hmachine, rfl, rfl⟩ := hab
    rw [show machine' = machine from hmachine.eq hσ hcached]
  refine ⟨List.forall₂_eq_eq_eq ▸ h.imp heq, fun r hr => ?_⟩
  obtain ⟨i, hi, rfl⟩ := List.mem_iff_getElem.mp hr
  have hpair := h.get hi (h.length_eq ▸ hi)
  exact hpair.2.machine.tidy

end Session

end ScriptEngine
