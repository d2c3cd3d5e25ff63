import ScriptEngine.Proofs.Evaluator.Importless

/-!
# The same program on other lines

When a program runs on other lines, its code is the image of what it was, but the values that were
there before it are not: the functions among them keep the lines that they have. So neither of the
two runs is the image of the other. But when everything is put on one line, both have the same
image, and machines with such an image are `Kindred`.

Kindred machines execute a statement to the same end and are kindred afterwards, and so they run the
whole program: it prints the same, it leaves values that are shown in the same way, and what stopped
it is reported in the same words, with another line perhaps (`Kindred.runTopLevel`).
-/

namespace ScriptEngine

/-! ## How values are shown -/

/-- How a value is shown: the name of its type and its form, and of an instance also how far its
classes are initialized and what it has from built-in classes. -/
structure Shown where
  typeName : String
  form : String
  statuses : List StatusSlot
  natives : List (BuiltinClass × String)

/-- How a value is shown. -/
def Heap.shown (h : Heap) : Value → Shown
  | .object id =>
    { typeName := h.typeName (.object id)
      form := h.repr (.object id)
      statuses := (h.object id).statuses
      natives := (h.object id).natives.map fun n => (n.1, h.display (.datum n.2)) }
  | v => ⟨h.typeName v, h.repr v, [], []⟩

/-- How the value is shown that a frame binds to a name. -/
def Machine.shown? (m : Machine) (f : FrameId) (name : String) : Option Shown :=
  (m.frames.local? f name).map m.store.heap.shown

section Twins

variable {σ : Setting} {m n : Machine} {v : Value}

theorem Twins.typeName (h : Twins σ m n) (v : Value) :
    n.store.heap.typeName (σ.relabel.value v) = m.store.heap.typeName v := by
  cases v with
  | object id =>
    show (n.store.heap.object id).cls.name = (m.store.heap.object id).cls.name
    rw [h.object, Relabeling.object_cls, Relabeling.cls_name]
  | _ => rfl

theorem Twins.repr (h : Twins σ m n) (hv : σ.Plain m v) :
    n.store.heap.repr (σ.relabel.value v) = m.store.heap.repr v :=
  Heap.reprWith_image (h.display hv)

/-- Twins show a value in the same way. -/
theorem Twins.shown (h : Twins σ m n) (hv : σ.Plain m v) :
    n.store.heap.shown (σ.relabel.value v) = m.store.heap.shown v := by
  have htype := h.typeName v
  have hform := h.repr hv
  cases v with
  | object id =>
    have hnatives : ((σ.relabel.object (m.store.heap.object id)).natives.map fun n' =>
        (n'.1, n.store.heap.display (.datum n'.2))) =
        (m.store.heap.object id).natives.map fun n => (n.1, m.store.heap.display (.datum n.2)) :=
      List.map_congr_left fun d hd =>
        congrArg (d.1, ·) (h.display (v := .datum d.2) (h.tidy.heap.natives id d hd))
    rw [Relabeling.value_object] at *
    unfold Heap.shown
    dsimp only
    rw [htype, hform, h.object, hnatives]
    rfl
  | imported id => exact hv.elim
  | _ => exact congrArg₂ (Shown.mk · · [] []) htype hform

/-- Twins show the same of what a frame binds. -/
theorem Twins.shown? (h : Twins σ m n) (hnames : ∀ f name, ¬ σ.names f name) (f : FrameId)
    (name : String) : n.shown? f name = m.shown? f name := by
  unfold Machine.shown?
  rw [h.local?]
  cases hv : m.frames.local? f name with
  | none => rfl
  | some v =>
    rcases h.tidy.values f name v hv with hplain | hrefers
    · exact congrArg some (h.shown hplain)
    · exact absurd hrefers.2 (hnames f name)

end Twins

/-! ## Diagnostics on other lines -/

/-- Two lines of diagnostics are the same, or they differ in the line of the source that they
name. -/
def SameButLine (s t : String) : Prop :=
  s = t ∨ ∃ (line line' : Nat) (rest : String),
    s = "[line " ++ toString line ++ "] Error " ++ rest ∧
      t = "[line " ++ toString line' ++ "] Error " ++ rest

/-- Two reporters with the same marks, whose lines differ in the lines of the source that they
name. -/
structure Reporter.SameButLines (r r' : Reporter) : Prop where
  lines : List.Forall₂ SameButLine r.lines.toList r'.lines.toList
  hadError : r'.hadError = r.hadError
  hadRuntimeError : r'.hadRuntimeError = r.hadRuntimeError

/-- Puts everything on one line. -/
def Relabeling.oneLine : Relabeling := .lines fun _ => 1

namespace Reporter.SameButLines

variable {r r' : Reporter}

/-- No reporter differs from itself. -/
theorem refl (r : Reporter) : r.SameButLines r where
  lines := List.forall₂_same.mpr fun _ _ => .inl rfl
  hadError := rfl
  hadRuntimeError := rfl

/-- Two lines that differ in the line of the source may be written. -/
theorem write (h : r.SameButLines r') {s t : String} (hline : SameButLine s t) :
    (r.write s).SameButLines (r'.write t) where
  lines := by
    show List.Forall₂ SameButLine (r.lines.push s).toList (r'.lines.push t).toList
    rw [Array.toList_push, Array.toList_push]
    exact List.rel_append h.lines (.cons hline .nil)
  hadError := h.hadError
  hadRuntimeError := h.hadRuntimeError

/-- The same error on two lines. -/
theorem report (h : r.SameButLines r') (line line' : Nat) (place message : String) :
    (r.report line place message).SameButLines (r'.report line' place message) := by
  have hmark : ({ r with hadError := true } : Reporter).SameButLines
      { r' with hadError := true } := ⟨h.lines, rfl, h.hadRuntimeError⟩
  refine hmark.write (.inr ⟨line, line', place ++ ": " ++ message, ?_, ?_⟩) <;>
    simp only [String.append_assoc]

/-- What stopped a program is reported in the same words on another line. -/
theorem stopped (h : r.SameButLines r') {token? token?' : Option Token}
    (htoken : token?.map Relabeling.oneLine.token = token?'.map Relabeling.oneLine.token)
    (message : String) :
    (r.stopped token? message).SameButLines (r'.stopped token?' message) := by
  have hmark : ∀ {r r' : Reporter}, r.SameButLines r' →
      ({ r with hadRuntimeError := true } : Reporter).SameButLines
        { r' with hadRuntimeError := true } := fun h => ⟨h.lines, h.hadError, rfl⟩
  cases token? with
  | none =>
    cases token?' with
    | none => exact hmark (h.write (.inl rfl))
    | some token' => cases htoken
  | some token =>
    cases token?' with
    | none => cases htoken
    | some token' =>
      obtain ⟨hkind, hlexeme, -⟩ := Token.mk.inj (Option.some.inj htoken)
      have hdisplay : token'.display = token.display := by
        unfold Token.display
        rw [← hlexeme, ← hkind]
      have hreport := h.report token.line token'.line ("at " ++ token.display) message
      refine hmark ?_
      show (r.report token.line ("at " ++ token.display) message).SameButLines
        (r'.report token'.line ("at " ++ token'.display) message)
      rwa [hdisplay]

end Reporter.SameButLines

/-! ## Kindred machines -/

section Kindred

variable {known : ExprId → Prop} {a b : Surroundings}
  {h : AlikeTrees .same known a.modules b.modules} {m n m' n' : Machine}

/-- The setting in which the first of two runs is compared with its image on one line. -/
def Setting.first (known : ExprId → Prop) (a : Surroundings) : Setting :=
  .confined .oneLine known a a (.refl _ _)

/-- The setting in which the second of two runs is compared with the image of the first one. -/
def Setting.second (h : AlikeTrees .same known a.modules b.modules) : Setting :=
  .confined .oneLine known b a (AlikeTrees.symm (f := id) h)

/-- Both machines have the same image on one line. The surroundings are those of the first one. -/
def Kindred (h : AlikeTrees .same known a.modules b.modules) (m n : Machine) : Prop :=
  ∃ x, Twins (.first known a) m x ∧ Twins (.second h) n x

namespace Kindred

/-- Kindred machines have printed the same. -/
theorem output (hk : Kindred h m n) : n.store.output = m.store.output := by
  obtain ⟨x, hm, hn⟩ := hk
  have hfirst : x.store.output = m.store.output := by
    rw [hm.store]
    rfl
  have hsecond : x.store.output = n.store.output := by
    rw [hn.store]
    rfl
  exact hsecond.symm.trans hfirst

/-- Kindred machines show the same of what a frame binds. -/
theorem shown? (hk : Kindred h m n) (f : FrameId) (name : String) :
    n.shown? f name = m.shown? f name := by
  obtain ⟨x, hm, hn⟩ := hk
  rw [← hm.shown? (fun _ _ => id), hn.shown? fun _ _ => id]

/-- Kindred machines have the surroundings they were compared in. -/
theorem surroundings (hk : Kindred h m n) : m.surroundings = a ∧ n.surroundings = b := by
  obtain ⟨x, hm, hn⟩ := hk
  exact ⟨hm.around.1, hn.around.1⟩

/-- Twins in which all lines are the same are kindred. -/
theorem start (ht : Twins (.confined .same known a b h) m n) : Kindred h m n := by
  have hcell : ∀ i, (m.store.heap.imports.map Relabeling.oneLine.importCell).getD i default =
      Relabeling.oneLine.importCell (m.store.heap.imports.getD i default) := fun i =>
    Heap.getD_map Relabeling.oneLine.importCell _ i default default rfl
  have hstore : n.store = { m.store with heap :=
      { m.store.heap with imports := n.store.heap.imports } } := by
    have := ht.store
    rwa [Store.image, show (Setting.confined .same known a b h).relabel = .same from rfl,
      Heap.image_same] at this
  have hframes : n.frames = m.frames := ht.frames.trans (Relabeling.frames_same _)
  obtain ⟨ha, hb⟩ := ht.around
  refine ⟨{ m with
    store := m.store.image .oneLine (m.store.heap.imports.map Relabeling.oneLine.importCell)
    frames := Relabeling.oneLine.frames m.frames }, ?_, ?_⟩
  · exact {
      tidy := ht.tidy.change (fun _ => id) (fun _ _ => id) rfl rfl rfl
        ⟨rfl, fun _ => rfl, fun _ => rfl⟩ ht.tidy.current
      cells := ⟨Array.size_map, fun i _ => by
        show AlikeCell _ _ ((m.store.heap.imports.map _).getD i default)
        rw [hcell]
        exact ⟨rfl, rfl, False.elim⟩⟩
      store := rfl
      frames := rfl
      active := rfl
      current := rfl
      around := ⟨ha, ha⟩ }
  · exact {
      tidy := ht.tidy.change (fun _ => id) (fun _ _ => id) (congrArg Store.heap hstore)
        ht.cells.size hframes ⟨ht.trees.size, ht.trees.globals, ht.trees.exports⟩ (by
          rw [ht.current]
          exact ht.tidy.current)
      cells := ⟨Array.size_map.trans ht.cells.size.symm, fun i hi => by
        have halike := ht.cells.cell i (ht.cells.size ▸ hi)
        show AlikeCell _ _ ((m.store.heap.imports.map _).getD i default)
        rw [hcell]
        exact ⟨congrArg Relabeling.oneLine.token halike.name.symm, halike.home.symm, False.elim⟩⟩
      store := by
        rw [hstore]
        rfl
      frames := congrArg Relabeling.oneLine.frames hframes.symm
      active := ht.active.symm
      current := ht.current.symm
      around := ⟨hb, ha⟩ }

/-- Kindred machines execute a statement that stands on other lines to the same end. -/
theorem execute (hk : Kindred h m n) (depth : Nat) {s s' : Stmt}
    (hs : everyStmt (Moment.Confined known) s) (hs' : everyStmt (Moment.Confined known) s')
    (hsame : Relabeling.oneLine.stmt s' = Relabeling.oneLine.stmt s) :
    (∃ flow flow' m' n', ScriptEngine.execute depth s m = .ok flow m' ∧
      ScriptEngine.execute depth s' n = .ok flow' n' ∧ Kindred h m' n') ∨
    ∃ halt halt' m' n', ScriptEngine.execute depth s m = .error halt m' ∧
      ScriptEngine.execute depth s' n = .error halt' n' ∧
      Relabeling.oneLine.halt halt' = Relabeling.oneLine.halt halt ∧ Kindred h m' n' := by
  obtain ⟨x, hm, hn⟩ := hk
  -- Both runs have the same image, so they end in the same way.
  have hfirst := (Setting.alike_confined _ depth).execute hm hs
  have hsecond := (Setting.alike_confined _ depth).execute hn hs'
  change Meets _ m x (ScriptEngine.execute depth s)
    (ScriptEngine.execute depth (Relabeling.oneLine.stmt s)) _ _ at hfirst
  change Meets _ n x (ScriptEngine.execute depth s')
    (ScriptEngine.execute depth (Relabeling.oneLine.stmt s')) _ _ at hsecond
  rw [hsame] at hsecond
  unfold Meets at hfirst hsecond
  cases hr : ScriptEngine.execute depth s m with
  | ok flow m' =>
    rw [hr] at hfirst
    obtain ⟨x', hx, hm', -, -⟩ := hfirst
    cases hr' : ScriptEngine.execute depth s' n with
    | ok flow' n' =>
      rw [hr'] at hsecond
      obtain ⟨x'', hx', hn', -, -⟩ := hsecond
      obtain ⟨-, rfl⟩ := EStateM.Result.ok.inj (hx.symm.trans hx')
      exact .inl ⟨flow, flow', m', n', rfl, rfl, x', hm', hn'⟩
    | error halt' n' =>
      rw [hr'] at hsecond
      obtain ⟨x'', hx', -⟩ := hsecond
      cases hx.symm.trans hx'
  | error halt m' =>
    rw [hr] at hfirst
    obtain ⟨x', hx, hm', -, -⟩ := hfirst
    cases hr' : ScriptEngine.execute depth s' n with
    | ok flow' n' =>
      rw [hr'] at hsecond
      obtain ⟨x'', hx', -⟩ := hsecond
      cases hx.symm.trans hx'
    | error halt' n' =>
      rw [hr'] at hsecond
      obtain ⟨x'', hx', hn', -, -⟩ := hsecond
      obtain ⟨hhalt, rfl⟩ := EStateM.Result.error.inj (hx.symm.trans hx')
      exact .inr ⟨halt, halt', m', n', rfl, rfl, hhalt.symm, x', hm', hn'⟩

/-- What halted both runs is reported in the same words. -/
theorem reportHalt (hk : Kindred h m n) (hreporter : a.reporter.SameButLines b.reporter)
    {halt halt' : Halt} (hhalt : Relabeling.oneLine.halt halt' = Relabeling.oneLine.halt halt) :
    (Evaluator.reportHalt halt m).reporter.SameButLines
      (Evaluator.reportHalt halt' n).reporter := by
  obtain ⟨ha, hb⟩ := hk.surroundings
  have hr : m.reporter.SameButLines n.reporter := by
    rw [show m.reporter = a.reporter from congrArg Surroundings.reporter ha,
      show n.reporter = b.reporter from congrArg Surroundings.reporter hb]
    exact hreporter
  obtain ⟨x, hm, hn⟩ := hk
  cases halt with
  | failed e =>
    cases halt' with
    | failed e' =>
      have herror := Halt.failed.inj hhalt
      have hmessage : e'.message = e.message := by
        rw [← Relabeling.oneLine.error_message, herror, Relabeling.error_message]
      have htoken : e.token?.map Relabeling.oneLine.token =
          e'.token?.map Relabeling.oneLine.token := by
        rw [← Relabeling.error_token?, ← Relabeling.error_token?, herror]
      show (m.reporter.stopped e.token? e.message).SameButLines
        (n.reporter.stopped e'.token? e'.message)
      rw [hmessage]
      exact hr.stopped htoken _
    | _ => cases hhalt
  | thrown id =>
    cases halt' with
    | thrown id' =>
      obtain rfl := Halt.thrown.inj hhalt
      have hcell : Relabeling.oneLine.errorCell (m.store.heap.error id') =
          Relabeling.oneLine.errorCell (n.store.heap.error id') :=
        (hm.error id').symm.trans (hn.error id')
      have hmessage : n.store.heap.display (n.store.heap.error id').message =
          m.store.heap.display (m.store.heap.error id').message := by
        rw [← hm.display (hm.tidy.heap.errors id'), ← hn.display (hn.tidy.heap.errors id')]
        exact congrArg (fun cell => x.store.heap.display cell.message) hcell.symm
      show (m.reporter.stopped (m.store.heap.error id').token? _).SameButLines
        (n.reporter.stopped (n.store.heap.error id').token? _)
      rw [hmessage]
      exact hr.stopped (congrArg ErrorCell.token? hcell) _
    | _ => cases hhalt
  | exhausted =>
    cases halt' with
    | exhausted => exact hr
    | _ => cases hhalt

end Kindred

/-- What two runs of a program in surroundings of their own have in common: the output, how the
values in all frames are shown, and the diagnostics up to their lines. The modules are as they
were. -/
structure SameOutcome (a b : Surroundings) (m n : Machine) : Prop where
  output : n.store.output = m.store.output
  shown : ∀ f name, n.shown? f name = m.shown? f name
  reporter : m.reporter.SameButLines n.reporter
  modules : m.modules = a.modules ∧ n.modules = b.modules

/-- Two runs that end in the same way and have the same outcome. -/
def SameEnd (a b : Surroundings) (r r' : EStateM.Result Halt Machine Unit) : Prop :=
  (∃ m n, r = .ok () m ∧ r' = .ok () n ∧ SameOutcome a b m n) ∨
  ∃ m n, r = .error .exhausted m ∧ r' = .error .exhausted n ∧ SameOutcome a b m n

/-- Kindred machines have the same outcome if their reporters had. -/
theorem Kindred.outcome (hk : Kindred h m n) (hreporter : a.reporter.SameButLines b.reporter) :
    SameOutcome a b m n where
  output := hk.output
  shown := hk.shown?
  reporter :=
    have h : (Evaluator.reportHalt .exhausted m).reporter.SameButLines
      (Evaluator.reportHalt .exhausted n).reporter := hk.reportHalt hreporter rfl
    h
  modules := ⟨congrArg Surroundings.modules hk.surroundings.1,
    congrArg Surroundings.modules hk.surroundings.2⟩

/-- The report of a halt changes nothing but the diagnostics. -/
theorem reportHalt_eq (halt : Halt) (m : Machine) : Evaluator.reportHalt halt m =
    { m with reporter := (Evaluator.reportHalt halt m).reporter } := by
  cases halt <;> rfl

theorem SameOutcome.reportHalt (ho : SameOutcome a b m n) {halt halt' : Halt}
    (hreporter : (Evaluator.reportHalt halt m).reporter.SameButLines
      (Evaluator.reportHalt halt' n).reporter) :
    SameOutcome a b (Evaluator.reportHalt halt m) (Evaluator.reportHalt halt' n) := by
  rw [reportHalt_eq halt m, reportHalt_eq halt' n]
  exact ⟨ho.output, ho.shown, hreporter, ho.modules⟩

/-- Kindred machines run a program that stands on other lines to the same end. -/
theorem Kindred.runTopLevel (hreporter : a.reporter.SameButLines b.reporter) (depth : Nat)
    (f : Nat → Nat) {p : List Stmt} (hp : everyStmts (Moment.Confined known) p) :
    ∀ {m n : Machine}, Kindred h m n →
      SameEnd a b ((evaluatorUpTo depth).runTopLevel p m)
        ((evaluatorUpTo depth).runTopLevel ((Relabeling.lines f).stmts p) n) := by
  induction p with
  | nil => exact fun hk => .inl ⟨_, _, rfl, rfl, hk.outcome hreporter⟩
  | cons s p ih =>
    intro m n hk
    have hsame : Relabeling.oneLine.stmt ((Relabeling.lines f).stmt s) =
        Relabeling.oneLine.stmt s := (Relabeling.stmt_after _ _ s).symm
    have hs' := everyStmt_relabel (fun _ hm => hm.lines f) s hp.1
    rw [Relabeling.stmts, Evaluator.runTopLevel_cons, Evaluator.runTopLevel_cons]
    unfold Run.either
    rcases hk.execute depth hp.1 hs' hsame with ⟨flow, flow', m', n', hm, hn, hk'⟩ |
      ⟨halt, halt', m', n', hm, hn, hhalt, hk'⟩
    · change (evaluatorUpTo depth).execute s m = _ at hm
      change (evaluatorUpTo depth).execute _ n = _ at hn
      rw [hm, hn]
      exact ih hp.2 hk'
    · change (evaluatorUpTo depth).execute s m = _ at hm
      change (evaluatorUpTo depth).execute _ n = _ at hn
      rw [hm, hn]
      have houtcome := (hk'.outcome hreporter).reportHalt (hk'.reportHalt hreporter hhalt)
      cases halt with
      | exhausted =>
        cases halt' with
        | exhausted => exact .inr ⟨m', n', rfl, rfl, hk'.outcome hreporter⟩
        | _ => cases hhalt
      | failed e =>
        cases halt' with
        | failed e' => exact .inl ⟨_, _, rfl, rfl, houtcome⟩
        | _ => cases hhalt
      | thrown id =>
        cases halt' with
        | thrown id' => exact .inl ⟨_, _, rfl, rfl, houtcome⟩
        | _ => cases hhalt

end Kindred

end ScriptEngine
