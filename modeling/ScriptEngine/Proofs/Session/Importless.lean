import ScriptEngine.Proofs.Evaluator.Importless
import ScriptEngine.Proofs.Program.Parsed
import ScriptEngine.Proofs.Scope.Relabeling
import ScriptEngine.Proofs.Session.Reference
import ScriptEngine.Proofs.Session.Rejection

/-!
# Sessions that import nothing

A source is free of imports if the program that it is parsed as contains no import statement; which
numbers its expressions get does not matter to that (`ImportFree.confined`), nor to whether it is
accepted (`exists_of_accepted`).

The machine of a session whose steps are free of imports holds no import reference, and its code
looks up no number that has not been given out (`Importless.tidy`).
-/

namespace ScriptEngine

/-- The program of a source, if it has one, contains no import statement. -/
def ImportFree (source : String) : Prop :=
  ∀ tokens statements, Token.scan source = .ok tokens →
    (parse 0 tokens).result = .ok statements → everyStmts Moment.Importless statements

variable {source : String} {tokens : List Token} {statements : List Stmt}

/-- A source is free of imports if its statements are. -/
theorem ImportFree.of_parse (hscan : Token.scan source = .ok tokens)
    (hparse : (parse 0 tokens).result = .ok statements)
    (h : everyStmts Moment.Importless statements) : ImportFree source := by
  intro tokens' statements' hscan' hparse'
  obtain rfl := Except.ok.inj (hscan.symm.trans hscan')
  obtain rfl := Except.ok.inj (hparse.symm.trans hparse')
  exact h

/-- A program that is parsed with the numbers from zero is parsed with later ones too. -/
theorem parse_of_zero (h : (parse 0 tokens).result = .ok statements) (first : ExprId) :
    (parse first tokens).result = .ok (Relabeling.stmts ⟨id, (first + ·)⟩ statements) :=
  (Parser.parse_renumbered (f := ⟨id, (first + ·)⟩) h rfl fun i => by rw [Nat.zero_add]).1

/-- A program that is parsed with any numbers is parsed with the numbers from zero. -/
theorem parse_zero_of {first : ExprId} (h : (parse first tokens).result = .ok statements) :
    ∃ p, (parse 0 tokens).result = .ok p ∧
      statements = Relabeling.stmts ⟨id, (first + ·)⟩ p := by
  have hzero := (Parser.parse_renumbered (f := ⟨id, (· - first)⟩) h rfl fun i => by
    show first + i - first = 0 + i
    rw [Nat.add_sub_cancel_left, Nat.zero_add]).1
  exact ⟨_, hzero, Except.ok.inj (h.symm.trans (parse_of_zero hzero first))⟩

/-- The program of a source without imports is confined to the numbers below a counter, if that is
no less than the one that reading it leaves. -/
theorem ImportFree.confined (h : ImportFree source) (hscan : Token.scan source = .ok tokens)
    {first bound : ExprId} (hparse : (parse first tokens).result = .ok statements)
    (hbound : (parse first tokens).nextId ≤ bound) :
    everyStmts (Moment.Confined (· < bound)) statements := by
  obtain ⟨p, hzero, rfl⟩ := parse_zero_of hparse
  have himportless : everyStmts Moment.Importless (Relabeling.stmts ⟨id, (first + ·)⟩ p) :=
    everyStmts_relabel (fun _ hm => hm.relabel _) p (h tokens p hscan hzero)
  have hfresh := (Parser.parse_fresh first (Token.proper_scan hscan)).2 _ hparse
  have hentails : Entails (· < bound) Moment.Importless (Moment.Confined (· < bound)) :=
    fun moment hm hknown => ⟨hm, hknown⟩
  refine everyStmts_imp hentails _ himportless fun id hid => ?_
  exact Nat.lt_of_lt_of_le (hfresh.range id (List.mem_filterMap.mpr ⟨_, hid, rfl⟩)).2 hbound

/-- An accepted source is scanned, parsed and resolved with any numbers. -/
theorem exists_of_accepted (h : verdict 0 source = .accepted) (first : ExprId) :
    ∃ tokens statements distances, Token.scan source = .ok tokens ∧
      (parse first tokens).result = .ok statements ∧ Scope.resolve statements = .ok distances := by
  unfold verdict at h
  split at h
  · cases h
  · next tokens hscan =>
    split at h
    · cases h
    · next statements hparse =>
      split at h
      · cases h
      · next distances hresolve =>
        exact ⟨tokens, _, _, hscan, parse_of_zero hparse first, Scope.resolve_relabel _ hresolve⟩

/-- A run of which there is a twin has only added to its machine. -/
theorem Meets.grown {α β : Type} {σ : Setting} {m n : Machine} {x : Run α} {y : Run β} {f : α → β}
    {P : Machine → α → Prop} (h : Meets σ m n x y f P) : m.Grown (Run.left (x m)) := by
  unfold Meets at h
  cases hr : x m with
  | ok a m' =>
    rw [hr] at h
    obtain ⟨-, -, -, hg, -⟩ := h
    exact hg
  | error halt m' =>
    rw [hr] at h
    obtain ⟨-, -, -, hg, -⟩ := h
    exact hg

namespace Session

/-! ## The counter of numbers -/

/-- Whatever can be read takes its numbers from the counter when it is compiled. -/
theorem compile?_numbers (hscan : Token.scan source = .ok tokens) (m : Machine) :
    ∃ statements? reporter, Evaluator.compile? source m = .ok statements? { m with
      reporter := reporter
      nextExpr := (parse m.nextExpr tokens).nextId } := by
  rw [Evaluator.compile?_eq hscan]
  cases (parse m.nextExpr tokens).result with
  | ok statements => exact ⟨some statements, m.reporter, rfl⟩
  | error errors => exact ⟨none, _, rfl⟩

/-- Running a source gives out at least the numbers that it takes to read it. -/
theorem numbers_runSource {m : Machine} (h : Tidy (everything True fun _ _ => True) m)
    (depth : Nat) (root : Path) (hscan : Token.scan source = .ok tokens) :
    (parse m.nextExpr tokens).nextId ≤ (Run.left (runSource depth root source m)).nextExpr := by
  obtain ⟨statements?, reporter, hcompile⟩ :=
    compile?_numbers hscan { m with reporter := m.reporter.reset }
  cases statements? with
  | none =>
    rw [runSource_none hcompile]
    exact Nat.le_refl _
  | some statements =>
    rw [runSource_some hcompile]
    -- A run is its own twin, so it has grown.
    have htidy : Tidy (everything True fun _ _ => True) { m with
        reporter := reporter
        nextExpr := (parse m.nextExpr tokens).nextId } := { h with current := h.current }
    have halike : (evaluatorUpTo depth).Alike (everything True fun _ _ => True)
        (evaluatorUpTo depth) := by
      rw [← evaluatorUnder_quiet]
      exact alike_evaluatorUnder (fun _ _ => .inl ⟨rfl, rfl, fun _ _ _ _ _ => trivial⟩) depth
    have hroot := Evaluator.meets_runRoot trivial halike (htidy.self rfl rfl) root
      (everyStmts_of_forall (fun _ => trivial) statements)
    have hmeets := meets_bind hroot fun _ _ _ h' _ _ =>
      meets_pure (f := id) (P := fun _ _ => True) (a := true) h' rfl trivial
    exact hmeets.grown.numbers

/-! ## What import-free steps leave -/

/-- The setting of runs that import nothing and look up no number from the bound on. -/
def upTo (bound : ExprId) : Setting where
  relabel := .same
  cached := True
  strict := True
  part := Moment.Confined (· < bound)
  known := (· < bound)
  names := fun _ _ => False
  around := Eq
  relabel_eq := fun _ => rfl
  around_eq := (everything True fun _ _ => False).around_eq
  around_alike := by
    rintro a _ rfl
    exact .refl id _
  looked := fun _ hm => hm.looked
  loads := fun path items hm => absurd rfl (hm.importless path items)

/-- The sessions whose steps contain no import statement. -/
inductive Importless : Session → Prop where
  | start (files : FileSystem) (clock : Nat) : Importless (.start files clock)
  | take {s : Session} (earlier : Importless s) (depth : Nat) (step : Step)
      (free : ∀ text s', s.opened step = .ok (text, s') → ImportFree text) :
      Importless (s.take depth step).2

/-- The machine of such a session is tidy, and its code looks up no number that has not been given
out. -/
theorem Importless.tidy {s : Session} (h : s.Importless) :
    ∀ {bound : ExprId}, s.machine.nextExpr ≤ bound → Tidy (upTo bound) s.machine := by
  induction h with
  | start files clock => exact fun _ => tidy_start files clock
  | @take s earlier depth step free ih =>
    intro bound hbound
    have htidy : Tidy (everything True fun _ _ => True) s.machine :=
      (ih (Nat.le_refl _)).change (fun _ _ => trivial) (fun _ _ => False.elim) rfl rfl rfl
        ⟨rfl, fun _ => rfl, fun _ => rfl⟩ (ih (Nat.le_refl _)).current
    have hanything : Observer.quiet.Alike (everything True fun _ _ => True) .quiet :=
      fun _ _ => .inl ⟨rfl, rfl, fun _ _ _ _ _ => trivial⟩
    -- Whatever a step does, it only adds to the machine.
    have hgrown : s.machine.Grown (s.take depth step).2.machine := by
      have hsame : s.Twins (everything True fun _ _ => True) s := ⟨htidy.self rfl rfl, rfl, rfl⟩
      rw [← takeUnder_quiet]
      exact (hsame.takeUnder trivial hanything depth step fun _ _ _ _ _ _ _ =>
        everyStmts_of_forall (fun _ => trivial) _).2.2
    have hself : s.Twins (upTo bound) s :=
      ⟨(ih (Nat.le_trans hgrown.numbers hbound)).self rfl rfl, rfl, rfl⟩
    have hquiet : Observer.quiet.Alike (upTo bound) .quiet := fun {_ _ moment} _ hpart =>
      .inl ⟨rfl, rfl, fun path items hm => by
        subst hm
        exact absurd rfl (hpart.importless path items)⟩
    have htaken := hself.takeUnder trivial hquiet depth step fun text s' hopened => ?_
    · rw [takeUnder_quiet] at htaken
      exact htaken.2.1.machine.tidy
    · intro tokens statements hscan hparse
      refine (free text s' hopened).confined hscan hparse (Nat.le_trans ?_ hbound)
      have hnumbers := numbers_runSource htidy depth s'.root hscan
      rw [take_opened depth hopened, machine_left, opened_machine hopened]
      exact hnumbers

end Session

end ScriptEngine
