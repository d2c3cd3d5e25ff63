import Mathlib.Data.List.Nodup
import Mathlib.Data.List.Pairwise
import ScriptEngine.Proofs.Program.Numbering
import ScriptEngine.Proofs.Program.Writing
import ScriptEngine.Proofs.Scope.Recorded
import ScriptEngine.Proofs.Scope.Relabeling
import ScriptEngine.Proofs.Session.Play

/-!
# Numbers of expressions and the distances under them

The counter of expressions belongs to the process: each source is parsed from where the parse
before it has left the counter, whether that one was accepted or not. So the nodes of all programs
have numbers of their own (`Parser.parses_distinct`), and since the resolver records distances under
numbers of nodes only, a table that takes in one program after the other never loses or changes an
entry (`Scope.Entered.step` for one program, `Scope.Entered.run` for any number of them).

In a session the tables are those of the modules, and a module that runs again extends the one it
has. There every entry lies below the counter, so the numbers that are still to be given out have
none (`play_keeps_distances`).
-/

namespace ScriptEngine

open Scope hiding bind

/-! ## Parses one after the other -/

namespace Parser

/-- The outcomes of parsing some lists of tokens in one process, each from where the counter stands
then. -/
def parses : ExprId → List (List Token) → List Parsed
  | _, [] => []
  | first, tokens :: rest => parse first tokens :: parses (parse first tokens).nextId rest

/-- The nodes of a program that was parsed, if it was. -/
def nodesOf (parsed : Parsed) : List Expr :=
  parsed.result.toOption.elim [] stmtsNodes

/-- The nodes of a parse have numbers of their own in the range that it used up. -/
theorem nodesOf_distinct (first : ExprId) (tokens : List Token) :
    Distinct first (parse first tokens).nextId (ids (nodesOf (parse first tokens))) := by
  obtain ⟨hcounter, hdistinct⟩ := parse_distinct first tokens
  unfold nodesOf
  cases hresult : (parse first tokens).result with
  | ok statements => exact hdistinct statements hresult
  | error errors => exact ⟨hcounter, by simp [Except.toOption], by simp [Except.toOption]⟩

/-- The nodes of all programs have distinct numbers. By induction on the parses: what one of them
gives out lies below the counter that the next one starts from. -/
theorem parses_distinct (first : ExprId) (sources : List (List Token)) :
    ∃ next, Distinct first next (ids ((parses first sources).flatMap nodesOf)) := by
  induction sources generalizing first with
  | nil => exact ⟨first, Nat.le_refl _, by simp [parses], by simp [parses]⟩
  | cons tokens sources ih =>
    obtain ⟨next, hrest⟩ := ih (parse first tokens).nextId
    refine ⟨next, ?_⟩
    rw [parses, List.flatMap_cons, ids_append]
    exact (nodesOf_distinct first tokens).append hrest

/-- Parses that follow one another give no number twice. -/
theorem parses_nodup (first : ExprId) (sources : List (List Token)) :
    (ids ((parses first sources).flatMap nodesOf)).Nodup := by
  obtain ⟨_, hdistinct⟩ := parses_distinct first sources
  exact List.nodup_iff_count_le_one.mpr hdistinct.once

/-- A program that was parsed. -/
def Among (outcomes : List Parsed) (program : List Stmt) : Prop :=
  ∃ parsed ∈ outcomes, parsed.result = .ok program

/-- A number of a program belongs to the parse that the program came from. -/
theorem mem_nodes {outcomes : List Parsed} {program : List Stmt} {id : ExprId}
    (h : Among outcomes program) (hid : id ∈ ids (stmtsNodes program)) :
    ∃ parsed ∈ outcomes, parsed.result = .ok program ∧ id ∈ ids (nodesOf parsed) := by
  obtain ⟨parsed, hmem, hresult⟩ := h
  refine ⟨parsed, hmem, hresult, ?_⟩
  rwa [nodesOf, hresult]

/-- Programs with a number in common are one. -/
def Unshared (known : List Stmt → Prop) : Prop :=
  ∀ p q id, known p → known q → id ∈ ids (stmtsNodes p) → id ∈ ids (stmtsNodes q) → p = q

theorem parses_unshared (first : ExprId) (sources : List (List Token)) :
    Unshared (Among (parses first sources)) := by
  intro p q id hp hq hidp hidq
  obtain ⟨parsed, hmem, hresult, hid⟩ := mem_nodes hp hidp
  obtain ⟨parsed', hmem', hresult', hid'⟩ := mem_nodes hq hidq
  have hnodup := parses_nodup first sources
  rw [ids, List.map_flatMap, List.nodup_flatMap] at hnodup
  by_contra hne
  have hother : parsed ≠ parsed' := by
    rintro rfl
    exact hne (Except.ok.inj (hresult.symm.trans hresult'))
  have : Std.Symm (Function.onFun List.Disjoint fun parsed => List.map Expr.id (nodesOf parsed)) :=
    ⟨fun _ _ => List.Disjoint.symm⟩
  exact hnodup.2.forall hmem hmem' hother hid hid'

end Parser

/-! ## A table that takes in one program after the other -/

namespace Scope

open ScriptEngine.Parser (Unshared)

/-- A table after a program has been resolved. One that is refused leaves the table as it is. -/
def extendedBy (table : Std.TreeMap ExprId Nat) (program : List Stmt) : Std.TreeMap ExprId Nat :=
  match resolve program with
  | .ok distances => table.insertMany distances
  | .error _ => table

/-- The table of a module that has run some programs. -/
def tableAfter (programs : List (List Stmt)) : Std.TreeMap ExprId Nat :=
  programs.foldl extendedBy ∅

/-- Every entry of a table is the distance that one of some programs has for its number. -/
def Entered (known : List Stmt → Prop) (table : Std.TreeMap ExprId Nat) : Prop :=
  ∀ (id : ExprId) d, table[id]? = some d →
    ∃ p, known p ∧ ∃ distances, resolve p = .ok distances ∧ distances.reverse.lookup id = some d

/-- A distance stands under the number of a node of the program. -/
theorem mem_nodes_of_lookup {p : List Stmt} {distances : List (ExprId × Nat)} {id : ExprId}
    {d : Nat} (hresolve : resolve p = .ok distances)
    (h : distances.reverse.lookup id = some d) : id ∈ ids (stmtsNodes p) := by
  have hmem : (id, d) ∈ (findings p).distances := by
    rw [(resolve_eq_ok.mp hresolve).2]
    exact List.mem_reverse.mp (mem_of_lookup h)
  exact mem_nodes_of_recorded hmem

variable {known : List Stmt → Prop} {table : Std.TreeMap ExprId Nat}

/-- Taking in one more program keeps every entry. -/
theorem Entered.step (h : Entered known table) (hunshared : Unshared known) {q : List Stmt}
    (hq : known q) :
    Entered known (extendedBy table q) ∧
      ∀ (id : ExprId) d, table[id]? = some d → (extendedBy table q)[id]? = some d := by
  unfold extendedBy
  cases hresolve : resolve q with
  | error errors => exact ⟨h, fun _ _ => id⟩
  | ok distances =>
    dsimp only
    constructor
    · intro id d hd
      rw [getElem?_insertMany] at hd
      cases hlookup : distances.reverse.lookup id with
      | some d' =>
        rw [hlookup] at hd
        exact ⟨q, hq, distances, hresolve, hlookup.trans hd⟩
      | none =>
        rw [hlookup] at hd
        exact h id d hd
    · intro id d hd
      rw [getElem?_insertMany]
      cases hlookup : distances.reverse.lookup id with
      | none => exact hd
      | some d' =>
        -- The number is one of both programs, so the entry was made by this very program.
        obtain ⟨p, hp, old, hold, hentry⟩ := h id d hd
        obtain rfl := hunshared p q id hp hq (mem_nodes_of_lookup hold hentry)
          (mem_nodes_of_lookup hresolve hlookup)
        obtain rfl := Except.ok.inj (hold.symm.trans hresolve)
        exact hlookup.symm.trans hentry

/-- Taking in any number of programs keeps every entry. -/
theorem Entered.run (hunshared : Unshared known) {programs : List (List Stmt)}
    (hprograms : ∀ p ∈ programs, known p) :
    ∀ {table}, Entered known table →
      Entered known (programs.foldl extendedBy table) ∧
        ∀ (id : ExprId) d, table[id]? = some d →
          (programs.foldl extendedBy table)[id]? = some d := by
  induction programs with
  | nil => exact fun h => ⟨h, fun _ _ => id⟩
  | cons p programs ih =>
    intro table h
    obtain ⟨hp, hrest⟩ := List.forall_mem_cons.mp hprograms
    obtain ⟨hentered, hkept⟩ := h.step hunshared hp
    obtain ⟨hend, hkept'⟩ := ih hrest hentered
    exact ⟨hend, fun id d hd => hkept' id d (hkept id d hd)⟩

end Scope

/-! ## The tables of a session -/

namespace Session

open ScriptEngine.Parser (Among parses nodesOf)

/-- Every entry that a module has after a step of a session is there after all later steps. -/
theorem play_keeps_distances (depth : Nat) (steps : List Step) :
    ∀ {w : World} {s : Session}, Sound 0 w s.machine →
      (∀ text, .source text ∈ steps → w.sources text) →
      (play depth s steps).Pairwise fun before after => ∀ k (id : ExprId) d,
        (before.2.machine.modules.node k).distances[id]? = some d →
        (after.2.machine.modules.node k).distances[id]? = some d := by
  induction steps with
  | nil => exact fun _ _ => .nil
  | cons step steps ih =>
    intro w s hs hsources
    obtain ⟨w₁, hm₁, hs₁, -⟩ := take_sound hs depth
      fun text heq => hsources text (heq ▸ List.mem_cons_self)
    have hrest : ∀ text, .source text ∈ steps → w₁.sources text := fun text hmem => by
      rw [hm₁.sources]
      exact hsources text (List.mem_cons_of_mem step hmem)
    refine List.pairwise_cons.mpr ⟨fun after hafter k id d hd => ?_, ih hs₁ hrest⟩
    obtain ⟨w₂, hm₂, -⟩ := play_moves depth steps hs₁ hrest after hafter
    -- The number was given out by the end of the step, and a run leaves such entries alone.
    exact (hm₂.tables k id (hs₁.tables k id d hd)).trans hd

/-- No two expressions of a process have one number, and a distance recorded under a number stays.
Over all parses of a process the nodes of the accepted programs have different numbers. What the
resolver finds in a program it records under numbers of nodes of this program. So the table of a
module that runs any of the programs keeps each entry when it takes in the next one, and each entry
belongs to one node of all programs. That is how the tables of modules behave in every session: the
entries are below the counter that the next parse starts from, and they are the same after all later
steps. -/
theorem numbers_never_shared :
    (∀ first sources, ((parses first sources).flatMap nodesOf).Pairwise fun e e' => e.id ≠ e'.id) ∧
      (∀ program, ∀ entry ∈ (findings program).distances,
        ∃ e ∈ stmtsNodes program, e.id = entry.1) ∧
      (∀ first sources earlier later,
        (∀ p ∈ earlier ++ later, Among (parses first sources) p) →
        ∀ (id : ExprId) d, (tableAfter earlier)[id]? = some d →
          (tableAfter (earlier ++ later))[id]? = some d ∧
            (ids ((parses first sources).flatMap nodesOf)).count id = 1) ∧
      ∀ files clock depth steps,
        (∀ r ∈ play depth (start files clock) steps, ∀ k (id : ExprId) d,
          (r.2.machine.modules.node k).distances[id]? = some d → id < r.2.machine.nextExpr) ∧
        (play depth (start files clock) steps).Pairwise fun before after => ∀ k (id : ExprId) d,
          (before.2.machine.modules.node k).distances[id]? = some d →
          (after.2.machine.modules.node k).distances[id]? = some d := by
  refine ⟨fun first sources => ?_, fun program entry hentry => ?_,
    fun first sources earlier later hprograms id d hd => ?_, fun files clock depth steps => ?_⟩
  · exact List.pairwise_map.mp (Parser.parses_nodup first sources)
  · exact List.mem_map.mp (mem_nodes_of_recorded hentry)
  · obtain ⟨hearlier, hlater⟩ := List.forall_mem_append.mp hprograms
    have hunshared := Parser.parses_unshared first sources
    have hempty : Entered (Among (parses first sources)) ∅ := fun id d h => by
      rw [Std.TreeMap.getElem?_emptyc] at h
      cases h
    obtain ⟨hentered, -⟩ := Entered.run hunshared hearlier hempty
    constructor
    · rw [tableAfter, List.foldl_append]
      exact (Entered.run hunshared hlater hentered).2 id d hd
    · obtain ⟨p, hp, distances, hresolve, hlookup⟩ := hentered id d hd
      obtain ⟨parsed, hmem, -, hid⟩ := Parser.mem_nodes hp (mem_nodes_of_lookup hresolve hlookup)
      obtain ⟨e, he, rfl⟩ := List.mem_map.mp hid
      refine List.count_eq_one_of_mem (Parser.parses_nodup first sources) ?_
      exact List.mem_map_of_mem (List.mem_flatMap_of_mem hmem he)
  · constructor
    · intro r hr k id d hd
      obtain ⟨w, hs⟩ := steps_sound files clock depth steps r hr
      exact Nat.lt_of_lt_of_le (hs.tables k id d hd) hs.issued
    · have hstart : Sound 0 (world (sources files steps)) (start files clock).machine :=
        sound_start fun path text hread => Or.inr ⟨path, hread⟩
      exact play_keeps_distances depth steps hstart fun text hmem => Or.inl hmem

/-- A variable that is declared and read in a block. -/
def blockText : List Token :=
  [Writing.mark .leftBrace, Writing.mark .varWord, Token.named "a" 1, Writing.mark .semicolon,
    Token.named "a" 1, Writing.mark .semicolon, Writing.mark .rightBrace]

/-- The block, with a number for the variable where it is read. -/
def blockOf (id : ExprId) : List Stmt :=
  [.block [.var (Token.named "a" 1) none, .expression (.reference ⟨id, Token.named "a" 1⟩)]]

/-- The distance recorded for the first of two blocks that look the same is there after both. -/
theorem numbers_never_shared_blocks :
    (tableAfter ([blockOf 0] ++ [blockOf 1]))[(0 : ExprId)]? = some 0 := by
  refine (numbers_never_shared.2.2.1 0 [blockText, blockText] [blockOf 0] [blockOf 1]
    (fun p hp => ?_) 0 0 (by decide +kernel)).1
  rcases List.mem_pair.mp hp with rfl | rfl
  · exact ⟨_, List.mem_cons_self, rfl⟩
  · exact ⟨_, List.mem_cons_of_mem _ List.mem_cons_self, rfl⟩

end Session

end ScriptEngine
