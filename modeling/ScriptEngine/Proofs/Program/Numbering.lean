import ScriptEngine.Program.Parser
import ScriptEngine.Proofs.Program.Node
import ScriptEngine.Proofs.Program.Spelling

/-!
# What the grammar promises

Every expression in a program that was parsed has a number of its own, taken from the counter while
the program was read (`parse_distinct`). If the tokens are proper, every mark of the program is
proper too, and `parse_fresh` says both of its marks.

A production is judged by the labels of what it returns: the numbers of all its nodes, and its
marks. `Adds l p m` says: if the labels `l` have been read already and are kept apart, then they are
kept apart still after `p`, now with those of its result counted in. A production that fails only
moves the counter on, so the numbers of a declaration that is dropped are never given out again.
What a production hands on may have fewer labels than what it has read (`Covers`): the target of an
assignment loses the number it had as a reference, and of two map entries with one key only the
later value stays.
-/

namespace ScriptEngine.Parser

open Scope hiding bind

/-! ## Fresh marks -/

/-- Every mark is proper. -/
def AllProper (marks : List Mark) : Prop :=
  ∀ k ∈ marks, k.Proper

@[simp, grind .] theorem allProper_nil : AllProper [] := by simp [AllProper]

@[simp, grind =] theorem allProper_cons (k : Mark) (ks : List Mark) :
    AllProper (k :: ks) ↔ k.Proper ∧ AllProper ks := by
  simp [AllProper]

/-- Marks are proper one behind the other if both parts are. -/
@[simp, grind =] theorem allProper_append (ks ls : List Mark) :
    AllProper (ks ++ ls) ↔ AllProper ks ∧ AllProper ls := by
  simp [AllProper, or_imp, forall_and]

/-- The numbers among the marks are distinct and lie between two bounds, and all marks are
proper. -/
structure Fresh (first next : ExprId) (marks : List Mark) : Prop where
  bounds : first ≤ next
  once : ∀ id, (numbers marks).count id ≤ 1
  range : ∀ id ∈ numbers marks, first ≤ id ∧ id < next
  proper : AllProper marks

/-- The numbers are distinct and lie between two bounds. -/
structure Distinct (first next : ExprId) (taken : List ExprId) : Prop where
  bounds : first ≤ next
  once : ∀ id, taken.count id ≤ 1
  range : ∀ id ∈ taken, first ≤ id ∧ id < next

/-- Numbers that are distinct below a counter are so below a larger one. -/
theorem Distinct.mono {first next next' : ExprId} {taken : List ExprId}
    (h : Distinct first next taken) (hle : next ≤ next') : Distinct first next' taken where
  bounds := Nat.le_trans h.bounds hle
  once := h.once
  range := fun id hid => ⟨(h.range id hid).1, Nat.lt_of_lt_of_le (h.range id hid).2 hle⟩

theorem Distinct.fewer {first next : ExprId} {taken taken' : List ExprId}
    (h : Distinct first next taken) (hcount : ∀ id, taken'.count id ≤ taken.count id) :
    Distinct first next taken' where
  bounds := h.bounds
  once := fun id => Nat.le_trans (hcount id) (h.once id)
  range := fun id hid => by
    refine h.range id ?_
    have hpos := List.count_pos_iff.mpr hid
    exact List.count_pos_iff.mp (Nat.lt_of_lt_of_le hpos (hcount id))

/-- Numbers that lie one range behind the other are distinct if they are in each of the ranges. -/
theorem Distinct.append {first middle next : ExprId} {taken taken' : List ExprId}
    (h : Distinct first middle taken) (h' : Distinct middle next taken') :
    Distinct first next (taken ++ taken') where
  bounds := Nat.le_trans h.bounds h'.bounds
  once := fun id => by
    rw [List.count_append]
    by_cases hmem : id ∈ taken
    · have hnot : id ∉ taken' := fun hmem' =>
        Nat.not_le_of_lt (h.range id hmem).2 (h'.range id hmem').1
      rw [List.count_eq_zero_of_not_mem hnot]
      exact h.once id
    · rw [List.count_eq_zero_of_not_mem hmem, Nat.zero_add]
      exact h'.once id
  range := fun id hid => by
    rcases List.mem_append.mp hid with hmem | hmem
    · exact ⟨(h.range id hmem).1, Nat.lt_of_lt_of_le (h.range id hmem).2 h'.bounds⟩
    · exact ⟨Nat.le_trans h.bounds (h'.range id hmem).1, (h'.range id hmem).2⟩

/-- The numbers among the labels are distinct and lie between two bounds, and all labels are proper
if the tokens they come from are. -/
structure Kept (promised : Prop) (first next : ExprId) (marks : List Mark) : Prop where
  distinct : Distinct first next (numbers marks)
  proper : promised → AllProper marks

/-- The second list has no numbers that the first has not, and is proper if the first is. -/
structure Covers (l l' : List Mark) : Prop where
  count : ∀ id, (numbers l').count id ≤ (numbers l).count id
  proper : AllProper l → AllProper l'

/-- To cover marks is to have every number as often, and to be proper only if they are. -/
@[grind =] theorem covers_iff {l l' : List Mark} :
    Covers l l' ↔
      (∀ id, (numbers l').count id ≤ (numbers l).count id) ∧ (AllProper l → AllProper l') :=
  ⟨fun h => ⟨h.count, h.proper⟩, fun h => ⟨h.1, h.2⟩⟩

theorem Covers.refl (l : List Mark) : Covers l l := ⟨fun _ => Nat.le_refl _, id⟩

/-- What covers other marks does so behind the same ones. -/
theorem Covers.append_left {l l' : List Mark} (h : Covers l l') (acc : List Mark) :
    Covers (acc ++ l) (acc ++ l') where
  count := fun id => by
    have := h.count id
    simp only [numbers_append, List.count_append]
    omega
  proper := by
    simp only [allProper_append]
    exact fun hl => ⟨hl.1, h.proper hl.2⟩

/-- What is kept below a counter is kept below a larger one. -/
theorem Kept.mono {promised : Prop} {first next next' : ExprId} {l : List Mark}
    (h : Kept promised first next l) (hle : next ≤ next') : Kept promised first next' l :=
  ⟨h.distinct.mono hle, h.proper⟩

/-- What is kept of some marks is kept of marks that they cover. -/
theorem Kept.covers {promised : Prop} {first next : ExprId} {l l' : List Mark}
    (h : Kept promised first next l) (hc : Covers l l') : Kept promised first next l' :=
  ⟨h.distinct.fewer hc.count, fun hpromised => hc.proper (h.proper hpromised)⟩

/-! ## The labels of a piece of program -/

/-- The numbers of all nodes, and all marks that are no numbers. -/
def labels (nodes : List Expr) (marks : List Mark) : List Mark :=
  (ids nodes).map .number ++ marks.filter (·.number?.isNone)

/-- The numbers in labels are those of the nodes. -/
@[simp, grind =] theorem numbers_labels (nodes : List Expr) (marks : List Mark) :
    numbers (labels nodes marks) = ids nodes := by
  have hnodes : numbers ((ids nodes).map .number) = ids nodes := by
    induction ids nodes with
    | nil => rfl
    | cons id taken ih => rw [List.map_cons, numbers_number, ih]
  have hmarks : numbers (marks.filter (·.number?.isNone)) = [] :=
    List.filterMap_eq_nil_iff.mpr fun k hk => by simpa using (List.mem_filter.mp hk).2
  rw [labels, numbers_append, hnodes, hmarks, List.append_nil]

/-- Labels are proper if their marks are. -/
@[simp, grind =] theorem allProper_labels (nodes : List Expr) (marks : List Mark) :
    AllProper (labels nodes marks) ↔ AllProper marks := by
  constructor
  · intro h k hk
    cases k with
    | number id => trivial
    | _ => exact h _ (List.mem_append_right _ (List.mem_filter.mpr ⟨hk, rfl⟩))
  · intro h k hk
    rcases List.mem_append.mp hk with hnode | hmark
    · obtain ⟨id, -, rfl⟩ := List.mem_map.mp hnode
      trivial
    · exact h k (List.mem_filter.mp hmark).1

/-- The labels of an expression. -/
def exprLabels (e : Expr) : List Mark := labels (exprNodes e) (exprMarks e)

/-- The labels of the values of a map. -/
def entriesLabels (es : List (Token × Expr)) : List Mark :=
  labels (entriesNodes es) (entriesMarks es)

/-- The labels of an optional expression. -/
def optionalLabels (e? : Option Expr) : List Mark := labels (optionalNodes e?) (optionalMarks e?)

/-- The labels of a function. -/
def functionLabels (decl : FunctionDecl) : List Mark :=
  labels (functionNodes decl) (functionMarks decl)

/-- The labels of the methods of a class. -/
def methodsLabels (decls : List FunctionDecl) : List Mark :=
  labels (methodsNodes decls) (methodsMarks decls)

/-- The labels of a statement. -/
def stmtLabels (s : Stmt) : List Mark := labels (stmtNodes s) (stmtMarks s)

/-- The labels of a list of statements. -/
def stmtsLabels (ss : List Stmt) : List Mark := labels (stmtsNodes ss) (stmtsMarks ss)

/-- The labels of an optional list of statements. -/
def blockLabels (body? : Option (List Stmt)) : List Mark :=
  labels (blockNodes body?) (blockMarks body?)

attribute [grind =] exprLabels entriesLabels optionalLabels functionLabels methodsLabels stmtLabels
  stmtsLabels blockLabels

/-! ## Productions that add labels -/

theorem mem_skipAfter {t last : Token} {rest : List Token} (h : t ∈ skipAfter last rest) :
    t ∈ rest := by
  induction rest generalizing last with
  | nil => exact h
  | cons u rest ih =>
    unfold skipAfter at h
    split at h
    · exact h
    · exact List.mem_cons_of_mem u (ih h)

theorem mem_synchronize {t : Token} {rest : List Token} (h : t ∈ synchronize rest) : t ∈ rest := by
  cases rest with
  | nil => exact h
  | cons u rest => exact List.mem_cons_of_mem u (mem_skipAfter h)

/-- The state of a parse after another one: if proper tokens are promised, then only proper tokens
are left, and the counter has not gone back. -/
structure Follows (promised : Prop) (s s' : ParseState) : Prop where
  rest : promised → ∀ t ∈ s'.rest, t.Proper
  counter : s.nextId ≤ s'.nextId

/-- After the labels `l`, the production adds those of its result, whether proper tokens are
promised or not. -/
def Adds {α : Type} (l : List Mark) (p : Parser α) (m : α → List Mark) : Prop :=
  ∀ promised first acc s, (promised → ∀ t ∈ s.rest, t.Proper) →
    Kept promised first s.nextId (acc ++ l) →
    match p s with
    | .ok a s' => Follows promised s s' ∧ Kept promised first s'.nextId (acc ++ m a)
    | .error _ s' => Follows promised s s'

section Rules

variable {α β : Type} {l l' : List Mark} {m : α → List Mark} {r : β → List Mark}

/-- An answer adds no label beyond those that were there. -/
theorem adds_pure {a : α} (h : Covers l (m a)) : Adds l (pure a) m :=
  fun _ _ acc _ hs hk => ⟨⟨hs, Nat.le_refl _⟩, hk.covers (h.append_left acc)⟩

/-- Two productions in a row add what each of them adds. -/
theorem adds_then {p : Parser α} {f : α → Parser β} (hp : Adds l p m)
    (hf : ∀ a, Adds (m a) (f a) r) : Adds l (p >>= f) r := by
  intro promised first acc s hs hkept
  have h := hp promised first acc s hs hkept
  show match EStateM.bind p f s with | .ok a s' => _ | .error _ s' => _
  unfold EStateM.bind
  cases hr : p s with
  | error e s' =>
    rw [hr] at h
    exact h
  | ok a s' =>
    rw [hr] at h
    obtain ⟨hfol, hkept'⟩ := h
    have h' := hf a promised first acc s' hfol.rest hkept'
    cases hr' : f a s' with
    | error e s'' =>
      -- Where the second half fails, the numbers of the first are lost with it.
      simp only [hr'] at h' ⊢
      exact ⟨h'.rest, Nat.le_trans hfol.counter h'.counter⟩
    | ok b s'' =>
      simp only [hr'] at h' ⊢
      exact ⟨⟨h'.1.rest, Nat.le_trans hfol.counter h'.1.counter⟩, h'.2⟩

/-- A production adds its labels to any that were there before. -/
theorem Adds.frame {p : Parser α} (hp : Adds [] p m) : Adds l p fun a => l ++ m a := by
  intro promised first acc s hs hkept
  have h := hp promised first (acc ++ l) s hs (by simpa using hkept)
  simpa only [List.append_assoc] using h

/-- A production goes on with what has been read before it. -/
theorem adds_bind {p : Parser α} {f : α → Parser β} (hp : Adds [] p m)
    (hf : ∀ a, Adds (l ++ m a) (f a) r) : Adds l (p >>= f) r :=
  adds_then hp.frame hf

/-- What is made of a result has its labels, if those cover what is asked for. -/
theorem adds_map {p : Parser α} {f : α → β} (hp : Adds l p m) (h : ∀ a, Covers (m a) (r (f a))) :
    Adds l (f <$> p) r := by
  intro promised first acc s hs hkept
  have hp' := hp promised first acc s hs hkept
  show match EStateM.map f p s with | .ok a s' => _ | .error _ s' => _
  unfold EStateM.map
  cases hr : p s with
  | error e s' =>
    rw [hr] at hp'
    exact hp'
  | ok a s' =>
    rw [hr] at hp'
    exact ⟨hp'.1, hp'.2.covers ((h a).append_left acc)⟩

/-- A production may be given more labels than it needs. -/
theorem adds_covers {p : Parser α} (hc : Covers l l') (hp : Adds l' p m) : Adds l p m :=
  fun promised first acc s hs hkept =>
    hp promised first acc s hs (hkept.covers (hc.append_left acc))

/-- The labels so far may be forgotten. -/
theorem adds_forget {p : Parser α} (hp : Adds [] p m) : Adds l p m :=
  adds_covers ⟨fun id => Nat.zero_le _, fun _ => by simp⟩ hp

theorem Adds.post {p : Parser α} {m' : α → List Mark} (hp : Adds l p m)
    (h : ∀ a, Covers (m a) (m' a)) : Adds l p m' := by
  intro promised first acc s hs hkept
  have hp' := hp promised first acc s hs hkept
  cases hr : p s with
  | error e s' =>
    rw [hr] at hp'
    exact hp'
  | ok a s' =>
    rw [hr] at hp'
    exact ⟨hp'.1, hp'.2.covers ((h a).append_left acc)⟩

theorem adds_throw (e : SyntaxError) : Adds l (throw e : Parser α) m :=
  fun _ _ _ _ hs _ => ⟨hs, Nat.le_refl _⟩

/-- A step that reads the state and changes nothing. -/
theorem adds_get : Adds [] (get : Parser ParseState) fun _ => [] :=
  fun _ _ _ _ hs hk => ⟨⟨hs, Nat.le_refl _⟩, hk⟩

theorem adds_peek : Adds [] peek fun _ => [] :=
  fun _ _ _ _ hs hk => ⟨⟨hs, Nat.le_refl _⟩, hk⟩

theorem adds_check (kind : TokenKind) : Adds [] (check kind) fun _ => [] :=
  fun _ _ _ _ hs hk => ⟨⟨hs, Nat.le_refl _⟩, hk⟩

theorem adds_remaining : Adds [] remaining fun _ => [] :=
  fun _ _ _ _ hs hk => ⟨⟨hs, Nat.le_refl _⟩, hk⟩

theorem adds_failHere (message : String) : Adds l (failHere message : Parser α) m :=
  fun _ _ _ _ hs _ => ⟨hs, Nat.le_refl _⟩

theorem adds_note (token : Token) (message : String) : Adds [] (note token message) fun _ => [] :=
  fun _ _ _ _ hs hk => ⟨⟨hs, Nat.le_refl _⟩, hk⟩

/-- A fresh number is a label of its own. -/
theorem adds_fresh : Adds [] fresh fun id => [.number id] := by
  intro promised first acc s hs hk
  rw [List.append_nil] at hk
  -- All numbers so far are below the counter, so the one that it gives is new.
  have hown : Distinct s.nextId (s.nextId + 1) [s.nextId] :=
    ⟨Nat.le_succ _, fun id => List.count_le_length, fun id hid =>
      List.mem_singleton.mp hid ▸ ⟨Nat.le_refl _, Nat.lt_succ_self _⟩⟩
  refine ⟨⟨hs, Nat.le_succ _⟩, ?_, fun hpromised => ?_⟩
  · rw [numbers_append]
    exact hk.distinct.append hown
  · exact (allProper_append _ _).mpr ⟨hk.proper hpromised, by simp [Mark.Proper]⟩

/-- A production behind one that has succeeded. -/
theorem bind_after {α β : Type} {p : Parser α} {y : α → Parser β} {s s' : ParseState} {a : α}
    (h : p s = .ok a s') : (p >>= y) s = y a s' := by
  show EStateM.bind p y s = _
  unfold EStateM.bind
  rw [h]

/-- A choice by the next token, written out. -/
theorem acceptAny?_run (kinds : List TokenKind) (s : ParseState) :
    acceptAny? kinds s = (match s.rest with
      | [] => pure none
      | t :: _ =>
        if t.kind ∈ kinds then do
          set s.tail
          pure (some t)
        else pure none : Parser (Option Token)) s :=
  rfl

theorem acceptAny?_nil {kinds : List TokenKind} {s : ParseState} (hs : s.rest = []) :
    acceptAny? kinds s = .ok none s := by
  rw [acceptAny?_run, hs]
  rfl

theorem acceptAny?_take {kinds : List TokenKind} {s : ParseState} {t : Token} {rest : List Token}
    (hs : s.rest = t :: rest) (ht : t.kind ∈ kinds) :
    acceptAny? kinds s = .ok (some t) s.tail := by
  rw [acceptAny?_run, hs]
  dsimp only
  rw [if_pos ht]
  rfl

theorem acceptAny?_skip {kinds : List TokenKind} {s : ParseState} {t : Token} {rest : List Token}
    (hs : s.rest = t :: rest) (ht : t.kind ∉ kinds) : acceptAny? kinds s = .ok none s := by
  rw [acceptAny?_run, hs]
  dsimp only
  rw [if_neg ht]
  rfl

/-- A token is read with marks that its kind vouches for. -/
theorem adds_acceptAny (kinds : List TokenKind) (m : Token → List Mark)
    (hm : ∀ t : Token, t.kind ∈ kinds → numbers (m t) = [] ∧ (t.Proper → AllProper (m t))) :
    Adds [] (acceptAny? kinds) fun t? => t?.elim [] m := by
  intro promised first acc s hs hk
  rw [acceptAny?_run]
  cases hrest : s.rest with
  | nil => exact ⟨⟨hs, Nat.le_refl _⟩, hk⟩
  | cons t rest =>
    dsimp only
    by_cases hkind : t.kind ∈ kinds
    · rw [if_pos hkind]
      obtain ⟨hnum, hproper⟩ := hm t hkind
      rw [List.append_nil] at hk
      refine ⟨⟨fun hpromised u hu => hs hpromised u (List.mem_of_mem_tail hu), Nat.le_refl _⟩,
        hk.distinct.fewer fun id => ?_, fun hpromised => ?_⟩
      · simp [hnum]
      · exact (allProper_append _ _).mpr
          ⟨hk.proper hpromised, hproper (hs hpromised t (by simp [hrest]))⟩
    · rw [if_neg hkind]
      exact ⟨⟨hs, Nat.le_refl _⟩, hk⟩

theorem adds_acceptAny? (kinds : List TokenKind) : Adds [] (acceptAny? kinds) fun _ => [] := by
  refine Adds.post (adds_acceptAny kinds (fun _ => []) fun _ _ => ⟨rfl, fun _ => allProper_nil⟩) ?_
  intro t?
  cases t? <;> exact .refl _

theorem adds_accept? (kind : TokenKind) : Adds [] (accept? kind) fun _ => [] :=
  adds_acceptAny? [kind]

/-- A name that is read is a mark of its own. -/
theorem adds_name? : Adds [] (accept? .identifier) fun t? => t?.toList.map .name := by
  refine Adds.post (adds_acceptAny [.identifier] (fun t => [.name t]) fun t hk => ?_) ?_
  · exact ⟨rfl, fun ht => by simpa [Mark.Proper] using ht.1 (by simpa using hk)⟩
  · intro t?
    cases t? <;> exact .refl _

theorem adds_super? :
    Adds [] (accept? .superWord) fun t? => t?.toList.map fun t => .access t t := by
  refine Adds.post (adds_acceptAny [.superWord] (fun t => [.access t t]) fun t hk => ?_) ?_
  · exact ⟨rfl, fun ht => by simpa [Mark.Proper] using ht.2.1 (by simpa using hk)⟩
  · intro t?
    cases t? <;> exact .refl _

theorem adds_this? : Adds [] (accept? .thisWord) fun t? => t?.toList.map .receiver := by
  refine Adds.post (adds_acceptAny [.thisWord] (fun t => [.receiver t]) fun t hk => ?_) ?_
  · exact ⟨rfl, fun ht => by simpa [Mark.Proper] using ht.2.2 (by simpa using hk)⟩
  · intro t?
    cases t? <;> exact .refl _

/-- A token that is demanded adds nothing. -/
theorem adds_expect (kind : TokenKind) (message : String) :
    Adds [] (expect kind message) fun _ => [] := by
  refine adds_bind (adds_accept? kind) fun t? => ?_
  cases t? with
  | some t => exact adds_pure (.refl _)
  | none => exact adds_failHere message

/-- A name that is demanded is a mark of its own. -/
theorem adds_name (message : String) :
    Adds [] (expect .identifier message) fun t => [.name t] := by
  refine adds_bind adds_name? fun t? => ?_
  cases t? with
  | some t => exact adds_pure (.refl _)
  | none => exact adds_failHere message

/-- A production that failed has moved the counter on, but nothing of it is kept. -/
theorem adds_recovering {p : Parser α} (hp : Adds [] p m) :
    Adds [] (recovering p) fun a? => a?.toList.flatMap m := by
  intro promised first acc s hs hk
  have h := hp promised first acc s hs hk
  unfold recovering
  cases hr : p s with
  | ok a s' =>
    rw [hr] at h
    simpa using h
  | error e s' =>
    rw [hr] at h
    refine ⟨⟨fun hpromised t ht => h.rest hpromised t (mem_synchronize ht), h.counter⟩, ?_⟩
    exact hk.mono h.counter

end Rules

attribute [grind =] Mark.Proper

/-! ## Lists -/

section Lists

variable {α : Type} {m : α → List Mark}

/-- More items of a list add the labels of each, by induction on the bound. -/
theorem adds_moreItems {item : Nat → Parser α} (hitem : ∀ n, Adds [] (item n) m) (bound : Nat) :
    ∀ items, Adds (items.reverse.flatMap m) (moreItems item bound items) (·.flatMap m) := by
  induction bound with
  | zero => exact fun items => adds_pure (.refl _)
  | succ bound ih =>
    intro items
    refine adds_bind (adds_accept? .comma) fun comma? => ?_
    cases comma? with
    | none => exact adds_pure (by grind)
    | some comma =>
      refine adds_bind (hitem _) fun next => ?_
      -- Items are collected in reverse, so the new one goes behind the labels of the others.
      refine adds_covers ?_ (ih (next :: items))
      simp only [List.reverse_cons, List.flatMap_append, List.flatMap_singleton, List.append_nil]
      exact .refl _

/-- A list with commas adds the labels of each item. -/
theorem adds_commaList {item : Nat → Parser α} (hitem : ∀ n, Adds [] (item n) m) :
    Adds [] (commaList item) (·.flatMap m) := by
  refine adds_bind (hitem 0) fun first => ?_
  refine adds_bind adds_remaining fun bound => ?_
  refine adds_covers ?_ (adds_moreItems hitem bound [first])
  simp only [List.reverse_singleton, List.flatMap_singleton, List.nil_append, List.append_nil]
  exact .refl _

theorem adds_enclosed {item : Nat → Parser α} (close : TokenKind) (message : String)
    (hitem : ∀ n, Adds [] (item n) m) :
    Adds [] (enclosed close message item) fun r => r.1.flatMap m := by
  refine adds_bind (adds_check close) fun closed => ?_
  have hclose : ∀ items : List α, Adds (items.flatMap m)
      (expect close message >>= fun closing => pure (items, closing)) fun r => r.1.flatMap m :=
    fun items => adds_bind (adds_expect _ _) fun closing => adds_pure (by grind)
  dsimp only
  split
  · exact adds_bind (m := fun items => items.flatMap m) (adds_pure (by grind)) hclose
  · exact adds_bind (adds_commaList hitem) hclose

end Lists

/-- The marks of a list of expressions are those of each. -/
theorem exprsMarks_eq (es : List Expr) : exprsMarks es = es.flatMap exprMarks := by
  induction es with
  | nil => rfl
  | cons e es ih => simp [exprsMarks, ih]

/-- The marks of a map literal are those of its values. -/
theorem entriesMarks_eq (es : List (Token × Expr)) :
    entriesMarks es = es.flatMap fun e => exprMarks e.2 := by
  induction es with
  | nil => rfl
  | cons e es ih => simp [entriesMarks, ih]

/-- The marks of methods are those of each. -/
theorem methodsMarks_eq (decls : List FunctionDecl) :
    methodsMarks decls = decls.flatMap functionMarks := by
  induction decls with
  | nil => rfl
  | cons decl decls ih => simp [methodsMarks, ih]

/-- The marks of a list of statements are those of each. -/
theorem stmtsMarks_eq (ss : List Stmt) : stmtsMarks ss = ss.flatMap stmtMarks := by
  induction ss with
  | nil => rfl
  | cons s ss ih => simp [stmtsMarks, ih]

theorem entriesMarks_append (es es' : List (Token × Expr)) :
    entriesMarks (es ++ es') = entriesMarks es ++ entriesMarks es' := by
  simp only [entriesMarks_eq, List.flatMap_append]

theorem methodsMarks_append (decls decls' : List FunctionDecl) :
    methodsMarks (decls ++ decls') = methodsMarks decls ++ methodsMarks decls' := by
  simp only [methodsMarks_eq, List.flatMap_append]

theorem stmtsMarks_append (ss ss' : List Stmt) :
    stmtsMarks (ss ++ ss') = stmtsMarks ss ++ stmtsMarks ss' := by
  simp only [stmtsMarks_eq, List.flatMap_append]

/-- Labels one after the other have the numbers of all nodes, and are proper if all marks are. -/
theorem flatMap_labels {α : Type} (nodes : α → List Expr) (marks : α → List Mark) (as : List α) :
    numbers (as.flatMap fun a => labels (nodes a) (marks a)) = ids (as.flatMap nodes) ∧
      (AllProper (as.flatMap fun a => labels (nodes a) (marks a)) ↔
        AllProper (as.flatMap marks)) := by
  induction as with
  | nil => exact ⟨rfl, Iff.rfl⟩
  | cons a as ih => simp [ih]

/-- The labels of some expressions are those of the list of them. -/
theorem flatMap_exprLabels (es : List Expr) :
    numbers (es.flatMap exprLabels) = ids (exprsNodes es) ∧
      (AllProper (es.flatMap exprLabels) ↔ AllProper (exprsMarks es)) := by
  rw [exprsNodes_eq, exprsMarks_eq]
  exact flatMap_labels exprNodes exprMarks es

/-- The labels of some entries are those of the map literal. -/
theorem flatMap_entryLabels (es : List (Token × Expr)) :
    numbers (es.flatMap fun e => exprLabels e.2) = ids (entriesNodes es) ∧
      (AllProper (es.flatMap fun e => exprLabels e.2) ↔ AllProper (entriesMarks es)) := by
  rw [entriesNodes_eq, entriesMarks_eq]
  exact flatMap_labels (fun e => exprNodes e.2) (fun e => exprMarks e.2) es

theorem adds_checkRoom (count : Nat) (message : String) :
    Adds [] (checkRoom count message) fun _ => [] := by
  unfold checkRoom
  split
  · exact adds_bind adds_peek fun t => adds_note t message
  · exact adds_pure (by grind)

theorem adds_parameters : Adds [] parameters (·.map .name) := by
  refine adds_bind (adds_check _) fun closed => ?_
  have hclose : ∀ params : List Token, Adds (params.map .name)
      (expect .rightParen "Expect ')' after parameters." >>= fun _ => pure params) (·.map .name) :=
    fun params => adds_bind (adds_expect _ _) fun _ => adds_pure (by grind)
  dsimp only
  split
  · exact adds_bind (m := fun params => params.map .name) (adds_pure (by grind)) hclose
  · refine adds_bind (m := fun params => params.map .name) ?_ hclose
    refine (adds_commaList (m := fun t => [.name t]) fun n => ?_).post fun params => ?_
    · exact adds_bind (adds_checkRoom _ _) fun _ => adds_name _
    · rw [List.map_eq_flatMap]
      exact .refl _

/-! ## Expressions -/

/-- The recursive productions of a grammar add the labels of what they return. -/
structure Grammar.Numbered (g : Grammar) : Prop where
  expression : Adds [] g.expression exprLabels
  block : Adds [] g.block stmtsLabels

section Expressions

variable {g : Grammar}

/-- A level of binary operators, whatever node it builds from two operands. -/
theorem adds_chainTail {operators : List TokenKind}
    {build : ExprId → Expr → Token → Expr → Expr} {operand : Parser Expr}
    (hbuild : ∀ id l t r,
      Covers (exprLabels l ++ exprLabels r ++ [.number id]) (exprLabels (build id l t r)))
    (hoperand : Adds [] operand exprLabels) (bound : Nat) :
    ∀ left, Adds (exprLabels left) (chainTail operators build operand bound left) exprLabels := by
  induction bound with
  | zero => exact fun left => adds_pure (.refl _)
  | succ bound ih =>
    intro left
    refine adds_bind (adds_acceptAny? operators) fun operator? => ?_
    cases operator? with
    | none => exact adds_pure (by grind)
    | some operator =>
      refine adds_bind hoperand fun right => ?_
      refine adds_bind adds_fresh fun id => ?_
      exact adds_covers (by simpa using hbuild id left operator right) (ih _)

/-- A chain of operators adds the labels of its operands and a number for every operator. -/
theorem adds_chain {operators : List TokenKind}
    {build : ExprId → Expr → Token → Expr → Expr} {operand : Parser Expr}
    (hbuild : ∀ id l t r,
      Covers (exprLabels l ++ exprLabels r ++ [.number id]) (exprLabels (build id l t r)))
    (hoperand : Adds [] operand exprLabels) :
    Adds [] (chain operators build operand) exprLabels := by
  refine adds_bind hoperand fun first => ?_
  refine adds_bind adds_remaining fun bound => ?_
  exact adds_covers (by grind) (adds_chainTail hbuild hoperand bound first)

/-- The head of an arrow function adds its parameters, if it is one. -/
theorem adds_arrowHead? : Adds [] arrowHead? fun head? => head?.elim [] (·.1.map .name) := by
  refine adds_bind (adds_accept? .arrow) fun arrow? => ?_
  cases arrow? with
  | some arrow => exact adds_pure (by grind)
  | none =>
    refine adds_bind adds_get fun s => ?_
    split
    · refine adds_bind (adds_expect _ _) fun _ => ?_
      refine adds_bind adds_parameters fun params => ?_
      exact adds_bind (adds_expect _ _) fun arrow => adds_pure (by grind)
    · exact adds_pure (by grind)

/-- The body of an arrow function adds its labels to those of the parameters. -/
theorem adds_arrowBody (hg : g.Numbered) (params : List Token) (arrow : Token) :
    Adds (params.map .name) (arrowBody g params arrow) exprLabels := by
  refine adds_bind (m := stmtsLabels) ?_ fun body => ?_
  · refine adds_bind (adds_accept? _) fun brace? => ?_
    split
    · exact adds_covers (by grind) hg.block
    · refine adds_bind (adds_accept? _) fun return? => ?_
      split
      · exact adds_bind hg.expression fun value => adds_pure (by grind)
      · refine adds_bind (adds_accept? _) fun print? => ?_
        split
        · exact adds_bind hg.expression fun value => adds_pure (by grind)
        · exact adds_bind hg.expression fun value => adds_pure (by grind)
  · exact adds_bind adds_fresh fun id => adds_pure (by grind)

/-- An entry of a map literal adds the labels of its value. -/
theorem adds_mapEntry (hg : g.Numbered) : Adds [] (mapEntry g) fun e => exprLabels e.2 := by
  refine adds_bind (adds_expect _ _) fun key => ?_
  refine adds_bind (adds_expect _ _) fun _ => ?_
  exact adds_bind hg.expression fun value => adds_pure (by grind)

/-- The keys of map entries. -/
def keys (es : List (Token × Expr)) : List String :=
  es.map (·.1.lexeme)

/-- The entries with the value of a key replaced. -/
def replaceEntry (e : Token × Expr) (es : List (Token × Expr)) : List (Token × Expr) :=
  es.map fun e' => if e'.1.lexeme == e.1.lexeme then (e'.1, e.2) else e'

/-- Replacing the value of an entry keeps the keys. -/
theorem keys_replaceEntry (e : Token × Expr) (es : List (Token × Expr)) :
    keys (replaceEntry e es) = keys es := by
  induction es with
  | nil => rfl
  | cons e' es ih =>
    simp only [keys, replaceEntry, List.map_cons] at ih ⊢
    rw [ih]
    split <;> rfl

/-- Replacing under a key that is not there changes nothing. -/
theorem replaceEntry_of_notMem {e : Token × Expr} {es : List (Token × Expr)}
    (h : e.1.lexeme ∉ keys es) : replaceEntry e es = es := by
  refine (List.map_congr_left fun e' he' => ?_).trans (List.map_id es)
  have hne : e'.1.lexeme ≠ e.1.lexeme := by
    intro heq
    exact h (heq ▸ List.mem_map.mpr ⟨e', he', rfl⟩)
  simp [hne]

/-- Replacing the value of a key drops the labels of the old value. It matters that no key stands
twice, or the new value would be taken twice. -/
theorem covers_replaceEntry (e : Token × Expr) (es : List (Token × Expr))
    (h : (keys es).Nodup) :
    Covers (entriesLabels es ++ exprLabels e.2) (entriesLabels (replaceEntry e es)) := by
  induction es with
  | nil => exact covers_iff.mpr (by simp [replaceEntry, entriesLabels, entriesNodes, entriesMarks])
  | cons e' es ih =>
    obtain ⟨hnot, hnodup⟩ := List.nodup_cons.mp h
    by_cases heq : e'.1.lexeme = e.1.lexeme
    -- The key is found here, and so nowhere behind.
    · have hrest : replaceEntry e es = es := replaceEntry_of_notMem (heq ▸ hnot)
      have hcons : replaceEntry e (e' :: es) = (e'.1, e.2) :: es := by
        simp [replaceEntry, heq] at hrest ⊢
        exact hrest
      rw [hcons]
      grind
    · have hcons : replaceEntry e (e' :: es) = e' :: replaceEntry e es := by
        simp [replaceEntry, heq]
      rw [hcons]
      have := ih hnodup
      grind

/-- Setting an entry replaces it if its key is there and adds it otherwise. -/
theorem putEntry_eq (es : List (Token × Expr)) (e : Token × Expr) :
    putEntry es e = if e.1.lexeme ∈ keys es then replaceEntry e es else es ++ [e] := by
  unfold putEntry
  congr 1
  simp [keys]

/-- An entry that is replaced loses its labels, so none is there twice. -/
theorem covers_putEntry {es : List (Token × Expr)} (e : Token × Expr) (h : (keys es).Nodup) :
    Covers (entriesLabels es ++ exprLabels e.2) (entriesLabels (putEntry es e)) ∧
      (keys (putEntry es e)).Nodup := by
  rw [putEntry_eq]
  split
  · exact ⟨covers_replaceEntry e es h, (keys_replaceEntry e es).symm ▸ h⟩
  · next hnot =>
    refine ⟨?_, ?_⟩
    · grind [entriesNodes_append, entriesMarks_append]
    · simp only [keys, List.map_append, List.map_cons, List.map_nil]
      refine List.nodup_append.mpr ⟨h, by simp, ?_⟩
      rintro a ha b hb rfl
      exact hnot (List.mem_singleton.mp hb ▸ ha)

theorem covers_putEntries (es done : List (Token × Expr)) (h : (keys done).Nodup) :
    Covers (entriesLabels done ++ entriesLabels es) (entriesLabels (es.foldl putEntry done)) := by
  induction es generalizing done with
  | nil => grind
  | cons e es ih =>
    obtain ⟨hput, hnodup⟩ := covers_putEntry e h
    have hrest := ih (putEntry done e) hnodup
    rw [List.foldl_cons]
    grind

/-- A `super` expression adds a number to the marks of its words. -/
theorem adds_superAccess (keyword : Token) :
    Adds [.access keyword keyword] (superAccess keyword) exprLabels := by
  refine adds_bind (adds_expect _ _) fun _ => ?_
  refine adds_bind (adds_expect _ _) fun className => ?_
  refine adds_bind (adds_expect _ _) fun _ => ?_
  refine adds_bind (adds_expect _ _) fun _ => ?_
  refine adds_bind (adds_expect _ _) fun method => ?_
  exact adds_bind adds_fresh fun id => adds_pure (by grind)

/-- A primary expression that begins with no word of its own adds its labels. -/
theorem adds_primaryTail (hg : g.Numbered) : Adds [] (primaryTail g) exprLabels := by
  refine adds_bind (adds_accept? _) fun false? => ?_
  split
  · exact adds_bind adds_fresh fun id => adds_pure (by grind)
  refine adds_bind (adds_accept? _) fun true? => ?_
  split
  · exact adds_bind adds_fresh fun id => adds_pure (by grind)
  refine adds_bind (adds_accept? _) fun null? => ?_
  split
  · exact adds_bind adds_fresh fun id => adds_pure (by grind)
  refine adds_bind (adds_acceptAny? _) fun literal? => ?_
  split
  · exact adds_bind adds_fresh fun id => adds_pure (by grind)
  refine adds_bind adds_super? fun super? => ?_
  split
  -- The keyword has been read, but the method has not: the mark of the access comes with it.
  · exact adds_covers (by grind) (adds_superAccess _)
  refine adds_forget ?_
  refine adds_bind adds_this? fun this? => ?_
  split
  · exact adds_bind adds_fresh fun id => adds_pure (by grind)
  refine adds_forget ?_
  refine adds_bind (adds_accept? _) fun bracket? => ?_
  split
  · refine adds_bind (adds_enclosed _ _ fun _ => hg.expression) fun elements => ?_
    exact adds_bind adds_fresh fun id => adds_pure (by grind [flatMap_exprLabels elements.1])
  refine adds_bind adds_name? fun name? => ?_
  split
  · exact adds_bind adds_fresh fun id => adds_pure (by grind)
  refine adds_forget ?_
  refine adds_bind (adds_accept? _) fun paren? => ?_
  split
  · refine adds_bind hg.expression fun inner => ?_
    refine adds_bind (adds_expect _ _) fun _ => ?_
    exact adds_bind adds_fresh fun id => adds_pure (by grind)
  refine adds_bind (adds_accept? _) fun brace? => ?_
  split
  · refine adds_bind (adds_enclosed _ _ fun _ => adds_mapEntry hg) fun entries => ?_
    refine adds_bind adds_fresh fun id => adds_pure ?_
    have hentries := covers_putEntries entries.1 [] (by simp [keys])
    grind [flatMap_entryLabels entries.1]
  · exact adds_failHere _

/-- Every primary expression adds its labels. -/
theorem adds_primary (hg : g.Numbered) : Adds [] (primary g) exprLabels := by
  refine adds_bind adds_arrowHead? fun head? => ?_
  cases head? with
  | some head => exact adds_arrowBody hg head.1 head.2
  | none => exact adds_primaryTail hg

/-- The arguments of a call add their labels to those of the callee. -/
theorem adds_finishCall (hg : g.Numbered) (callee : Expr) :
    Adds (exprLabels callee) (finishCall g callee) exprLabels := by
  refine adds_bind (adds_enclosed (m := exprLabels) _ _ fun n => ?_) fun arguments => ?_
  · exact adds_bind (adds_checkRoom _ _) fun _ => hg.expression
  · exact adds_bind adds_fresh fun id => adds_pure (by grind [flatMap_exprLabels arguments.1])

/-- Calls, properties and indices add theirs one behind the other, by induction on the bound. -/
theorem adds_callTail (hg : g.Numbered) (bound : Nat) :
    ∀ e, Adds (exprLabels e) (callTail g bound e) exprLabels := by
  induction bound with
  | zero => exact fun e => adds_pure (.refl _)
  | succ bound ih =>
    intro e
    refine adds_bind (adds_accept? _) fun paren? => ?_
    split
    · rw [List.append_nil]
      exact adds_then (adds_finishCall hg e) ih
    refine adds_bind (adds_accept? _) fun dot? => ?_
    split
    · refine adds_bind (adds_expect _ _) fun name => ?_
      refine adds_bind adds_fresh fun id => ?_
      exact adds_covers (by grind) (ih _)
    refine adds_bind (adds_accept? _) fun bracket? => ?_
    split
    · refine adds_bind hg.expression fun index => ?_
      refine adds_bind (adds_expect _ _) fun bracket => ?_
      refine adds_bind adds_fresh fun id => ?_
      exact adds_covers (by grind) (ih _)
    · exact adds_pure (by grind)

/-- A primary expression with all that is called or read behind it adds its labels. -/
theorem adds_call (hg : g.Numbered) : Adds [] (call g) exprLabels := by
  refine adds_bind (adds_primary hg) fun e => ?_
  refine adds_bind adds_remaining fun bound => ?_
  exact adds_covers (by grind) (adds_callTail hg bound e)

/-- Unary operators add a number each, by induction on the bound. -/
theorem adds_unaryUpTo (hg : g.Numbered) (bound : Nat) :
    Adds [] (unaryUpTo g bound) exprLabels := by
  induction bound with
  | zero => exact adds_call hg
  | succ bound ih =>
    refine adds_bind (adds_acceptAny? _) fun operator? => ?_
    cases operator? with
    | some operator =>
      refine adds_bind ih fun operand => ?_
      exact adds_bind adds_fresh fun id => adds_pure (by grind)
    | none => exact adds_call hg

theorem adds_unary (hg : g.Numbered) : Adds [] (unary g) exprLabels :=
  adds_bind adds_remaining fun bound => adds_unaryUpTo hg bound

/-- All levels from powers up to `or`. -/
theorem adds_disjunction (hg : g.Numbered) : Adds [] (disjunction g) exprLabels := by
  have hbinary : ∀ id l t r,
      Covers (exprLabels l ++ exprLabels r ++ [.number id]) (exprLabels (.binary id l t r)) := by
    grind
  have hlogical : ∀ id l t r,
      Covers (exprLabels l ++ exprLabels r ++ [.number id]) (exprLabels (.logical id l t r)) := by
    grind
  have hpower : Adds [] (power g) exprLabels := adds_chain hbinary (adds_unary hg)
  have hfactor : Adds [] (factor g) exprLabels := adds_chain hbinary hpower
  have hterm : Adds [] (term g) exprLabels := adds_chain hbinary hfactor
  have hcomparison : Adds [] (comparison g) exprLabels := adds_chain hbinary hterm
  have hequality : Adds [] (equality g) exprLabels := adds_chain hbinary hcomparison
  exact adds_chain hlogical (adds_chain hlogical hequality)

/-- An assignment has no more labels than its target and its value, apart from its own number. -/
theorem adds_assignTo (target : Expr) (equals : Token) (value : Expr) :
    Adds (exprLabels target ++ exprLabels value) (assignTo target equals value) exprLabels := by
  unfold assignTo
  split
  · exact adds_bind adds_fresh fun id => adds_pure (by grind)
  · exact adds_bind adds_fresh fun id => adds_pure (by grind)
  · exact adds_bind adds_fresh fun id => adds_pure (by grind)
  · exact adds_bind (adds_note _ _) fun _ => adds_pure (by grind)

/-- An assignment adds its labels, whatever its target turns out to be. -/
theorem adds_assignment (hg : g.Numbered) : Adds [] (assignment g) exprLabels := by
  refine adds_bind (adds_disjunction hg) fun left => ?_
  refine adds_bind (adds_accept? _) fun equals? => ?_
  cases equals? with
  | none => exact adds_pure (by grind)
  | some equals =>
    refine adds_bind hg.expression fun value => ?_
    exact adds_covers (by grind) (adds_assignTo left equals value)

end Expressions

/-! ## Statements -/

section Statements

variable {g : Grammar}

/-- The labels of a statement that may stand behind a condition. -/
def bodyLabels (s : Stmt) : List Mark :=
  .body s :: stmtLabels s

attribute [grind =] bodyLabels added

/-- A variable declaration adds its labels. -/
theorem adds_varDeclaration (hg : g.Numbered) : Adds [] (varDeclaration g) stmtLabels := by
  refine adds_bind (adds_name _) fun name => ?_
  refine adds_bind (adds_accept? _) fun equal? => ?_
  have hrest : ∀ init?, Adds ([.name name] ++ optionalLabels init?)
      (expect .semicolon "Expect ';' after variable declaration." >>= fun _ =>
        pure (Stmt.var name init?)) stmtLabels :=
    fun init? => adds_bind (adds_expect _ _) fun _ => adds_pure (by grind)
  dsimp only
  split
  · exact adds_bind (adds_map hg.expression (r := optionalLabels) fun e => by grind) fun init? =>
      adds_covers (by grind) (hrest init?)
  · exact adds_bind (adds_pure (m := optionalLabels) (by grind)) fun init? =>
      adds_covers (by grind) (hrest init?)

/-- A function adds its name and the labels of its body. -/
theorem adds_functionDeclaration (hg : g.Numbered) (what : String) :
    Adds [] (functionDeclaration g what) fun decl => .name decl.name :: functionLabels decl := by
  refine adds_bind (adds_name _) fun name => ?_
  refine adds_bind (adds_expect _ _) fun _ => ?_
  refine adds_bind adds_parameters fun params => ?_
  refine adds_bind (adds_expect _ _) fun _ => ?_
  exact adds_bind hg.block fun body => adds_pure (by grind [FunctionDecl.name])

/-- The methods of a class add their labels one behind the other. -/
theorem adds_methodsUpTo (hg : g.Numbered) (bound : Nat) :
    ∀ methods,
      Adds (methodsLabels methods.reverse) (methodsUpTo g bound methods) methodsLabels := by
  induction bound with
  | zero => exact fun methods => adds_pure (.refl _)
  | succ bound ih =>
    intro methods
    refine adds_bind adds_get fun s => ?_
    split
    · exact adds_pure (by grind)
    · split
      · exact adds_pure (by grind)
      · refine adds_bind (adds_functionDeclaration hg _) fun method => ?_
        refine adds_covers ?_ (ih (method :: methods))
        -- The name of a method is dropped: it is no name of any scope.
        rw [List.reverse_cons]
        grind [methodsNodes_append, methodsMarks_append]

/-- A superclass adds the number of its reference. -/
theorem adds_superclass : Adds [] superclass fun ref => [.number ref.id] := by
  refine adds_bind (adds_expect _ _) fun name => ?_
  exact adds_bind adds_fresh fun id => adds_pure (by grind)

/-- A class declaration adds its labels. -/
theorem adds_classDeclaration (hg : g.Numbered) : Adds [] (classDeclaration g) stmtLabels := by
  refine adds_bind (adds_name _) fun name => ?_
  refine adds_bind (adds_accept? _) fun extends? => ?_
  have hrest : ∀ refs : List Reference,
      Adds ([.name name] ++ refs.map fun ref => .number ref.id)
        (do
          let _ ← expect .leftBrace "Expect '\x7b' before class body."
          let methods ← methodsUpTo g (← remaining) []
          let _ ← expect .rightBrace "Expect '\x7d' after class body."
          pure (.classDecl name refs methods)) stmtLabels := by
    intro refs
    refine adds_bind (adds_expect _ _) fun _ => ?_
    refine adds_bind adds_remaining fun bound => ?_
    refine adds_bind (adds_methodsUpTo hg bound []) fun methods => ?_
    exact adds_bind (adds_expect _ _) fun _ => adds_pure (by grind [numbers_refs refs])
  dsimp only
  split
  · refine adds_bind (adds_commaList fun _ => adds_superclass) fun refs => ?_
    rw [← List.map_eq_flatMap]
    exact adds_covers (by grind) (hrest refs)
  · refine adds_bind (m := fun refs => refs.map fun ref => .number ref.id)
      (adds_pure (by grind)) fun refs => ?_
    exact adds_covers (by grind) (hrest refs)

/-- An exported declaration adds its labels. -/
theorem adds_exportDeclaration (hg : g.Numbered) : Adds [] (exportDeclaration g) stmtLabels := by
  refine adds_bind (adds_accept? _) fun class? => ?_
  split
  · exact adds_map (adds_covers (by grind) (adds_classDeclaration hg)) fun s => by grind
  refine adds_bind (adds_accept? _) fun function? => ?_
  split
  · exact adds_map (adds_covers (by grind) (adds_functionDeclaration hg _)) fun decl => by grind
  refine adds_bind (adds_accept? _) fun var? => ?_
  split
  · exact adds_map (adds_covers (by grind) (adds_varDeclaration hg)) fun s => by grind
  · exact adds_failHere _

/-- An imported name adds the name that it binds. -/
theorem adds_importItem : Adds [] importItem fun item => [.name item.binding] := by
  refine adds_bind (adds_name _) fun name => ?_
  refine adds_bind (adds_accept? _) fun as? => ?_
  split
  · exact adds_bind (adds_name _) fun other => adds_pure (by grind [ImportItem.binding])
  · exact adds_pure (by grind [ImportItem.binding])

/-- An import statement adds the names that it binds. -/
theorem adds_importStatement : Adds [] importStatement stmtLabels := by
  refine adds_bind (adds_expect _ _) fun path => ?_
  refine adds_bind (adds_accept? _) fun import? => ?_
  have hrest : ∀ items : List ImportItem, Adds (items.map fun item => .name item.binding)
      (do
        let _ ← expect .semicolon "Expect ';' after import statement."
        if items.isEmpty then throw ⟨path, "Expect at least one import item."⟩
        pure (.importFrom path items)) stmtLabels := by
    intro items
    refine adds_bind (adds_expect _ _) fun _ => ?_
    dsimp only
    split
    · exact adds_bind (m := fun _ => []) (adds_throw _) fun _ => adds_pure (by grind)
    · exact adds_pure (by grind)
  dsimp only
  split
  · refine adds_bind (adds_commaList fun _ => adds_importItem) fun items => ?_
    rw [← List.map_eq_flatMap]
    exact adds_covers (by grind) (hrest items)
  · refine adds_bind (m := fun items => items.map fun item => .name item.binding)
      (adds_pure (by grind)) fun items => ?_
    exact adds_covers (by grind) (hrest items)

theorem adds_expressionStatement (hg : g.Numbered) :
    Adds [] (expressionStatement g) bodyLabels := by
  refine adds_bind hg.expression fun value => ?_
  exact adds_bind (adds_expect _ _) fun _ => adds_pure (by grind)

theorem adds_printStatement (hg : g.Numbered) : Adds [] (printStatement g) bodyLabels := by
  refine adds_bind hg.expression fun value => ?_
  exact adds_bind (adds_expect _ _) fun _ => adds_pure (by grind)

theorem adds_returnStatement (hg : g.Numbered) (keyword : Token) :
    Adds [] (returnStatement g keyword) bodyLabels := by
  refine adds_bind (adds_check _) fun semicolon => ?_
  have hrest : ∀ value?, Adds (optionalLabels value?)
      (expect .semicolon "Expect ';' after return value." >>= fun _ =>
        pure (Stmt.ret keyword value?)) bodyLabels :=
    fun value? => adds_bind (adds_expect _ _) fun _ => adds_pure (by grind)
  dsimp only
  split
  · exact adds_bind (adds_pure (m := optionalLabels) (by grind)) fun value? =>
      adds_covers (by grind) (hrest value?)
  · exact adds_bind (adds_map hg.expression (r := optionalLabels) fun e => by grind) fun value? =>
      adds_covers (by grind) (hrest value?)

theorem adds_throwStatement (hg : g.Numbered) (keyword : Token) :
    Adds [] (throwStatement g keyword) bodyLabels := by
  refine adds_bind hg.expression fun value => ?_
  exact adds_bind (adds_expect _ _) fun _ => adds_pure (by grind)

/-- A statement that ends with a semicolon adds its labels, whatever it begins with. -/
theorem adds_simpleStatement (hg : g.Numbered) : Adds [] (simpleStatement g) bodyLabels := by
  refine adds_bind (adds_accept? _) fun return? => ?_
  split
  · exact adds_returnStatement hg _
  refine adds_bind (adds_accept? _) fun print? => ?_
  split
  · exact adds_printStatement hg
  refine adds_bind (adds_accept? _) fun throw? => ?_
  split
  · exact adds_throwStatement hg _
  · exact adds_expressionStatement hg

/-- What a conditional runs are blocks, simple statements and further conditionals, none of which
declares anything. -/
theorem adds_conditional (hg : g.Numbered) (bound : Nat) :
    Adds [] (conditional g bound) bodyLabels := by
  induction bound with
  | zero => exact adds_failHere _
  | succ bound ih =>
    refine adds_bind (adds_expect _ _) fun _ => ?_
    refine adds_bind hg.expression fun condition => ?_
    refine adds_bind (adds_expect _ _) fun _ => ?_
    refine adds_bind (adds_accept? _) fun brace? => ?_
    split
    · refine adds_bind hg.block fun thenPart => ?_
      refine adds_bind (adds_accept? _) fun else? => ?_
      split
      · refine adds_bind (adds_accept? _) fun if? => ?_
        split
        · exact adds_bind ih fun elsePart => adds_pure (by grind)
        · refine adds_bind (adds_expect _ _) fun _ => ?_
          exact adds_bind hg.block fun elsePart => adds_pure (by grind)
      · exact adds_pure (by grind)
    · exact adds_bind (adds_simpleStatement hg) fun thenPart => adds_pure (by grind)

theorem adds_whileStatement (hg : g.Numbered) : Adds [] (whileStatement g) stmtLabels := by
  refine adds_bind (adds_expect _ _) fun _ => ?_
  refine adds_bind hg.expression fun condition => ?_
  refine adds_bind (adds_expect _ _) fun _ => ?_
  refine adds_bind (adds_expect _ _) fun _ => ?_
  exact adds_bind hg.block fun body => adds_pure (by grind)

/-- The labels of an optional statement. -/
def clauseLabels (s? : Option Stmt) : List Mark :=
  s?.elim [] stmtLabels

attribute [grind =] clauseLabels

/-- What stands first in a `for` loop adds its labels. -/
theorem adds_forInit (hg : g.Numbered) : Adds [] (forInit g) clauseLabels := by
  refine adds_bind (adds_accept? _) fun semicolon? => ?_
  split
  · exact adds_pure (by grind)
  refine adds_bind (adds_accept? _) fun var? => ?_
  split
  · exact adds_map (adds_covers (by grind) (adds_varDeclaration hg)) fun s => by grind
  · exact adds_map (adds_covers (by grind) (adds_expressionStatement hg)) fun s => by grind

/-- The labels of the parts of a `for` loop cover those of the loops and blocks that it unfolds
to. -/
theorem covers_forLoop (init? : Option Stmt) (condition : Expr) (step? : Option Expr)
    (body : List Stmt) :
    Covers (clauseLabels init? ++ exprLabels condition ++ optionalLabels step? ++ stmtsLabels body)
      (stmtLabels (forLoop init? condition step? body)) := by
  constructor
  -- The loop is a block with a `while` in it. Its parts are the same, in another order.
  · intro id
    cases init? <;> cases step? <;>
      simp [forLoop, clauseLabels, exprLabels, optionalLabels, stmtLabels, stmtsLabels,
        optionalNodes, stmtNodes, stmtsNodes] <;> omega
  · cases init? <;> cases step? <;>
      simp +contextual [forLoop, clauseLabels, exprLabels, optionalLabels, stmtLabels, stmtsLabels,
        optionalMarks, stmtMarks, stmtsMarks, Mark.Proper, added]

/-- A `for` loop adds the labels of what it unfolds to. -/
theorem adds_forStatement (hg : g.Numbered) : Adds [] (forStatement g) stmtLabels := by
  refine adds_bind (adds_expect _ _) fun _ => ?_
  refine adds_bind (adds_forInit hg) fun init? => ?_
  -- What follows each of the three clauses, from the last to the first.
  have hbody : ∀ condition step?,
      Adds (clauseLabels init? ++ exprLabels condition ++ optionalLabels step?)
        (do
          let _ ← expect .rightParen "Expect ')' after for clauses."
          let _ ← expect .leftBrace "Expect '\x7b' after for clauses."
          let body ← g.block
          pure (forLoop init? condition step? body)) stmtLabels := by
    intro condition step?
    refine adds_bind (adds_expect _ _) fun _ => ?_
    refine adds_bind (adds_expect _ _) fun _ => ?_
    refine adds_bind hg.block fun body => adds_pure ?_
    simpa using covers_forLoop init? condition step? body
  have hstep : ∀ condition, Adds (clauseLabels init? ++ exprLabels condition)
      (do
        let _ ← expect .semicolon "Expect ';' after loop condition."
        let step? ← if ← check .rightParen then pure none else some <$> g.expression
        let _ ← expect .rightParen "Expect ')' after for clauses."
        let _ ← expect .leftBrace "Expect '\x7b' after for clauses."
        let body ← g.block
        pure (forLoop init? condition step? body)) stmtLabels := by
    intro condition
    refine adds_bind (adds_expect _ _) fun _ => ?_
    refine adds_bind (adds_check _) fun close => ?_
    dsimp only
    split
    · exact adds_bind (adds_pure (m := optionalLabels) (by grind)) fun step? =>
        adds_covers (by grind) (hbody condition step?)
    · exact adds_bind (adds_map hg.expression (r := optionalLabels) fun e => by grind) fun step? =>
        adds_covers (by grind) (hbody condition step?)
  refine adds_bind (adds_check _) fun semicolon => ?_
  dsimp only
  split
  -- A condition that is left out is the constant true.
  · refine adds_bind adds_fresh fun id => ?_
    exact adds_then (m := fun condition => clauseLabels init? ++ exprLabels condition)
      (adds_pure (by grind)) hstep
  · exact adds_bind hg.expression fun condition => adds_covers (by grind) (hstep condition)

/-- A handler adds its parameter and its labels. -/
theorem adds_catchClause (hg : g.Numbered) :
    Adds [] (catchClause g) fun handler => handler.1.toList.map .name ++ stmtsLabels handler.2 := by
  refine adds_bind (adds_expect _ _) fun _ => ?_
  refine adds_bind adds_name? fun param? => ?_
  refine adds_bind (adds_expect _ _) fun _ => ?_
  refine adds_bind (adds_expect _ _) fun _ => ?_
  exact adds_bind hg.block fun body => adds_pure (by grind)

/-- The labels of an optional handler. -/
def handlerLabels (handler? : Option (Option Token × List Stmt)) : List Mark :=
  handler?.elim [] fun handler => handler.1.toList.map .name ++ stmtsLabels handler.2

/-- The labels of the parts of a `try` statement cover its own. -/
theorem covers_attempt (body : List Stmt) (handler? : Option (Option Token × List Stmt))
    (cleanup? : Option (List Stmt)) :
    Covers (stmtsLabels body ++ handlerLabels handler? ++ blockLabels cleanup?)
      (stmtLabels (.attempt body (handler?.bind (·.1)) (handler?.map (·.2)) cleanup?)) := by
  constructor
  · intro id
    cases handler? <;> simp [handlerLabels, stmtLabels, stmtsLabels, blockLabels, stmtNodes,
      blockNodes]
  · cases handler? <;> simp +contextual [handlerLabels, stmtLabels, stmtsLabels, blockLabels,
      stmtMarks, blockMarks]

theorem adds_tryStatement (hg : g.Numbered) : Adds [] (tryStatement g) stmtLabels := by
  refine adds_bind (adds_expect _ _) fun _ => ?_
  refine adds_bind hg.block fun body => ?_
  have hend : ∀ handler? cleanup?,
      Adds (stmtsLabels body ++ handlerLabels handler? ++ blockLabels cleanup?)
        (do
          if handler?.isNone && cleanup?.isNone then failHere "Expect catch or finally block."
          pure (.attempt body (handler?.bind (·.1)) (handler?.map (·.2)) cleanup?)) stmtLabels := by
    intro handler? cleanup?
    dsimp only
    split
    · exact adds_bind (m := fun _ => []) (adds_failHere _) fun _ =>
        adds_pure (by simpa using covers_attempt body handler? cleanup?)
    · exact adds_pure (covers_attempt body handler? cleanup?)
  have hcleanup : ∀ handler?, Adds (stmtsLabels body ++ handlerLabels handler?)
      (do
        let cleanup? ←
          if (← accept? .finallyWord).isSome then do
            let _ ← expect .leftBrace "Expect '\x7b' after finally."
            some <$> g.block
          else pure none
        if handler?.isNone && cleanup?.isNone then failHere "Expect catch or finally block."
        pure (.attempt body (handler?.bind (·.1)) (handler?.map (·.2)) cleanup?)) stmtLabels := by
    intro handler?
    refine adds_bind (adds_accept? _) fun finally? => ?_
    dsimp only
    split
    · refine adds_bind (adds_expect _ _) fun _ => ?_
      exact adds_bind (adds_map hg.block (r := blockLabels) fun cleanup => by grind) fun cleanup? =>
        adds_covers (by grind) (hend handler? cleanup?)
    · exact adds_bind (adds_pure (m := blockLabels) (by grind)) fun cleanup? =>
        adds_covers (by grind) (hend handler? cleanup?)
  refine adds_bind (adds_accept? _) fun catch? => ?_
  dsimp only
  split
  · exact adds_bind (adds_map (adds_catchClause hg) (r := handlerLabels) fun _ => .refl _)
      fun handler? => adds_covers (by grind) (hcleanup handler?)
  · exact adds_bind (adds_pure (m := handlerLabels) (by simpa [handlerLabels] using .refl []))
      fun handler? => adds_covers (by grind) (hcleanup handler?)

/-- What adds the labels of a body adds those of a statement. -/
theorem Adds.statement {p : Parser Stmt} (h : Adds [] p bodyLabels) : Adds [] p stmtLabels :=
  h.post fun s => by grind

theorem adds_statement (hg : g.Numbered) : Adds [] (statement g) stmtLabels := by
  refine adds_bind (adds_accept? _) fun from? => ?_
  split
  · exact adds_importStatement
  refine adds_bind (adds_accept? _) fun if? => ?_
  split
  · exact adds_bind adds_remaining fun bound => (adds_conditional hg bound).statement
  refine adds_bind (adds_accept? _) fun while? => ?_
  split
  · exact adds_whileStatement hg
  refine adds_bind (adds_accept? _) fun for? => ?_
  split
  · exact adds_forStatement hg
  refine adds_bind (adds_accept? _) fun print? => ?_
  split
  · exact (adds_printStatement hg).statement
  refine adds_bind (adds_accept? _) fun return? => ?_
  split
  · exact (adds_returnStatement hg _).statement
  refine adds_bind (adds_accept? _) fun throw? => ?_
  split
  · exact (adds_throwStatement hg _).statement
  refine adds_bind (adds_accept? _) fun keyword? => ?_
  split
  · exact adds_tryStatement hg
  refine adds_bind (adds_accept? _) fun brace? => ?_
  split
  · exact adds_map hg.block fun body => by grind
  · exact (adds_expressionStatement hg).statement

theorem adds_declaration (hg : g.Numbered) : Adds [] (declaration g) stmtLabels := by
  refine adds_bind (adds_accept? _) fun export? => ?_
  split
  · exact adds_exportDeclaration hg
  refine adds_bind (adds_accept? _) fun class? => ?_
  split
  · exact adds_classDeclaration hg
  refine adds_bind (adds_accept? _) fun function? => ?_
  split
  · exact adds_map (adds_functionDeclaration hg _) fun decl => by grind
  refine adds_bind (adds_accept? _) fun var? => ?_
  split
  · exact adds_varDeclaration hg
  · exact adds_statement hg

/-- Statements add their labels one behind the other, by induction on the bound. -/
theorem adds_declarationsUpTo (hg : g.Numbered) (inBlock : Bool) (bound : Nat) :
    ∀ done,
      Adds (stmtsLabels done.reverse) (declarationsUpTo g inBlock bound done) stmtsLabels := by
  induction bound with
  | zero => exact fun done => adds_pure (.refl _)
  | succ bound ih =>
    intro done
    refine adds_bind adds_get fun s => ?_
    split
    · exact adds_pure (by grind)
    · split
      · exact adds_pure (by grind)
      -- A declaration with an error in it is skipped, and the program goes on without its labels.
      · refine adds_bind (adds_recovering (adds_declaration hg)) fun next? => ?_
        refine adds_covers ?_ (ih (next?.toList ++ done))
        rw [List.reverse_append]
        cases next? with
        | none => grind
        | some next => grind [stmtsNodes_append, stmtsMarks_append]

/-- A block adds the labels of its statements. -/
theorem adds_block (hg : g.Numbered) : Adds [] (block g) stmtsLabels := by
  refine adds_bind adds_remaining fun bound => ?_
  refine adds_bind (adds_declarationsUpTo hg true bound []) fun body => ?_
  exact adds_bind (adds_expect _ _) fun _ => adds_pure (by grind)

end Statements

/-! ## Programs -/

/-- The grammar adds labels at every depth, by induction. -/
theorem numbered_grammar (depth : Nat) : (grammar depth).Numbered := by
  induction depth with
  | zero => exact ⟨adds_failHere _, adds_failHere _⟩
  | succ depth ih => exact ⟨adds_assignment ih, adds_block ih⟩

/-- A whole program adds the labels of its statements. -/
theorem adds_program : Adds [] program stmtsLabels := by
  refine adds_bind adds_remaining fun count => ?_
  exact adds_declarationsUpTo (numbered_grammar (count + 1)) false count []

theorem parse_kept (promised : Prop) (first : ExprId) (tokens : List Token)
    (ht : promised → ∀ t ∈ tokens, t.Proper) :
    first ≤ (parse first tokens).nextId ∧
      ∀ statements, (parse first tokens).result = .ok statements →
        Kept promised first (parse first tokens).nextId (stmtsLabels statements) := by
  have hrest : promised → ∀ t ∈ (start first tokens).rest, t.Proper :=
    fun hpromised t h => ht hpromised t (List.takeWhile_subset _ h)
  have hempty : Kept promised first (start first tokens).nextId ([] ++ []) :=
    ⟨⟨Nat.le_refl _, by simp, by simp⟩, by simp⟩
  -- Nothing has been read yet, so there is nothing that could be given twice.
  have h := adds_program promised first [] (start first tokens) hrest hempty
  unfold parse
  cases hr : program (start first tokens) with
  | error e s =>
    rw [hr] at h
    exact ⟨h.counter, fun statements hs => absurd hs (by simp)⟩
  | ok statements s =>
    rw [hr] at h
    refine ⟨h.1.counter, fun statements' hs => ?_⟩
    dsimp only at hs
    split at hs
    · simp only [Except.ok.injEq] at hs
      subst hs
      simpa using h.2
    · exact absurd hs (by simp)

/-- The counter of a parse does not go back, and the nodes of a program that was parsed have
distinct numbers, none of which was given before. -/
theorem parse_distinct (first : ExprId) (tokens : List Token) :
    first ≤ (parse first tokens).nextId ∧
      ∀ statements, (parse first tokens).result = .ok statements →
        Distinct first (parse first tokens).nextId (ids (stmtsNodes statements)) := by
  obtain ⟨hcounter, hkept⟩ := parse_kept False first tokens nofun
  refine ⟨hcounter, fun statements hs => ?_⟩
  simpa [stmtsLabels] using (hkept statements hs).distinct

/-- The counter of a parse does not go back, and the marks of a program that was parsed are fresh:
no number is given twice, none was given before, and every mark is proper. -/
theorem parse_fresh (first : ExprId) {tokens : List Token} (ht : ∀ t ∈ tokens, t.Proper) :
    first ≤ (parse first tokens).nextId ∧
      ∀ statements, (parse first tokens).result = .ok statements →
        Fresh first (parse first tokens).nextId (stmtsMarks statements) := by
  refine ⟨(parse_distinct first tokens).1, fun statements hs => ?_⟩
  have hdistinct := ((parse_distinct first tokens).2 statements hs).fewer
    fun id => count_stmtsMarks id statements
  obtain ⟨-, hkept⟩ := parse_kept True first tokens fun _ => ht
  have hproper := (hkept statements hs).proper trivial
  rw [stmtsLabels, allProper_labels] at hproper
  exact ⟨hdistinct.bounds, hdistinct.once, hdistinct.range, hproper⟩

end ScriptEngine.Parser
