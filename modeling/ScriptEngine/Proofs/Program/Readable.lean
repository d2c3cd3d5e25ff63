import ScriptEngine.Proofs.Program.ReadingStatements

/-!
# What is written can be read

Every expression of a form that the grammar gives is read back from its tokens, up to lines and
numbers. There is one lemma for each kind of expression: if its parts can be read back, so can it.
An expression is read back at its level (`Readable`), and so it is wherever a looser one may stand.
-/

namespace ScriptEngine

namespace Relabeling

@[simp] theorem blank_number (id : ExprId) : blank.number id = 0 := rfl

/-- Tokens of the same kind, text and value are the same but for their lines. -/
theorem blank_token {t t' : Token} (hkind : t.kind = t'.kind) (hlexeme : t.lexeme = t'.lexeme)
    (hliteral : t.literal = t'.literal) : blank.token t = blank.token t' := by
  obtain ⟨kind, lexeme, literal, line⟩ := t
  obtain ⟨kind', lexeme', literal', line'⟩ := t'
  simp only at hkind hlexeme hliteral
  subst hkind hlexeme hliteral
  rfl

end Relabeling

namespace Parser

open Writing Relabeling

/-! ## Expressions -/

section Levels

variable {c l l' : Nat} {g : Grammar} {u : List Token} {n n' : ExprId} {e : Expr}

/-- The tokens are read as an expression of the level, in the form in which the level can go on. -/
def AtLevel (c : Nat) (g : Grammar) (l : Nat) (u : List Token) (n : ExprId) (e : Expr)
    (n' : ExprId) : Prop :=
  if l = 8 then ∀ bound, u.length ≤ bound → Reads c (unaryUpTo g bound) (Ends 8) u n e n'
  else if l ∈ tailed then Opens c g l u n e n'
  else Reads c (level g l) (Ends l) u n e n'

/-- What is read at a level is read as a whole. -/
theorem AtLevel.whole (h : AtLevel c g l u n e n') : Reads c (level g l) (Ends l) u n e n' := by
  unfold AtLevel at h
  split at h
  · next hl =>
    subst hl
    exact reads_remaining h
  · split at h
    · exact h.whole
    · exact h

/-- An expression of one level stands as one of the next looser level. -/
theorem AtLevel.lower (h : AtLevel c g (l + 1) u n e n') (hl : l < 10) (hne : u ≠ [])
    (hunary : l = 8 → Lacks .bang u ∧ Lacks .minus u) : AtLevel c g l u n e n' := by
  have hwhole := h.whole
  unfold AtLevel
  split
  · next heq =>
    subst heq
    have hreads : Reads c (call g) (Ends 8) u n e n' :=
      hwhole.stops fun k hk => hk.mono (Nat.le_succ 8)
    obtain ⟨hbang, hminus⟩ := hunary rfl
    exact fun bound _ => reads_unaryUpTo_call hreads hne hbang hminus bound
  · next hne8 =>
    split
    · next htailed => exact opens_operand htailed hwhole
    · next htailed =>
      have hzero : l = 0 := by
        simp only [tailed, List.mem_cons, List.not_mem_nil, or_false, not_or] at htailed
        omega
      subst hzero
      exact reads_assignment_none hwhole

end Levels

/-- The tokens of an expression begin like one, and at the given level they are read as the
expression up to lines and numbers, whatever the depth. -/
structure Readable (l : Nat) (e : Expr) : Prop where
  begins : Begins (exprTokens e)
  tight : 9 ≤ l → Lacks .bang (exprTokens e) ∧ Lacks .minus (exprTokens e)
  reads : ∀ n, ∃ e' n', blank.expr e' = blank.expr e ∧
    ∀ d, AtLevel (d + 1) (grammar d) l (exprTokens e) n e' n'

namespace Readable

variable {l l' : Nat} {e e' left right object index value : Expr}

/-- What is readable at a level is so at any lower one. -/
theorem lower (h : Readable (l + 1) e) (hl : l < 10) : Readable l e where
  begins := h.begins
  tight := fun hle => h.tight (Nat.le_succ_of_le hle)
  reads := by
    intro n
    obtain ⟨e', n', hsame, hreads⟩ := h.reads n
    refine ⟨e', n', hsame, fun d => (hreads d).lower hl h.begins.ne_nil fun heq => ?_⟩
    exact h.tight (by omega)

/-- An expression stands wherever a looser one may stand. -/
theorem looser (h : Readable l' e) (hl : l ≤ l') (hl' : l' ≤ 10) : Readable l e := by
  obtain ⟨steps, rfl⟩ := Nat.exists_eq_add_of_le hl
  induction steps with
  | zero => exact h
  | succ steps ih => exact ih (h.lower hl') (Nat.le_add_right _ _) (Nat.le_of_succ_le hl')

/-- Inside something else, an expression is read at the loosest level. -/
theorem nested (h : Readable 0 e) (n : ExprId) :
    ∃ e' n', blank.expr e' = blank.expr e ∧
      ∀ d, Reads d (grammar d).expression (Ends 0) (exprTokens e) n e' n' := by
  obtain ⟨e', n', hsame, hreads⟩ := h.reads n
  refine ⟨e', n', hsame, fun d => ?_⟩
  cases d with
  | zero =>
    refine ⟨fun hlen => ?_⟩
    exact absurd (List.length_eq_zero_iff.mp (Nat.le_zero.mp hlen)) h.begins.ne_nil
  | succ d => exact (hreads d).whole

/-- A primary expression is known by its first token, which is a name only if it is the whole. -/
theorem primary {t : Token} {u : List Token} (kind : TokenKind)
    (hkind : kind ∈ starters ∧ kind ∉ [.bang, .minus]) (hname : kind = .identifier → u = [])
    (ht : t.kind = kind) (htokens : exprTokens e = t :: u)
    (hreads : ∀ n, ∃ e' n', blank.expr e' = blank.expr e ∧
      ∀ d, Reads (d + 1) (primary (grammar d)) (Ends 10) (t :: u) n e' n') :
    Readable 10 e := by
  subst ht
  obtain ⟨hstart, hunary⟩ := hkind
  simp only [List.mem_cons, List.not_mem_nil, or_false, not_or] at hunary
  refine ⟨?_, fun _ => ?_, ?_⟩
  · rw [htokens]
    refine ⟨hstart, fun hkind t' ht' => ?_⟩
    rw [hname hkind] at ht'
    cases ht'
  · rw [htokens]
    exact ⟨lacks_cons.mpr hunary.1, lacks_cons.mpr hunary.2⟩
  · rw [htokens]
    exact hreads

theorem constant (id : ExprId) (value : Constant) : Readable 10 (.constant id value) := by
  have hreads : ∀ n, ∃ e' n', blank.expr e' = blank.expr (.constant id value) ∧
      ∀ d, Reads (d + 1) (Parser.primary (grammar d)) (Ends 10) [constantToken value] n e' n' :=
    fun n => ⟨.constant n value, n + 1, rfl, fun d => reads_constant value⟩
  cases value with
  | number x => exact .primary .number (by decide) nofun rfl rfl hreads
  | string s => exact .primary .string (by decide) nofun rfl rfl hreads
  | boolean b =>
    cases b with
    | true => exact .primary .trueWord (by decide) nofun rfl rfl hreads
    | false => exact .primary .falseWord (by decide) nofun rfl rfl hreads
  | null => exact .primary .nullWord (by decide) nofun rfl rfl hreads

theorem reference {ref : Reference} (h : ref.name.kind = .identifier) :
    Readable 10 (.reference ref) :=
  .primary .identifier (by decide) (fun _ => rfl) h rfl fun n =>
    ⟨.reference ⟨n, ref.name⟩, n + 1, rfl, fun _ => reads_reference h⟩

theorem self {id : ExprId} {keyword : Token} (h : keyword.kind = .thisWord) :
    Readable 10 (.self id keyword) :=
  .primary .thisWord (by decide) nofun h rfl fun n =>
    ⟨.self n keyword, n + 1, rfl, fun _ => reads_self h⟩

theorem super {id : ExprId} {keyword className method : Token} (h : keyword.kind = .superWord)
    (hclass : className.kind = .identifier) (hmethod : method.kind = .identifier) :
    Readable 10 (.super id keyword className method) :=
  .primary .superWord (by decide) nofun h rfl fun n =>
    ⟨.super n keyword className method, n + 1, rfl, fun _ => reads_super h hclass hmethod⟩

/-- An expression in parentheses is readable wherever an operand is. -/
theorem grouping {id : ExprId} (h : Readable 0 e) : Readable 10 (.grouping id e) := by
  refine .primary .leftParen (by decide) nofun (mark_kind _) rfl fun n => ?_
  obtain ⟨e', n', hsame, hreads⟩ := h.nested n
  refine ⟨.grouping n' e', n' + 1, ?_, fun d => reads_grouping (hreads d) h.begins⟩
  simp [Relabeling.expr, hsame]

/-- Expressions one after the other, read by a parser that reads an expression. -/
theorem each (item : Grammar → Nat → Parser Expr) {bound : Nat}
    (hitem : ∀ {d i u n e n'}, i < bound → Reads d (grammar d).expression (Ends 0) u n e n' →
      Reads d (item (grammar d) i) (Ends 0) u n e n') :
    ∀ {es : List Expr} {i : Nat} (n : ExprId), (∀ e ∈ es, Readable 0 e) →
      i + es.length ≤ bound → ∃ es' n', es'.map blank.expr = es.map blank.expr ∧
        ∀ d, ReadsEach d (item (grammar d)) (Ends 0) i (exprsTokens es) n es' n' := by
  intro es
  induction es with
  | nil => exact fun {i} n _ _ => ⟨[], n, rfl, fun d => .nil i n⟩
  | cons e es ih =>
    intro i n hes hbound
    rw [List.length_cons] at hbound
    obtain ⟨e', n₁, hsame, hreads⟩ := (hes e List.mem_cons_self).nested n
    obtain ⟨es', n', hsames, hothers⟩ :=
      ih n₁ (fun x hx => hes x (List.mem_cons_of_mem e hx)) (by omega : i + 1 + es.length ≤ bound)
    refine ⟨e' :: es', n', ?_, fun d => .cons (hitem (by omega) (hreads d)) (hothers d)⟩
    rw [List.map_cons, List.map_cons, hsame, hsames]

/-- Readable arguments begin with a token that begins an expression. -/
theorem begins_each {es : List Expr} (hes : ∀ e ∈ es, Readable 0 e) :
    ∀ u ∈ exprsTokens es, Begins u := by
  induction es with
  | nil => exact fun u hu => absurd hu List.not_mem_nil
  | cons e es ih =>
    intro u hu
    rcases List.mem_cons.mp hu with rfl | hu
    · exact (hes e List.mem_cons_self).begins
    · exact ih (fun x hx => hes x (List.mem_cons_of_mem e hx)) u hu

/-- An array literal of readable items is readable. -/
theorem array {id : ExprId} {es : List Expr} (hes : ∀ e ∈ es, Readable 0 e) :
    Readable 10 (.array id es) := by
  refine .primary .leftBracket (by decide) nofun (mark_kind _) rfl fun n => ?_
  obtain ⟨es', n', hsame, hreads⟩ := Readable.each (fun g _ => g.expression)
    (fun _ h => h) n hes (Nat.le_refl _ : 0 + es.length ≤ _)
  refine ⟨_, _, ?_, fun d => reads_array (hreads d) (begins_each hes)⟩
  simp [Relabeling.expr, hsame]

/-- Behind an expression that is called or whose property is read, another such part follows. -/
theorem extended {whole : Expr} {v : List Token} (h : Readable 9 e)
    (htokens : exprTokens whole = exprTokens e ++ v)
    (hv : ∀ t ∈ v.head?, t.kind ∉ [.comma, .rightParen])
    (hreads : ∀ {n e' n₁}, blank.expr e' = blank.expr e →
      (∀ d, Opens (d + 1) (grammar d) 9 (exprTokens e) n e' n₁) →
      ∃ whole' n', blank.expr whole' = blank.expr whole ∧
        ∀ d, Opens (d + 1) (grammar d) 9 (exprTokens e ++ v) n whole' n') :
    Readable 9 whole := by
  have hlacks : ∀ {kind : TokenKind}, Lacks kind (exprTokens e) →
      Lacks kind (exprTokens whole) := by
    intro kind hlacks
    rw [htokens]
    cases hu : exprTokens e with
    | nil => exact absurd hu h.begins.ne_nil
    | cons t u => exact lacks_cons.mpr (lacks_cons.mp (hu ▸ hlacks))
  obtain ⟨hbang, hminus⟩ := h.tight (Nat.le_refl 9)
  refine ⟨htokens ▸ h.begins.append hv, fun _ => ⟨hlacks hbang, hlacks hminus⟩, fun n => ?_⟩
  obtain ⟨e', n₁, hsame, hopens⟩ := h.reads n
  rw [htokens]
  exact hreads hsame hopens

/-- A call with readable arguments is readable, if there are not too many of them. -/
theorem call {id : ExprId} {paren : Token} {arguments : List Expr} (h : Readable 9 e)
    (hparen : paren.kind = .rightParen) (hlength : arguments.length ≤ maxArguments)
    (hes : ∀ e ∈ arguments, Readable 0 e) : Readable 9 (.call id e paren arguments) := by
  refine h.extended rfl (by simp) fun {n e' n₁} hsame hopens => ?_
  obtain ⟨es', n', hsames, hreads⟩ := Readable.each argument
    (fun hcount h => reads_room hcount h) n₁ hes
    (by simpa using hlength : 0 + arguments.length ≤ maxArguments)
  refine ⟨_, _, ?_, fun d => (hopens d).call (hreads d) (fun w hw => ?_) hparen⟩
  · simp [Relabeling.expr, hsame, hsames]
  · exact ⟨(begins_each hes w hw).ne_nil, (begins_each hes w hw).lacks (by decide)⟩

theorem get {id : ExprId} {name : Token} (h : Readable 9 e) (hname : name.kind = .identifier) :
    Readable 9 (.get id e name) := by
  refine h.extended rfl (by simp) fun hsame hopens => ⟨_, _, ?_, fun d => (hopens d).get hname⟩
  simp [Relabeling.expr, hsame]

theorem getItem {id : ExprId} {bracket : Token} (h : Readable 9 e) (hindex : Readable 0 index)
    (hbracket : bracket.kind = .rightBracket) : Readable 9 (.getItem id e bracket index) := by
  refine h.extended rfl (by simp) fun {n e' n₁} hsame hopens => ?_
  obtain ⟨index', n', hsame', hreads⟩ := hindex.nested n₁
  refine ⟨_, _, ?_, fun d => (hopens d).item (hreads d) hbracket⟩
  simp [Relabeling.expr, hsame, hsame']

/-- A unary operator in front of a readable operand is readable. -/
theorem unary {id : ExprId} {operator : Token} (h : Readable 8 e)
    (hoperator : operator.kind ∈ [.bang, .minus]) : Readable 8 (.unary id operator e) := by
  have hkind : operator.kind = .bang ∨ operator.kind = .minus := by simpa using hoperator
  refine ⟨⟨?_, fun hname => ?_⟩, fun hle => absurd hle (by decide), fun n => ?_⟩
  · rcases hkind with hkind | hkind <;> (rw [hkind]; decide)
  · rcases hkind with hkind | hkind <;> (rw [hkind] at hname; cases hname)
  · obtain ⟨e', n', hsame, hreads⟩ := h.reads n
    refine ⟨.unary n' operator e', n' + 1, ?_, fun d bound hbound => ?_⟩
    · simp [Relabeling.expr, hsame]
    · exact reads_unaryUpTo_next hoperator (hreads d) hbound

/-- The levels of binary operators. -/
theorem atLevel_binary {c l : Nat} {g : Grammar} {u : List Token} {n n' : ExprId} {e : Expr}
    (hl : l ∈ [1, 2, 3, 4, 5, 6, 7]) : AtLevel c g l u n e n' ↔ Opens c g l u n e n' := by
  have hne : l ≠ 8 := by
    rintro rfl
    exact absurd hl (by decide)
  have htailed : l ∈ tailed := by
    simp only [tailed, List.mem_cons, List.not_mem_nil, or_false] at hl ⊢
    omega
  unfold AtLevel
  rw [if_neg hne, if_pos htailed]

/-- An operator between its operands. -/
theorem operator {whole : Expr} {operator : Token} (hl : l ∈ [1, 2, 3, 4, 5, 6, 7])
    (hleft : Readable l left) (hright : Readable (l + 1) right)
    (hoperator : operator.kind ∈ operatorsAt l)
    (htokens : exprTokens whole = exprTokens left ++ operator :: exprTokens right)
    (hwhole : ∀ {id left' right'}, blank.expr left' = blank.expr left →
      blank.expr right' = blank.expr right →
      blank.expr (buildAt l id left' operator right') = blank.expr whole) :
    Readable l whole := by
  have hlt : l ≤ 7 := by
    simp only [List.mem_cons, List.not_mem_nil, or_false] at hl
    omega
  refine ⟨?_, fun hle => absurd (Nat.le_trans hle hlt) (by decide), fun n => ?_⟩
  · rw [htokens]
    refine hleft.begins.append fun t ht hmem => ?_
    obtain rfl : operator = t := Option.some.inj ht
    have hends := ends_closer (l := l) (k := []) (t := operator) (by
      simp only [List.mem_cons, List.not_mem_nil, or_false] at hmem
      rcases hmem with hmem | hmem <;> (rw [hmem]; decide))
    exact (hends operator rfl).2 l (Nat.le_refl l) hoperator
  · obtain ⟨left', n₁, hsame, hopens⟩ := hleft.reads n
    obtain ⟨right', n₂, hsame', hreads⟩ := hright.reads n₁
    refine ⟨buildAt l n₂ left' operator right', n₂ + 1, hwhole hsame hsame', fun d => ?_⟩
    rw [atLevel_binary hl, htokens]
    exact ((atLevel_binary hl).mp (hopens d)).operator (by omega) hoperator (hreads d).whole

/-- A binary operator is readable between a left operand of its level and a right one of the
next. -/
theorem binary {id : ExprId} {operator : Token} (hl : l ∈ [3, 4, 5, 6, 7])
    (hleft : Readable l left) (hright : Readable (l + 1) right)
    (hoperator : operator.kind ∈ operatorsAt l) : Readable l (.binary id left operator right) := by
  simp only [List.mem_cons, List.not_mem_nil, or_false] at hl
  have hmem : l ∈ [1, 2, 3, 4, 5, 6, 7] := by
    simp only [List.mem_cons, List.not_mem_nil, or_false]
    omega
  have hbuild : buildAt l = Expr.binary := if_neg (by omega)
  refine .operator hmem hleft hright hoperator rfl fun hsame hsame' => ?_
  simp [hbuild, Relabeling.expr, hsame, hsame']

theorem logical {id : ExprId} {operator : Token} (hl : l ∈ [1, 2])
    (hleft : Readable l left) (hright : Readable (l + 1) right)
    (hoperator : operator.kind ∈ operatorsAt l) : Readable l (.logical id left operator right) := by
  simp only [List.mem_cons, List.not_mem_nil, or_false] at hl
  have hmem : l ∈ [1, 2, 3, 4, 5, 6, 7] := by
    simp only [List.mem_cons, List.not_mem_nil, or_false]
    omega
  have hbuild : buildAt l = Expr.logical := if_pos (by omega)
  refine .operator hmem hleft hright hoperator rfl fun hsame hsame' => ?_
  simp [hbuild, Relabeling.expr, hsame, hsame']

/-- An assignment to a target that is read as one. -/
theorem assignment {whole target : Expr} {equals : Token} (htarget : Readable 1 target)
    (hvalue : Readable 0 value) (hequals : equals.kind = .equal)
    (htokens : exprTokens whole = exprTokens target ++ equals :: exprTokens value)
    (hwhole : ∀ {target' value'}, blank.expr target' = blank.expr target →
      blank.expr value' = blank.expr value → ∀ n, ∃ whole', blank.expr whole' = blank.expr whole ∧
        ∀ d, Reads d (assignTo target' equals value') (Ends 0) [] n whole' (n + 1)) :
    Readable 0 whole := by
  refine ⟨?_, fun hle => absurd hle (by decide), fun n => ?_⟩
  · rw [htokens]
    refine htarget.begins.append fun t ht => ?_
    obtain rfl : equals = t := Option.some.inj ht
    rw [hequals]
    decide
  · obtain ⟨target', n₁, hsame, hreads⟩ := htarget.reads n
    obtain ⟨value', n₂, hsame', hreads'⟩ := hvalue.nested n₁
    obtain ⟨whole', hsames, hassign⟩ := hwhole hsame hsame' n₂
    refine ⟨whole', n₂ + 1, hsames, fun d => ?_⟩
    rw [htokens]
    exact reads_assignment (hreads d).whole hequals (hreads' d) (hassign d)

/-- An assignment to a name is readable. -/
theorem assign {id : ExprId} {name : Token} (hname : name.kind = .identifier)
    (hvalue : Readable 0 value) : Readable 0 (.assign id name value) := by
  have hreference : Readable 10 (.reference ⟨id, name⟩) := .reference hname
  have htarget : Readable 1 (.reference ⟨id, name⟩) := hreference.looser (by decide) (by decide)
  refine .assignment htarget hvalue (mark_kind .equal) rfl fun {target' value'} hsame hsame' n => ?_
  cases target' with
  | reference ref =>
    have hname' : blank.token ref.name = blank.token name := by
      simpa [Relabeling.expr, Relabeling.reference] using hsame
    refine ⟨.assign n ref.name value', ?_, fun d => reads_numbered⟩
    simp [Relabeling.expr, hname', hsame']
  | _ => simp [Relabeling.expr] at hsame

/-- An assignment to a property is readable. -/
theorem set {id : ExprId} {name : Token} (hobject : Readable 9 object)
    (hname : name.kind = .identifier) (hvalue : Readable 0 value) :
    Readable 0 (.set id object name value) := by
  have htarget : Readable 1 (.get id object name) :=
    (hobject.get hname).looser (by decide) (by decide)
  refine .assignment htarget hvalue (mark_kind .equal) rfl fun {target' value'} hsame hsame' n => ?_
  cases target' with
  | get id' object' name' =>
    simp only [Relabeling.expr, blank_number, Expr.get.injEq, true_and] at hsame
    refine ⟨.set n object' name' value', ?_, fun d => reads_numbered⟩
    simp [Relabeling.expr, hsame, hsame']
  | _ => simp [Relabeling.expr] at hsame

/-- An assignment at an index is readable. -/
theorem setItem {id : ExprId} {equals : Token} (hobject : Readable 9 object)
    (hindex : Readable 0 index) (hequals : equals.kind = .equal) (hvalue : Readable 0 value) :
    Readable 0 (.setItem id object index equals value) := by
  have htarget : Readable 1 (.getItem id object (mark .rightBracket) index) :=
    (hobject.getItem hindex (mark_kind _)).looser (by decide) (by decide)
  refine .assignment htarget hvalue hequals rfl fun {target' value'} hsame hsame' n => ?_
  cases target' with
  | getItem id' object' bracket' index' =>
    simp only [Relabeling.expr, blank_number, Expr.getItem.injEq, true_and] at hsame
    refine ⟨.setItem n object' index' equals value', ?_, fun d => reads_numbered⟩
    simp [Relabeling.expr, hsame, hsame']
  | _ => simp [Relabeling.expr] at hsame

end Readable

/-- Entries with distinct keys are added one by one without a change. -/
theorem foldl_putEntry {es done : List (Token × Expr)}
    (h : ((done ++ es).map (·.1.lexeme)).Nodup) : es.foldl putEntry done = done ++ es := by
  induction es generalizing done with
  | nil => rw [List.append_nil]; rfl
  | cons e es ih =>
    have hnew : done.any (·.1.lexeme == e.1.lexeme) = false := by
      rw [List.any_eq_false]
      intro e' he' heq
      rw [List.map_append, List.nodup_append] at h
      refine h.2.2 e'.1.lexeme (List.mem_map_of_mem he') e.1.lexeme ?_ (by simpa using heq)
      exact List.mem_cons_self
    have hput : putEntry done e = done ++ [e] := by
      rw [putEntry, hnew]
      rfl
    rw [List.foldl_cons, hput, ih]
    · rw [List.append_assoc, List.singleton_append]
    · rwa [List.append_assoc, List.singleton_append]

/-- Every key of a map is a name, and its value can be read back. -/
def ReadableEntries (es : List (Token × Expr)) : Prop :=
  ∀ e ∈ es, e.1.kind = .identifier ∧ Readable 0 e.2

namespace ReadableEntries

variable {es : List (Token × Expr)}

theorem each (i : Nat) (n : ExprId) (h : ReadableEntries es) :
    ∃ es' n', es'.map (·.1) = es.map (·.1) ∧
      blank.entries es' = blank.entries es ∧
      ∀ d, ReadsEach d (fun _ => mapEntry (grammar d)) (Ends 0) i (entriesTokens es) n es' n' := by
  induction es generalizing i n with
  | nil => exact ⟨[], n, rfl, rfl, fun d => .nil i n⟩
  | cons e es ih =>
    obtain ⟨key, e⟩ := e
    obtain ⟨hkey, he⟩ := h (key, e) List.mem_cons_self
    obtain ⟨e', n₁, hsame, hreads⟩ := he.nested n
    obtain ⟨es', n', hkeys, hsames, hothers⟩ :=
      ih (i + 1) n₁ fun x hx => h x (List.mem_cons_of_mem _ hx)
    refine ⟨(key, e') :: es', n', ?_, ?_, fun d =>
      .cons (reads_mapEntry hkey (hreads d)) (hothers d)⟩
    · rw [List.map_cons, List.map_cons, hkeys]
    · rw [Relabeling.entries, Relabeling.entries, hsame, hsames]

/-- An entry has a token, and none of its first is a closing brace. -/
theorem begins (h : ReadableEntries es) :
    ∀ u ∈ entriesTokens es, u ≠ [] ∧ Lacks .rightBrace u := by
  induction es with
  | nil => exact fun u hu => absurd hu List.not_mem_nil
  | cons e es ih =>
    obtain ⟨key, e⟩ := e
    intro u hu
    rcases List.mem_cons.mp hu with rfl | hu
    · refine ⟨List.cons_ne_nil _ _, lacks_cons.mpr ?_⟩
      rw [(h (key, e) List.mem_cons_self).1]
      decide
    · exact ih (fun x hx => h x (List.mem_cons_of_mem _ hx)) u hu

/-- A map literal is readable if no key occurs twice. -/
theorem map {id : ExprId} (h : ReadableEntries es) (hkeys : (es.map (·.1.lexeme)).Nodup) :
    Readable 10 (.map id es) := by
  refine .primary .leftBrace (by decide) nofun (mark_kind _) rfl fun n => ?_
  obtain ⟨es', n', hkeys', hsames, hreads⟩ := h.each 0 n
  have hput : es'.foldl putEntry [] = es' := by
    refine foldl_putEntry ?_
    have hlexemes : es'.map (·.1.lexeme) = es.map (·.1.lexeme) := by
      have := congrArg (List.map Token.lexeme) hkeys'
      rwa [List.map_map, List.map_map] at this
    rwa [List.nil_append, hlexemes]
  refine ⟨_, _, ?_, fun d => reads_map (hreads d) h.begins hput⟩
  rw [Relabeling.expr, Relabeling.expr, hsames]
  rfl

end ReadableEntries

end Parser

end ScriptEngine
