import ScriptEngine.Proofs.Scope.Mark

/-!
# Which scopes can surround a piece of program

The scopes of `this` and of the superclasses are made by the engine, not spelled by the program:
they hold fixed names, and the scope of the superclasses stands directly around that of `this`.
All other scopes hold plain names. So a plain name is never found in a scope that the engine made,
and the word `super` is found exactly there, one scope outside a `this`.
-/

namespace ScriptEngine.Scope

/-- The scope is made by the engine. -/
def Site.isSealed : Site → Bool
  | .receiver _ => true
  | .superclasses _ => true
  | _ => false

namespace Stack

/-- Scopes that can surround a piece of program. -/
inductive Shape : Stack → Prop where
  | empty : Shape []
  | plain {site : Site} {layer : Layer} {outer : Stack} (hsite : site.isSealed = false)
      (hlayer : ∀ entry ∈ layer, Plain entry.1) (houter : Shape outer) :
      Shape ((site, layer) :: outer)
  | receiver {decls : List FunctionDecl} {outer : Stack} (houter : Shape outer) :
      Shape ((.receiver decls, [("this", true)]) :: outer)
  | subclass {decls : List FunctionDecl} {refs : List Reference} {outer : Stack}
      (houter : Shape outer) :
      Shape ((.receiver decls, [("this", true)]) :: (.superclasses refs, superLayer refs) :: outer)

/-- The innermost scope is one that a program can add names to. -/
def Open (stack : Stack) : Prop :=
  ∀ site ∈ stack.sites.head?, site.isSealed = false

/-- A scope that the program opens is open. -/
theorem Open.cons {site : Site} (h : site.isSealed = false) (layer : Layer) (outer : Stack) :
    Open ((site, layer) :: outer) := by
  intro s hs
  simp only [sites_cons, List.head?_cons, Option.mem_def, Option.some.injEq] at hs
  exact hs ▸ h

/-- An open scope stays open when names are added. -/
theorem Open.extend {stack : Stack} (h : stack.Open) (names : Layer) :
    (stack.extend names).Open := by
  intro site hs
  rw [sites_extend] at hs
  exact h site hs

/-- Plain names may be added to an open scope. -/
theorem Shape.extend {stack : Stack} (h : stack.Shape) (hopen : stack.Open) {names : Layer}
    (hnames : ∀ entry ∈ names, Plain entry.1) : (stack.extend names).Shape := by
  cases h with
  | empty => exact .empty
  | plain hsite hlayer houter =>
    refine .plain hsite (fun entry hentry => ?_) houter
    rcases List.mem_append.mp hentry with hentry | hentry
    · exact hnames entry hentry
    · exact hlayer entry hentry
  -- Methods open a scope of their own, so nothing is ever added to that of a `this`.
  | receiver houter => exact absurd (hopen _ rfl) (by simp [Site.isSealed])
  | subclass houter => exact absurd (hopen _ rfl) (by simp [Site.isSealed])

/-- Around the methods of a class. -/
theorem Shape.classStack {stack : Stack} (h : stack.Shape) (refs : List Reference)
    (decls : List FunctionDecl) : (Scope.classStack stack refs decls).Shape := by
  unfold Scope.classStack superStack
  split
  · exact .receiver h
  · exact .subclass h

end Stack

/-- A layer without an entry of the name does not have it. -/
theorem Layer.has_eq_false {layer : Layer} {name : String}
    (h : ∀ entry ∈ layer, entry.1 ≠ name) : layer.has name = false := by
  simpa [Layer.has] using fun n b hentry => h (n, b) hentry

/-- A layer has a name if it has an entry of it. -/
theorem Layer.has_eq_true_iff {layer : Layer} {name : String} :
    layer.has name = true ↔ ∃ entry ∈ layer, entry.1 = name := by
  simp [Layer.has]

/-- A name is found in the innermost scope, or one further out. -/
theorem distance?_cons (layer : Layer) (outer : List Layer) (name : String) :
    distance? (layer :: outer) name =
      if layer.has name then some 0 else (distance? outer name).map (· + 1) := by
  simp [distance?, List.findIdx?_cons]

/-- No plain name is found in the scope of the superclasses. -/
theorem superLayer_has_plain {name : String} (h : Plain name) (refs : List Reference) :
    (superLayer refs).has name = false := by
  refine Layer.has_eq_false fun entry hentry => ?_
  rcases List.mem_cons.mp hentry with rfl | hentry
  · exact Ne.symm h.2.1
  · obtain ⟨ref, -, rfl⟩ := List.mem_map.mp hentry
    exact Ne.symm (h.2.2 _)

theorem thisLayer_has_plain {name : String} (h : Plain name) :
    Layer.has [("this", true)] name = false :=
  Layer.has_eq_false fun entry hentry => by
    rw [List.mem_singleton.mp hentry]
    exact Ne.symm h.1

/-- A plain name is found in a scope that the program made. -/
theorem site_of_plain {stack : Stack} (hshape : stack.Shape) {name : String} (hname : Plain name)
    {d : Nat} (hd : distance? stack.layers name = some d) :
    ∃ site, stack.sites[d]? = some site ∧ site.isSealed = false := by
  induction hshape generalizing d with
  | empty => simp [distance?] at hd
  | plain hsite hlayer houter ih =>
    rw [Stack.layers_cons, distance?_cons] at hd
    split at hd
    · simp only [Option.some.injEq] at hd
      exact ⟨_, by simp [← hd], hsite⟩
    · obtain ⟨k, hk, rfl⟩ := Option.map_eq_some_iff.mp hd
      simpa using ih hk
  | receiver houter ih =>
    rw [Stack.layers_cons, distance?_cons, thisLayer_has_plain hname] at hd
    obtain ⟨k, hk, rfl⟩ := Option.map_eq_some_iff.mp hd
    simpa using ih hk
  | @subclass decls refs outer houter ih =>
    rw [Stack.layers_cons, Stack.layers_cons, distance?_cons, thisLayer_has_plain hname,
      distance?_cons, superLayer_has_plain hname refs] at hd
    obtain ⟨j, hj, rfl⟩ := Option.map_eq_some_iff.mp hd
    obtain ⟨k, hk, rfl⟩ := Option.map_eq_some_iff.mp hj
    simpa using ih hk

/-- The word `super` is found in a scope of superclasses, and the scope one step inside is that of
`this`. -/
theorem sites_of_super {stack : Stack} (hshape : stack.Shape) {d : Nat}
    (hd : distance? stack.layers "super" = some d) :
    ∃ k decls refs rest, d = k + 1 ∧
      stack.sites.drop k = .receiver decls :: .superclasses refs :: rest := by
  induction hshape generalizing d with
  | empty => simp [distance?] at hd
  | @plain site layer outer hsite hlayer houter ih =>
    have hnot : layer.has "super" = false :=
      Layer.has_eq_false fun entry hentry => (hlayer entry hentry).2.1
    rw [Stack.layers_cons, distance?_cons, hnot] at hd
    obtain ⟨j, hj, rfl⟩ := Option.map_eq_some_iff.mp hd
    obtain ⟨k, decls, refs, rest, rfl, hdrop⟩ := ih hj
    exact ⟨k + 1, decls, refs, rest, rfl, by simpa using hdrop⟩
  | receiver houter ih =>
    have hnot : Layer.has [("this", true)] "super" = false := by decide
    rw [Stack.layers_cons, distance?_cons, hnot] at hd
    obtain ⟨j, hj, rfl⟩ := Option.map_eq_some_iff.mp hd
    obtain ⟨k, decls, refs, rest, rfl, hdrop⟩ := ih hj
    exact ⟨k + 1, decls, refs, rest, rfl, by simpa using hdrop⟩
  | @subclass decls refs outer houter ih =>
    have hnot : Layer.has [("this", true)] "super" = false := by decide
    have hhas : (superLayer refs).has "super" = true :=
      Layer.has_eq_true_iff.mpr ⟨("super", true), List.mem_cons_self, rfl⟩
    rw [Stack.layers_cons, Stack.layers_cons, distance?_cons, hnot, distance?_cons, hhas] at hd
    simp only [Bool.false_eq_true, if_false, if_true, Option.map_some, Option.some.injEq] at hd
    -- The scope of `this` does not have the word and the one around it does.
    exact ⟨0, decls, refs, outer.sites, hd.symm, rfl⟩

/-- What the innermost scope with a name says about it: whether it may be read. -/
theorem ready?_of_distance? {scopes : List Layer} {name : String} {d : Nat}
    (hd : distance? scopes name = some d) :
    ∃ layer ready, scopes[d]? = some layer ∧ layer.lookup name = some ready ∧
      scopes.findSome? (fun layer => layer.lookup name) = some ready := by
  induction scopes generalizing d with
  | nil => simp [distance?] at hd
  | cons layer outer ih =>
    rw [distance?_cons] at hd
    split at hd
    · next hhas =>
      simp only [Option.some.injEq] at hd
      obtain ⟨entry, hmem, hname⟩ := Layer.has_eq_true_iff.mp hhas
      have hlook : (layer.lookup name).isSome := by
        rw [List.lookup_isSome_iff]
        exact ⟨entry, hmem, by simp [hname]⟩
      obtain ⟨ready, hready⟩ := Option.isSome_iff_exists.mp hlook
      exact ⟨layer, ready, by simp [← hd], hready, by simp [hready]⟩
    · next hhas =>
      obtain ⟨k, hk, rfl⟩ := Option.map_eq_some_iff.mp hd
      obtain ⟨layer', ready, hget, hlook, hfind⟩ := ih hk
      -- The distance goes by the names of a scope, the search by what it says: both pass over it.
      have hnone : layer.lookup name = none := by
        rw [List.lookup_eq_none_iff]
        intro entry hentry
        have : ¬ entry.1 = name := fun heq => hhas (Layer.has_eq_true_iff.mpr ⟨entry, hentry, heq⟩)
        simpa using Ne.symm this
      exact ⟨layer', ready, by simpa using hget, hlook,
        by simpa [List.findSome?_cons, hnone] using hfind⟩

/-- A use that is early but not refused stands in a scope further in than that of the variable. -/
theorem Use.Early.nested {u : Use} (he : u.Early) (hp : ¬ u.Pending) {d : Nat}
    (hd : distance? u.stack.layers u.name = some d) : 0 < d := by
  refine Nat.pos_of_ne_zero fun hzero => hp ?_
  subst hzero
  obtain ⟨layer, ready, hget, hlook, hfind⟩ := ready?_of_distance? hd
  -- At distance 0 the innermost scope is the one that has the name, and the walk looks at it.
  obtain rfl : ready = false := Option.some.inj (hfind.symm.trans he)
  rw [Use.Pending, List.head?_eq_getElem?, hget]
  exact hlook

end ScriptEngine.Scope
