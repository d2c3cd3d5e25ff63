import ScriptEngine.Proofs.Evaluator.Tracking

/-!
# Names at run time

A piece of program that is `Ready` stands in the frames of its scopes, and its uses are recorded.
Its names are then placed: the frame at the distance of a name is the one that was made for the
scope in which the name was found. So reading a name never walks out of the chain; it can miss a
binding only where the use is early. Writing a name never touches a frame of the engine, because
a name that a program can spell is found in none of its scopes.
-/

namespace ScriptEngine

open Scope hiding bind

section

variable {settled : Nat} {w w' : World} {m m' : Machine} {home : ModuleId} {stack : Stack}
  {uses uses' : List Use} {marks marks' : List Mark}

/-- What was ready is ready after an advance that comes back to its place. -/
theorem Ready.after (h : Ready settled w m home stack uses marks)
    (ha : Advances settled m.SamePlace w m w' m') : Ready settled w' m' home stack uses marks where
  sound := ha.sound
  active := ha.kept.1.trans h.active
  chain := by
    rw [ha.kept.2]
    exact h.chain.mono ha.moves
  unsealed := h.unsealed
  code := h.code.mono ha.moves

theorem CodeOk.part (h : CodeOk w m home stack uses marks) (hu : uses' ⊆ uses)
    (hk : marks' ⊆ marks) : CodeOk w m home stack uses' marks' where
  shape := h.shape
  known := fun u hmem => h.known u (hu hmem)
  proper := fun k hmem => h.proper k (hk hmem)
  asks := fun ⟨k, hmem, hask⟩ => h.asks ⟨k, hk hmem, hask⟩

/-- A machine that is ready for some code is ready for a part of it. -/
theorem Ready.part (h : Ready settled w m home stack uses marks) (hu : uses' ⊆ uses)
    (hk : marks' ⊆ marks) : Ready settled w m home stack uses' marks' :=
  ⟨h.sound, h.active, h.chain, h.unsealed, h.code.part hu hk⟩

theorem Ready.left (h : Ready settled w m home stack (uses ++ uses') (marks ++ marks')) :
    Ready settled w m home stack uses marks :=
  h.part (List.subset_append_left _ _) (List.subset_append_left _ _)

theorem Ready.right (h : Ready settled w m home stack (uses ++ uses') (marks ++ marks')) :
    Ready settled w m home stack uses' marks' :=
  h.part (List.subset_append_right _ _) (List.subset_append_right _ _)

/-! ## Frames that a program may write to -/

/-- A frame whose own scope is not one of the engine is not sealed. -/
theorem not_sealed_of_origin {f : FrameId} {o : Origin} (ho : w.origins[f]? = some o)
    (h : ∀ site ∈ o.sites.head?, site.isSealed = false) : ¬ w.Sealed f := by
  rintro ⟨home, site, sites, ho', hsealed⟩
  rw [ho] at ho'
  simp only [Option.some.injEq] at ho'
  subst ho'
  rw [h site rfl] at hsealed
  exact absurd hsealed (by simp)

theorem Chain.home_lt {f : FrameId} (h : Chain w m home f stack) : home < m.modules.size := by
  induction stack generalizing f with
  | nil => exact h.1
  | cons scope outer ih =>
    obtain ⟨-, -, g, -, hc⟩ := h
    exact ih hc

/-- The frame at the start of a chain, and what it was made for. -/
theorem Chain.origin (hs : Sound settled w m) {f : FrameId} (h : Chain w m home f stack) :
    w.origins[f]? = some ⟨home, stack.sites⟩ := by
  cases stack with
  | nil =>
    rw [h.2]
    exact (hs.globals home h.1).1
  | cons scope outer => exact h.1

/-- The frame that a program which is ready runs in is there. -/
theorem Ready.current_lt (h : Ready settled w m home stack uses marks) :
    m.current < m.frames.frames.size := by
  rw [← h.sound.labelled]
  exact (List.getElem?_eq_some_iff.mp (h.chain.origin h.sound)).1

/-- A program that is ready may write to the current frame. -/
theorem Ready.not_sealed (h : Ready settled w m home stack uses marks) : ¬ w.Sealed m.current :=
  not_sealed_of_origin (h.chain.origin h.sound) h.unsealed

/-- Behind the globals of a module stand only the built-ins. -/
theorem holder?_globals (hs : Sound settled w m) (hk : home < m.modules.size) {name : String}
    {f : FrameId} (h : m.frames.holder? (m.modules.node home).globals name = some f) :
    ¬ w.Sealed f := by
  obtain ⟨ho, he⟩ := hs.globals home hk
  obtain ⟨home', hb, hbe⟩ := hs.builtins
  have hglobals : ¬ w.Sealed (m.modules.node home).globals :=
    not_sealed_of_origin ho fun site hsite => absurd hsite (by simp)
  have hbuiltins : ¬ w.Sealed Machine.builtins :=
    not_sealed_of_origin hb fun site hsite => absurd hsite (by simp)
  -- The walk has two frames at most, since the built-ins have none around them.
  unfold Frames.holder? at h
  rw [he] at h
  split at h
  · exact Option.some.inj h ▸ hglobals
  · dsimp only at h
    split at h
    · unfold Frames.holder? at h
      rw [hbe] at h
      split at h
      · exact Option.some.inj h ▸ hbuiltins
      · exact absurd h (by simp)
    · exact absurd h (by simp)

/-- The chain still agrees when names are added to its first scope that the frame binds. -/
theorem Chain.extend {f : FrameId} (h : Chain w m home f stack) {names : Layer}
    (hnames : ∀ entry ∈ names, entry.2 = true → m.frames.binds f entry.1 = true) :
    Chain w m home f (stack.extend names) := by
  cases stack with
  | nil => exact h
  | cons scope outer =>
    obtain ⟨site, layer⟩ := scope
    obtain ⟨ho, hb, hg⟩ := h
    refine ⟨ho, fun name hname => ?_, hg⟩
    rw [List.lookup_append, Option.or_eq_some_iff] at hname
    rcases hname with hname | ⟨-, hname⟩
    · exact hnames _ (mem_of_lookup hname) rfl
    · exact hb name hname

/-- A name that is written to a frame is bound there. -/
theorem binds_withBinding (hs : Sound settled w m) {f : FrameId} {o : Origin}
    (ho : w.origins[f]? = some o) (name : String) (v : Value) :
    (m.withBinding f name v).frames.binds f name = true := by
  have hlt : f < m.frames.frames.size := hs.labelled ▸ lt_of_origin ho
  rw [Machine.withBinding, Frames.binds, Frames.local?_put, if_pos ⟨rfl, hlt, rfl⟩]
  rfl

/-! ## Writing names -/

/-- Writing a name can be followed if its frame is not sealed and its value is sound. -/
theorem tracks_write (hs : Sound settled w m) {target : Frames → Except RuntimeError FrameId}
    {name : Token} {v : Value}
    (hok : ∀ f, target m.frames = .ok f →
      ¬ w.Sealed f ∧ ValueOk w (m.withBinding f name.lexeme v) v)
    (herror : ∀ e, target m.frames = .error e → Excused w.sources e) :
    Tracks settled w m (fun _ => Run.write target name v) fun w' m' _ =>
      w' = w ∧ ∃ f, target m.frames = .ok f ∧ m' = m.withBinding f name.lexeme v := by
  refine tracks_get ?_
  refine tracks_bind (Q := fun w' m' f => w' = w ∧ m' = m ∧ target m.frames = .ok f)
    (tracks_ofExcept hs (fun f hf => ⟨rfl, rfl, hf⟩) herror) ?_
  rintro w' m' f - ⟨rfl, rfl, hf⟩
  obtain ⟨hsealed, hv⟩ := hok f hf
  exact tracks_modify ⟨.withBinding hsealed _ _, hs.withBinding hsealed hv, .refl _⟩
    ⟨rfl, f, hf, rfl⟩

/-- Defining a name can be followed where the current frame is not sealed. -/
theorem tracks_define (hs : Sound settled w m) (hopen : ¬ w.Sealed m.current) {name : Token}
    {v : Value}
    (hv : ValueOk w (m.withBinding m.current name.lexeme v) v) :
    Tracks settled w m (fun _ => Run.define name v) fun w' m' _ =>
      w' = w ∧ m' = m.withBinding m.current name.lexeme v := by
  -- A definition either fails at its name or goes to the current frame.
  have htarget : ∀ f, m.frames.newTarget m.current name = .ok f → f = m.current := by
    intro f hf
    unfold Frames.newTarget at hf
    split at hf
    · cases hf
    · exact (Except.ok.inj hf).symm
  refine tracks_get ((tracks_write hs (fun f hf => ?_) fun e he => ?_).post ?_)
  · obtain rfl := htarget f hf
    exact ⟨hopen, hv⟩
  · unfold Frames.newTarget at he
    split at he
    · obtain rfl := Except.error.inj he
      trivial
    · cases he
  · rintro w' m' - - ⟨rfl, f, hf, rfl⟩
    obtain rfl := htarget f hf
    exact ⟨rfl, rfl⟩

/-- A sound value stays sound when a frame of the program is written to. -/
theorem ValueOk.withBinding {f : FrameId} (hf : ¬ w.Sealed f) (name : String) {v : Value}
    (hv : ValueOk w m v) : ValueOk w (m.withBinding f name v) v := by
  have hm : Moves 0 w m w (m.withBinding f name v) := .withBinding hf name v
  exact hv.mono hm

/-! ## Uses are placed -/

/-- A distance is less than the number of scopes. -/
theorem distance?_lt {scopes : List Layer} {name : String} {d : Nat}
    (h : distance? scopes name = some d) : d < scopes.length :=
  (List.findIdx?_eq_some_iff_getElem.mp h).1

/-- A use is placed if its scopes are those of the chain, apart from names that have been added to
them on the way but are not the one that is used. -/
theorem Ready.placed (h : Ready settled w m home stack uses marks) {u : Use} (hu : u ∈ uses)
    (hsites : u.stack.sites = stack.sites)
    (hnames : ∀ (d : Nat) (layer : Layer), u.stack.layers[d]? = some layer →
      layer.lookup u.name = some true →
      ∃ layer' : Layer, stack.layers[d]? = some layer' ∧ layer'.lookup u.name = some true) :
    ∃ program, Accepted w.sources program ∧
      Placed w.origins m home program ⟨u.id, u.name, u.role⟩ u := by
  obtain ⟨program, ha, hmem⟩ := (h.code.known u hu).accepted
  obtain ⟨hin, hout⟩ := h.chain.hops
  refine ⟨program, ha, hmem, rfl, rfl, rfl, (h.code.known u hu).recorded, fun d hd => ?_, ?_⟩
  · have hlt : d < stack.sites.length := by
      have := distance?_lt hd
      rw [← hsites]
      simpa [Stack.layers, Stack.sites] using this
    obtain ⟨f, hf, ho, hb⟩ := hin d hlt
    refine ⟨f, hf, hsites ▸ ho, fun hready => ?_⟩
    -- The chain binds what its own layers let be read. Those of the use may have names that were
    -- added on the way, and `hnames` says that this makes no difference to the name in question.
    obtain ⟨layer, ready, hget, hlook, hfind⟩ := ready?_of_distance? hd
    rw [Use.ready?] at hready
    rw [hready] at hfind
    obtain rfl := Option.some.inj hfind
    obtain ⟨layer', hget', hlook'⟩ := hnames d layer hget hlook
    exact hb layer' hget' _ hlook'
  · rw [hsites]
    exact hout

/-- A use of code that is ready is placed in an accepted program. -/
theorem Ready.placed_here (h : Ready settled w m home stack uses marks) {u : Use} (hu : u ∈ uses)
    (hstack : u.stack = stack) :
    ∃ program, Accepted w.sources program ∧
      Placed w.origins m home program ⟨u.id, u.name, u.role⟩ u :=
  h.placed hu (by rw [hstack]) fun d layer hget hlook => ⟨layer, hstack ▸ hget, hlook⟩

/-- What is read at a distance is looked for in one frame. -/
theorem Frames.getAt_eq {frames : Frames} {current f : FrameId} {d : Nat} {name : String}
    (hf : frames.hops? current d = some f) :
    frames.getAt current d name =
      match frames.local? f name with
      | some value => .ok value
      | none => .error (.internal (.unboundLocal name d)) := by
  rw [getAt, ancestor, hf]
  rfl

section Placed

variable {program : List Stmt} {l : Lookup} {u : Use}

/-- The distance of a use is looked up in the active module. -/
theorem distance?_eq (hactive : m.active? = some home) (id : ExprId) :
    Run.distance? id m = .ok (m.modules.node home).distances[id]? m := by
  show EStateM.bind Run.activeModule _ m = _
  rw [EStateM.bind, Evaluator.activeModule_eq hactive]
  rfl

/-- The global frame is that of the active module. -/
theorem globals_eq (hactive : m.active? = some home) :
    Run.globals m = .ok (m.modules.node home).globals m := by
  show EStateM.bind Run.activeModule _ m = _
  rw [EStateM.bind, Evaluator.activeModule_eq hactive]
  rfl

/-- Reading a name in the nearest frame that binds it. -/
theorem tracks_nearest (hs : Sound settled w m) (f : FrameId) (name : Token) :
    Tracks settled w m (fun _ => Run.ofExcept (m.frames.get f name)) fun w' m' v =>
      w' = w ∧ m' = m ∧ ValueOk w m v := by
  refine tracks_ofExcept hs (fun v hv => ⟨rfl, rfl, ?_⟩) fun e he => ?_
  · unfold Frames.get at hv
    split at hv
    · next value hvalue =>
      obtain ⟨g, -, hg⟩ := Option.bind_eq_some_iff.mp hvalue
      exact Except.ok.inj hv ▸ hs.values g _ value hg
    · cases hv
  · unfold Frames.get at he
    split at he
    · cases he
    · exact Except.error.inj he ▸ trivial

/-- Reading a placed name: it may only be missing where it is read too early. -/
theorem tracks_lookUp (hs : Sound settled w m) (hactive : m.active? = some home) {id : ExprId}
    {name : Token} {role : Role}
    (hp : Placed w.origins m home program ⟨id, name.lexeme, role⟩ u)
    (ha : Accepted w.sources program) :
    Tracks settled w m (fun _ => Run.lookUp id name) ValueOk := by
  refine tracks_read (distance?_eq hactive id) ?_
  rw [hp.recorded]
  cases hd : distance? u.stack.layers name.lexeme with
  | none =>
    -- Without a distance the name is a global or a built-in, and a miss is reported at its place.
    refine tracks_read (globals_eq hactive) (tracks_get ((tracks_nearest hs _ name).post ?_))
    rintro w' m' v - ⟨rfl, rfl, hv⟩
    exact hv
  | some d =>
    obtain ⟨f, hf, -, hbound⟩ := hp.lands d hd
    refine tracks_get ?_
    rw [Frames.getAt_eq hf]
    cases hl : m.frames.local? f name.lexeme with
    | some value => exact tracks_pure hs (hs.values f _ value hl)
    -- The frame is there but has no such name, so the use cannot be one that may be read by now.
    | none =>
      refine tracks_throw hs ⟨program, ha, u, hp.use, ?_, hp.name, hd⟩
      obtain ⟨layer, ready, -, -, hfind⟩ := ready?_of_distance? hd
      have hready : u.ready? = some ready := by
        rw [Use.ready?, hp.name]
        exact hfind
      cases ready with
      | false => exact hready
      | true =>
        have hb := hbound hready
        rw [Frames.binds, hl] at hb
        exact absurd hb (by simp)

/-- Assigning to a placed name that a program can spell. -/
theorem tracks_assign (hs : Sound settled w m) (hactive : m.active? = some home)
    (hhome : home < m.modules.size) {id : ExprId} {name : Token} {role : Role} {v : Value}
    (hp : Placed w.origins m home program ⟨id, name.lexeme, role⟩ u) (hshape : u.stack.Shape)
    (hplain : Plain name.lexeme) (hv : ValueOk w m v) :
    Tracks settled w m (fun _ => Run.assign id name v) fun _ _ _ => True := by
  refine tracks_read (distance?_eq hactive id) ?_
  rw [hp.recorded]
  cases hd : distance? u.stack.layers name.lexeme with
  | none =>
    refine tracks_read (globals_eq hactive) ?_
    refine (tracks_write hs (fun f hf => ?_) fun e he => ?_).post fun _ _ _ _ _ => trivial
    · unfold Frames.target at hf
      split at hf
      · next holder hholder =>
        obtain rfl := Except.ok.inj hf
        have hsealed := holder?_globals hs hhome hholder
        exact ⟨hsealed, hv.withBinding hsealed _⟩
      · cases hf
    · unfold Frames.target at he
      split at he
      · cases he
      · exact Except.error.inj he ▸ trivial
  | some d =>
    obtain ⟨f, hf, ho, -⟩ := hp.lands d hd
    have htarget : m.frames.targetAt m.current d name =
        if m.frames.binds f name.lexeme then .ok f
        else .error (.located .undefinedVariable name) := by
      rw [Frames.targetAt, Frames.ancestor, hf]
      rfl
    -- `this` and `super` are keywords, so the frame of a name that can be spelled is no sealed one.
    have hsealed : ¬ w.Sealed f := by
      obtain ⟨site, hsite, hplainSite⟩ := site_of_plain hshape hplain hd
      refine not_sealed_of_origin ho fun site' hsite' => ?_
      rw [List.head?_drop, hsite] at hsite'
      exact Option.some.inj hsite' ▸ hplainSite
    refine tracks_get ?_
    refine (tracks_write hs (fun f' hf' => ?_) fun e he => ?_).post fun _ _ _ _ _ => trivial
    · rw [htarget] at hf'
      split at hf'
      · obtain rfl := Except.ok.inj hf'
        exact ⟨hsealed, hv.withBinding hsealed _⟩
      · cases hf'
    · rw [htarget] at he
      split at he
      · cases he
      · exact Except.error.inj he ▸ trivial

end Placed

/-! ## Import references -/

/-- Remembering a value can be followed. -/
theorem tracks_refreshImport (hs : Sound settled w m) (id : ImportId) (v : Value) :
    Tracks settled w m (fun _ => Run.modifyHeap fun h => h.refreshImport id v) fun _ _ _ => True :=
  (tracks_modifyHeap hs (Heap.grows_refreshImport _ _ _ _) (hs.heap.of_eq rfl rfl rfl rfl)).post
    fun _ _ _ _ _ => trivial

/-- One step along a chain can be followed. -/
theorem tracks_resolveImport (hs : Sound settled w m) (id : ImportId) :
    Tracks settled w m (fun _ => Run.resolveImport id) ValueOk := by
  refine tracks_get ?_
  dsimp only
  split
  · next value hvalue =>
    refine tracks_bind (tracks_refreshImport hs id value) fun w' m' _ ha _ => ?_
    exact tracks_pure ha.sound ((hs.values _ _ value hvalue).mono ha.moves)
  · exact tracks_failAt hs _ _

/-- Following a chain can be followed, by induction on the steps. -/
theorem tracks_derefUpTo (steps : Nat) :
    ∀ {w : World} {m : Machine} {v : Value}, Sound settled w m → ValueOk w m v →
      Tracks settled w m (fun _ => Run.derefUpTo steps v) ValueOk := by
  induction steps with
  | zero =>
    intro w m v hs hv
    cases v with
    | imported id => exact tracks_heap (tracks_failAt hs _ _)
    | _ => exact tracks_pure hs hv
  | succ steps ih =>
    intro w m v hs hv
    cases v with
    | imported id =>
      exact tracks_bind (tracks_resolveImport hs id) fun w' m' v' ha hv' => ih ha.sound hv'
    | _ => exact tracks_pure hs hv

theorem tracks_deref (hs : Sound settled w m) {v : Value} (hv : ValueOk w m v) :
    Tracks settled w m (fun _ => Run.deref v) ValueOk :=
  tracks_derefUpTo _ hs hv

/-- What is done to the value behind an import reference is done in another module, so it must not
depend on the place. -/
theorem tracks_throughImport {use : Observer → Value → Run Value} (hs : Sound settled w m)
    (id : ImportId)
    (huse : ∀ w' m' v, Moves settled w m w' m' → Sound settled w' m' → ValueOk w' m' v →
      Tracks settled w' m' (fun o => use o v) ValueOk) :
    Tracks settled w m (fun o => Run.throughImport id (use o)) ValueOk := by
  refine tracks_bind (tracks_deref hs trivial) fun w₁ m₁ target h₁ hv₁ => ?_
  refine tracks_heap ?_
  have hmove : ∀ home, Moves settled w₁ m₁ w₁ { m₁ with active? := some home } := fun home =>
    .of_same w₁ ⟨rfl, rfl, rfl, rfl⟩
  refine tracks_bind (tracks_inModule (huse w₁ _ target (h₁.moves.trans (hmove _))
    (h₁.sound.place _ m₁.current) (hv₁.mono (hmove _))) fun w' m' m'' v hm hv => hv.mono hm) ?_
  intro w₂ m₂ result h₂ hv₂
  refine tracks_bind (tracks_refreshImport h₂.sound id result) fun w₃ m₃ _ h₃ _ => ?_
  exact tracks_pure h₃.sound (hv₂.mono h₃.moves)

end

end ScriptEngine
