import ScriptEngine.Proofs.Evaluator.Naming

/-!
# The nearest frame that binds a name

A name is looked up by walking outward, or at a distance that is known beforehand. Both end at the
same frame if the distance is the least number of hops to a frame that binds the name (`Nearest`),
so they read the same value and write the same frame.

Many chains share a frame: two of them may differ at first and run together further out. What a
write changes is therefore said frame by frame. A name is read as before from every frame unless it
is the name that was written and the walk ends at the frame that was written (`Meets`), however far
in the two chains run together and whatever frames on either of them hide the name
(`get_put`).

All this is about frames that were made one after the other (`Built`), so that a frame is enclosed
by an earlier one and a walk comes to an end.
-/

namespace ScriptEngine.Frames

/-! ## Making frames -/

/-- Frames that were made one after the other, each enclosed by one that was there or by none, with
values put under names in between. -/
inductive Built : Frames → Prop where
  | none : Built ⟨#[]⟩
  | create {fs : Frames} (h : Built fs) {enclosing? : Option FrameId}
      (henclosing : ∀ outer, enclosing? = some outer → outer < fs.frames.size) :
      Built (fs.create enclosing?).2
  | put {fs : Frames} (h : Built fs) (f : FrameId) (name : String) (value : Value) :
      Built (fs.put f name value)

variable {fs fs' : Frames} {e f g : FrameId} {name : String}

theorem Built.define (h : fs.Built) {token : Token} {value : Value}
    (hdefine : fs.define f token value = .ok fs') : fs'.Built := by
  unfold Frames.define newTarget at hdefine
  split at hdefine
  · cases hdefine
  · cases hdefine
    exact h.put f token.lexeme value

theorem Built.assign (h : fs.Built) {token : Token} {value : Value}
    (hassign : fs.assign e token value = .ok fs') : fs'.Built := by
  unfold Frames.assign target at hassign
  split at hassign
  · cases hassign
    exact h.put _ token.lexeme value
  · cases hassign

theorem Built.enclosing_lt (h : fs.Built) (henclosing : (fs.frame f).enclosing? = some g) :
    g < f := by
  induction h with
  | none =>
    rw [frame_of_size_le (Nat.zero_le f)] at henclosing
    cases henclosing
  | @create fs _ enclosing? houter ih =>
    rw [show (fs.create enclosing?).2 = fs.add ⟨[], enclosing?⟩ from rfl, frame_add] at henclosing
    split at henclosing
    · next hnew => exact hnew ▸ houter g henclosing
    · exact ih henclosing
  | put _ f' name value ih =>
    rw [enclosing?_put] at henclosing
    exact ih henclosing

/-! ## The nearest frame -/

/-- The frame `g` is `d` hops out from `e` and binds the name, and none before it does. -/
structure Nearest (fs : Frames) (e : FrameId) (name : String) (d : Nat) (g : FrameId) : Prop where
  hops : fs.hops? e d = some g
  binds : fs.binds g name = true
  least : ∀ n < d, ∀ f, fs.hops? e n = some f → fs.binds f name = false

/-- No frame of the chain that starts at `e` binds the name. -/
def Unbound (fs : Frames) (e : FrameId) (name : String) : Prop :=
  ∀ d g, fs.hops? e d = some g → fs.binds g name = false

/-- From both frames, the nearest frame that binds the name is the same. -/
def Meets (fs : Frames) (name : String) (e f : FrameId) : Prop :=
  ∃ g d n, fs.Nearest e name d g ∧ fs.Nearest f name n g

/-- There is only one nearest frame, at one distance. -/
theorem Nearest.unique {d d' : Nat} {g' : FrameId} (h : fs.Nearest e name d g)
    (h' : fs.Nearest e name d' g') : d = d' ∧ g = g' := by
  have hnot : ∀ {m n : Nat} {f f' : FrameId}, fs.Nearest e name m f → fs.Nearest e name n f' →
      ¬ m < n := fun hm hn hlt => by
    cases hm.binds.symm.trans (hn.least _ hlt _ hm.hops)
  obtain rfl : d = d' :=
    Nat.le_antisymm (Nat.le_of_not_lt (hnot h' h)) (Nat.le_of_not_lt (hnot h h'))
  exact ⟨rfl, Option.some.inj (h.hops.symm.trans h'.hops)⟩

/-- A frame that binds the name is the nearest one. -/
theorem nearest_here (h : fs.binds e name = true) : fs.Nearest e name 0 e :=
  ⟨rfl, h, fun _ hn => absurd hn (Nat.not_lt_zero _)⟩

/-- The first hop may be taken apart from the others. -/
theorem hops?_outward (henclosing : (fs.frame e).enclosing? = some f) (n : Nat) :
    fs.hops? e (n + 1) = fs.hops? f n := by
  rw [hops?, henclosing, Option.bind_some]

/-- The nearest frame of the outer frame is that of a frame that does not bind the name. -/
theorem Nearest.outward (hbinds : fs.binds e name = false)
    (henclosing : (fs.frame e).enclosing? = some f) {d : Nat} (h : fs.Nearest f name d g) :
    fs.Nearest e name (d + 1) g where
  hops := (hops?_outward henclosing d).trans h.hops
  binds := h.binds
  least := fun n hn f' hf' => by
    cases n with
    | zero =>
      cases hf'
      exact hbinds
    | succ n =>
      rw [hops?_outward henclosing] at hf'
      exact h.least n (Nat.lt_of_succ_lt_succ hn) f' hf'

/-- In an outermost frame a name that is not bound is bound nowhere. -/
theorem unbound_outermost (hbinds : fs.binds e name = false)
    (henclosing : (fs.frame e).enclosing? = none) : fs.Unbound e name := fun d g hg => by
  cases d with
  | zero =>
    cases hg
    exact hbinds
  | succ d =>
    rw [hops?, henclosing] at hg
    cases hg

/-- A name that neither the frame nor any outer frame binds is unbound. -/
theorem Unbound.outward (hbinds : fs.binds e name = false)
    (henclosing : (fs.frame e).enclosing? = some f) (h : fs.Unbound f name) :
    fs.Unbound e name := fun d g hg => by
  cases d with
  | zero =>
    cases hg
    exact hbinds
  | succ d =>
    rw [hops?_outward henclosing] at hg
    exact h d g hg

/-- Walking outward finds the nearest frame, and nothing where no frame binds the name. The walk is
along the chain, whose frames have smaller and smaller numbers. -/
theorem holder?_cases (hfs : fs.Built) (e : FrameId) (name : String) :
    (∃ d g, fs.Nearest e name d g ∧ fs.holder? e name = some g) ∨
      (fs.Unbound e name ∧ fs.holder? e name = none) := by
  induction e using Nat.strongRecOn with
  | _ e ih =>
    cases hbinds : fs.binds e name with
    | true =>
      refine Or.inl ⟨0, e, nearest_here hbinds, ?_⟩
      rw [holder?, hbinds, if_pos rfl]
    | false =>
      have hnot : ¬ fs.binds e name = true := by
        rw [hbinds]
        exact Bool.false_ne_true
      cases henclosing : (fs.frame e).enclosing? with
      | none =>
        refine Or.inr ⟨unbound_outermost hbinds henclosing, ?_⟩
        rw [holder?, if_neg hnot, henclosing]
      | some outer =>
        have hlt := hfs.enclosing_lt henclosing
        have hwalk : fs.holder? e name = fs.holder? outer name := by
          rw [holder?, if_neg hnot, henclosing]
          exact if_pos hlt
        rw [hwalk]
        rcases ih outer hlt with ⟨d, g, hnearest, hholder⟩ | ⟨hunbound, hholder⟩
        · exact Or.inl ⟨d + 1, g, hnearest.outward hbinds henclosing, hholder⟩
        · exact Or.inr ⟨hunbound.outward hbinds henclosing, hholder⟩

/-- Walking outward finds the nearest frame. -/
theorem Nearest.holder? (hfs : fs.Built) {d : Nat} (h : fs.Nearest e name d g) :
    fs.holder? e name = some g := by
  rcases holder?_cases hfs e name with ⟨d', g', h', hholder⟩ | ⟨hunbound, -⟩
  · rw [hholder, (h.unique h').2]
  · cases h.binds.symm.trans (hunbound d g h.hops)

/-- Walking outward finds nothing where the name is unbound. -/
theorem Unbound.holder? (hfs : fs.Built) (h : fs.Unbound e name) : fs.holder? e name = none := by
  rcases holder?_cases hfs e name with ⟨d, g, hnearest, -⟩ | ⟨-, hholder⟩
  · cases hnearest.binds.symm.trans (h d g hnearest.hops)
  · exact hholder

/-- What is found by walking outward is the nearest frame. -/
theorem nearest_of_holder? (hfs : fs.Built) (h : fs.holder? e name = some g) :
    ∃ d, fs.Nearest e name d g := by
  rcases holder?_cases hfs e name with ⟨d, g', hnearest, hholder⟩ | ⟨-, hholder⟩
  · exact ⟨d, Option.some.inj (hholder.symm.trans h) ▸ hnearest⟩
  · cases h.symm.trans hholder

/-! ## Reading and writing at the nearest frame -/

section

variable {x : Token} {d : Nat}

/-- Reading by name and reading at the distance both give what the nearest frame binds. -/
theorem Nearest.get (hfs : fs.Built) (h : fs.Nearest e x.lexeme d g) :
    ∃ v, fs.local? g x.lexeme = some v ∧ fs.get e x = .ok v ∧ fs.getAt e d x.lexeme = .ok v := by
  obtain ⟨v, hv⟩ := Option.isSome_iff_exists.mp h.binds
  refine ⟨v, hv, ?_, ?_⟩
  · rw [Frames.get, h.holder? hfs, Option.bind_some, hv]
  · have hancestor : fs.ancestor e d = .ok g := by rw [ancestor, h.hops]
    simp only [getAt, hancestor, bind, Except.bind, hv]

/-- Assigning by name and assigning at the distance both write to the nearest frame. -/
theorem Nearest.assign (hfs : fs.Built) (h : fs.Nearest e x.lexeme d g) (v : Value) :
    fs.assign e x v = .ok (fs.put g x.lexeme v) ∧
      fs.assignAt e d x v = .ok (fs.put g x.lexeme v) := by
  constructor
  · rw [Frames.assign, target, h.holder? hfs]
    rfl
  · have htarget : fs.targetAt e d x = .ok g := by
      show (fs.ancestor e d >>= _) = _
      rw [ancestor, h.hops]
      exact if_pos h.binds
    rw [assignAt, htarget]
    rfl

/-- Reading a name that is unbound fails as undefined. -/
theorem Unbound.get (hfs : fs.Built) (h : fs.Unbound e x.lexeme) :
    fs.get e x = .error (.located .undefinedVariable x) := by
  rw [Frames.get, h.holder? hfs, Option.bind_none]

/-- Assigning to a name that is unbound fails as undefined. -/
theorem Unbound.target (hfs : fs.Built) (h : fs.Unbound e x.lexeme) :
    fs.target e x = .error (.located .undefinedVariable x) := by
  rw [Frames.target, h.holder? hfs]

end

/-! ## What a write changes -/

theorem hops?_put (fs : Frames) (g : FrameId) (name : String) (v : Value) (f : FrameId) (n : Nat) :
    (fs.put g name v).hops? f n = fs.hops? f n := by
  induction n generalizing f with
  | zero => rfl
  | succ n ih =>
    rw [hops?, hops?, enclosing?_put]
    exact congrArg _ (funext ih)

/-- Writing a bound name leaves the nearest frames. -/
theorem Nearest.put {n : Nat} {y : String} (hg : fs.binds g name = true) (v : Value)
    (h : fs.Nearest e y n f) : (fs.put g name v).Nearest e y n f where
  hops := (hops?_put fs g name v e n).trans h.hops
  binds := (Machine.binds_put_of_ne fs v (Or.inr hg) y).trans h.binds
  least := fun m hm f' hf' => by
    rw [hops?_put] at hf'
    rw [Machine.binds_put_of_ne fs v (Or.inr hg)]
    exact h.least m hm f' hf'

/-- Writing a bound name binds no other. -/
theorem Unbound.put {y : String} (hg : fs.binds g name = true) (v : Value)
    (h : fs.Unbound e y) : (fs.put g name v).Unbound e y := fun n f hf => by
  rw [hops?_put] at hf
  rw [Machine.binds_put_of_ne fs v (Or.inr hg)]
  exact h n f hf

/-- A frame that binds a name is there. -/
theorem lt_size_of_binds (h : fs.binds g name = true) : g < fs.frames.size := by
  by_contra hge
  rw [binds, local?_of_size_le (Nat.le_of_not_lt hge)] at h
  cases h

/-- After a write, a walk reads the new value if it looks for the name and ends at the frame that
was written, and else what it read before. -/
theorem get_put (hfs : fs.Built) (hg : fs.binds g name = true) (v : Value) (f : FrameId)
    (y : Token) :
    (fs.put g name v).get f y =
      if y.lexeme = name ∧ fs.holder? f y.lexeme = some g then .ok v else fs.get f y := by
  have hfs' := hfs.put g name v
  rcases holder?_cases hfs f y.lexeme with ⟨n, g', hnearest, hholder⟩ | ⟨hunbound, hholder⟩
  · obtain ⟨w, hw, hget, -⟩ := hnearest.get hfs
    obtain ⟨w', hw', hget', -⟩ := (hnearest.put hg v).get hfs'
    rw [local?_put, hw] at hw'
    rw [hget', hget]
    split at hw'
    · next heq => rw [if_pos ⟨heq.2.2, heq.1 ▸ hholder⟩, Option.some.inj hw']
    · next hne =>
      have hother : ¬ (y.lexeme = name ∧ fs.holder? f y.lexeme = some g) := fun h =>
        hne ⟨Option.some.inj (hholder.symm.trans h.2), lt_size_of_binds hg, h.1⟩
      rw [if_neg hother, Option.some.inj hw']
  · have hother : ¬ (y.lexeme = name ∧ fs.holder? f y.lexeme = some g) := fun h => by
      cases hholder.symm.trans h.2
    rw [if_neg hother, (hunbound.put hg v).get hfs', hunbound.get hfs]

/-- Walking outward is looking at the distance of the nearest frame: with it, a name is read and
written alike both ways. Where no frame binds the name, it is undefined both for reading and for
assigning, which then leaves the machine as it is. An assignment changes what is read for a name
only if it is the name that was assigned to, and only from the frames whose nearest frame is the one
that was written; from these the new value is read. -/
theorem names_live_in_nearest_frames (hfs : fs.Built) (e : FrameId) (x : Token) :
    (∀ d g, fs.Nearest e x.lexeme d g →
      (∃ v, fs.get e x = .ok v ∧ fs.getAt e d x.lexeme = .ok v) ∧
      ∀ v, ∃ fs', fs.assign e x v = .ok fs' ∧ fs.assignAt e d x v = .ok fs') ∧
    (fs.Unbound e x.lexeme →
      fs.get e x = .error (.located .undefinedVariable x) ∧
      ∀ v, fs.assign e x v = .error (.located .undefinedVariable x) ∧
        ∀ m : Machine, m.frames = fs → Run.write (·.target e x) x v m =
          .error (.failed (.located .undefinedVariable x)) m) ∧
    ∀ v fs', fs.assign e x v = .ok fs' → fs'.Built ∧ ∀ f y,
      (y.lexeme = x.lexeme ∧ fs.Meets x.lexeme e f → fs'.get f y = .ok v) ∧
      (¬ (y.lexeme = x.lexeme ∧ fs.Meets x.lexeme e f) → fs'.get f y = fs.get f y) := by
  refine ⟨fun d g hnearest => ⟨?_, fun v => ?_⟩,
    fun hunbound => ⟨hunbound.get hfs, fun v => ⟨?_, ?_⟩⟩,
    fun v fs' hassign => ⟨hfs.assign hassign, fun f y => ?_⟩⟩
  · obtain ⟨v, -, hget, hgetAt⟩ := hnearest.get hfs
    exact ⟨v, hget, hgetAt⟩
  · exact ⟨_, hnearest.assign hfs v⟩
  · rw [assign, hunbound.target hfs]
    rfl
  · rintro m rfl
    show (Run.ofExcept (m.frames.target e x) >>= _) m = _
    rw [hunbound.target hfs]
    rfl
  · rcases holder?_cases hfs e x.lexeme with ⟨d, g, hnearest, -⟩ | ⟨hunbound, -⟩
    · rw [(hnearest.assign hfs v).1] at hassign
      cases hassign
      rw [get_put hfs hnearest.binds]
      constructor
      · rintro ⟨hy, g', d', n, hnearest', hf⟩
        obtain ⟨-, rfl⟩ := hnearest.unique hnearest'
        rw [hy, if_pos ⟨rfl, hf.holder? hfs⟩]
      · refine fun hother => if_neg ?_
        rintro ⟨hy, hholder⟩
        rw [hy] at hholder
        obtain ⟨n, hf⟩ := nearest_of_holder? hfs hholder
        exact hother ⟨hy, g, d, n, hnearest, hf⟩
    · rw [assign, hunbound.target hfs] at hassign
      cases hassign

/-- A frame that binds a name. -/
def oneFrame : Frames := (create ⟨#[]⟩ none).2.put 0 "a" (.number 1)

/-- Two frames that it encloses, where only the second hides the name. -/
def twoChildren : Frames :=
  ((oneFrame.create (some 0)).2.create (some 0)).2.put 2 "a" (.number 2)

theorem built_twoChildren : twoChildren.Built := by
  have hroot : (create ⟨#[]⟩ none).2.Built := Built.none.create fun outer houter => by cases houter
  have hone : oneFrame.Built :=
    hroot.define (show define _ 0 (.named "a" 1) (.number 1) = .ok oneFrame from rfl)
  have htwo : (oneFrame.create (some 0)).2.Built := hone.create fun outer houter => by
    cases houter
    decide
  have hthree : ((oneFrame.create (some 0)).2.create (some 0)).2.Built :=
    htwo.create fun outer houter => by
      cases houter
      decide
  exact hthree.define (show define _ 2 (.named "a" 1) (.number 2) = .ok twoChildren from rfl)

theorem names_live_in_nearest_frames_of_two :
    twoChildren.Built ∧ twoChildren.Nearest 1 "a" 1 0 ∧ twoChildren.Nearest 2 "a" 0 2 ∧
    (∃ v, twoChildren.get 1 (.named "a" 1) = .ok v ∧ twoChildren.getAt 1 1 "a" = .ok v) ∧
    ∀ v fs', twoChildren.assign 1 (.named "a" 1) v = .ok fs' →
      fs'.get 0 (.named "a" 1) = .ok v ∧
      fs'.get 2 (.named "a" 1) = twoChildren.get 2 (.named "a" 1) := by
  have hone : twoChildren.Nearest 1 "a" 1 0 :=
    (nearest_here (by decide)).outward (by decide) rfl
  have htwo : twoChildren.Nearest 2 "a" 0 2 := nearest_here (by decide)
  obtain ⟨hread, -, hwrite⟩ :=
    names_live_in_nearest_frames built_twoChildren 1 (.named "a" 1)
  refine ⟨built_twoChildren, hone, htwo, (hread 1 0 hone).1, fun v fs' hassign => ?_⟩
  have hreads := (hwrite v fs' hassign).2
  refine ⟨(hreads 0 _).1 ⟨rfl, 0, 1, 0, hone, nearest_here (by decide)⟩, (hreads 2 _).2 ?_⟩
  rintro ⟨-, g, d, n, hg, hg'⟩
  have hzero := (hg.unique hone).2
  rw [(hg'.unique htwo).2] at hzero
  exact absurd hzero (by decide)

end ScriptEngine.Frames
