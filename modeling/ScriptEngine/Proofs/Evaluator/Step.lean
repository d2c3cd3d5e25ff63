import Mathlib.Data.List.Nodup
import ScriptEngine.Proofs.Evaluator.Observer

/-!
# Steps that keep a machine sound

The ways in which a run changes a machine, one by one: the heap, a binding in a frame that the
program made, a new frame, a new module, the distances of a module, and what is reported. Each of
them moves the machine and leaves it sound. A new frame is the only one that adds to the world:
its maker says what it was made for.
-/

namespace ScriptEngine

open Scope

section

variable {settled : Nat} {w w' : World} {m m' : Machine}

/-- A fit heap stays fit where more code is accepted. -/
theorem Heap.Fit.mono {code code' : Value → Prop} {h : Heap} (hfit : h.Fit code)
    (hcode : ∀ v, code v → code' v) : h.Fit code' where
  arrays := fun id v hv => (hfit.arrays id v hv).mono (.refl 0 h) hcode
  maps := fun id e he =>
    ⟨(hfit.maps id e he).1.mono (.refl 0 h) hcode, (hfit.maps id e he).2.mono (.refl 0 h) hcode⟩
  errors := fun id => (hfit.errors id).mono (.refl 0 h) hcode
  fields := fun id f hf => (hfit.fields id f hf).mono (.refl 0 h) hcode
  natives := hfit.natives
  backed := fun id => (hfit.backed id).mono fun _ hb => hb.mono hcode
  classes := fun id hid => hcode _ (hfit.classes id hid)

/-- The frames that held exports still do, and no frame is around them. -/
theorem Sound.exports_moved (hs : Sound settled w m) (hm : Moves settled w m w' m') {k : ModuleId}
    (hk : k < m.modules.size) : w'.origins[(m.modules.node k).exports]? = some ⟨k, []⟩ ∧
      (m'.frames.frame (m.modules.node k).exports).enclosing? = none := by
  obtain ⟨ho, he⟩ := hs.exports k hk
  exact ⟨hm.origins _ _ ho, (hm.enclosing _ _ ho).trans he⟩

/-- A machine that has moved is sound if what is new in it is. -/
theorem Sound.step (hs : Sound settled w m) (hm : Moves settled w m w' m')
    (hlabelled : w'.origins.length = m'.frames.frames.size)
    (hvalues : ∀ f name v, m'.frames.local? f name = some v →
      m.frames.local? f name = some v ∨ ValueOk w' m' v)
    (hheap : m'.store.heap.Fit (CodeValue w' m'))
    (hissued : w'.issued ≤ m'.nextExpr)
    (htables : ∀ k id d, (m'.modules.node k).distances[id]? = some d →
      (m.modules.node k).distances[id]? = some d ∨ id < w'.issued)
    (hglobals : ∀ k < m'.modules.size, k < m.modules.size ∨
      w'.origins[(m'.modules.node k).globals]? = some ⟨k, []⟩ ∧
        (m'.frames.frame (m'.modules.node k).globals).enclosing? = some Machine.builtins)
    (hexports : ∀ k < m'.modules.size, w'.origins[(m'.modules.node k).exports]? = some ⟨k, []⟩ ∧
      (m'.frames.frame (m'.modules.node k).exports).enclosing? = none)
    (hlinked : m'.modules.Linked) (himported : m'.modules.FromFiles m.files)
    (hreceivers : ∀ (f : FrameId) home decls sites,
      w'.origins[f]? = some ⟨home, .receiver decls :: sites⟩ →
        w.origins[f]? = some ⟨home, .receiver decls :: sites⟩ ∨ ReceiverOk w' m' f decls sites)
    (hfiles : m'.files = m.files)
    (hlines : ∀ line ∈ m'.reporter.lines, line ∈ m.reporter.lines ∨ Explained w'.sources line) :
    Sound settled w' m' where
  labelled := hlabelled
  values := fun f name v hv => by
    rcases hvalues f name v hv with hold | hnew
    · exact (hs.values f name v hold).mono hm
    · exact hnew
  heap := hheap
  bounded := Nat.le_trans hs.bounded hm.heap.objects
  issued := hissued
  tables := fun k id d hd => by
    rcases htables k id d hd with hold | hnew
    · exact Nat.lt_of_lt_of_le (hs.tables k id d hold) hm.issued
    · exact hnew
  globals := fun k hk => by
    rcases hglobals k hk with hold | hnew
    · obtain ⟨ho, he⟩ := hs.globals k hold
      rw [hm.globals k hold]
      exact ⟨hm.origins _ _ ho, (hm.enclosing _ _ ho).trans he⟩
    · exact hnew
  exports := hexports
  linked := hlinked
  imported := by
    rw [hfiles]
    exact himported
  -- No run gives the frame of the built-ins an outer one, so nothing has to be asked of the caller.
  builtins := by
    obtain ⟨home, ho, he⟩ := hs.builtins
    exact ⟨home, hm.origins _ _ ho, (hm.enclosing _ _ ho).trans he⟩
  receivers := fun f home decls sites ho => by
    rcases hreceivers f home decls sites ho with hold | hnew
    · exact (hs.receivers f home decls sites hold).mono hold hm
    · exact hnew
  files := fun path text hread => by
    rw [hfiles] at hread
    rw [hm.sources]
    exact hs.files path text hread
  lines := fun line hline => by
    rcases hlines line hline with hold | hnew
    · rw [hm.sources]
      exact hs.lines line hold
    · exact hnew

/-! ## Where a machine stands, and what it has written -/

/-- Two machines with the same frames, modules and heap. -/
structure Machine.SameContents (m m' : Machine) : Prop where
  frames : m'.frames = m.frames
  modules : m'.modules = m.modules
  heap : m'.store.heap = m.store.heap
  files : m'.files = m.files

/-- A machine with the same contents has moved nowhere. -/
theorem Moves.of_same (w : World) (h : m.SameContents m') : Moves settled w m w m' where
  origins := fun _ _ ho => ho
  sources := rfl
  issued := Nat.le_refl _
  enclosing := fun _ _ _ => by rw [h.frames]
  binds := fun _ _ hb => by rwa [h.frames]
  unchanged := fun _ _ => by rw [h.frames]
  modules := Nat.le_of_eq (by rw [h.modules])
  globals := fun _ _ => by rw [h.modules]
  tables := fun _ _ _ => by rw [h.modules]
  heap := by
    rw [h.heap]
    exact .refl _ _

/-- Only the place, the output, the counter of expressions or the reports differ. -/
theorem Sound.of_same (hs : Sound settled w m) (h : m.SameContents m')
    (hnext : m.nextExpr ≤ m'.nextExpr)
    (hlines : ∀ line ∈ m'.reporter.lines, line ∈ m.reporter.lines ∨ Explained w.sources line) :
    Sound settled w m' := by
  have hm : Moves settled w m w m' := .of_same w h
  refine hs.step hm ?_ ?_ ?_ (Nat.le_trans hs.issued hnext) ?_ ?_ ?_ (h.modules ▸ hs.linked)
    (h.modules ▸ hs.imported) (fun _ _ _ _ ho => .inl ho) h.files hlines
  · rw [h.frames]
    exact hs.labelled
  · intro f name v hv
    rw [h.frames] at hv
    exact .inl hv
  · rw [h.heap]
    exact hs.heap.mono fun v hv => hv.mono hm
  · intro k id d hd
    rw [h.modules] at hd
    exact .inl hd
  · intro k hk
    rw [h.modules] at hk
    exact .inl hk
  · intro k hk
    rw [h.modules] at hk ⊢
    exact hs.exports_moved hm hk

theorem Sound.place (hs : Sound settled w m) (active? : Option ModuleId) (current : FrameId) :
    Sound settled w { m with active? := active?, current := current } :=
  hs.of_same ⟨rfl, rfl, rfl, rfl⟩ (Nat.le_refl _) fun _ hl => .inl hl

/-- A change of the place moves nothing. -/
theorem Moves.place (w : World) (m : Machine) (active? : Option ModuleId) (current : FrameId) :
    Moves settled w m w { m with active? := active?, current := current } :=
  .of_same w ⟨rfl, rfl, rfl, rfl⟩

/-! ## The heap -/

/-- The machine with another heap. -/
def Machine.withHeap (m : Machine) (h : Heap) : Machine :=
  { m with store := { m.store with heap := h } }

theorem Moves.withHeap {h : Heap} (hg : m.store.heap.Grows settled h) :
    Moves settled w m w (m.withHeap h) where
  origins := fun _ _ ho => ho
  sources := rfl
  issued := Nat.le_refl _
  enclosing := fun _ _ _ => rfl
  binds := fun _ _ hb => hb
  unchanged := fun _ _ => rfl
  modules := Nat.le_refl _
  globals := fun _ _ => rfl
  tables := fun _ _ _ => rfl
  heap := hg

/-- A fit heap that has grown is sound. -/
theorem Sound.withHeap (hs : Sound settled w m) {h : Heap} (hg : m.store.heap.Grows settled h)
    (hfit : h.Fit (CodeValue w m)) : Sound settled w (m.withHeap h) := by
  have hm : Moves settled w m w (m.withHeap h) := .withHeap hg
  refine hs.step hm hs.labelled (fun _ _ _ hv => .inl hv) ?_ hs.issued (fun _ _ _ hd => .inl hd)
    (fun _ hk => .inl hk) hs.exports hs.linked hs.imported (fun _ _ _ _ ho => .inl ho) rfl
    fun _ hl => .inl hl
  exact hfit.mono fun v hv => hv.mono hm

/-! ## Bindings -/

theorem lookup_cons_if {α : Type} (n k : String) (v : α) (bs : List (String × α)) :
    ((k, v) :: bs).lookup n = if n = k then some v else bs.lookup n := by
  rw [List.lookup_cons]
  by_cases hn : n = k
  · simp [hn]
  · rw [if_neg hn, beq_eq_false_iff_ne.mpr hn]

/-- A binding that is put is found under its name, and the others are as before. -/
theorem putBinding_lookup (name : String) (value : Value) (bs : List (String × Value))
    (n : String) :
    (putBinding name value bs).lookup n = if n = name then some value else bs.lookup n := by
  induction bs with
  | nil => exact lookup_cons_if n name value []
  | cons b bs ih =>
    obtain ⟨k, v⟩ := b
    unfold putBinding
    by_cases hk : k = name
    · subst hk
      simp only [if_true, lookup_cons_if]
      split <;> rfl
    -- The entry in front is another name: it stays, and hides nothing of `name`.
    · rw [if_neg hk, lookup_cons_if, lookup_cons_if, ih]
      by_cases hnk : n = k
      · rw [if_pos hnk, if_pos hnk, if_neg (hnk ▸ hk)]
      · rw [if_neg hnk, if_neg hnk]

namespace Frames

/-- Putting a binding changes one frame, if it is there. -/
theorem frame_put (fs : Frames) (f : FrameId) (name : String) (value : Value) (g : FrameId) :
    (fs.put f name value).frame g =
      if g = f ∧ f < fs.frames.size then
        { fs.frame g with bindings := putBinding name value (fs.frame g).bindings }
      else fs.frame g :=
  getD_modify _ _ _ _ _

/-- A frame that is written to has the value under the name, and no other frame or name is
changed. -/
theorem local?_put (fs : Frames) (f : FrameId) (name : String) (value : Value) (g : FrameId)
    (n : String) :
    (fs.put f name value).local? g n =
      if g = f ∧ f < fs.frames.size ∧ n = name then some value else fs.local? g n := by
  rw [local?, frame_put]
  by_cases hg : g = f ∧ f < fs.frames.size
  · rw [if_pos hg]
    show (putBinding name value (fs.frame g).bindings).lookup n = _
    rw [putBinding_lookup]
    by_cases hn : n = name
    · rw [if_pos hn, if_pos ⟨hg.1, hg.2, hn⟩]
    · rw [if_neg hn, if_neg fun h => hn h.2.2]
      rfl
  · rw [if_neg hg, if_neg fun h => hg ⟨h.1, h.2.1⟩]
    rfl

/-- Writing a name leaves the outer frames. -/
theorem enclosing?_put (fs : Frames) (f : FrameId) (name : String) (value : Value) (g : FrameId) :
    ((fs.put f name value).frame g).enclosing? = (fs.frame g).enclosing? := by
  rw [frame_put]
  split <;> rfl

theorem binds_put (fs : Frames) (f : FrameId) (name : String) (value : Value) {g : FrameId}
    {n : String} (h : fs.binds g n = true) : (fs.put f name value).binds g n = true := by
  rw [binds, local?_put]
  split
  · rfl
  · exact h

end Frames

/-- The machine with a binding put into a frame. -/
def Machine.withBinding (m : Machine) (f : FrameId) (name : String) (v : Value) : Machine :=
  { m with frames := m.frames.put f name v }

/-- A binding in a frame of the program is a move. -/
theorem Moves.withBinding {f : FrameId} (hf : ¬ w.Sealed f) (name : String) (v : Value) :
    Moves settled w m w (m.withBinding f name v) where
  origins := fun _ _ ho => ho
  sources := rfl
  issued := Nat.le_refl _
  enclosing := fun g _ _ => Frames.enclosing?_put _ _ _ _ g
  binds := fun g n hb => Frames.binds_put _ _ _ _ hb
  unchanged := fun g hg => by
    -- Sealed frames are the ones that no binding may be put into, so this is where `hf` is needed.
    show (m.frames.put f name v).frame g = m.frames.frame g
    rw [Frames.frame_put, if_neg]
    rintro ⟨rfl, -⟩
    exact hf hg
  modules := Nat.le_refl _
  globals := fun _ _ => rfl
  tables := fun _ _ _ => rfl
  heap := .refl _ _

/-- A sound value may be bound in a frame of the program. -/
theorem Sound.withBinding (hs : Sound settled w m) {f : FrameId} (hf : ¬ w.Sealed f) {name : String}
    {v : Value} (hv : ValueOk w (m.withBinding f name v) v) :
    Sound settled w (m.withBinding f name v) := by
  have hm : Moves settled w m w (m.withBinding f name v) := .withBinding hf name v
  refine hs.step hm ?_ ?_ (hs.heap.mono fun v hv => hv.mono hm) hs.issued
    (fun _ _ _ hd => .inl hd) (fun _ hk => .inl hk) (fun _ hk => hs.exports_moved hm hk) hs.linked
    hs.imported (fun _ _ _ _ ho => .inl ho) rfl fun _ hl => .inl hl
  · simpa [Machine.withBinding, Frames.put] using hs.labelled
  · intro g n v' hv'
    rw [Machine.withBinding, Frames.local?_put] at hv'
    split at hv'
    · simp only [Option.some.injEq] at hv'
      exact .inr (hv' ▸ hv)
    · exact .inl hv'

/-! ## New frames -/

namespace Frames

/-- The frames with one more. -/
def add (fs : Frames) (frame : Frame) : Frames := ⟨fs.frames.push frame⟩

/-- A new frame is found under its number, and the others are as before. -/
theorem frame_add (fs : Frames) (frame : Frame) (g : FrameId) :
    (fs.add frame).frame g = if g = fs.frames.size then frame else fs.frame g :=
  getD_push _ _ _ _

/-- Beyond the last frame there is only the default. -/
theorem frame_of_size_le {fs : Frames} {f : FrameId} (h : fs.frames.size ≤ f) :
    fs.frame f = default := by
  rw [frame, Array.getD_eq_getD_getElem?, Array.getElem?_eq_none h, Option.getD_none]

/-- Beyond the last frame nothing is bound. -/
theorem local?_of_size_le {fs : Frames} {f : FrameId} (h : fs.frames.size ≤ f) (name : String) :
    fs.local? f name = none := by
  rw [local?, frame_of_size_le h]
  rfl

end Frames

/-- The world in which one more frame was made. -/
def World.withOrigin (w : World) (o : Origin) : World :=
  { w with origins := w.origins ++ [o] }

/-- The machine with one more frame. -/
def Machine.withFrame (m : Machine) (frame : Frame) : Machine :=
  { m with frames := m.frames.add frame }

theorem World.withOrigin_get (w : World) (o : Origin) :
    (w.withOrigin o).origins[w.origins.length]? = some o := by
  simp [World.withOrigin]

/-- What a frame of the larger world was made for: it is the new one, or an old one. -/
theorem World.of_withOrigin {w : World} {o o' : Origin} {f : FrameId}
    (h : (w.withOrigin o).origins[f]? = some o') :
    w.origins[f]? = some o' ∨ f = w.origins.length ∧ o' = o := by
  unfold World.withOrigin at h
  rw [List.getElem?_append] at h
  split at h
  · exact .inl h
  · next hge =>
    rw [List.getElem?_singleton] at h
    split at h
    · next heq =>
      simp only [Option.some.injEq] at h
      exact .inr ⟨Nat.le_antisymm (Nat.sub_eq_zero_iff_le.mp heq) (Nat.le_of_not_lt hge), h.symm⟩
    · simp at h

/-- What has an origin is in the world. -/
theorem lt_of_origin {w : World} {f : FrameId} {o : Origin} (h : w.origins[f]? = some o) :
    f < w.origins.length :=
  (List.getElem?_eq_some_iff.mp h).1

theorem Moves.withFrame (hs : Sound settled w m) (o : Origin) (frame : Frame) :
    Moves settled w m (w.withOrigin o) (m.withFrame frame) := by
  have hold : ∀ g, g < m.frames.frames.size → (m.frames.add frame).frame g = m.frames.frame g := by
    intro g hg
    rw [Frames.frame_add, if_neg (Nat.ne_of_lt hg)]
  have hlt : ∀ {g o}, w.origins[g]? = some o → g < m.frames.frames.size := fun h =>
    hs.labelled ▸ lt_of_origin h
  refine ⟨fun f o' ho => ?_, rfl, Nat.le_refl _, fun f o' ho => ?_,
    fun f name hb => ?_, fun f hf => ?_, Nat.le_refl _, fun _ _ => rfl, fun _ _ _ => rfl,
    .refl _ _⟩
  · rw [World.withOrigin, List.getElem?_append_left (lt_of_origin ho)]
    exact ho
  · exact congrArg Frame.enclosing? (hold f (hlt ho))
  -- A frame that binds anything is an old one, since frames that are not there bind nothing.
  · have hf : f < m.frames.frames.size := by
      refine Nat.lt_of_not_le fun hle => ?_
      rw [Frames.binds, Frames.local?_of_size_le hle] at hb
      exact absurd hb (by simp)
    show ((m.frames.add frame).local? f name).isSome = true
    rw [Frames.local?, hold f hf]
    exact hb
  · obtain ⟨home, site, sites, ho, -⟩ := hf
    exact hold f (hlt ho)

/-- A frame with sound bindings, made for a place that it fits, may be added. -/
theorem Sound.withFrame (hs : Sound settled w m) {o : Origin} {frame : Frame}
    (hvalues : ∀ name v, frame.bindings.lookup name = some v → ValueOk w m v)
    (hreceiver : ∀ decls sites, o.sites = .receiver decls :: sites →
      ReceiverOk (w.withOrigin o) (m.withFrame frame) m.frames.frames.size decls sites) :
    Sound settled (w.withOrigin o) (m.withFrame frame) := by
  have hm := Moves.withFrame hs o frame
  refine hs.step hm ?_ ?_ (hs.heap.mono fun v hv => hv.mono hm) hs.issued
    (fun _ _ _ hd => .inl hd) (fun _ hk => .inl hk) (fun _ hk => hs.exports_moved hm hk) hs.linked
    hs.imported ?_ rfl fun _ hl => .inl hl
  · simp [World.withOrigin, Machine.withFrame, Frames.add, hs.labelled]
  · intro g n v hv
    rw [Machine.withFrame, Frames.local?, Frames.frame_add] at hv
    split at hv
    · exact .inr ((hvalues n v hv).mono hm)
    · exact .inl hv
  · intro f home decls sites ho
    rcases World.of_withOrigin ho with hold | ⟨rfl, rfl⟩
    · exact .inl hold
    · rw [hs.labelled]
      exact .inr (hreceiver decls sites rfl)

/-- What is found after several bindings was there or is one of them. -/
theorem foldl_putBinding_lookup (bs : List (String × Value)) (acc : List (String × Value))
    {n : String} {v : Value}
    (h : (bs.foldl (fun bs b => putBinding b.1 b.2 bs) acc).lookup n = some v) :
    acc.lookup n = some v ∨ (n, v) ∈ bs := by
  induction bs generalizing acc with
  | nil => exact .inl h
  | cons b bs ih =>
    rcases ih _ h with hacc | hmem
    · rw [putBinding_lookup] at hacc
      split at hacc
      · next heq =>
        simp only [Option.some.injEq] at hacc
        subst heq hacc
        exact .inr List.mem_cons_self
      · exact .inl hacc
    · exact .inr (List.mem_cons_of_mem _ hmem)

/-- After several bindings every name of them is bound. -/
theorem foldl_putBinding_isSome (bs : List (String × Value)) (acc : List (String × Value))
    {n : String} (h : (acc.lookup n).isSome ∨ n ∈ bs.map (·.1)) :
    ((bs.foldl (fun bs b => putBinding b.1 b.2 bs) acc).lookup n).isSome = true := by
  induction bs generalizing acc with
  | nil =>
    rcases h with h | h
    · exact h
    · simp at h
  | cons b bs ih =>
    refine ih _ ?_
    rw [putBinding_lookup]
    by_cases hn : n = b.1
    · exact .inl (by simp [hn])
    · rw [if_neg hn]
      rcases h with h | h
      · exact .inl h
      · exact .inr (by simpa [hn] using h)

/-! ## Modules -/

/-- The machine with a module changed. -/
def Machine.withModule (m : Machine) (id : ModuleId) (f : ModuleNode → ModuleNode) : Machine :=
  { m with modules := m.modules.modify id f }

/-- The bookkeeping of the module tree does not touch frames and distances. -/
theorem Moves.withModule (w : World) (m : Machine) (id : ModuleId) {f : ModuleNode → ModuleNode}
    (hg : ∀ node, (f node).globals = node.globals)
    (hd : ∀ node, (f node).distances = node.distances) :
    Moves settled w m w (m.withModule id f) := by
  refine ⟨fun _ _ h => h, rfl, Nat.le_refl _, fun _ _ _ => rfl, fun _ _ h => h,
    fun _ _ => rfl, Nat.le_of_eq (ModuleTree.size_modify _ _ _).symm, fun k _ => ?_,
    fun k id _ => ?_, .refl _ _⟩
  · rw [Machine.withModule, ModuleTree.node_modify]
    split
    · exact hg _
    · rfl
  · rw [Machine.withModule, ModuleTree.node_modify]
    split
    · rw [hd]
    · rfl

/-- A change of a module that keeps its frames and distances is sound. -/
theorem Sound.withModule (hs : Sound settled w m) (id : ModuleId) {f : ModuleNode → ModuleNode}
    (hg : ∀ node, (f node).globals = node.globals) (he : ∀ node, (f node).exports = node.exports)
    (hd : ∀ node, (f node).distances = node.distances) (hlinked : (m.modules.modify id f).Linked)
    (himported : (m.modules.modify id f).FromFiles m.files) :
    Sound settled w (m.withModule id f) := by
  have hm : Moves settled w m w (m.withModule id f) := .withModule w m id hg hd
  have hsize : (m.withModule id f).modules.size = m.modules.size := ModuleTree.size_modify _ _ _
  refine hs.step hm hs.labelled (fun _ _ _ hv => .inl hv) (hs.heap.mono fun v hv => hv.mono hm)
    hs.issued (fun k id' d hd' => ?_) (fun k hk => .inl (hsize ▸ hk)) (fun k hk => ?_) hlinked
    himported (fun _ _ _ _ ho => .inl ho) rfl fun _ hl => .inl hl
  · rw [Machine.withModule, ModuleTree.node_modify] at hd'
    split at hd'
    · rw [hd] at hd'
      exact .inl hd'
    · exact .inl hd'
  · have hexp : ((m.withModule id f).modules.node k).exports = (m.modules.node k).exports := by
      rw [Machine.withModule, ModuleTree.node_modify]
      split
      · exact he _
      · rfl
    rw [hexp]
    exact hs.exports k (hsize ▸ hk)

theorem Sound.withState (hs : Sound settled w m) (id : ModuleId) (state : LoadState) :
    Sound settled w (m.withModule id fun node => { node with state := state }) :=
  hs.withModule id (fun _ => rfl) (fun _ => rfl) (fun _ => rfl)
    (hs.linked.modify fun _ => ⟨rfl, rfl, rfl⟩) (hs.imported.modify fun _ => ⟨rfl, rfl⟩)

/-- The machine with other modules. -/
def Machine.withModules (m : Machine) (t : ModuleTree) : Machine :=
  { m with modules := t }

/-- One module is new, with the given frames and without distances; the others have theirs. -/
structure ModuleTree.AddsOne (t t' : ModuleTree) (globals exports : FrameId) : Prop where
  size : t'.size = t.size + 1
  globals : ∀ k, (t'.node k).globals = if k = t.size then globals else (t.node k).globals
  exports : ∀ k, (t'.node k).exports = if k = t.size then exports else (t.node k).exports
  distances : ∀ k, (t'.node k).distances = (t.node k).distances

theorem ModuleTree.addsOne_create (t : ModuleTree) (parent? : Option ModuleId) (path : Path)
    (globals exports : FrameId) :
    t.AddsOne (t.create parent? path globals exports).2 globals exports := by
  refine ⟨size_create _ _ _ _ _, fun k => ?_, fun k => ?_, fun k => ?_⟩
  · rw [node_create]
    split <;> rfl
  · rw [node_create]
    split <;> rfl
  · rw [node_create]
    split
    -- The number was free. A module that is not there has no distances, and neither has a new one.
    · next heq =>
      rw [node_of_size_le (Nat.le_of_eq heq.symm)]
      rfl
    · rfl

theorem ModuleTree.addsOne_sprout (t : ModuleTree) (importer : ModuleId) (path : Path)
    (globals exports : FrameId) :
    t.AddsOne (t.sprout importer path globals exports) globals exports := by
  have hadds := t.addsOne_create (some importer) path globals exports
  have hnode := node_sprout t importer path globals exports
  refine ⟨size_sprout importer, fun k => ?_, fun k => ?_, fun k => ?_⟩
  · obtain ⟨children, heq, -, -⟩ := hnode k
    rw [heq]
    exact hadds.globals k
  · obtain ⟨children, heq, -, -⟩ := hnode k
    rw [heq]
    exact hadds.exports k
  · obtain ⟨children, heq, -, -⟩ := hnode k
    rw [heq]
    exact hadds.distances k

theorem Moves.withModules (w : World) (m : Machine) {t : ModuleTree} {globals exports : FrameId}
    (hadds : m.modules.AddsOne t globals exports) : Moves settled w m w (m.withModules t) := by
  refine ⟨fun _ _ h => h, rfl, Nat.le_refl _, fun _ _ _ => rfl, fun _ _ h => h,
    fun _ _ => rfl, ?_, fun k hk => ?_, fun k id _ => ?_, .refl _ _⟩
  · show m.modules.size ≤ t.size
    rw [hadds.size]
    exact Nat.le_succ _
  · rw [Machine.withModules, hadds.globals, if_neg (Nat.ne_of_lt hk)]
  · rw [Machine.withModules, hadds.distances]

/-- A new module with frames of its own is sound. -/
theorem Sound.withModules (hs : Sound settled w m) {t : ModuleTree} {globals exports : FrameId}
    (hadds : m.modules.AddsOne t globals exports)
    (hg : w.origins[globals]? = some ⟨m.modules.size, []⟩)
    (henc : (m.frames.frame globals).enclosing? = some Machine.builtins)
    (he : w.origins[exports]? = some ⟨m.modules.size, []⟩)
    (hnone : (m.frames.frame exports).enclosing? = none) (hlinked : t.Linked)
    (himported : t.FromFiles m.files) : Sound settled w (m.withModules t) := by
  have hm : Moves settled w m w (m.withModules t) := .withModules w m hadds
  have hcases : ∀ k < t.size, k < m.modules.size ∨ k = m.modules.size := by
    intro k hk
    rw [hadds.size] at hk
    exact Nat.lt_succ_iff_lt_or_eq.mp hk
  refine hs.step hm hs.labelled (fun _ _ _ hv => .inl hv) (hs.heap.mono fun v hv => hv.mono hm)
    hs.issued (fun k id d hd => ?_) (fun k hk => ?_) (fun k hk => ?_) hlinked himported
    (fun _ _ _ _ ho => .inl ho) rfl fun _ hl => .inl hl
  · rw [Machine.withModules, hadds.distances] at hd
    exact .inl hd
  · rcases hcases k hk with hlt | rfl
    · exact .inl hlt
    · rw [Machine.withModules, hadds.globals, if_pos rfl]
      exact .inr ⟨hg, henc⟩
  · rw [Machine.withModules, hadds.exports]
    rcases hcases k hk with hlt | rfl
    · rw [if_neg (Nat.ne_of_lt hlt)]
      exact hs.exports k hlt
    · rw [if_pos rfl]
      exact ⟨he, hnone⟩

/-- The machine with two more frames, for the globals and the exports of a module. -/
def Machine.withModuleFrames (m : Machine) : Machine :=
  (m.withFrame ⟨[], some Machine.builtins⟩).withFrame ⟨[], none⟩

/-- The world and the machine after a module was made, whose number is that of its frames: `grow`
makes the module from its frames. -/
theorem newModule_spec (hs : Sound settled w m) {grow : FrameId → FrameId → ModuleTree}
    (hadds : ∀ globals exports, m.modules.AddsOne (grow globals exports) globals exports)
    (hlinked : ∀ globals exports, (grow globals exports).Linked)
    (himported : ∀ globals exports, (grow globals exports).FromFiles m.files) :
    ∃ w', w'.issued = w.issued ∧
      Moves settled w m w' (m.withModuleFrames.withModules
        (grow m.frames.frames.size (m.frames.frames.size + 1))) ∧
      Sound settled w' (m.withModuleFrames.withModules
        (grow m.frames.frames.size (m.frames.frames.size + 1))) := by
  let o : Origin := ⟨m.modules.size, []⟩
  -- First the frame of the globals, then that of the exports, and only then the module itself: its
  -- frames must be known to the world before it is.
  have hs₁ : Sound settled (w.withOrigin o) (m.withFrame ⟨[], some Machine.builtins⟩) :=
    hs.withFrame (fun name v hv => by simp at hv) fun decls sites h => by simp [o] at h
  have hm₁ := Moves.withFrame hs o ⟨[], some Machine.builtins⟩
  have hs₂ : Sound settled ((w.withOrigin o).withOrigin o) m.withModuleFrames :=
    hs₁.withFrame (fun name v hv => by simp at hv) fun decls sites h => by simp [o] at h
  have hm₂ := Moves.withFrame hs₁ o ⟨[], none⟩
  have hglobals : (w.withOrigin o).origins[m.frames.frames.size]? = some o :=
    hs.labelled ▸ w.withOrigin_get o
  have hsize : (m.withFrame ⟨[], some Machine.builtins⟩).frames.frames.size =
      m.frames.frames.size + 1 := by
    simp [Machine.withFrame, Frames.add]
  have hexports : ((w.withOrigin o).withOrigin o).origins[m.frames.frames.size + 1]? = some o := by
    rw [← hsize]
    exact hs₁.labelled ▸ (w.withOrigin o).withOrigin_get o
  have henc : ((m.withFrame ⟨[], some Machine.builtins⟩).frames.frame
      m.frames.frames.size).enclosing? = some Machine.builtins := by
    rw [Machine.withFrame, Frames.frame_add, if_pos rfl]
  have hnone : (m.withModuleFrames.frames.frame (m.frames.frames.size + 1)).enclosing? = none := by
    rw [← hsize, Machine.withModuleFrames, Machine.withFrame, Frames.frame_add, if_pos rfl]
  refine ⟨(w.withOrigin o).withOrigin o, rfl,
    (hm₁.trans hm₂).trans (.withModules _ _ (hadds _ _)), ?_⟩
  exact hs₂.withModules (hadds _ _) (hm₂.origins _ _ hglobals)
    ((hm₂.enclosing _ _ hglobals).trans henc) hexports hnone (hlinked _ _) (himported _ _)

/-! ## Recording distances -/

/-- The machine in which distances are recorded for a module. -/
def Machine.withDistances (m : Machine) (id : ModuleId) (distances : List (ExprId × Nat)) :
    Machine :=
  m.withModule id fun node => { node with distances := node.distances.insertMany distances }

/-- Recorded distances are found in their module, and the others have what they had. -/
theorem distances_withDistances (m : Machine) (id : ModuleId) (distances : List (ExprId × Nat))
    (k : ModuleId) :
    ((m.withDistances id distances).modules.node k).distances =
      if k = id ∧ id < m.modules.size then (m.modules.node k).distances.insertMany distances
      else (m.modules.node k).distances := by
  rw [Machine.withDistances, Machine.withModule, ModuleTree.node_modify]
  split <;> rfl

/-- Numbers that are recorded lie in the range of the program. -/
theorem mem_entries_lt {uses : List Use} {issued next : ExprId}
    (hrange : ∀ u ∈ uses, issued ≤ u.id ∧ u.id < next) {id : ExprId}
    (h : id ∈ (uses.filterMap Use.record?).map Prod.fst) : issued ≤ id ∧ id < next := by
  obtain ⟨e, he, rfl⟩ := List.mem_map.mp h
  obtain ⟨u, hu, hue⟩ := List.mem_filterMap.mp he
  obtain ⟨d, -, rfl⟩ := Option.map_eq_some_iff.mp hue
  exact hrange u hu

/-- Older numbers are not recorded again. -/
theorem not_contains_entries {uses : List Use} {issued next : ExprId}
    (hrange : ∀ u ∈ uses, issued ≤ u.id ∧ u.id < next) {id : ExprId} (hid : id < issued) :
    ((uses.filterMap Use.record?).map Prod.fst).contains id = false := by
  rw [← Bool.not_eq_true, List.contains_iff_mem]
  intro h
  exact Nat.not_lt_of_le (mem_entries_lt hrange h).1 hid

/-- Uses with different numbers record their distances under different numbers. -/
theorem entries_distinct {uses : List Use} (h : (uses.map (·.id)).Nodup) :
    (uses.filterMap Use.record?).Pairwise fun a b => ¬ compare a.1 b.1 = .eq := by
  rw [List.pairwise_filterMap]
  refine (List.pairwise_map.mp h).imp ?_
  intro u u' hne e he e' he'
  obtain ⟨d, -, rfl⟩ := Option.map_eq_some_iff.mp he
  obtain ⟨d', -, rfl⟩ := Option.map_eq_some_iff.mp he'
  exact fun heq => hne (Nat.compare_eq_eq.mp heq)

/-- Every use of a list of uses finds its own distance in a table that had none of them. -/
theorem entries_recorded {uses : List Use} (h : (uses.map (·.id)).Nodup)
    {table : Std.TreeMap ExprId Nat} {u : Use} (hu : u ∈ uses) (hnew : table[u.id]? = none) :
    (table.insertMany (uses.filterMap Use.record?))[u.id]? = distance? u.stack.layers u.name := by
  cases hd : distance? u.stack.layers u.name with
  | some d =>
    refine Std.TreeMap.getElem?_insertMany_list_of_mem Std.ReflCmp.compare_self
      (entries_distinct h) ?_
    exact List.mem_filterMap.mpr ⟨u, hu, by rw [Use.record?, hd, Option.map_some]⟩
  | none =>
    rw [Std.TreeMap.getElem?_insertMany_list_of_contains_eq_false, hnew]
    rw [← Bool.not_eq_true, List.contains_iff_mem, List.mem_map]
    rintro ⟨e, he, heq⟩
    obtain ⟨u', hu', hentry⟩ := List.mem_filterMap.mp he
    obtain ⟨d, hd', rfl⟩ := Option.map_eq_some_iff.mp hentry
    -- The entry under the number of `u` can only come from `u`, which records nothing.
    have hsame : u' = u := List.inj_on_of_nodup_map h hu' hu heq
    rw [hsame, hd] at hd'
    cases hd'

/-- The distances of a program whose uses have new numbers are recorded: every use finds its own,
and no older use notices. -/
theorem record_spec (hs : Sound settled w m) {id : ModuleId} (hid : id < m.modules.size)
    {uses : List Use} (hnodup : (uses.map (·.id)).Nodup)
    (hrange : ∀ u ∈ uses, w.issued ≤ u.id ∧ u.id < m.nextExpr) :
    Moves settled w m { w with issued := m.nextExpr }
        (m.withDistances id (uses.filterMap Use.record?)) ∧
      Sound settled { w with issued := m.nextExpr }
        (m.withDistances id (uses.filterMap Use.record?)) ∧
      ∀ u ∈ uses,
        ((m.withDistances id (uses.filterMap Use.record?)).modules.node id).distances[u.id]? =
          distance? u.stack.layers u.name := by
  -- The table holds only numbers below `w.issued`, and the new ones start there.
  have hnone : ∀ u ∈ uses, (m.modules.node id).distances[u.id]? = none := by
    intro u hu
    cases hd : (m.modules.node id).distances[u.id]? with
    | none => rfl
    | some d => exact absurd (hs.tables id u.id d hd) (Nat.not_lt_of_le (hrange u hu).1)
  have hm : Moves settled w m { w with issued := m.nextExpr }
      (m.withDistances id (uses.filterMap Use.record?)) := by
    -- `Moves.withModule` does not apply as it stands: the distances do change, but only at numbers
    -- that had not been issued.
    refine { Moves.withModule w m id (f := fun node => node) (fun _ => rfl) (fun _ => rfl) with
      issued := hs.issued, modules := ?_, globals := ?_, tables := ?_ }
    · exact Nat.le_of_eq (ModuleTree.size_modify _ _ _).symm
    · intro k _
      rw [Machine.withDistances, Machine.withModule, ModuleTree.node_modify]
      split <;> rfl
    · intro k i hi
      rw [distances_withDistances]
      split
      · exact Std.TreeMap.getElem?_insertMany_list_of_contains_eq_false
          (not_contains_entries hrange hi)
      · rfl
  refine ⟨hm, ?_, ?_⟩
  · refine hs.step hm hs.labelled (fun _ _ _ hv => .inl hv) (hs.heap.mono fun v hv => hv.mono hm)
      (Nat.le_refl _) (fun k i d hd => ?_) (fun k hk => .inl ?_) (fun k hk => ?_)
      (hs.linked.modify fun _ => ⟨rfl, rfl, rfl⟩) (hs.imported.modify fun _ => ⟨rfl, rfl⟩)
      (fun _ _ _ _ ho => .inl ho) rfl fun _ hl => .inl hl
    · rw [distances_withDistances] at hd
      split at hd
      -- An entry of the table is one of the new ones or was there before.
      · cases hc : ((uses.filterMap Use.record?).map Prod.fst).contains i with
        | true =>
          exact .inr (mem_entries_lt hrange (List.contains_iff_mem.mp hc)).2
        | false =>
          rw [Std.TreeMap.getElem?_insertMany_list_of_contains_eq_false hc] at hd
          exact .inl hd
      · exact .inl hd
    · rwa [Machine.withDistances, Machine.withModule, ModuleTree.size_modify] at hk
    · rw [Machine.withDistances, Machine.withModule, ModuleTree.size_modify] at hk
      rw [Machine.withDistances, Machine.withModule, ModuleTree.node_modify]
      split
      · exact hs.exports k hk
      · exact hs.exports k hk
  · intro u hu
    rw [distances_withDistances, if_pos ⟨rfl, hid⟩]
    exact entries_recorded hnodup hu (hnone u hu)

end

end ScriptEngine
