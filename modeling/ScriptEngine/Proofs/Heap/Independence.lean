import ScriptEngine.Proofs.Heap.Plain
import ScriptEngine.Proofs.Heap.Resemblance

/-!
# Copies are independent

How a finite value is displayed depends on the cells that it reaches. Calls of built-in methods on
what another value leads to, with arguments that have none of these cells in what they lead to, stay
in the region of values that lead to none of them, so they leave the cells as they are and never
come to reach one (`CallsOn.preserves`). A value and its copy have no cell in common to begin with,
whence `clone_is_independent`.
-/

namespace ScriptEngine

namespace Heap

/-- What a value leads to. What the instances of user classes, functions and classes lead to is not
in the cells of built-in instances; any relation may say it. -/
inductive Leads (beyond : Value → Value → Prop) (h : Heap) (u w : Value) : Prop where
  | held (huw : h.Holds u w)
  | beyond (hu : ¬ u.IsPlain) (huw : beyond u w)

/-- A value leads to another one in any number of steps. -/
def LeadsTo (beyond : Value → Value → Prop) (h : Heap) : Value → Value → Prop :=
  Relation.ReflTransGen (h.Leads beyond)

/-- No cell is led to from both values. -/
def Separate (beyond : Value → Value → Prop) (h : Heap) (a b : Value) : Prop :=
  ∀ w, h.Owns w → h.LeadsTo beyond a w → ¬ h.LeadsTo beyond b w

/-- From the first heap to the second, built-in methods have been called on what `a` leads to, with
arguments that lead to no cell that `b` leads to. Each call may have answered or refused. In between
other cells have been made, none of which leads to a cell of `b` either. -/
inductive CallsOn (beyond : Value → Value → Prop) (a b : Value) (h : Heap) : Heap → Prop where
  | start : CallsOn beyond a b h h
  | call {s : Store} (hcalls : CallsOn beyond a b h s.heap) {receiver : Datum} (method : String)
      {args : List Value} (hreceiver : s.heap.LeadsTo beyond a (.datum receiver))
      (hargs : ∀ v ∈ args, s.heap.Separate beyond v b) :
      CallsOn beyond a b h ((Builtin.callMethod receiver method args).left s).heap
  | made {h' h'' : Heap} (hcalls : CallsOn beyond a b h h') (hext : h'.ExtendsTo h'')
      (hnew : ∀ w, h''.Owns w → ¬ h'.Owns w → h''.Separate beyond w b) :
      CallsOn beyond a b h h''

variable {beyond : Value → Value → Prop} {h h' h'' : Heap} {a b u v w : Value}

/-! ## Values that are apart -/

/-- A value of plain data leads to what it reaches, whatever counts as beyond. -/
theorem PlainData.leadsTo_iff (hv : h.PlainData v) : h.LeadsTo beyond v w ↔ h.Reaches v w := by
  constructor
  · intro hvw
    induction hvw with
    | refl => exact .refl
    | tail _ huw ih =>
      cases huw with
      | held huw => exact .tail ih huw
      | beyond hu => exact absurd (hv.plain _ ih) hu
  · intro hvw
    induction hvw with
    | refl => exact .refl
    | tail _ huw ih => exact .tail ih (.held huw)

/-- What has no cell leads to nothing that has one. -/
theorem leads_unowned (hv : v.IsPlain) (hnot : ¬ h.Owns v) (hvu : h.Leads beyond v u) :
    u.IsPlain ∧ ¬ h.Owns u := by
  cases hvu with
  | beyond hother => exact absurd hv hother
  | held hvu =>
    cases hvu with
    | item hmem =>
      rw [array_unowned hnot] at hmem
      cases hmem
    | key he =>
      rw [map_unowned hnot] at he
      cases he
    | entry he =>
      rw [map_unowned hnot] at he
      cases he
    | message i =>
      rw [error_unowned hnot]
      exact ⟨trivial, id⟩

/-- A plain value without a cell leads to no cell. -/
theorem leadsTo_unowned (hv : v.IsPlain) (hnot : ¬ h.Owns v) (hvw : h.LeadsTo beyond v w) :
    ¬ h.Owns w := by
  have hall : w.IsPlain ∧ ¬ h.Owns w := by
    induction hvw with
    | refl => exact ⟨hv, hnot⟩
    | tail _ huw ih => exact leads_unowned ih.1 ih.2 huw
  exact hall.2

/-- The values that are apart from one are a region. -/
theorem surrounds_separate (b : Value) : h.Surrounds (h.Separate beyond · b) where
  null := fun _ hw hnw => absurd hw (leadsTo_unowned (v := .null) trivial id hnw)
  unowned := fun d hd _ hw hdw => absurd hw (leadsTo_unowned (v := .datum d) trivial hd hdw)

/-- What one of two separate values leads to is separate from the other. -/
theorem Separate.leads (hu : h.Separate beyond u b) (huw : h.Leads beyond u w) :
    h.Separate beyond w b :=
  fun x hx hwx => hu x hx (.head huw hwx)

/-- No cell of a value is apart from it. -/
theorem PlainData.not_separate (hb : h.PlainData b) (hw : h.Reaches b w)
    (hcontainer : w.IsContainer) :
    ¬ h.Separate beyond w b :=
  fun hapart => hapart w ((hb.placed w hw).owns hcontainer) .refl (hb.leadsTo_iff.mpr hw)

/-- What has changed while all else is apart from a value preserves it. -/
theorem PlainData.preserves (hb : h.PlainData b)
    (hw : h.ChangedWithin (h.Separate beyond · b) h') : Preserves h h' b where
  arrays := hw.arrays
  maps := hw.maps
  errors := hw.errors
  cells := fun _ hu => hw.sameCell (hb.not_separate hu)

/-- The cells that a preserved value leads to are those that it reached before. -/
theorem Preserves.owned_of_leadsTo (hsame : Preserves h h' b) (hb : h.PlainData b)
    (hw : h'.Owns w) (hbw : h'.LeadsTo beyond b w) : h.Owns w ∧ h.Reaches b w := by
  have hreach := hsame.reaches_iff.mp ((hsame.plainData hb).leadsTo_iff.mp hbw)
  exact ⟨(hb.placed w hreach).owns hw.isContainer, hreach⟩

/-! ## Calls -/

/-- A call in the region of values that are apart from a value keeps them apart. -/
theorem separate_of_changedWithin (hb : h.PlainData b)
    (hw : h.ChangedWithin (h.Separate beyond · b) h') (hu : h.Separate beyond u b) :
    h'.Separate beyond u b := by
  intro x hx hux hbx
  have hinside : h.Separate beyond x b := by
    clear hbx hx
    induction hux with
    | refl => exact hu
    | tail _ hyx ih =>
      cases hyx with
      | held hyx => exact hw.held ih hyx
      | beyond hy hyx => exact ih.leads (.beyond hy hyx)
  obtain ⟨hown, hreach⟩ := (hb.preserves hw).owned_of_leadsTo hb hx hbx
  exact hinside x hown .refl (hb.leadsTo_iff.mpr hreach)

/-- Cells that are made, and that lead to no cell of a value, keep apart what is. -/
theorem separate_of_extends (hb : h.PlainData b) (hext : h.ExtendsTo h')
    (hnew : ∀ w, h'.Owns w → ¬ h.Owns w → h'.Separate beyond w b) (hu : h.Separate beyond u b) :
    h'.Separate beyond u b := by
  intro x hx hux hbx
  obtain ⟨hown, hreach⟩ := (Preserves.of_extends hext hb.placed).owned_of_leadsTo hb hx hbx
  -- Either a new cell is met on the way, or all of the way was there before.
  induction hux using Relation.ReflTransGen.head_induction_on with
  | refl => exact hu x hown .refl (hb.leadsTo_iff.mpr hreach)
  | @head y z hyz hzx ih =>
    by_cases hold : h'.Owns y → h.Owns y
    · refine ih (hu.leads ?_)
      cases hyz with
      | held hyz => exact .held ((hext.sameCell hold).held_iff.mp hyz)
      | beyond hy hyz => exact .beyond hy hyz
    · obtain ⟨hown', hnot⟩ := Classical.not_imp.mp hold
      exact hnew y hown' hnot x hx (.head hyz hzx) hbx

/-- Built-in methods called on what `a` leads to leave the cells of `b` as they are, and no cell of
`b` comes to be led to from `a`. -/
theorem CallsOn.preserves (hcalls : CallsOn beyond a b h h') (hb : h.PlainData b)
    (hapart : h.Separate beyond a b) : Preserves h h' b ∧ h'.Separate beyond a b := by
  induction hcalls with
  | start => exact ⟨.refl h b, hapart⟩
  | @call s _ receiver method args hreceiver hargs ih =>
    obtain ⟨hsame, hapart'⟩ := ih
    have hb' := hsame.plainData hb
    have hinside : s.heap.Separate beyond (.datum receiver) b :=
      fun x hx hrx => hapart' x hx (hreceiver.trans hrx)
    have hw := Builtin.worksWithin_callMethod (surrounds_separate b) hinside method hargs s
      (.refl fun u w hu huw => hu.leads (.held huw))
    exact ⟨hsame.trans (hb'.preserves hw), separate_of_changedWithin hb' hw hapart'⟩
  | made _ hext hnew ih =>
    obtain ⟨hsame, hapart'⟩ := ih
    have hb' := hsame.plainData hb
    exact ⟨hsame.trans (.of_extends hext hb'.placed), separate_of_extends hb' hext hnew hapart'⟩

/-! ## The copy and the original -/

/-- Whatever a shallow value leads to in one step or more is less deep. -/
theorem Shallow.below {depth : Nat} (hv : h.Shallow depth v)
    (hvw : Relation.TransGen h.Holds v w) : ∃ less < depth, h.Shallow less w := by
  induction hvw with
  | single hvu =>
    cases depth with
    | zero => exact hv.elim
    | succ depth => exact ⟨depth, Nat.lt_succ_self depth, hv _ hvu⟩
  | tail _ huw ih =>
    obtain ⟨less, hless, hu⟩ := ih
    cases less with
    | zero => exact hu.elim
    | succ less => exact ⟨less, Nat.lt_of_succ_lt hless, hu _ huw⟩

/-- What has a depth does not hold itself. -/
theorem Shallow.acyclic {depth : Nat} (hv : h.Shallow depth v) :
    ¬ Relation.TransGen h.Holds v v := by
  induction depth using Nat.strong_induction_on with
  | _ depth ih =>
    intro hcycle
    obtain ⟨less, hless, hv'⟩ := hv.below hcycle
    exact ih less hless hv' hcycle

theorem CopyUpTo.isPlain {base : Heap} {depth : Nat} (hcopy : CopyUpTo base h depth a b)
    (ha : a.IsPlain) : b.IsPlain := by
  cases depth with
  | zero => exact hcopy.elim
  | succ depth =>
    cases hcopy with
    | same => exact ha
    | _ => trivial

/-- The cells that a copy reaches have not been there before. -/
theorem CopyUpTo.reached_fresh {base : Heap} {depth : Nat} (hcopy : CopyUpTo base h depth a b)
    (hw : h.Reaches b w) (hcontainer : w.IsContainer) : ¬ base.Owns w ∧ h.Owns w := by
  obtain ⟨_, _, -, hcopy'⟩ := hcopy.reached hw
  exact hcopy'.fresh hcontainer

/-- A copy of plain data is plain data. -/
theorem CopyUpTo.plainData {base : Heap} {depth : Nat} (hcopy : CopyUpTo base h depth a b)
    (ha : base.PlainData a) : h.PlainData b where
  acyclic := fun u hu => by
    obtain ⟨_, _, -, hcopy'⟩ := hcopy.reached hu
    exact hcopy'.shallow.acyclic
  placed := fun _ hu => placed_of_owns fun hcontainer => (hcopy.reached_fresh hu hcontainer).2
  plain := fun u hu => by
    obtain ⟨_, t, ht, hcopy'⟩ := hcopy.reached hu
    exact hcopy'.isPlain (ha.plain t ht)

/-- That no cell is led to from both does not depend on their order. -/
theorem Separate.symm (hapart : h.Separate beyond a b) : h.Separate beyond b a :=
  fun w hw hbw haw => hapart w hw haw hbw

/-- A value and its copy have no cell in common. -/
theorem CopyUpTo.separate {base : Heap} {depth : Nat} (hcopy : CopyUpTo base h depth a b)
    (hext : base.ExtendsTo h) (ha : base.PlainData a) : h.Separate beyond a b := by
  intro w hw haw hbw
  have hold := ((Preserves.of_extends hext ha.placed).owned_of_leadsTo ha hw haw).1
  have hreach := (hcopy.plainData ha).leadsTo_iff.mp hbw
  exact (hcopy.reached_fresh hreach hw.isContainer).1 hold

/-- However built-in methods are called on what `a` leads to, with arguments that lead to no cell of
`b`, it makes no difference to how `b` is displayed. -/
def KeepsDisplay (h : Heap) (a b : Value) : Prop :=
  ∀ beyond h', CallsOn beyond a b h h' → h'.display b = h.display b

/-- Calls on a value that is separate from plain data change nothing of how the data look. -/
theorem PlainData.keepsDisplay (hb : h.PlainData b)
    (hapart : ∀ beyond, h.Separate beyond a b) : h.KeepsDisplay a b :=
  fun beyond _ hcalls => (hcalls.preserves hb (hapart beyond)).1.display hb

/-- Cloning a finite value of built-in instances adds cells and changes none. All that the copy
reaches is in new cells, so no calls on the one change the display of the other. If the maps inside
have scalar keys only, the copy is displayed as the value was and resembles it, and the two are
equal unless something in them is not a number. -/
theorem clone_is_independent (s : Store) (d : Datum) (hd : s.heap.PlainData (.datum d)) :
    ∃ copy h', Builtin.callMethod d "clone" [] s = .ok (.datum copy) { s with heap := h' } ∧
      s.heap.ExtendsTo h' ∧
      (∀ w, h'.Reaches (.datum copy) w → w.IsContainer → ¬ s.heap.Owns w ∧ h'.Owns w) ∧
      h'.display (.datum d) = s.heap.display (.datum d) ∧
      h'.KeepsDisplay (.datum d) (.datum copy) ∧ h'.KeepsDisplay (.datum copy) (.datum d) ∧
      ((∀ i, s.heap.Reaches (.datum d) (.datum (.map i)) → s.heap.ScalarKeys i) →
        h'.display (.datum copy) = s.heap.display (.datum d) ∧
        h'.Resembles (.datum d) (.datum copy) ∧
        ((∀ x, s.heap.Reaches (.datum d) (.number x) → x.isNaN = false) →
          h'.equals (.datum copy) (.datum d) = true ∧
          h'.equals (.datum d) (.datum copy) = true)) := by
  obtain ⟨hext, hcopy⟩ := makes_cloneUpTo s.heap s.heap.depthBound d s.heap (.refl s.heap)
    (hd.shallow s.heap.lt_depthBound) hd.placed
  have hsame := Preserves.of_extends hext hd.placed
  have hd' := hsame.plainData hd
  have hanswer : Builtin.callMethod d "clone" [] s = .ok (.datum (s.heap.clone d).1)
      { s with heap := (s.heap.clone d).2 } := by
    cases d <;> rfl
  refine ⟨(s.heap.clone d).1, (s.heap.clone d).2, hanswer, hext, fun w => hcopy.reached_fresh,
    hsame.display hd, ?there, ?back, fun hkeys => ?scalar⟩
  case there => exact (hcopy.plainData hd).keepsDisplay fun _ => hcopy.separate hext hd
  case back => exact hd'.keepsDisplay fun _ => (hcopy.separate hext hd).symm
  case scalar =>
    have hlike := hcopy.resembles hext hd.placed hkeys
    have hkeyed : ∀ i, (s.heap.clone d).2.Reaches (.datum d) (.datum (.map i)) →
        Keyed ((s.heap.clone d).2.map i).entries := by
      intro i hi
      have hreach := hsame.reaches_iff.mp hi
      exact ((hsame.cells _ hreach).map i rfl).symm ▸ (hkeys i hreach).keyed
    refine ⟨(hlike.display _).symm.trans (hsame.display hd), ⟨_, hlike⟩, fun hnumbers => ?_⟩
    exact (hlike.equals hd'.toGrounded (fun x hx => hnumbers x (hsame.reaches_iff.mp hx))
      hkeyed).symm

/-- An array of a limited size that holds an array along two paths, as an item and in a map, and an
error. -/
def nested : Heap :=
  { Heap.empty with
    arrays := #[⟨#[.datum (.array 1), .datum (.map 0), .datum (.error 0)], some 5⟩,
      .ofItems #[.number 1]]
    maps := #[⟨[(.string "k", .datum (.array 1))]⟩]
    errors := #[⟨.string "e", none⟩] }

/-- The array holds an array, a map and an error. -/
theorem items_nested : ∀ u ∈ (nested.array 0).items.toList,
    u = .datum (.array 1) ∨ u = .datum (.map 0) ∨ u = .datum (.error 0) := by
  simp [nested, array]

/-- The nested array is plain data: no cell of it leads back to itself. -/
theorem plainData_nested : nested.PlainData (.datum (.array 0)) := by
  have hleaf : ∀ {v : Value}, v.IsPlain → ¬ v.IsContainer → nested.PlainData v := by
    intro v hplain hcontainer
    refine .of_held (placed_of_owns fun h => absurd h hcontainer) hplain fun u hu => ?_
    rcases hu.container with ⟨i, rfl⟩ | ⟨i, rfl⟩ | ⟨i, rfl⟩ <;> exact absurd trivial hcontainer
  have hitems : nested.PlainData (.datum (.array 1)) := by
    refine .of_held (show 1 < 2 by decide) trivial fun u hu => ?_
    cases hu with
    | item hmem => exact List.mem_singleton.mp hmem ▸ hleaf trivial id
  have hmap : nested.PlainData (.datum (.map 0)) := by
    refine .of_held (show 0 < 1 by decide) trivial fun u hu => ?_
    cases hu with
    | key he => exact List.mem_singleton.mp he ▸ hleaf trivial id
    | entry he => exact List.mem_singleton.mp he ▸ hitems
  have herror : nested.PlainData (.datum (.error 0)) := by
    refine .of_held (show 0 < 1 by decide) trivial fun u hu => ?_
    cases hu with
    | message => exact hleaf trivial id
  refine .of_held (show 0 < 2 by decide) trivial fun u hu => ?_
  cases hu with
  | item hmem =>
    rcases items_nested u hmem with rfl | rfl | rfl
    · exact hitems
    · exact hmap
    · exact herror

theorem reached_nested (hv : nested.Reaches (.datum (.array 0)) v) :
    v ∈ [.datum (.array 0), .datum (.array 1), .datum (.map 0), .datum (.error 0), .string "k",
      .string "e", .number 1] := by
  induction hv with
  | refl => exact List.mem_cons_self
  | tail _ huw ih =>
    cases huw with
    | @item i _ hmem =>
      have hi : i = 0 ∨ i = 1 := by simpa using ih
      rcases hi with rfl | rfl
      · rcases items_nested _ hmem with rfl | rfl | rfl <;> simp
      · obtain rfl := List.mem_singleton.mp hmem
        simp
    | @key i _ he =>
      obtain rfl : i = 0 := by simpa using ih
      obtain rfl := List.mem_singleton.mp he
      simp
    | @entry i _ he =>
      obtain rfl : i = 0 := by simpa using ih
      obtain rfl := List.mem_singleton.mp he
      simp
    | message i =>
      obtain rfl : i = 0 := by simpa using ih
      simp [error, nested]

/-- The map in it has one key, which is a text. -/
theorem scalarKeys_nested : nested.ScalarKeys 0 where
  filled := by
    have hempty : Filled { nested with maps := #[⟨[]⟩] } 0 .empty := .new rfl
    exact ⟨_, hempty.add (.string "k") (.datum (.array 1)) rfl⟩
  scalar := fun _ he => List.mem_singleton.mp he ▸ rfl

theorem clone_is_independent_of_nested : nested.PlainData (.datum (.array 0)) ∧
    ∃ copy h', Builtin.callMethod (.array 0) "clone" [] ⟨nested, #[], 0⟩ =
        .ok (.datum copy) ⟨h', #[], 0⟩ ∧
      h'.KeepsDisplay (.datum (.array 0)) (.datum copy) ∧
      h'.KeepsDisplay (.datum copy) (.datum (.array 0)) ∧
      h'.display (.datum copy) = nested.display (.datum (.array 0)) ∧
      h'.Resembles (.datum (.array 0)) (.datum copy) ∧
      h'.equals (.datum copy) (.datum (.array 0)) = true := by
  obtain ⟨copy, h', hanswer, -, -, -, hthere, hback, hscalar⟩ :=
    clone_is_independent ⟨nested, #[], 0⟩ (.array 0) plainData_nested
  obtain ⟨hdisplay, hlike, hequal⟩ := hscalar fun i hi => by
    obtain rfl : i = 0 := Nat.lt_one_iff.mp (plainData_nested.placed _ hi)
    exact scalarKeys_nested
  have hnumbers : ∀ x, nested.Reaches (.datum (.array 0)) (.number x) → x.isNaN = false := by
    intro x hx
    obtain rfl : x = 1 := by simpa using reached_nested hx
    rfl
  exact ⟨plainData_nested, copy, h', hanswer, hthere, hback, hdisplay, hlike, (hequal hnumbers).1⟩

end Heap

end ScriptEngine
