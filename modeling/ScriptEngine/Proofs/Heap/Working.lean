import ScriptEngine.Builtin
import ScriptEngine.Proofs.Heap.Equality

/-!
# Work on the heap

A built-in function forges no reference. It starts with some values at hand, and takes scalars, what
the cells of values at hand hold, and the cells that it makes. Into cells it puts nothing else.
`Heap.Works` follows such work step by step, so that whatever every step keeps, the work as a whole
keeps by induction. Copying a built-in instance is work of this kind (`Heap.worksOn_cloneUpTo`).
-/

namespace ScriptEngine

/-- `null`, and the instances of built-in classes that have no cell. -/
def Value.IsScalar : Value → Prop
  | .null => True
  | .datum (.number _) => True
  | .datum (.string _) => True
  | .datum (.boolean _) => True
  | .datum .logger => True
  | _ => False

namespace Heap

/-! ## Steps -/

/-- A computation with some values at hand can take this one as well. -/
inductive Ready (h : Heap) (hand : List Value) : Value → Prop where
  | scalar {v : Value} (hv : v.IsScalar) : Ready h hand v
  | given {v : Value} (hv : v ∈ hand) : Ready h hand v
  | held {u v : Value} (hu : u ∈ hand) (huv : h.Holds u v) : Ready h hand v

/-- From a heap and the given values, work has come to another heap and has values at hand. It may
have changed the cells of certain values and of those that it has made. -/
inductive Works (changes : Value → Prop) (given : List Value) (h : Heap) :
    Heap → List Value → Prop where
  | start : Works changes given h h given
  | take {h' : Heap} {hand : List Value} (work : Works changes given h h' hand) {v : Value}
      (hv : h'.Ready hand v) : Works changes given h h' (v :: hand)
  | newArray {h' : Heap} {hand : List Value} (work : Works changes given h h' hand)
      {cell : ArrayCell} (hitems : ∀ v ∈ cell.items, h'.Ready hand v) :
      Works changes given h (h'.newArray cell).2 (.datum (.array h'.arrays.size) :: hand)
  | newMap {h' : Heap} {hand : List Value} (work : Works changes given h h' hand)
      {cell : MapCell} (hentries : ∀ e ∈ cell.entries, h'.Ready hand e.1 ∧ h'.Ready hand e.2) :
      Works changes given h (h'.newMap cell).2 (.datum (.map h'.maps.size) :: hand)
  | newError {h' : Heap} {hand : List Value} (work : Works changes given h h' hand)
      {cell : ErrorCell} (hmessage : h'.Ready hand cell.message) :
      Works changes given h (h'.newError cell).2 (.datum (.error h'.errors.size) :: hand)
  | modifyArray {h' : Heap} {hand : List Value} (work : Works changes given h h' hand)
      {id : ArrayId} {f : ArrayCell → ArrayCell} (hid : changes (.datum (.array id)))
      (hitems : ∀ v ∈ (f (h'.array id)).items, h'.Ready hand v) :
      Works changes given h (h'.modifyArray id f) hand
  | modifyMap {h' : Heap} {hand : List Value} (work : Works changes given h h' hand)
      {id : MapId} {f : MapCell → MapCell} (hid : changes (.datum (.map id)))
      (hentries : ∀ e ∈ (f (h'.map id)).entries, h'.Ready hand e.1 ∧ h'.Ready hand e.2) :
      Works changes given h (h'.modifyMap id f) hand

section

variable {changes : Value → Prop} {given hand hand' vs : List Value} {h h' h'' : Heap} {v : Value}

/-- What is at hand stays so when more is. -/
theorem Ready.mono (hv : h.Ready given v) (hsub : given ⊆ hand) : h.Ready hand v := by
  cases hv with
  | scalar hv => exact .scalar hv
  | given hv => exact .given (hsub hv)
  | held hu huv => exact .held (hsub hu) huv

/-- What was given stays at hand. -/
theorem Works.given_subset (work : h.Works changes given h' hand) : given ⊆ hand := by
  induction work with
  | start => exact List.Subset.refl given
  | take _ _ ih | newArray _ _ ih | newMap _ _ ih | newError _ _ ih =>
    exact fun v hv => List.mem_cons_of_mem _ (ih hv)
  | modifyArray _ _ _ ih | modifyMap _ _ _ ih => exact ih

/-- Work may be done in two parts, the second with what the first has left at hand. -/
theorem Works.trans (work : h.Works changes given h' hand)
    (work' : h'.Works changes hand h'' hand') : h.Works changes given h'' hand' := by
  induction work' with
  | start => exact work
  | take _ hv ih => exact .take ih hv
  | newArray _ hitems ih => exact .newArray ih hitems
  | newMap _ hentries ih => exact .newMap ih hentries
  | newError _ hmessage ih => exact .newError ih hmessage
  | modifyArray _ hid hitems ih => exact .modifyArray ih hid hitems
  | modifyMap _ hid hentries ih => exact .modifyMap ih hid hentries

/-- Taking several values, one after the other. -/
theorem works_take (hvs : ∀ v ∈ vs, h.Ready given v) : h.Works changes given h (vs ++ given) := by
  induction vs with
  | nil => exact .start
  | cons v vs ih =>
    obtain ⟨hv, hvs⟩ := List.forall_mem_cons.mp hvs
    exact .take (ih hvs) (hv.mono (List.subset_append_right vs given))

end

/-! ## Entries -/

/-- Setting a key keeps whatever holds of all keys and values. -/
theorem forall_putEntry {P : Value → Prop} {same : Value → Value → Bool} {key value : Value}
    (hkey : P key) (hvalue : P value) {entries : List (Value × Value)}
    (h : ∀ e ∈ entries, P e.1 ∧ P e.2) :
    ∀ e ∈ MapCell.putEntry same key value entries, P e.1 ∧ P e.2 := by
  induction entries with
  | nil =>
    intro e he
    rw [List.mem_singleton.mp he]
    exact ⟨hkey, hvalue⟩
  | cons entry rest ih =>
    have hentry := h entry List.mem_cons_self
    have hrest := fun e he => h e (List.mem_cons_of_mem entry he)
    intro e he
    unfold MapCell.putEntry at he
    split at he
    · rcases List.mem_cons.mp he with rfl | he
      · exact ⟨hentry.1, hvalue⟩
      · exact hrest e he
    · rcases List.mem_cons.mp he with rfl | he
      · exact hentry
      · exact ih hrest e he

/-- Inserting entries into a map adds no keys and values but theirs. -/
theorem forall_insertAll {P : Value → Prop} {same : Value → Value → Bool}
    {entries : List (Value × Value)} (h : ∀ e ∈ entries, P e.1 ∧ P e.2) (cell : MapCell)
    (hcell : ∀ e ∈ cell.entries, P e.1 ∧ P e.2) :
    ∀ e ∈ (entries.foldl (fun cell e => cell.insert same e.1 e.2) cell).entries, P e.1 ∧ P e.2 := by
  induction entries generalizing cell with
  | nil => exact hcell
  | cons entry rest ih =>
    have hentry := h entry List.mem_cons_self
    refine ih (fun e he => h e (List.mem_cons_of_mem entry he)) _ ?_
    exact forall_putEntry hentry.1 hentry.2 hcell

/-! ## Copies -/

/-- With the given values at hand, the computation works on the heap and ends with a result that has
a property with regard to the values at hand then. -/
def WorksOn {α : Type} (changes : Value → Prop) (given : List Value) (h : Heap) (x : StateM Heap α)
    (Q : α → List Value → Prop) : Prop :=
  ∃ hand, h.Works changes given (x h).2 hand ∧ Q (x h).1 hand

section Copying

variable {α β : Type} {changes : Value → Prop} {given vs : List Value} {h : Heap}
  {Q : α → List Value → Prop} {R : β → List Value → Prop}

theorem worksOn_pure {a : α} (ha : Q a given) : WorksOn changes given h (pure a) Q :=
  ⟨given, .start, ha⟩

/-- One computation after the other, with what the first has left at hand. -/
theorem worksOn_bind {x : StateM Heap α} {f : α → StateM Heap β} (hx : WorksOn changes given h x Q)
    (hf : ∀ a h' hand, given ⊆ hand → Q a hand → WorksOn changes hand h' (f a) R) :
    WorksOn changes given h (x >>= f) R := by
  obtain ⟨hand, work, ha⟩ := hx
  obtain ⟨hand', work', hb⟩ := hf _ _ hand work.given_subset ha
  exact ⟨hand', work.trans work', hb⟩

theorem worksOn_get {f : Heap → StateM Heap β} (hf : WorksOn changes given h (f h) R) :
    WorksOn changes given h (get >>= f) R :=
  hf

/-- Values that are ready may be taken before. -/
theorem worksOn_take {x : StateM Heap α} (vs : List Value) (hvs : ∀ v ∈ vs, h.Ready given v)
    (hx : WorksOn changes (vs ++ given) h x Q) : WorksOn changes given h x Q := by
  obtain ⟨hand, work, ha⟩ := hx
  exact ⟨hand, (works_take hvs).trans work, ha⟩

/-- Going through a list: what was a result stays one with more values at hand. -/
theorem worksOn_mapM {f : α → StateM Heap β} {P : α → List Value → Prop}
    (hP : ∀ a hand hand', hand ⊆ hand' → P a hand → P a hand')
    (hR : ∀ b hand hand', hand ⊆ hand' → R b hand → R b hand')
    (hf : ∀ a h hand, P a hand → WorksOn changes hand h (f a) R) (l : List α)
    (hl : ∀ a ∈ l, P a given) :
    WorksOn changes given h (l.mapM f) fun l' hand => ∀ b ∈ l', R b hand := by
  induction l generalizing h given with
  | nil => exact worksOn_pure nofun
  | cons a l ih =>
    obtain ⟨ha, hl⟩ := List.forall_mem_cons.mp hl
    rw [List.mapM_cons]
    refine worksOn_bind (hf a h given ha) fun b h₁ hand₁ hsub₁ hb => ?_
    refine worksOn_bind (ih fun a ha => hP a given hand₁ hsub₁ (hl a ha))
      fun l' h₂ hand₂ hsub₂ hl' => ?_
    exact worksOn_pure (List.forall_mem_cons.mpr ⟨hR b hand₁ hand₂ hsub₂ hb, hl'⟩)

/-- A copy is made of new cells, which hold copies of what the copied cells hold, or that itself. -/
theorem worksOn_cloneUpTo (depth : Nat) : ∀ (d : Datum) (h : Heap) (given : List Value),
    .datum d ∈ given →
      WorksOn changes given h (cloneUpTo depth d) fun d' hand => .datum d' ∈ hand := by
  induction depth with
  | zero => exact fun d h given hd => worksOn_pure hd
  | succ depth ih =>
    intro d h given hd
    unfold cloneUpTo
    extract_lets copy
    -- A member is copied one level down if it is a built-in instance, and shared otherwise.
    have hcopy : ∀ v h given, v ∈ given →
        WorksOn changes given h (copy v) fun v' hand => v' ∈ hand := by
      intro v h given hv
      cases v with
      | datum d => exact worksOn_bind (ih d h given hv) fun _ _ _ _ hd' => worksOn_pure hd'
      | _ => exact worksOn_pure hv
    have hmono : ∀ (v : Value) (hand hand' : List Value), hand ⊆ hand' → v ∈ hand → v ∈ hand' :=
      fun v hand hand' hsub hv => hsub hv
    cases d with
    | array id =>
      refine worksOn_get
        (worksOn_take (h.array id).items.toList (fun v hv => .held hd (.item hv)) ?_)
      refine worksOn_bind (worksOn_mapM hmono hmono hcopy _ fun v hv =>
        List.mem_append_left given hv) fun items h' hand _ hitems => ?_
      have hready : ∀ v ∈ items.toArray, h'.Ready hand v :=
        fun v hv => .given (hitems v (List.mem_toArray.mp hv))
      exact ⟨_, .newArray .start hready, List.mem_cons_self⟩
    | map id =>
      have hkeys : ∀ v ∈ (h.map id).entries.map (·.1), h.Ready given v := fun v hv => by
        obtain ⟨e, he, rfl⟩ := List.mem_map.mp hv
        exact .held hd (.key he)
      have hvalues : ∀ v ∈ (h.map id).entries.map (·.2), h.Ready given v := fun v hv => by
        obtain ⟨e, he, rfl⟩ := List.mem_map.mp hv
        exact .held hd (.entry he)
      have hpair : ∀ (e : Value × Value) (hand hand' : List Value), hand ⊆ hand' →
          e.1 ∈ hand ∧ e.2 ∈ hand → e.1 ∈ hand' ∧ e.2 ∈ hand' :=
        fun e hand hand' hsub he => ⟨hsub he.1, hsub he.2⟩
      refine worksOn_get (worksOn_take _ (List.forall_mem_append.mpr ⟨hkeys, hvalues⟩) ?_)
      -- Keys are copied as well, and the copied entries are put into an empty map one by one.
      refine worksOn_bind (worksOn_mapM hpair hpair (fun e h hand he => ?_) _ fun e he => ?_)
        fun entries h' hand _ hentries => ?_
      · refine worksOn_bind (hcopy e.1 h hand he.1) fun key h₁ hand₁ hsub₁ hkey => ?_
        refine worksOn_bind (hcopy e.2 h₁ hand₁ (hsub₁ he.2)) fun value h₂ hand₂ hsub₂ hvalue => ?_
        exact worksOn_pure ⟨hsub₂ hkey, hvalue⟩
      · refine ⟨List.mem_append_left given (List.mem_append_left _ ?_),
          List.mem_append_left given (List.mem_append_right _ ?_)⟩
        · exact List.mem_map_of_mem he
        · exact List.mem_map_of_mem he
      · have hready : ∀ e ∈ entries, h'.Ready hand e.1 ∧ h'.Ready hand e.2 :=
          fun e he => ⟨.given (hentries e he).1, .given (hentries e he).2⟩
        exact ⟨_, .newMap .start (forall_insertAll hready ⟨[]⟩ (by simp)), List.mem_cons_self⟩
    | error id =>
      have hmessage : ∀ v ∈ [(h.error id).message], h.Ready given v :=
        fun v hv => List.mem_singleton.mp hv ▸ .held hd (.message id)
      refine worksOn_get (worksOn_take _ hmessage ?_)
      refine worksOn_bind (hcopy _ h _ List.mem_cons_self) fun message h' hand _ hmessage => ?_
      exact ⟨_, .newError .start (.given hmessage), List.mem_cons_self⟩
    | _ => exact worksOn_pure hd

end Copying

end Heap

end ScriptEngine
