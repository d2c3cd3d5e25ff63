import Mathlib.Data.List.Induction
import ScriptEngine.Class

/-!
# The order in which classes are searched

Looking for a method, gathering the built-in classes above a class and asking whether one of them is
there are three walks over a hierarchy that may share classes and name them more than once. All
three are the same walk: `searchOrder` lists the class and everything above it, each superclass to
its top before the next, a built-in class as a leaf, and a class as often as it is met.

A method is found at the first entry of that list that has it (`findMethod?_eq`), and the built-in
classes are gathered in its order (`builtinAncestors_eq`). What stands behind the first entry that
has a method is never asked, so its methods may be anything
(`findMethod?_revise`).
-/

namespace ScriptEngine

namespace Superclass

/-- The method that a class declares itself, or that a built-in class answers to. -/
def method? (method : String) : Superclass → Option Method
  | user c => (c.ownMethod? method).map .user
  | builtin b => if b.hasMethod method then some (.builtin b) else none

/-- The built-in class that a superclass is. -/
def builtin? : Superclass → Option BuiltinClass
  | user _ => none
  | builtin b => some b

end Superclass

namespace Class

mutual

/-- A class and everything above it, in the order in which it is searched. -/
def searchOrder : Class → List Superclass
  | mk id name superclasses methods =>
    .user (mk id name superclasses methods) :: orderAbove superclasses

/-- Superclasses and everything above them: one to its top, then the next. -/
def orderAbove : List Superclass → List Superclass
  | [] => []
  | .user c :: rest => searchOrder c ++ orderAbove rest
  | .builtin b :: rest => .builtin b :: orderAbove rest

end

/-- The class itself is searched first. -/
theorem searchOrder_head? (c : Class) : c.searchOrder.head? = some (.user c) := by
  cases c
  rfl

/-! ## Looking for a method -/

mutual

/-- A class finds what the first class of its search order declares. -/
theorem findMethod?_eq (method : String) :
    ∀ c : Class, c.findMethod? method = c.searchOrder.findSome? (·.method? method)
  | mk id name superclasses methods => by
    have hown : (Superclass.user (mk id name superclasses methods)).method? method =
        (methods.lookup method).map .user := rfl
    rw [findMethod?, searchOrder, List.findSome?_cons, hown]
    cases methods.lookup method with
    | some f => rfl
    | none => exact findInherited?_eq method superclasses

/-- Superclasses find what the first class of the order above declares. -/
theorem findInherited?_eq (method : String) :
    ∀ superclasses : List Superclass,
      findInherited? method superclasses =
        (orderAbove superclasses).findSome? (·.method? method)
  | [] => rfl
  | .user c :: rest => by
    rw [findInherited?, orderAbove, List.findSome?_append, findMethod?_eq method c,
      findInherited?_eq method rest]
    cases c.searchOrder.findSome? (·.method? method) with
    | some m => rfl
    | none => rfl
  | .builtin b :: rest => by
    rw [findInherited?, orderAbove, List.findSome?_cons, findInherited?_eq method rest]
    have hleaf : (Superclass.builtin b).method? method =
        if b.hasMethod method then some (.builtin b) else none := rfl
    rw [hleaf]
    split
    · rfl
    · rfl

end

/-! ## Gathering built-in classes -/

/-- The built-in classes in a list, in order and with repetitions. -/
def builtins (order : List Superclass) : List BuiltinClass :=
  order.filterMap Superclass.builtin?

/-- A class is added behind the others unless it is among them. -/
def addBuiltin (found : List BuiltinClass) (b : BuiltinClass) : List BuiltinClass :=
  if b ∈ found then found else found ++ [b]

mutual

/-- Gathering goes along the search order and adds one class after the other. -/
theorem addBuiltins_eq : ∀ (c : Class) (found : List BuiltinClass),
    c.addBuiltins found = (builtins c.searchOrder).foldl addBuiltin found
  | mk _ _ superclasses _, found => addInherited_eq superclasses found

/-- Built-in classes are gathered in the search order, each once. -/
theorem addInherited_eq : ∀ (superclasses : List Superclass) (found : List BuiltinClass),
    addInherited found superclasses = (builtins (orderAbove superclasses)).foldl addBuiltin found
  | [], _ => rfl
  | .user c :: rest, found => by
    rw [addInherited, orderAbove, builtins, List.filterMap_append, List.foldl_append,
      addInherited_eq rest, addBuiltins_eq c]
    rfl
  | .builtin b :: rest, found => addInherited_eq rest (addBuiltin found b)

end

/-- Adding one class after the other leaves each at its first place. By induction from the end: the
last class is added to all the others. -/
theorem foldl_addBuiltin (bs : List BuiltinClass) : bs.foldl addBuiltin [] = bs.eraseDups := by
  induction bs using List.reverseRecOn with
  | nil => rfl
  | append_singleton bs b ih =>
    rw [List.foldl_append, ih, List.eraseDups_append]
    show (if b ∈ bs.eraseDups then bs.eraseDups else bs.eraseDups ++ [b]) = _
    by_cases hb : b ∈ bs
    · rw [if_pos (List.mem_eraseDups.mpr hb)]
      simp [List.removeAll, hb]
    · rw [if_neg fun h => hb (List.mem_eraseDups.mp h)]
      simp [List.removeAll, hb, List.eraseDups_cons]

/-- The built-in ancestors are the built-in classes of the search order, without repetition. -/
theorem builtinAncestors_eq (c : Class) :
    c.builtinAncestors = (builtins c.searchOrder).eraseDups := by
  rw [builtinAncestors, addBuiltins_eq, foldl_addBuiltin]

/-- The built-in classes of an order are those that stand in it. -/
theorem mem_builtins {b : BuiltinClass} {order : List Superclass} :
    b ∈ builtins order ↔ Superclass.builtin b ∈ order := by
  rw [builtins, List.mem_filterMap]
  constructor
  · rintro ⟨s, hs, heq⟩
    cases s with
    | user c => cases heq
    | builtin b' => exact Option.some.inj heq ▸ hs
  · exact fun hb => ⟨_, hb, rfl⟩

/-! ## Changing the methods of a class in the hierarchy -/

end Class

mutual

/-- The class with other methods in the class `k`, wherever that stands in the hierarchy. -/
def Class.revise (k : Identity) (change : List (String × Function) → List (String × Function)) :
    Class → Class
  | .mk id name superclasses methods =>
    .mk id name (Class.reviseAbove k change superclasses)
      (if id = k then change methods else methods)

/-- The same for superclasses. -/
def Class.reviseAbove (k : Identity)
    (change : List (String × Function) → List (String × Function)) :
    List Superclass → List Superclass
  | [] => []
  | .user c :: rest => .user (Class.revise k change c) :: Class.reviseAbove k change rest
  | .builtin b :: rest => .builtin b :: Class.reviseAbove k change rest

end

/-- A superclass with other methods in the class `k`. -/
def Superclass.revise (k : Identity)
    (change : List (String × Function) → List (String × Function)) : Superclass → Superclass
  | user c => .user (c.revise k change)
  | builtin b => .builtin b

namespace Class

variable {k : Identity} {change : List (String × Function) → List (String × Function)}

mutual

/-- The hierarchy is searched in the same order as before. -/
theorem searchOrder_revise : ∀ c : Class,
    (c.revise k change).searchOrder = c.searchOrder.map (Superclass.revise k change)
  | mk id name superclasses methods => by
    rw [revise, searchOrder, searchOrder, List.map_cons, orderAbove_revise superclasses]
    rfl

/-- Revising the methods of a class leaves the order of the classes. -/
theorem orderAbove_revise : ∀ superclasses : List Superclass,
    orderAbove (reviseAbove k change superclasses) =
      (orderAbove superclasses).map (Superclass.revise k change)
  | [] => rfl
  | .user c :: rest => by
    rw [reviseAbove, orderAbove, orderAbove, List.map_append, searchOrder_revise c,
      orderAbove_revise rest]
  | .builtin b :: rest => by
    rw [reviseAbove, orderAbove, orderAbove, List.map_cons, orderAbove_revise rest]
    rfl

end

/-- Only the class `k` has other methods. -/
theorem method?_revise {s : Superclass} (hs : ∀ c, s = .user c → c.id ≠ k) (method : String) :
    (s.revise k change).method? method = s.method? method := by
  cases s with
  | user c =>
    cases c with
    | mk id name superclasses methods =>
      have hother : ¬ id = k := hs _ rfl
      show (List.lookup method (if id = k then change methods else methods)).map _ = _
      rw [if_neg hother]
      rfl
  | builtin b => rfl

/-- Where the revised class does not stand, the search finds what it found. -/
theorem findSome?_revise {order : List Superclass} (horder : ∀ d, .user d ∈ order → d.id ≠ k)
    (method : String) :
    (order.map (Superclass.revise k change)).findSome? (·.method? method) =
      order.findSome? (·.method? method) := by
  induction order with
  | nil => rfl
  | cons s rest ih =>
    have hs : ∀ d, s = .user d → d.id ≠ k := fun d hd => horder d (hd ▸ List.mem_cons_self)
    rw [List.map_cons, List.findSome?_cons, List.findSome?_cons, method?_revise hs,
      ih fun d hd => horder d (List.mem_cons_of_mem s hd)]

/-- As long as an entry in front of the class `k` has a method, it does not matter which methods `k`
has. -/
theorem findMethod?_revise {c : Class} {method : String} {front back : List Superclass}
    (horder : c.searchOrder = front ++ back) (hfront : ∀ d, .user d ∈ front → d.id ≠ k)
    (hhas : ∃ s ∈ front, (s.method? method).isSome) :
    (c.revise k change).findMethod? method = c.findMethod? method := by
  obtain ⟨m, hm⟩ := Option.isSome_iff_exists.mp (List.findSome?_isSome_iff.mpr hhas)
  rw [findMethod?_eq, findMethod?_eq, searchOrder_revise, horder, List.map_append,
    List.findSome?_append, List.findSome?_append, findSome?_revise hfront, hm]
  rfl

/-- Every walk over a hierarchy is along its search order: a method is that of the first entry that
has it, and of the class alone that of the first entry; the built-in classes above are those of the
order, each at its first place; and one of them is above the class exactly if it is in the order. So
whatever becomes of the methods of a class, a name that an entry in front of it has is found where
it was. -/
theorem walks_follow_searchOrder (c : Class) :
    (∀ method, c.findMethod? method = c.searchOrder.findSome? (·.method? method)) ∧
    (∀ method, (c.ownMethod? method).map .user =
      c.searchOrder.head?.bind (·.method? method)) ∧
    c.builtinAncestors = (c.searchOrder.filterMap Superclass.builtin?).eraseDups ∧
    (∀ b, c.inheritsFrom b = true ↔ Superclass.builtin b ∈ c.searchOrder) ∧
    ∀ (k : Identity) (change : List (String × Function) → List (String × Function))
      (method : String) (front back : List Superclass), c.searchOrder = front ++ back →
      (∀ d, Superclass.user d ∈ front → d.id ≠ k) →
      (∃ s ∈ front, (s.method? method).isSome) →
        (c.revise k change).findMethod? method = c.findMethod? method := by
  refine ⟨fun method => findMethod?_eq method c, fun method => ?_, builtinAncestors_eq c,
    fun b => ?_, fun k change method front back => findMethod?_revise⟩
  · rw [searchOrder_head?]
    rfl
  · rw [inheritsFrom, decide_eq_true_iff, builtinAncestors_eq, List.mem_eraseDups, mem_builtins]

end Class

end ScriptEngine
