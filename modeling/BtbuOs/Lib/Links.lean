import Mathlib.Algebra.BigOperators.Fin
import Mathlib.Data.List.Nodup
import Mathlib.Logic.Function.Basic
import Mathlib.Tactic.Common

/-- The pointers of a circular doubly linked list; `none` is the list head. -/
structure Links (Node : Type) where
  next : Option Node → Option Node
  prev : Option Node → Option Node

namespace Links

variable {Node : Type}

/-- The pointers lead from one place through the nodes to another place. -/
def Path (link : Option Node → Option Node) : Option Node → List Node → Option Node → Prop
  | first, [], last => link first = last
  | first, node :: rest, last => link first = some node ∧ Path link (some node) rest last

/-- The walk from a place stops at the head or at the first node that passes the test; `none` means that the fuel ran out. -/
def walk (link : Option Node → Option Node) (test : Node → Bool) : Nat → Option Node → Option (Option Node)
  | _, none => some none
  | 0, some _ => none
  | fuel + 1, some node => if test node then some (some node) else walk link test fuel (link (some node))

/-- The two chains of pointers visit the same nodes in opposite orders. -/
structure Cycle (l : Links Node) (order : List Node) : Prop where
  forward : Path l.next none order none
  backward : Path l.prev none order.reverse none
  nodup : order.Nodup

section Path

variable {link other : Option Node → Option Node} {first last : Option Node} {node : Node} {left right : List Node}

theorem path_append : Path link first (left ++ node :: right) last ↔
    Path link first left (some node) ∧ Path link (some node) right last := by
  induction left generalizing first with
  | nil => rfl
  | cons head rest ih => simp only [List.cons_append, Path, ih, and_assoc]

/-- Only the pointers of the places on the way matter. -/
theorem Path.congr {start : Option Node} (path : Path link first left last) (begun : link first = other start)
    (same : ∀ node ∈ left, link (some node) = other (some node)) : Path other start left last := by
  induction left generalizing first start with
  | nil => exact begun.symm.trans path
  | cons head rest ih =>
      obtain ⟨here, onward⟩ := path
      have member : head ∈ head :: rest := List.mem_cons_self
      exact ⟨begun.symm.trans here, ih onward (same head member) fun node later => same node (List.mem_cons_of_mem _ later)⟩

/-- A walk along a path to the head finds what a search of the list of nodes finds. -/
theorem Path.walk (path : Path link first left none) (test : Node → Bool) {fuel : Nat} (enough : left.length ≤ fuel) :
    walk link test fuel (link first) = some (left.find? test) := by
  induction left generalizing first fuel with
  | nil =>
      have done : link first = none := path
      rw [done]
      cases fuel <;> rfl
  | cons head rest ih =>
      obtain ⟨here, onward⟩ := path
      cases fuel with
      | zero => simp at enough
      | succ fuel =>
          have later := ih onward (Nat.le_of_succ_le_succ enough)
          rw [here, Links.walk, List.find?_cons, later]
          cases test head <;> rfl

variable [DecidableEq Node]

/-- The last place of a path is led to another place. -/
theorem Path.redirect {goal : Option Node} (path : Path link none left last) (nodup : left.Nodup) :
    Path (Function.update link left.getLast? goal) none left goal := by
  rcases List.eq_nil_or_concat left with rfl | ⟨rest, final, rfl⟩
  · exact Function.update_self ..
  · rw [List.concat_eq_append] at path nodup ⊢
    rw [List.getLast?_concat, path_append]
    refine ⟨(path_append.mp path).1.congr ?_ ?_, Function.update_self ..⟩
    · exact (Function.update_of_ne (by simp) _ _).symm
    · intro node member
      have distinct : some node ≠ some final := by
        intro same
        exact (List.nodup_append.mp nodup).2.2 node member final List.mem_cons_self (Option.some.inj same)
      exact (Function.update_of_ne distinct _ _).symm

/-- The place before a node is led past it. -/
theorem Path.bypass (path : Path link none (left ++ node :: right) none) (nodup : (left ++ node :: right).Nodup) :
    Path (Function.update link left.getLast? (link (some node))) none (left ++ right) none := by
  obtain ⟨before, behind⟩ := path_append.mp path
  obtain ⟨lefts, rights, apart⟩ := List.nodup_append.mp nodup
  have far : ∀ other ∈ right, some other ≠ left.getLast? := by
    intro other member same
    have inside := List.mem_of_getLast? same.symm
    exact apart other inside other (List.mem_cons_of_mem _ member) rfl
  have led : Path (Function.update link left.getLast? (link (some node))) none left (link (some node)) := before.redirect lefts
  cases right with
  | nil =>
      have done : link (some node) = none := behind
      rw [done] at led
      rwa [List.append_nil, done]
  | cons head rest =>
      obtain ⟨here, onward⟩ := behind
      rw [here] at led ⊢
      have start : some head ≠ left.getLast? := far head List.mem_cons_self
      apply path_append.mpr ⟨led, onward.congr (Function.update_of_ne start _ _).symm _⟩
      intro other member
      exact (Function.update_of_ne (far other (List.mem_cons_of_mem _ member)) _ _).symm

end Path

variable {node : Node} {left right order : List Node}

/-- The head alone is a circular list. -/
def alone : Links Node := ⟨fun _ => none, fun _ => none⟩

theorem cycle_alone : (alone : Links Node).Cycle [] := ⟨rfl, rfl, List.nodup_nil⟩

/-- The first pointer of a path leads to its first node. -/
theorem Path.first {link : Option Node → Option Node} {first : Option Node} (path : Path link first right none) :
    link first = right.head? := by
  cases right with
  | nil => exact path
  | cons head rest => exact path.1

variable {l : Links Node}

theorem Cycle.next_node (cycle : l.Cycle (left ++ node :: right)) : l.next (some node) = right.head? :=
  (path_append.mp cycle.forward).2.first

theorem Cycle.prev_node (cycle : l.Cycle (left ++ node :: right)) : l.prev (some node) = left.getLast? := by
  have path := cycle.backward
  rw [List.reverse_append, List.reverse_cons, List.append_assoc, List.singleton_append, path_append] at path
  rw [path.2.first, List.head?_reverse]

/-- Both walks around the list end and find what a search of the nodes in their order finds. -/
theorem Cycle.walk_next (cycle : l.Cycle order) (test : Node → Bool) {fuel : Nat} (enough : order.length ≤ fuel) :
    walk l.next test fuel (l.next none) = some (order.find? test) :=
  cycle.forward.walk test enough

theorem Cycle.walk_prev (cycle : l.Cycle order) (test : Node → Bool) {fuel : Nat} (enough : order.length ≤ fuel) :
    walk l.prev test fuel (l.prev none) = some (order.reverse.find? test) :=
  cycle.backward.walk test (by rwa [List.length_reverse])

variable [DecidableEq Node]

/-- The neighbours of a node are joined. -/
def unlink (l : Links Node) (node : Node) : Links Node :=
  let l := { l with prev := Function.update l.prev (l.next (some node)) (l.prev (some node)) }
  { l with next := Function.update l.next (l.prev (some node)) (l.next (some node)) }

/-- A node is linked right after the head. -/
def insert (l : Links Node) (node : Node) : Links Node :=
  let l := { l with next := Function.update l.next (some node) (l.next none) }
  let l := { l with prev := Function.update l.prev (some node) none }
  let l := { l with prev := Function.update l.prev (l.next none) (some node) }
  { l with next := Function.update l.next none (some node) }

/-- An unlinked node leaves the circular list and the others keep their order. -/
theorem Cycle.unlink (cycle : l.Cycle (left ++ node :: right)) : (l.unlink node).Cycle (left ++ right) := by
  have next := cycle.next_node
  have apart : some node ≠ right.head? := by
    intro same
    have inside := List.mem_of_head? same.symm
    have nodup := (List.nodup_append.mp cycle.nodup).2.1
    exact (List.nodup_cons.mp nodup).1 inside
  have kept : Function.update l.prev (l.next (some node)) (l.prev (some node)) (some node) = left.getLast? := by
    rw [next, Function.update_of_ne apart, cycle.prev_node]
  constructor
  · show Path (Function.update l.next (Function.update l.prev _ _ (some node)) _) none (left ++ right) none
    rw [kept]
    exact cycle.forward.bypass cycle.nodup
  · show Path (Function.update l.prev _ (l.prev (some node))) none (left ++ right).reverse none
    have path := cycle.backward
    have nodup := List.nodup_reverse.mpr cycle.nodup
    rw [List.reverse_append, List.reverse_cons, List.append_assoc, List.singleton_append] at path nodup
    rw [next, List.reverse_append, ← List.getLast?_reverse]
    exact path.bypass nodup
  · exact (List.nodup_cons.mp (List.nodup_middle.mp cycle.nodup)).2

/-- An inserted node becomes the first of the circular list. -/
theorem Cycle.insert (cycle : l.Cycle order) (fresh : node ∉ order) : (l.insert node).Cycle (node :: order) := by
  have first : l.next none = order.head? := cycle.forward.first
  have apart : some node ≠ order.head? := fun same => fresh (List.mem_of_head? same.symm)
  have distinct : ∀ other ∈ order, some other ≠ some node := by
    intro other member same
    exact fresh (Option.some.inj same ▸ member)
  have led : Function.update l.next (some node) (l.next none) none = order.head? := by
    rw [Function.update_of_ne (by simp), first]
  constructor
  · show Path (Function.update (Function.update l.next (some node) (l.next none)) none (some node)) none (node :: order) none
    refine ⟨Function.update_self .., cycle.forward.congr ?_ ?_⟩
    · rw [Function.update_of_ne (by simp), Function.update_self]
    · intro other member
      rw [Function.update_of_ne (by simp), Function.update_of_ne (distinct other member)]
  · show Path (Function.update (Function.update l.prev (some node) none)
      (Function.update l.next (some node) (l.next none) none) (some node)) none (node :: order).reverse none
    rw [led, List.reverse_cons, path_append]
    constructor
    · have kept : Path (Function.update l.prev (some node) none) none order.reverse none := by
        apply cycle.backward.congr
        · exact (Function.update_of_ne (by simp) _ _).symm
        · intro other member
          exact (Function.update_of_ne (distinct other (List.mem_reverse.mp member)) _ _).symm
      rw [← List.getLast?_reverse]
      exact kept.redirect (List.nodup_reverse.mpr cycle.nodup)
    · show Function.update (Function.update l.prev (some node) none) order.head? (some node) (some node) = none
      rw [Function.update_of_ne apart, Function.update_self]
  · exact List.nodup_cons.mpr ⟨fresh, cycle.nodup⟩

end Links
