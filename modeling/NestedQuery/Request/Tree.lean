/-!
# Trees

Trees with a label at every node and any number of children, in order.
-/

namespace NestedQuery

inductive Tree (α : Type) where
  | node (label : α) (children : List (Tree α))
  deriving Repr

namespace Tree

variable {α : Type}

instance [Inhabited α] : Inhabited (Tree α) := ⟨.node default []⟩

def label : Tree α → α
  | .node a _ => a

def children : Tree α → List (Tree α)
  | .node _ cs => cs

mutual

def decEq [DecidableEq α] : (s t : Tree α) → Decidable (s = t)
  | .node a cs, .node b ds =>
    if h : a = b then
      match decEqAll cs ds with
      | .isTrue hall => .isTrue (by rw [h, hall])
      | .isFalse hall => .isFalse fun heq => hall (Tree.node.inj heq).2
    else .isFalse fun heq => h (Tree.node.inj heq).1

def decEqAll [DecidableEq α] : (cs ds : List (Tree α)) → Decidable (cs = ds)
  | [], [] => .isTrue rfl
  | [], _ :: _ => .isFalse nofun
  | _ :: _, [] => .isFalse nofun
  | c :: cs, d :: ds =>
    match decEq c d, decEqAll cs ds with
    | .isTrue h, .isTrue hall => .isTrue (by rw [h, hall])
    | .isFalse h, _ => .isFalse fun heq => h (List.cons.inj heq).1
    | _, .isFalse hall => .isFalse fun heq => hall (List.cons.inj heq).2

end

instance [DecidableEq α] : DecidableEq (Tree α) := decEq

@[simp] theorem label_node (a : α) (cs : List (Tree α)) : (Tree.node a cs).label = a := rfl

@[simp] theorem children_node (a : α) (cs : List (Tree α)) : (Tree.node a cs).children = cs := rfl

/-- What holds of every node once it holds of all its children holds of every tree. -/
@[elab_as_elim]
theorem induction {P : Tree α → Prop}
    (node : ∀ a cs, (∀ c ∈ cs, P c) → P (.node a cs)) : ∀ t, P t
  | .node a cs => node a cs fun c _ => induction node c

mutual

/-- The labels, a node before its children. -/
def preorder : Tree α → List α
  | .node a cs => a :: preorderAll cs

def preorderAll : List (Tree α) → List α
  | [] => []
  | c :: cs => preorder c ++ preorderAll cs

end

mutual

/-- The number of nodes on the longest way down. -/
def height : Tree α → Nat
  | .node _ cs => heightAll cs + 1

def heightAll : List (Tree α) → Nat
  | [] => 0
  | c :: cs => max (height c) (heightAll cs)

end

end Tree

end NestedQuery
