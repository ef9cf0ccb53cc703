import LazyMatch.Programs.Streams

/-!
# Search trees

A program that declares binary search trees, evaluated strictly, fills one and lists it in order.
-/

namespace LazyMatch.Programs.Trees

open Streams (int apply rule ident)

/-- The tree without nodes. -/
def empty : Expr := .attribute "Tree" "Empty"

/-- A node between two trees. -/
def node (left val right : Expr) : Expr := .call (.attribute "Tree" "Node") [left, val, right]

/-- The pattern of a node. -/
def nodePattern (left val right : String) : PatternExpr :=
  .tuple [ident "Node", ident left, ident val, ident right]

/-- Trees are strict. -/
def datatype : Step :=
  .datatype "Tree"
    [.datum (.text "Empty"), .tuple (["Node", "left", "val", "right"].map (.datum ∘ .text))]
    (.text "marked") none

/-- `insert x t` is `t` with `x` in it. -/
def insert : Step :=
  .function "insert"
    [rule [ident "x", ident "Empty"] ["x"] (node empty (.var "x") empty),
      rule [ident "x", .named (nodePattern "a" "y" "b") "t"] ["x", "a", "y", "b", "t"]
        (.cond (.binary .less (.var "x") (.var "y"))
          (node (apply "insert" [.var "x", .var "a"]) (.var "y") (.var "b"))
          (.cond (.binary .less (.var "y") (.var "x"))
            (node (.var "a") (.var "y") (apply "insert" [.var "x", .var "b"]))
            (.var "t")))]
    false none none

/-- `in_order t` lists the values of `t`. -/
def inOrder : Step :=
  .function "in_order"
    [rule [ident "Empty"] [] (.list []),
      rule [nodePattern "a" "y" "b"] ["a", "y", "b"]
        (.binary .add (.binary .add (apply "in_order" [.var "a"]) (.list [.var "y"]))
          (apply "in_order" [.var "b"]))]
    false none none

/-- `is_leaf t` tells whether `t` is a single node. -/
def isLeaf : Step :=
  .function "is_leaf"
    [⟨some (.group [.list [nodePattern "Empty" "_" "Empty"]]), [.constant (.bool true)]⟩,
      ⟨some (.list [ident "_"]), [.constant (.bool false)]⟩]
    false none none

/-- Put a value into the tree that is being filled. -/
def fill (i : Int) : Step := .define "tree" (apply "insert" [int i, .var "tree"])

/-- The program. -/
def program : List Step :=
  [datatype, insert, inOrder, isLeaf, .define "tree" empty] ++
    [5, 3, 8, 1, 4, 7, 9, 3].map fill ++
    [.print [apply "in_order" [.var "tree"]],
      .print [apply "is_leaf" [apply "insert" [int 1, empty]], apply "is_leaf" [.var "tree"]]]

end LazyMatch.Programs.Trees
