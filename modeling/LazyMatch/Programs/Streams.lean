import LazyMatch.Session.Step

/-!
# Infinite streams

A program that declares lazy streams and looks at finite parts of infinite ones: constructors are
only forced as far as somebody looks.
-/

namespace LazyMatch.Programs.Streams

/-- A parameter that takes its argument by position or by name. -/
def param (name : String) : Param Datum := ⟨name, .plain, none⟩

/-- An integer constant. -/
def int (i : Int) : Expr := .constant (.int i)

/-- Call a global function. -/
def apply (name : String) (args : List Expr) : Expr := .call (.var name) args

/-- The end of a stream. -/
def nil : Expr := .attribute "Stream" "Nil"

/-- A head in front of a stream. -/
def cons (head tail : Expr) : Expr := .call (.attribute "Stream" "Cons") [head, tail]

/-- A rule whose action takes the names it is written with. -/
def rule (cells : List PatternExpr) (names : List String) (body : Expr) : RuleExpr :=
  ⟨some (.list cells), [.lambda (names.map param) body]⟩

/-- An identifier in a pattern. -/
def ident (name : String) : PatternExpr := .datum (.text name)

/-- The pattern of a head and a tail. -/
def consPattern (head tail : String) : PatternExpr :=
  .tuple [ident "Cons", ident head, ident tail]

/-- Streams are lazy throughout. -/
def datatype : Step :=
  .datatype "Stream" [.datum (.text "Nil"), .tuple (["Cons", "head", "tail"].map (.datum ∘ .text))]
    (.text "all") none

/-- `naturals_from n` is `n`, `n + 1` and so on. -/
def naturalsFrom : Step :=
  .function "naturals_from"
    [rule [ident "n"] ["n"]
      (cons (.var "n") (apply "naturals_from" [.binary .add (.var "n") (int 1)]))]
    true none none

/-- `take n s` is the list of the first `n` elements of `s`. -/
def take : Step :=
  .function "take"
    [rule [.datum (.int 0), ident "_"] [] (.list []),
      rule [ident "n", ident "Nil"] ["n"] (.list []),
      rule [ident "n", consPattern "h" "t"] ["n", "h", "t"]
        (.binary .add (.list [.var "h"])
          (apply "take" [.binary .sub (.var "n") (int 1), .var "t"]))]
    false none none

/-- `drop n s` is `s` without its first `n` elements. -/
def drop : Step :=
  .function "drop"
    [rule [.datum (.int 0), .escape (ident "s")] ["s"] (.var "s"),
      rule [ident "n", ident "Nil"] ["n"] nil,
      rule [ident "n", consPattern "_" "t"] ["n", "t"]
        (apply "drop" [.binary .sub (.var "n") (int 1), .var "t"])]
    false none none

/-- `scale k s` has every element of `s` times `k`. -/
def scale : Step :=
  .function "scale"
    [⟨some (.list [ident "k", ident "Nil"]), [.escape (.lambda [] nil)]⟩,
      rule [ident "k", consPattern "h" "t"] ["k", "h", "t"]
        (cons (.binary .mul (.var "k") (.var "h")) (apply "scale" [.var "k", .var "t"]))]
    true none none

/-- The program. -/
def program : List Step :=
  [datatype, naturalsFrom, take, drop, scale,
    .print [apply "take" [int 5, apply "naturals_from" [int 0]]],
    .print [apply "take" [int 3, apply "drop" [int 10, apply "naturals_from" [int 0]]]],
    .print [apply "take" [int 4, apply "scale" [int 3, apply "naturals_from" [int 1]]]]]

end LazyMatch.Programs.Streams
