/-!
# Ranges of code points

Classes of characters are given by the ranges that their code points form.
-/

namespace LazyMatch.Text

/-- Whether a code point lies in one of several closed ranges in ascending order. -/
def liesIn (code : Nat) : List (Nat × Nat) → Bool
  | [] => false
  | (first, last) :: rest => first ≤ code && (code ≤ last || liesIn code rest)

end LazyMatch.Text
