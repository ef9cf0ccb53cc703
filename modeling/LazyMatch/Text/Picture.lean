import LazyMatch.Text.Blank

/-!
# Caret pictures

A picture shows a line of text behind a margin and, below it, carets under one stretch of the line
with a caption. Tabs of the line are kept in the blanks before the carets, so that both lines align
whatever a tab is worth.
-/

namespace LazyMatch.Picture

/-- Characters as blanks: tabs stay, anything else becomes a space. -/
def blanks (cs : List Char) : List Char := cs.map fun c => if c = '\t' then '\t' else ' '

/-- The number of carets: the stretch as far as it lies within the line, but at least one. -/
def carets (length start width : Nat) : Nat := max 1 (min width (length - start))

/-- A line behind a margin, without white space at its end, and below it carets under `width`
characters from `start` on, with a caption. -/
def render (margin line : String) (start width : Nat) (caption : String) : String :=
  let cs := line.toList
  margin ++ String.ofList (Text.trimEnd cs) ++ "\n" ++
    String.ofList (blanks (margin.toList ++ cs.take start)) ++
    String.ofList (List.replicate (carets cs.length start width) '^') ++ " " ++ caption

end LazyMatch.Picture
