import LazyMatch.Text.Split

/-!
# Reports

Declarations tell what they did, more or less of it: each note has a level, and a report prints the
notes up to its verbosity. Complaints are printed at the end, under a line of stars and an outburst,
whose words are chosen at random and never shown.

* `Report.printed` and `Report.complaints` are the two parts of a report;
* `Report.calm` keeps the words of outbursts out of a report.
-/

namespace LazyMatch

/-- Something to tell, from a level of verbosity on. -/
structure Note where
  level : Int
  text : String
deriving DecidableEq, Repr

namespace Report

/-- The verbosity that was asked for; none is zero. -/
def verbosity (asked : Option Int) : Int := asked.getD 0

/-- The notes up to a verbosity, a line each. -/
def printed (verbosity : Int) (notes : List Note) : String :=
  String.join ((notes.filter (·.level ≤ verbosity)).map (·.text ++ "\n"))

/-- The line above an outburst. -/
def stars : List Char := List.replicate 60 '*'

/-- What stands for an outburst. -/
def outburst : String := "<outburst>"

/-- Complaints under a line of stars and an outburst. -/
def complaints : List String → String
  | [] => ""
  | texts =>
    String.ofList stars ++ "\n" ++ outburst ++ "\n" ++
      String.join (texts.map fun t => String.join (List.replicate 20 "  -") ++ "\n" ++ t ++ "\n")

/-- Lines in which every line below a line of stars is taken for an outburst. The empty stretch
behind the last line feed is no line. -/
def calmLines : List (List Char) → List (List Char)
  | [line, []] => [line, []]
  | line :: next :: rest =>
    if line = stars then line :: outburst.toList :: calmLines rest
    else line :: calmLines (next :: rest)
  | lines => lines

/-- A report in which every line below a line of stars is taken for an outburst. -/
def calm (text : String) : String :=
  String.ofList (Text.join '\n' (calmLines (Text.split '\n' text.toList)))

end Report

end LazyMatch
