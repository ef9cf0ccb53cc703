import LazyMatch.Fault

/-!
# Writing phrases

Phrases are written as bracketed text. A line that is being written watches for one phrase and
remembers where it landed, so that a diagnostic can point at it; when the phrase occurs more than
once, the last occurrence counts. The values inside a phrase are spelled out, and one that cannot be
ends the writing.

* `Spelling` says how the values inside phrases are spelled;
* `Line.write` writes a phrase, `Phrase.spelled` is its text.
-/

namespace LazyMatch

/-- How the values inside phrases are spelled. -/
structure Spelling where
  /-- A literal. -/
  literal : Value → Written
  /-- The content of an escape that is not a phrase. -/
  escaped : Value → Written

/-- What has been written, and where the watched phrase landed: its first position and its width. -/
structure Line where
  text : String := ""
  span : Option (Nat × Nat) := none
deriving DecidableEq

namespace Line

/-- The number of characters written. -/
def width (w : Line) : Nat := w.text.length

/-- Write a word. -/
def add (w : Line) (s : String) : Line := { w with text := w.text ++ s }

/-- Note that a phrase has been written from `start` on, if it is the one watched for. -/
def note (w : Line) (watched : Option Phrase) (p : Phrase) (start : Nat) : Line :=
  if watched = some p then { w with span := some (start, w.width - start) } else w

/-- Write an identifier. -/
def addIdent (w : Line) (watched : Option Phrase) (i : Ident) : Line :=
  (w.add i.text).note watched i.phrase w.width

mutual

/-- Write a phrase. -/
def write (spelling : Spelling) (watched : Option Phrase) : Phrase → Line → Except Stop Line
  | .name stamp text, w => return w.addIdent watched ⟨stamp, text⟩
  | .literal stamp v, w => do
    return (w.add (← spelling.literal v)).note watched (.literal stamp v) w.width
  | .compound stamp head fields, w => do
    let inside ← writeEach spelling watched fields ((w.add "[").addIdent watched head)
    return (inside.add "]").note watched (.compound stamp head fields) w.width
  | .defer stamp (.phrase p), w => do
    let inside ← write spelling watched p (w.add "($ ")
    return (inside.add ")").note watched (.defer stamp (.phrase p)) w.width
  | .defer stamp v, w => do
    let inside := (w.add "($ ").add (← spelling.escaped v)
    return (inside.add ")").note watched (.defer stamp v) w.width
  | .named stamp inner name, w => do
    let inside ← write spelling watched inner (w.add "(")
    return (((inside.add " :as ").addIdent watched name).add ")").note watched
      (.named stamp inner name) w.width
  | .either stamp alternatives, w => do
    let inside ← writeSeries spelling watched alternatives (w.add "(:or ")
    return (inside.add ")").note watched (.either stamp alternatives) w.width
  | .row r, w => writeRow spelling watched r w
  | .group stamp first rest, w => do
    let inside ← writeRow spelling watched first (w.add "(:or ")
    let inside ← writeRows spelling watched rest inside
    return (inside.add ")").note watched (.group stamp first rest) w.width
  | .otherwise, w => return (w.add ":else").note watched .otherwise w.width

/-- Write phrases with a blank before each. -/
def writeEach (spelling : Spelling) (watched : Option Phrase) :
    List Phrase → Line → Except Stop Line
  | [], w => return w
  | p :: rest, w => do writeEach spelling watched rest (← write spelling watched p (w.add " "))

/-- Write phrases with blanks between them. -/
def writeSeries (spelling : Spelling) (watched : Option Phrase) :
    List Phrase → Line → Except Stop Line
  | [], w => return w
  | p :: rest, w => do writeEach spelling watched rest (← write spelling watched p w)

/-- Write a row. -/
def writeRow (spelling : Spelling) (watched : Option Phrase) : Row → Line → Except Stop Line
  | .mk stamp cells, w => do
    let inside ← writeSeries spelling watched cells (w.add "[")
    return (inside.add "]").note watched (.row (.mk stamp cells)) w.width

/-- Write rows with a blank before each. -/
def writeRows (spelling : Spelling) (watched : Option Phrase) :
    List Row → Line → Except Stop Line
  | [], w => return w
  | r :: rest, w => do writeRows spelling watched rest (← writeRow spelling watched r (w.add " "))

end

end Line

/-- The text of a phrase. -/
def Phrase.spelled (spelling : Spelling) (p : Phrase) : Written :=
  Line.text <$> Line.write spelling none p {}

end LazyMatch
