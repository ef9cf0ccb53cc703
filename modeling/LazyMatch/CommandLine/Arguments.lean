import LazyMatch.Text.Digit
import LazyMatch.Text.Quoted

/-!
# Command-line arguments

One program to run, and two flags that may stand before or after it: help, and a check that counts
how often it is given. Long flags may be abbreviated, short ones may be joined, and two dashes end
the flags. What looks like a flag and is none is complained about only if nothing else is wrong.
-/

namespace LazyMatch.CommandLine

/-- The flags. -/
inductive Flag where
  | help
  | check
deriving DecidableEq, Repr

/-- The short form. -/
def Flag.short : Flag → String
  | .help => "-h"
  | .check => "-c"

/-- The long form. -/
def Flag.long : Flag → String
  | .help => "--help"
  | .check => "--check"

/-- All flags. -/
def flags : List Flag := [.help, .check]

/-- The flag of an exact form, and whether the form is long. -/
def flag? (form : String) : Option (Flag × Bool) :=
  flags.findSome? fun f =>
    if form = f.short then some (f, false) else if form = f.long then some (f, true) else none

/-- What an argument is. -/
inductive Argument where
  | positional (text : String)
  /-- A flag, whether in its long form, and a text attached to it. -/
  | flag (f : Flag) (long : Bool) (attached : Option (List Char))
  /-- What looks like a flag and is none. -/
  | unknown (text : String)
deriving DecidableEq, Repr

/-- What the arguments ask for, or why they are refused. -/
inductive Request where
  | help
  | run (check : Nat) (program : String)
  | refused (why : String)
deriving DecidableEq, Repr

/-- The parts of a text before and after its first equals sign. -/
def cutEquals (cs : List Char) : Option (List Char × List Char) :=
  match cs.dropWhile (· ≠ '=') with
  | [] => none
  | _ :: rest => some (cs.takeWhile (· ≠ '='), rest)

/-- A text without the line feed at its end. -/
def withoutFinalNewline (cs : List Char) : List Char :=
  if cs.getLast? = some '\n' then cs.dropLast else cs

/-- Whether a text is a dash and a decimal number, up to a line feed at its end. -/
def isNegative (cs : List Char) : Bool :=
  match withoutFinalNewline cs with
  | '-' :: cs =>
    let whole := cs.takeWhile Text.isDigit
    match cs.dropWhile Text.isDigit with
    | [] => !whole.isEmpty
    | '.' :: fraction => !fraction.isEmpty && fraction.all Text.isDigit
    | _ => false
  | _ => false

/-- The flags that a text may stand for, with what is attached: an abbreviation of long ones, or a
short one with more behind it. -/
def candidates (cs : List Char) : List (Flag × Bool × Option (List Char)) :=
  match cs with
  | '-' :: '-' :: _ =>
    let (form, attached) := match cutEquals cs with
      | some (form, attached) => (form, some attached)
      | none => (cs, none)
    (flags.filter fun f => form.isPrefixOf f.long.toList).map fun f => (f, true, attached)
  | _ =>
    (flags.filter fun f => String.ofList (cs.take 2) = f.short).map fun f =>
      (f, false, some (cs.drop 2))

/-- What an argument before two dashes is. -/
def Argument.ofText (arg : String) : Except String Argument :=
  let cs := arg.toList
  if cs.head? ≠ some '-' || cs.length = 1 then .ok (.positional arg)
  else match flag? arg with
    | some (f, long) => .ok (.flag f long none)
    | none =>
      match (cutEquals cs).bind fun (form, attached) =>
          (flag? (String.ofList form)).map fun (f, long) => (f, long, attached) with
      | some (f, long, attached) => .ok (.flag f long (some attached))
      | none =>
        match candidates cs with
        | [(f, long, attached)] => .ok (.flag f long attached)
        | [] =>
          if isNegative cs || cs.contains ' ' then .ok (.positional arg) else .ok (.unknown arg)
        | several => .error ("ambiguous option: " ++ arg ++ " could match " ++
            ", ".intercalate (several.map (·.1.long)))

/-- A text attached to a flag that takes none. -/
def ignored (f : Flag) (attached : List Char) : String :=
  "argument " ++ f.short ++ "/" ++ f.long ++ ": ignored explicit argument " ++
    Text.quoted (String.ofList attached)

/-- The flags of an argument: what is attached to a short flag must be further short flags. -/
def joined (f : Flag) : List Char → Except String (List Flag)
  | [] => .ok [f]
  | c :: rest =>
    match flag? (String.ofList ['-', c]) with
    | some (g, _) => (joined g rest).map (f :: ·)
    | none => .error (ignored f (c :: rest))

/-- What has been read of the arguments. -/
structure Reading where
  program : Option String := none
  check : Nat := 0
  help : Bool := false
  /-- What nobody asked for. -/
  extras : List String := []
  /-- Whether the last argument was taken as the program. -/
  fresh : Bool := false

/-- Read a positional argument: the first one is the program. -/
def Reading.positional (r : Reading) (text : String) : Reading :=
  match r.program with
  | none => { r with program := some text, fresh := true }
  | some _ => { r with extras := r.extras ++ [text], fresh := false }

/-- Read a flag. -/
def Reading.flag (r : Reading) : Flag → Reading
  | .help => { r with help := true, fresh := false }
  | .check => { r with check := r.check + 1, fresh := false }

/-- Read arguments up to a call for help. -/
def read : List Argument → Reading → Except String Reading
  | [], r => .ok r
  | .positional text :: rest, r => read rest (r.positional text)
  | .unknown text :: rest, r => read rest { r with extras := r.extras ++ [text], fresh := false }
  | .flag f long attached :: rest, r => do
    let fs ← match attached, long with
      | none, _ => .ok [f]
      | some (c :: cs), false => joined f (c :: cs)
      | some cs, _ => .error (ignored f cs)
    let r := fs.foldl Reading.flag r
    if r.help then .ok r else read rest r

/-- Read what follows two dashes. They belong to the program next to them; away from it they are
one argument too many. -/
def Reading.rest (r : Reading) (args : List String) : Reading :=
  let r := if r.program.isSome && !r.fresh then { r with extras := r.extras ++ ["--"] } else r
  args.foldl Reading.positional r

/-- What the arguments ask for. -/
def parse (args : List String) : Request :=
  let front := args.takeWhile (· ≠ "--")
  let reading := do
    let r ← read (← front.mapM Argument.ofText) {}
    match args.dropWhile (· ≠ "--") with
    | [] => pure r
    | _ :: rest => pure (if r.help then r else r.rest rest)
  match reading with
  | .error why => .refused why
  | .ok r =>
    if r.help then .help
    else match r.program with
      | none => .refused "the following arguments are required: program"
      | some program =>
        if r.extras.isEmpty then .run r.check program
        else .refused ("unrecognized arguments: " ++ " ".intercalate r.extras)

end LazyMatch.CommandLine
