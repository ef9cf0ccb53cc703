import LazyMatch.Programs.Streams
import LazyMatch.Programs.Trees
import LazyMatch.Text.Split

/-!
# Paths to programs

A path leads from the working directory to a program. Taken part by part it may lead to a directory,
in which there is nothing to run. Otherwise its detours are cut out, that is, every name together
with the step up that follows it, whether or not the name leads anywhere, and what is left must lead
to a program.

* `Location.follow` takes a path part by part;
* `findProgram` is the program at a path, or why there is none.
-/

namespace LazyMatch.CommandLine

/-- A directory, or a program in one. -/
inductive Entry where
  | directory (entries : List (String × Entry))
  | program (steps : List Step)

/-- The working directory, with the programs that come along. -/
def workingDirectory : Entry :=
  .directory [
    ("examples", .directory [
      ("streams.py", .program Programs.Streams.program),
      ("trees.py", .program Programs.Trees.program)]),
    ("tests", .directory []),
    ("variety", .directory [])]

/-- Where a path has led. -/
inductive Location where
  /-- An entry, below the directories `above` it, innermost first. -/
  | inside (here : Entry) (above : List Entry)
  /-- A directory around the working directory, of which nothing else is known. -/
  | outside

/-- How many bytes a name may have. -/
def longestName : Nat := 255

/-- How many bytes a path may have. -/
def longestPath : Nat := 4095

/-- How many bytes the path to the working directory has. -/
def workingPath : Nat := 20

/-- Take one part of a path: a name, or the step up. -/
def Location.enter : Location → String → Except ProgramFault Location
  | .inside (.program _) _, _ => .error .belowFile
  | .inside (.directory entries) above, name =>
    if name = ".." then
      match above with
      | [] => .ok .outside
      | parent :: above => .ok (.inside parent above)
    else if longestName < name.utf8ByteSize then .error .tooLong
    else match entries.lookup name with
      | some entry => .ok (.inside entry (.directory entries :: above))
      | none => .error .missing
  | .outside, name =>
    if name = ".." then .ok .outside
    else if longestName < name.utf8ByteSize then .error .tooLong
    else .error .missing

/-- How many bytes the path has that leads from a start through parts. -/
def Location.pathSize (start : Location) (parts : List String) : Nat :=
  let taken := match start with
    | .inside _ _ => workingPath
    | .outside => 0
  parts.foldl (fun size part => size + part.utf8ByteSize + 1) taken

/-- Take the parts of a path in turn, unless the path is too long as a whole. -/
def Location.follow (start : Location) (parts : List String) : Except ProgramFault Location :=
  if longestPath < start.pathSize parts then .error .tooLong
  else parts.foldlM Location.enter start

/-- The parts of a path, without those that lead nowhere else. -/
def pathParts (path : String) : List String :=
  ((Text.split '/' path.toList).map String.ofList).filter fun part => part ≠ "" && part ≠ "."

/-- Cut out the detours of a path, given the parts already kept, the last one first. -/
def withoutDetours : List String → List String → List String
  | kept, [] => kept.reverse
  | [], part :: rest => withoutDetours [part] rest
  | last :: kept, part :: rest =>
    if part = ".." && last ≠ ".." then withoutDetours kept rest
    else withoutDetours (part :: last :: kept) rest

/-- The program at a path. -/
def findProgram (path : String) : Except ProgramFault (List Step) :=
  let start : Location :=
    if path.toList.head? = some '/' then .outside else .inside workingDirectory []
  if path.toList.contains '\x00' then .error .malformed
  else match start.follow (pathParts path) with
    | .ok (.inside (.directory _) _) | .ok .outside => .error .directory
    | _ =>
      match start.follow (withoutDetours [] (pathParts path)) with
      | .ok (.inside (.program steps) _) => .ok steps
      | .ok _ => .error .detour
      | .error fault => .error fault

end LazyMatch.CommandLine
