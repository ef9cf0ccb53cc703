import LazyMatch.CommandLine.Arguments
import LazyMatch.CommandLine.Path
import LazyMatch.Session

/-!
# The command line

Runs a program. Its declarations report to the command line, more of it the more often a check is
asked for. A complaint ends the program and is printed; any other fault goes through to the caller.
The commands of a program may themselves run the command line.

* `CommandLine.run` runs arguments in a session;
* `Session.execute` works through one command, `Session.reply` also collects what it logged.
-/

namespace LazyMatch

namespace CommandLine

/-- How deep the evaluation of a program may nest. -/
def depth : Nat := 1000000

/-- How to call the program. -/
def usage : String := "usage: variety [-h] [-c] program\n"

/-- The text of the help flag. -/
def help : String :=
  usage ++ "\n" ++
  "Run a module of datatype declarations and pattern-dispatched functions.\n" ++
  "\n" ++
  "positional arguments:\n" ++
  "  program      try examples/streams.py for example.\n" ++
  "\n" ++
  "options:\n" ++
  "  -h, --help   show this help message and exit\n" ++
  "  -c, --check  Report each compiled function's forcing plan; twice for\n" ++
  "               canonical rows too.\n"

/-- What is printed when there are no arguments. -/
def introduction : String :=
  "This runs a Python module that declares datatypes and pattern-dispatched functions.\n" ++
  "\n" ++
  usage ++ "\n" ++
  "\n" ++
  "For example:\n" ++
  "\n" ++
  "    variety examples/streams.py\n" ++
  "\n" ++
  "will run streams.py, or else try to explain why not.\n" ++
  "\n" ++
  "    variety -cc examples/streams.py\n" ++
  "\n" ++
  "will also show the forcing plan and canonical rows of every function it compiles.\n"

/-- What a program told and printed, and the complaint that ended it. -/
structure Transcript where
  notes : List Note := []
  printed : String := ""
  complaint : Option String := none

/-- Add the outcome of the next step of a program and go on. A complaint ends the program; any other
fault goes through. -/
def Transcript.andThen (t : Transcript) (work : SessionM Outcome)
    (next : Transcript → SessionM Transcript) : SessionM Transcript := do
  match ← tryCatch (Except.ok <$> work) (pure ∘ Except.error) with
  | .ok o => next { t with notes := t.notes ++ o.notes, printed := t.printed ++ o.printed }
  | .error (.fault f) =>
    if f.isComplaint then return { t with complaint := ← Session.writing f.message? }
    else throw (.fault f)
  | .error .exhausted => throw .exhausted

/-- Work through steps up to the first complaint. -/
def runSteps (evaluate : Env → Task → Run Value) : List Step → Transcript → SessionM Transcript
  | [], t => return t
  | step :: rest, t => t.andThen (Session.perform evaluate step) fun t => runSteps evaluate rest t

/-- Run a program: `@` stands for the given one in the present session, and a program that comes
along has a session of its own. -/
def runProgram (evaluate : Env → Task → Run Value) (given : SessionM Transcript) (path : String) :
    SessionM Transcript :=
  if path = "@" then given
  else match findProgram path with
    | .error fault => Session.fail (.program fault)
    | .ok steps =>
      match (StateT.run (ExceptT.run (runSteps evaluate steps {})) {}).1 with
      | .ok t => return t
      | .error stop => throw stop

/-- How a run ended. -/
def Transcript.exit (t : Transcript) (check : Nat) : Exit :=
  let told := Report.printed check t.notes
  match t.complaint with
  | some text =>
    { status := some 1, stdout := t.printed
      stderr := Report.calm (told ++ Report.complaints [text]) }
  | none =>
    { status := some 0, stdout := t.printed
      stderr := Report.calm (if check = 0 then told else told ++ "Looks plausible to me.\n") }

/-- Run arguments, with a program for `@`. -/
def run (evaluate : Env → Task → Run Value) (args : List String) (given : SessionM Transcript) :
    SessionM Exit :=
  match args with
  | [] => return { status := none, stdout := introduction }
  | args =>
    match parse args with
    | .help => return { status := some 0, stdout := help }
    | .refused why =>
      let complaint := usage ++ "variety: error: " ++ why ++ "\n"
      return { status := some 2, stderr := Report.calm complaint }
    | .run check path => return (← runProgram evaluate given path).exit check

end CommandLine

/-- What a session works through. -/
inductive Command where
  | step (s : Step)
  /-- Run the command line, with a program of further commands for it to run. -/
  | main (args : List String) (program : List Command)

/-- What came of a command. -/
inductive Reply where
  | answered (a : Answer)
  | failed (f : Fault) (message : Option String)
  | exhausted

/-- What comes of a command that ends without an answer: the fault in words, or the fault of putting
it into words. -/
def Reply.ofStop (s : Store) : Stop → Reply
  | .exhausted => .exhausted
  | .fault f =>
    match f.message? s with
    | .ok message => .failed f message
    | .error (.fault other) => .failed other none
    | .error .exhausted => .exhausted

namespace Session

mutual

/-- Work through a command. A run of the command line keeps what it tells and prints to itself. -/
def execute (evaluate : Env → Task → Run Value) : Command → SessionM Outcome
  | .step s => perform evaluate s
  | .main args program => do
    return { answer := .exit (← CommandLine.run evaluate args (executeAll evaluate program {})) }

/-- Work through the commands of a program up to the first complaint. -/
def executeAll (evaluate : Env → Task → Run Value) :
    List Command → CommandLine.Transcript → SessionM CommandLine.Transcript
  | [], t => return t
  | c :: rest, t => t.andThen (execute evaluate c) fun t => executeAll evaluate rest t

end

/-- Work through a command, from an empty log. -/
def attempt (evaluate : Env → Task → Run Value) (c : Command) (session : Session) :
    Except Stop Outcome × Session :=
  StateT.run (ExceptT.run (execute evaluate c))
    { session with store := { session.store with log := #[] } }

/-- Work through a command, with what came of it and what it logged; `fuel` bounds how deep the
evaluation may nest. -/
def reply (fuel : Nat) (c : Command) (session : Session) : Reply × List View × Session :=
  let (result, session) := attempt (fun env => LazyMatch.perform env fuel) c session
  let reply := match result with
    | .ok o => .answered o.answer
    | .error stop => .ofStop session.store stop
  let log := session.store.log.toList.filterMap fun v => (session.store.view v).toOption
  (reply, log, session)

end Session

end LazyMatch
