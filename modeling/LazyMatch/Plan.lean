import LazyMatch.Fault
import LazyMatch.Table

/-!
# Force plans

A compiled function forces some of its arguments before it dispatches. Its plan gives each of those
a fresh name that is bound to the forced argument, and lists, position by position, the names that
the matcher looks at.

* `Plan.ofDemand` writes the plan for parameters and their demand;
* `Plan.run` runs it on arguments.
-/

namespace LazyMatch

/-- Which arguments are forced, and what the matcher sees. -/
structure Plan where
  params : List String
  /-- Fresh names, each with the parameter whose forced value it stands for. -/
  bindings : List (String × String)
  /-- The names that the matcher looks at, by position. -/
  dispatch : List String
deriving DecidableEq

/-- The standard names of parameters. -/
def standardNames (arity : Nat) : List String :=
  (List.range arity).map fun i => "arg" ++ toString i

namespace Plan

/-- The plan that forces the parameters in demand. -/
def ofDemand (params : List String) (need : List Bool) : Except Fault Plan :=
  if params.length = need.length then
    let dispatch := (params.zip need).zipIdx.map fun ((p, needed), i) =>
      if needed then "forced" ++ toString i else p
    let bindings := (params.zip dispatch).filterMap fun (old, new) =>
      if new = old then none else some (new, old)
    .ok { params, bindings, dispatch }
  else .error .violatedAssumption

/-- The plan in words. -/
def text (plan : Plan) : String :=
  "; ".intercalate
    (plan.bindings.map (fun (new, old) => new ++ " = force(" ++ old ++ ")") ++
      ["dispatch on [" ++ ", ".intercalate plan.dispatch ++ "]"])

variable {m : Type → Type} [Monad m] [MonadExceptOf Stop m]

/-- The value under a name of the frame. -/
def read (frame : Table Value) (name : String) : m Value :=
  match frame.get? name with
  | some v => pure v
  | none => throw (.fault .missingKey)

/-- Bind each fresh name, in order, to the forced value of its parameter. -/
def bindForced (force : Value → m Value) :
    List (String × String) → Table Value → m (Table Value)
  | [], frame => pure frame
  | (new, old) :: rest, frame => do
    let v ← force (← read frame old)
    bindForced force rest (frame.put new v)

/-- The values that the matcher sees: fill the frame from the arguments, run the bindings in order,
and read the names to dispatch on. -/
def run (force : Value → m Value) (plan : Plan) (args : List Value) : m (List Value) := do
  let frame ← bindForced force plan.bindings (Table.ofList (plan.params.zip args))
  plan.dispatch.mapM (read frame)

end Plan

end LazyMatch
