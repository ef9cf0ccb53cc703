import LazyMatch.Store.Text

/-!
# Views of values

A view is a value unfolded into a finite tree, for showing it to someone who has no access to the
store. A list, tuple, record or deferred value that occurs inside itself is cut off, with the number
of levels up to where it is being shown. There is no view of what cannot be written.
-/

namespace LazyMatch

/-- A value, unfolded. -/
inductive View where
  | null
  | bool (b : Bool)
  | int (i : Int)
  | float (decimal : String)
  | text (s : String)
  | list (items : List View)
  | tuple (items : List View)
  | record (entries : List (View × View))
  | pending
  | resolved (v : View)
  | phrase (p : Phrase) (text : String)
  | action
  /-- Anything else, written out. -/
  | object (text : String)
  /-- Something already being shown so many levels further out. -/
  | cycle (levels : Nat)

/-- How values with contents in the store are unfolded inside the containers further out. -/
structure View.Hooks where
  record : List Mark → RecordRef → Except Stop View
  thunk : List Mark → ThunkRef → Except Stop View

/-- Unfold what is not among the `outer` containers, and cut off what is. -/
def View.within (outer : List Mark) (m : Mark) (unfolded : List Mark → Except Stop View) :
    Except Stop View :=
  match outer.idxOf? m with
  | some i => .ok (.cycle (i + 1))
  | none => unfolded (m :: outer)

namespace Store

mutual

/-- A value, unfolded inside the `outer` containers. -/
def viewWith (s : Store) (hooks : View.Hooks) (outer : List Mark) : Value → Except Stop View
  | .null => .ok .null
  | .bool b => .ok (.bool b)
  | .int i => .ok (.int i)
  | .float _ decimal => .ok (.float decimal)
  | .text t => .ok (.text t)
  | .list stamp items =>
    View.within outer (.stamp stamp) fun outer => .list <$> viewAllWith s hooks outer items
  | .tuple stamp items =>
    View.within outer (.stamp stamp) fun outer => .tuple <$> viewAllWith s hooks outer items
  | .record r => hooks.record outer r
  | .thunk t => hooks.thunk outer t
  | .phrase p => .phrase p <$> s.shown (.phrase p)
  | .closure _ => .ok .action
  | v => .object <$> s.written v

/-- Values, unfolded. -/
def viewAllWith (s : Store) (hooks : View.Hooks) (outer : List Mark) :
    List Value → Except Stop (List View)
  | [] => .ok []
  | v :: rest => do
    let first ← viewWith s hooks outer v
    return first :: (← viewAllWith s hooks outer rest)

end

/-- A value, unfolded through at most `depth` records and deferred values. -/
def viewTo (s : Store) : Nat → List Mark → Value → Except Stop View
  | 0 => s.viewWith {
      record := fun outer r => View.within outer (.record r) fun _ => .ok (.record [])
      thunk := fun outer t => View.within outer (.thunk t) fun _ => .ok .pending }
  | depth + 1 => s.viewWith {
      record := fun outer r => View.within outer (.record r) fun outer => do
        let entries ← (s.entries r).mapM fun (key, v) =>
          return (← viewTo s depth outer key, ← viewTo s depth outer v)
        return .record entries
      thunk := fun outer t => View.within outer (.thunk t) fun outer =>
        match s.cell t with
        | .resolved v => .resolved <$> viewTo s depth outer v
        | _ => .ok .pending }

/-- A value, unfolded. -/
def view (s : Store) (v : Value) : Except Stop View :=
  s.viewTo (s.records.size + s.thunks.size) [] v

end Store

end LazyMatch
