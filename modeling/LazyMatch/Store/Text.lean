import LazyMatch.Phrase.Line
import LazyMatch.Store.Element
import LazyMatch.Text.Object

/-!
# The text of values

A value is written out as one would enter it; what has no such form is shown in angle brackets, if
need be with a number that tells it apart. A record, list or tuple inside itself is written as dots.
In running text a text is itself, a phrase is spelled, and a deferred value tells what it resolved
to, or its label. A datatype is shown by its title, which is its name in running text as that stands
by then. It may have none, so writing can fail.

* `Store.written` writes a value out, `Store.shown` puts it into running text;
* `Store.spelling` spells the values inside phrases, `Store.spelled` a whole phrase.

A value that no rule matches is described without forcing anything (`Store.summary`): by its tag,
or written out when it has none, looking through layers that are already resolved.
-/

namespace LazyMatch

/-- What is being written, for noticing that it occurs inside itself. -/
inductive Mark where
  /-- A list or a tuple. -/
  | stamp (n : Nat)
  | record (r : RecordRef)
  | thunk (t : ThunkRef)
  | datatype (d : DatatypeRef)
deriving DecidableEq

/-- The most digits that an integer is written with. -/
def digitLimit : Nat := 4300

/-- An integer, written out. -/
def writtenInt (i : Int) : Written :=
  if (toString i.natAbs).length ≤ digitLimit then .ok (toString i)
  else .error (.fault .tooManyDigits)

/-- The qualified name by which a value goes in a note of keys. -/
def Value.path? : Value → Option String
  | .kind k => some k.qualified
  | .rebuilder r => some r.qualified
  | .operation _ op _ => if op.form = .own then some ("variety.registry." ++ op.qualified) else none
  | _ => none

/-- How values with contents in the store are written inside the containers further out. -/
structure Written.Hooks where
  record : List Mark → RecordRef → Written
  datatype : List Mark → DatatypeRef → Written

namespace Store

mutual

/-- A value, written out inside the `outer` containers. -/
def writtenWith (s : Store) (hooks : Written.Hooks) (outer : List Mark) : Value → Written
  | .null => .ok "None"
  | .bool b => .ok (Datum.boolText b)
  | .int i => writtenInt i
  | .float _ decimal => .ok decimal
  | .text t => .ok (Text.quoted t)
  | .list stamp items =>
    if .stamp stamp ∈ outer then .ok "[...]"
    else Text.bracketed <$> writtenAllWith s hooks (.stamp stamp :: outer) items
  | .tuple stamp items =>
    if .stamp stamp ∈ outer then .ok "(...)"
    else Text.parenthesised <$> writtenAllWith s hooks (.stamp stamp :: outer) items
  | .record r => hooks.record outer r
  | .thunk t => .ok (Text.object "variety.runtime.Thunk object" (4 * t.index))
  | .constructor c => .ok c.quoted
  | .function f => .ok (s.function f).quoted
  | .closure c => .ok (Text.object "function __action__" (4 * c.index + 1))
  | .datatype d => hooks.datatype outer d
  | .operation _ op d =>
    if op.form = .own then (op.quoted · d.id) <$> hooks.datatype outer d
    else .ok (op.quoted "" d.id)
  | .phrase p => writtenPhraseWith s hooks outer p
  | .visit v => .ok (Text.object "dict_valueiterator object" (4 * v.index + 7))
  | .kind k => .ok k.quoted
  | .noted _ [] => .ok (Kind.record.name ++ "[()]")
  | .noted _ keys =>
    (fun keys => Kind.record.name ++ Text.bracketed keys) <$> writtenNotesWith s hooks outer keys
  | .rebuilder r => .ok r.quoted
  | .object stamp => .ok (Text.object "object object" (4 * stamp + 2))
  | .undecided => .ok "NotImplemented"

/-- Values, written out. -/
def writtenAllWith (s : Store) (hooks : Written.Hooks) (outer : List Mark) :
    List Value → Except Stop (List String)
  | [] => .ok []
  | v :: rest => do
    let first ← writtenWith s hooks outer v
    return first :: (← writtenAllWith s hooks outer rest)

/-- The keys of a note, written out. -/
def writtenNotesWith (s : Store) (hooks : Written.Hooks) (outer : List Mark) :
    List Value → Except Stop (List String)
  | [] => .ok []
  | v :: rest => do
    let first ← match v.path? with
      | some path => .ok path
      | none => writtenWith s hooks outer v
    return first :: (← writtenNotesWith s hooks outer rest)

/-- A phrase as a value, written out. -/
def writtenPhraseWith (s : Store) (hooks : Written.Hooks) (outer : List Mark) : Phrase → Written
  | .name _ text => .ok ("<Name " ++ Text.quoted text ++ ">")
  | .literal _ v => (fun t => "<Literal " ++ t ++ ">") <$> writtenWith s hooks outer v
  | .compound _ head fields =>
    .ok ("<Compound " ++ head ++ "/" ++ toString fields.length ++ ">")
  | .defer _ v => (fun t => "<$ " ++ t ++ ">") <$> writtenWith s hooks outer v
  | .named stamp _ _ => .ok (Text.object "variety.syntax.AsForm object" (4 * stamp + 2))
  | .either stamp _ => .ok (Text.object "variety.syntax.OrForm object" (4 * stamp + 2))
  | .row (.mk stamp _) => .ok (Text.object "variety.syntax.Row object" (4 * stamp + 2))
  | .group stamp _ _ => .ok (Text.object "variety.syntax.OrRow object" (4 * stamp + 2))
  | .otherwise => .ok (Text.object "variety.syntax.Else object" 3)

end

/-! ### Running text -/

/-- What a computation is called. -/
def label : Computation → String
  | .expr label _ _ => label.getD "?"
  | .call (.closure _) => "__action__"
  | .call (.operation _ op _) => op.qualified
  | .call (.kind k) => k.name
  | .call (.noted _ _) => Kind.record.name
  | .call (.rebuilder r) => r.name
  | .call _ => "?"
  | .constant _ => "Constant.runtime_value.<locals>.<lambda>"
  | .variant _ => "Factory.__call__.<locals>.<lambda>"
  | .dispatch _ _ => "LazyFunction.__call__.<locals>.<lambda>"

/-- The name that a value has of its own, inside an escape. -/
def ownName? (s : Store) : Value → Option String
  | .function f => some (s.function f).name
  | .closure _ => some "__action__"
  | .operation _ op _ => some op.key
  | .kind k => some k.name
  | .noted _ _ => some Kind.record.name
  | .rebuilder r => some r.name
  | _ => none

/-- How values are spelled inside phrases: written out. What has a name of its own goes by it inside
an escape, but has to be written all the same. -/
def spellingWith (s : Store) (write : Value → Written) : Spelling where
  literal := write
  escaped := fun v => (s.ownName? v).getD <$> write v

/-- A value in running text, deferred values aside. -/
def plainWith (s : Store) (write : Value → Written) : Value → Written
  | .text t => .ok t
  | .phrase p => p.spelled (s.spellingWith write)
  | v => write v

/-- A value in running text. -/
def shownWith (s : Store) (write : Value → Written) : Value → Written
  | .thunk t =>
    match s.cell t with
    | .pending c | .running c => .ok ("<Thunk: " ++ label c ++ ">")
    | .resolved (.thunk _) => .ok "<Thunk: another deferred value>"
    | .resolved v => s.plainWith write v
  | v => s.plainWith write v

/-- The name of a datatype in running text. A tuple is taken for the words of the name, of which
there must be one. -/
def titleWith (s : Store) (write : Value → Written) (d : DatatypeRef) : Written :=
  match s.member d "name" with
  | .error f => .error (.fault f)
  | .ok (.tuple _ [word]) => s.shownWith write word
  | .ok (.tuple _ _) => .error (.fault .wrongType)
  | .ok word => s.shownWith write word

/-! ### All together -/

/-- A value, written out, whose records and datatypes nest at most `depth` deep before one occurs in
itself. A record does so as dots; the title of a datatype would not end. -/
def writtenTo (s : Store) : Nat → List Mark → Value → Written
  | 0 => s.writtenWith {
      record := fun _ _ => .ok "\x7b...\x7d"
      datatype := fun _ _ => .error .exhausted }
  | depth + 1 => s.writtenWith {
      record := fun outer r =>
        if .record r ∈ outer then .ok "\x7b...\x7d"
        else do
          let write := writtenTo s depth (.record r :: outer)
          let entries ← (s.entries r).mapM fun (key, v) => return (← write key, ← write v)
          return Text.braced entries
      datatype := fun outer d =>
        if .datatype d ∈ outer then .error .exhausted
        else (fun t => "<datatype " ++ t ++ ">") <$>
          s.titleWith (writtenTo s depth (.datatype d :: outer)) d }

/-- A value, written out. -/
def written (s : Store) (v : Value) : Written :=
  s.writtenTo (s.records.size + s.datatypes.size) [] v

/-- A value in running text. -/
def shown (s : Store) (v : Value) : Written := s.shownWith s.written v

/-- The name of a datatype in running text. -/
def title (s : Store) (d : DatatypeRef) : Written := s.titleWith s.written d

/-- How values are spelled inside phrases. -/
def spelling (s : Store) : Spelling := s.spellingWith s.written

/-- The text of a phrase. -/
def spelled (s : Store) (p : Phrase) : Written := p.spelled s.spelling

/-! ### Describing scrutinees -/

/-- Follow layers that are resolved, at most `fuel` of them, until one is pending or was `passed`
already. -/
def follow (s : Store) : Nat → List ThunkRef → Value → Value
  | fuel + 1, passed, .thunk t =>
    if t ∈ passed then .thunk t
    else match s.cell t with
      | .resolved v => follow s fuel (t :: passed) v
      | _ => .thunk t
  | _, _, v => v

/-- A scrutinee in words, without forcing it: its tag, or the value written out. -/
def summary (s : Store) (v : Value) : Except Stop Value :=
  match s.follow (s.thunks.size + 1) [] v with
  | .thunk _ => .ok (.text "<deferred>")
  | v => match s.tag v with
    | .null => .text <$> s.written v
    | tag => .ok tag

/-- That no rule of a function matches. A tag that is not a text cannot be put into words. -/
def noMatch (s : Store) (function : String) (scrutinees : List Value) : Stop :=
  match scrutinees.mapM s.summary with
  | .error stop => stop
  | .ok tags =>
    match tags.mapM Value.text? with
    | some tags => .fault (.noMatch function tags)
    | none => .fault .wrongType

end Store

end LazyMatch
