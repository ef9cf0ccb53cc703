import LazyMatch.Fault.Message
import LazyMatch.Proofs.Refusal
import LazyMatch.Proofs.Writing
import Mathlib.Algebra.Ring.Int.Defs

/-!
# The caret points at what is blamed

When rules are refused, the fault knows the function, the row of the rule that is to blame and the
phrase in it that is wrong. Its picture shows the row behind the name of the function, and below it
carets under the text of that phrase; there is none when the row cannot be written.

* `Blames`: what is to blame, by the passes that look for it;
* `Blames.occurs`: the phrase that is blamed occurs in the row;
* `Picture.render_eq`: what a picture looks like when the line does not end in white space and the
  stretch lies within it;
* `caret_points_at_guilty` puts it together.
-/

namespace LazyMatch

/-! ### What is blamed -/

/-- The rule and the phrase that are to blame: the first row of another width, or what is wrong with
the first rule that is not sound. -/
inductive Blames {α : Type} (r : Registry) (rules : List (Rule α)) :
    RuleCause → Rule α → Phrase → Prop where
  | width {rule : Rule α} {plain : Row} (h : FirstRagged rules rule plain) :
      Blames r rules (.wrongWidth plain.width (firstWidth rules)) rule (.row plain)
  | unsound {rule : Rule α} {cause : RuleCause} {guilty : Phrase} (h : FirstUnsound r rules rule)
      (hbreaks : rule.row.Breaks r cause guilty) : Blames r rules cause rule guilty

section Blames

variable {α : Type} {r : Registry} {name : String} {rules : List (Rule α)} {e : RuleFault}
  {cause : RuleCause} {rule : Rule α} {guilty : Phrase} {spelling : Spelling}

/-- Rules that are refused are refused for what is to blame, and the fault knows it all. -/
theorem exists_blames_of_ofRules
    (h : Compiled.ofRules r.resolver name rules = .error (.rules e)) (hcause : e.cause ≠ .noRules) :
    ∃ rule guilty, Blames r rules e.cause rule guilty ∧ e.function = some name ∧
      e.row = some rule.row.phrase ∧ e.guilty = some guilty := by
  have hne : rules ≠ [] := by
    rintro rfl
    rw [ofRules_nil] at h
    cases h
    exact hcause rfl
  by_cases hwide : EquallyWide rules
  · cases hrows : patternRows r.resolver name rules with
    | ok rows =>
      obtain ⟨c, hc⟩ := ofRules_of_patternRows hne hwide hrows
      cases hc.symm.trans h
    | error f =>
      rw [ofRules_of_patternRows_error hne hwide hrows] at h
      rcases patternRows_breaks hwide hrows with
        ⟨rfl, -⟩ | ⟨rule, cause, guilty, hfirst, hbreaks, rfl⟩
      · cases h
      · cases h
        exact ⟨rule, guilty, .unsound hfirst hbreaks, rfl, rfl, rfl⟩
  · obtain ⟨rule, plain, hfirst, hc⟩ := ofRules_of_ragged r name hne hwide
    cases hc.symm.trans h
    exact ⟨rule, .row plain, .width hfirst, rfl, rfl, rfl⟩

/-- What resolving reaches in a phrase occurs in it. -/
theorem Phrase.Reaches.occurs {p q : Phrase} (h : p.Reaches q) : q.Occurs p := by
  induction h with
  | refl p => exact .self
  | inner _ ih => exact .piece (by simp [Phrase.pieces]) ih
  | field hp _ ih => exact .piece (by simp [Phrase.pieces, Piece.phrase_mem_series, hp]) ih
  | alternative hp _ ih => exact .piece (by simp [Phrase.pieces, Piece.phrase_mem_series, hp]) ih

/-- What occurs in a plain row of a rule occurs in the row of the rule. -/
theorem RuleRow.occurs {row : RuleRow} {plain : Row} (hplain : plain ∈ row.rows)
    (h : guilty.Occurs (.row plain)) : guilty.Occurs row.phrase := by
  cases row with
  | row r =>
    obtain rfl := List.mem_singleton.mp hplain
    exact h
  | group stamp first rest =>
    have hseries : .phrase (.row plain) ∈ Piece.series ((first :: rest).map .row) :=
      Piece.phrase_mem_series.mpr (List.mem_map_of_mem hplain)
    exact .piece (List.mem_cons_of_mem _ (List.mem_append_left _ hseries)) h
  | otherwise => cases hplain

/-- What occurs in a cell occurs in its row. -/
theorem Row.occurs {plain : Row} {cell : Phrase} (hcell : cell ∈ plain.cells)
    (h : guilty.Occurs cell) : guilty.Occurs (.row plain) := by
  have hseries : .phrase cell ∈ Piece.series plain.cells := Piece.phrase_mem_series.mpr hcell
  exact .piece (List.mem_cons_of_mem _ (List.mem_append_left _ hseries)) h

/-- What is wrong with a row occurs in it. -/
theorem RuleRow.Breaks.occurs {row : RuleRow} (h : row.Breaks r cause guilty) :
    guilty.Occurs row.phrase := by
  cases h with
  | cell hplain hcell hreach _ => exact RuleRow.occurs hplain (Row.occurs hcell hreach.occurs)
  | column htoken _ _ =>
    exact RuleRow.occurs List.mem_cons_self (Row.occurs (List.mem_of_getElem? htoken) .self)

/-- What is blamed occurs in the row of the rule that is to blame. -/
theorem Blames.occurs (h : Blames r rules cause rule guilty) : guilty.Occurs rule.row.phrase := by
  cases h with
  | width hfirst =>
    obtain ⟨before, after, earlier, later, -, hrows, -⟩ := hfirst
    exact RuleRow.occurs (hrows ▸ by simp) .self
  | unsound _ hbreaks => exact hbreaks.occurs

end Blames

/-! ### Pictures -/

theorem Text.trimEnd_concat (cs : List Char) {c : Char} (hc : isBlank c = false) :
    trimEnd (cs ++ [c]) = cs ++ [c] := by
  simp [trimEnd, hc]

/-- What ends in a word that does not end in white space does not either. -/
theorem Phrase.trimEnd_of_pieces {spelling : Spelling} {p : Phrase} {ps : List Piece}
    {cs : List Char} {c : Char} {text : String}
    (hpieces : p.pieces = ps ++ [.word (String.ofList (cs ++ [c]))]) (hc : Text.isBlank c = false)
    (h : p.spelled spelling = .ok text) : Text.trimEnd text.toList = text.toList := by
  rw [Phrase.spelled_eq, hpieces, Piece.joined_append_eq_ok] at h
  obtain ⟨a, b, -, hb, rfl⟩ := h
  obtain ⟨_, _, hlast, hnil, rfl⟩ := Piece.joined_cons_eq_ok.mp hb
  cases hlast
  cases hnil
  simp only [String.toList_append, String.toList_ofList, String.toList_empty, List.append_nil,
    ← List.append_assoc, Text.trimEnd_concat _ hc]

/-- The text of a row does not end in white space. -/
theorem RuleRow.trimEnd_spelled {spelling : Spelling} {row : RuleRow} {text : String}
    (h : row.phrase.spelled spelling = .ok text) : Text.trimEnd text.toList = text.toList := by
  cases row with
  | row plain =>
    have hpieces : Phrase.pieces (.row plain) =
        (.word "[" :: Piece.series plain.cells) ++ [.word (String.ofList ([] ++ [']']))] := rfl
    exact Phrase.trimEnd_of_pieces hpieces rfl h
  | group stamp first rest =>
    have hpieces : Phrase.pieces (.group stamp first rest) =
        (.word "(:or " :: Piece.series ((first :: rest).map .row)) ++
          [.word (String.ofList ([] ++ [')']))] := rfl
    exact Phrase.trimEnd_of_pieces hpieces rfl h
  | otherwise =>
    have hpieces : Phrase.pieces .otherwise =
        [] ++ [.word (String.ofList ([':', 'e', 'l', 's'] ++ ['e']))] := rfl
    exact Phrase.trimEnd_of_pieces hpieces rfl h

/-- A picture of a line that does not end in white space, with carets under a stretch within it. -/
theorem Picture.render_eq {margin line caption : String} {start width : ℕ}
    (hend : Text.trimEnd line.toList = line.toList) (hin : start + width ≤ line.length) :
    Picture.render margin line start width caption =
      margin ++ line ++ "\n" ++
        String.ofList (Picture.blanks ((margin ++ line).toList.take (margin.length + start))) ++
        String.ofList (List.replicate (max 1 width) '^') ++ " " ++ caption := by
  have hcarets : Picture.carets line.toList.length start width = max 1 width := by
    rw [Picture.carets, String.length_toList, Nat.min_eq_left (by omega)]
  have htake : (margin ++ line).toList.take (margin.length + start) =
      margin.toList ++ line.toList.take start := by
    rw [String.toList_append, ← String.length_toList, List.take_length_add_append]
  simp only [Picture.render, hcarets, hend, htake, String.ofList_toList]

/-- How a fault points at a phrase in a row, where the texts of both stand behind a margin. -/
structure RuleFault.PointsAt (e : RuleFault) (spelling : Spelling) (margin : String)
    (row guilty : Phrase) (text caption : String) (start : ℕ) : Prop where
  occurs : guilty.OccursAt spelling row start
  /-- Of several occurrences it is the last. -/
  last : ∀ k, guilty.OccursAt spelling row k → k ≤ start
  spelled : guilty.spelled spelling = .ok caption
  line : Line.write spelling (some guilty) row {} = .ok ⟨text, some (start, caption.length)⟩
  slice : (text.toList.drop start).take caption.length = caption.toList
  picture : ∃ blanks : List Char, blanks.length = margin.length + start ∧
    blanks = ((margin ++ text).toList.take (margin.length + start)).map
      (fun c => if c = '\t' then '\t' else ' ') ∧
    e.picture spelling = .ok (margin ++ text ++ "\n" ++ String.ofList blanks ++
      String.ofList (List.replicate (max 1 caption.length) '^') ++ " " ++ caption)

section PointsAt

variable {e : RuleFault} {name : String} {row : RuleRow} {guilty : Phrase} {spelling : Spelling}

/-- A fault that knows a phrase which occurs in its row points at it, when the row can be
written. -/
theorem RuleFault.exists_pointsAt (hfunction : e.function = some name)
    (hrow : e.row = some row.phrase) (hguilty : e.guilty = some guilty)
    (h : guilty.Occurs row.phrase) {text : String}
    (htext : row.phrase.spelled spelling = .ok text) :
    ∃ caption start,
      e.PointsAt spelling (name ++ " |") row.phrase guilty text caption start := by
  obtain ⟨k, hk⟩ := h.exists_occursAt htext
  obtain ⟨_, caption, _, hcaption, -, -⟩ := hk.exists_spelled_eq htext
  obtain ⟨line, hline, hwritten⟩ : ∃ line,
      Line.write spelling (some guilty) row.phrase {} = .ok line ∧ line.text = text := by
    have hwrite : Line.text <$> Line.write spelling (some guilty) row.phrase {} = _ :=
      Line.text_write (some guilty) row.phrase {}
    rw [htext] at hwrite
    obtain ⟨line, hline, hwritten⟩ := map_eq_ok.mp hwrite
    exact ⟨line, hline, by simpa using hwritten⟩
  rcases Line.lands_write hcaption row.phrase hline with
    ⟨start, hstart, hlast, hspan⟩ | ⟨hnone, -⟩
  · have hline : Line.write spelling (some guilty) row.phrase {} =
        .ok ⟨text, some (start, caption.length)⟩ := by
      rw [hline, ← hwritten, show some (start, caption.length) = line.span by
        simp [hspan, Line.width]]
    have hin := hstart.add_length_le htext hcaption
    refine ⟨caption, start, hstart, hlast, hcaption, hline, ?_, _, ?_, rfl, ?_⟩
    · obtain ⟨before, middle, after, hmiddle, rfl, rfl⟩ := hstart.exists_spelled_eq htext
      cases hcaption.symm.trans hmiddle
      rw [String.toList_append, String.toList_append, List.append_assoc,
        ← String.length_toList, ← String.length_toList, List.drop_left, List.take_left]
    · simp only [List.length_map, List.length_take, String.length_toList, String.length_append]
      omega
    · have hpicture : e.picture spelling =
          .ok (Picture.render (name ++ " |") text start caption.length caption) := by
        simp only [RuleFault.picture, hrow, hguilty, hfunction, hline, hcaption]
        rfl
      rw [hpicture, Picture.render_eq (RuleRow.trimEnd_spelled htext) hin]
      rfl
  · exact absurd hk (hnone k)

/-- Without a text of the row there is no picture. -/
theorem RuleFault.picture_eq_error {row : Phrase} (hrow : e.row = some row) {stop : Stop}
    (h : row.spelled spelling = .error stop) : e.picture spelling = .error stop := by
  have hwrite : Line.text <$> Line.write spelling e.guilty row {} = _ :=
    Line.text_write e.guilty row {}
  rw [h] at hwrite
  simp only [RuleFault.picture, hrow]
  exact bind_eq_error.mpr (.inl (map_eq_error.mp hwrite))

end PointsAt

/-- **The caret points at what is blamed.** Rules that are refused, other than for there being none,
are refused with a fault that knows the function, the whole row of the rule that is to blame, and
the phrase that is wrong, which occurs in the row. When the row can be written, the line finds the
phrase where it occurs, and the picture shows the row behind the name of the function, with carets
under that occurrence; otherwise there is no picture, for the same reason. -/
theorem caret_points_at_guilty {α : Type} {r : Registry} {name : String} {rules : List (Rule α)}
    {e : RuleFault} (h : Compiled.ofRules r.resolver name rules = .error (.rules e))
    (hcause : e.cause ≠ .noRules) :
    ∃ rule guilty, Blames r rules e.cause rule guilty ∧ e.function = some name ∧
      e.row = some rule.row.phrase ∧ e.guilty = some guilty ∧ guilty.Occurs rule.row.phrase ∧
      ∀ spelling,
        (∀ text, rule.row.phrase.spelled spelling = .ok text → ∃ caption start,
          e.PointsAt spelling (name ++ " |") rule.row.phrase guilty text caption start) ∧
        ∀ stop, rule.row.phrase.spelled spelling = .error stop →
          e.picture spelling = .error stop := by
  obtain ⟨rule, guilty, hblames, hfunction, hrow, hguilty⟩ := exists_blames_of_ofRules h hcause
  refine ⟨rule, guilty, hblames, hfunction, hrow, hguilty, hblames.occurs, fun spelling => ?_⟩
  constructor
  · intro text htext
    exact RuleFault.exists_pointsAt hfunction hrow hguilty hblames.occurs htext
  · intro stop hstop
    exact RuleFault.picture_eq_error hrow hstop

/-- How values are spelled in the pictures below, where there are none. -/
def noValues : Spelling := ⟨fun _ => .ok "", fun _ => .ok ""⟩

/-- Alternatives that bind different names, behind a tab in the name of the function. -/
theorem caret_points_at_guilty_clashingRules :
    ∃ e, Compiled.ofRules streams.resolver "f\t" clashingRules = .error (.rules e) ∧
      e.cause ≠ .noRules ∧
      (e.picture noValues).toOption = some "f\t |[((:or x y) :as z)]\n \t    ^^^^^^^^^ (:or x y)" ∧
      ∃ rule guilty, Blames streams clashingRules e.cause rule guilty ∧ e.function = some "f\t" ∧
        e.row = some rule.row.phrase ∧ e.guilty = some guilty ∧ guilty.Occurs rule.row.phrase ∧
        ∀ spelling,
          (∀ text, rule.row.phrase.spelled spelling = .ok text → ∃ caption start,
            e.PointsAt spelling ("f\t" ++ " |") rule.row.phrase guilty text caption start) ∧
          ∀ stop, rule.row.phrase.spelled spelling = .error stop →
            e.picture spelling = .error stop := by
  refine ⟨⟨.differentNames [["x"], ["y"]], some (.either 7 [.name 8 "x", .name 9 "y"]), some "f\t",
    some (.row (.mk 5 [.named 6 (.either 7 [.name 8 "x", .name 9 "y"]) ⟨106, "z"⟩]))⟩,
    ?_, ?_, ?_, ?_⟩
  · rfl
  · simp
  · decide +kernel
  · exact caret_points_at_guilty rfl (by simp)

/-- An integer of too many digits cannot be written. -/
theorem Store.written_int_eq_error (s : Store) {i : Int}
    (h : digitLimit < (toString i.natAbs).length) :
    s.written (.int i) = .error (.fault .tooManyDigits) := by
  have hwritten : s.written (.int i) = writtenInt i := by
    rw [Store.written]
    cases s.records.size + s.datatypes.size <;> rfl
  rw [hwritten, writtenInt, if_neg (Nat.not_le.mpr h)]

/-- An unknown head behind an integer of too many digits. -/
def vastRules : List (Rule Value) :=
  [⟨.row (.mk 1 [.literal 2 (.int (10 ^ digitLimit)), .compound 3 ⟨4, "Nod"⟩ []]), .null⟩]

/-- The unknown head is blamed, and there is no picture of that in any store. -/
theorem no_picture_vastRules :
    ∃ e, Compiled.ofRules streams.resolver "f" vastRules = .error (.rules e) ∧
      e.cause = .unknownTag "Nod" ∧
      ∀ s : Store, e.picture s.spelling = .error (.fault .tooManyDigits) := by
  refine ⟨_, rfl, rfl, fun s => RuleFault.picture_eq_error rfl ?_⟩
  have hlong : digitLimit < (toString (10 ^ digitLimit : Int).natAbs).length := by
    rw [← Nat.not_le]
    intro hle
    have hlt := (Nat.length_repr_le_iff (by decide)).mp hle
    simp [Int.natAbs_pow] at hlt
  have hliteral : s.spelling.literal (.int (10 ^ digitLimit)) = .error (.fault .tooManyDigits) :=
    s.written_int_eq_error hlong
  generalize (10 ^ digitLimit : Int) = i at hliteral ⊢
  simp only [RuleRow.phrase, Phrase.spelled, Line.write, Line.writeRow, Line.writeSeries, hliteral]
  rfl

end LazyMatch
