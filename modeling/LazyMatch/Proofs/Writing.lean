import LazyMatch.Proofs.Outcome
import Mathlib.Data.List.Induction

/-!
# Where phrases are written

A phrase is written as words, values and phrases in turn (`Phrase.pieces`), and so its text is made
of their texts, unless one of the values cannot be written. A phrase occurs in another one at the
position where the texts before it end (`Phrase.OccursAt`), and there its text is to be read. A line
that watches for a phrase remembers such a position, and when there are several, the last one.

* `Line.write_eq`: writing a phrase is writing its pieces one after another;
* `Line.text_write`, `Phrase.spelled_eq`: the text that is written;
* `Phrase.Occurs.exists_occursAt`: what is part of a phrase that can be written occurs in its text;
* `Phrase.OccursAt.exists_spelled_eq`: what is to be read where a phrase occurs;
* `Line.lands_write`: what a line remembers of the phrase that it watches for.
-/

namespace LazyMatch

/-! ### Pieces -/

/-- A piece of what is written for a phrase. -/
inductive Piece where
  | word (s : String)
  | literal (v : Value)
  /-- The content of an escape. -/
  | escaped (v : Value)
  | phrase (p : Phrase)

/-- Phrases with a blank before each. -/
def Piece.spread (ps : List Phrase) : List Piece := ps.flatMap fun p => [.word " ", .phrase p]

/-- Phrases with blanks between them. -/
def Piece.series : List Phrase → List Piece
  | [] => []
  | p :: rest => .phrase p :: spread rest

open Piece in
/-- What is written for a phrase. -/
def Phrase.pieces : Phrase → List Piece
  | .name _ text => [.word text]
  | .literal _ v => [.literal v]
  | .compound _ head fields => .word "[" :: series (head.phrase :: fields) ++ [.word "]"]
  | .defer _ (.phrase p) => [.word "($ ", .phrase p, .word ")"]
  | .defer _ v => [.word "($ ", .escaped v, .word ")"]
  | .named _ inner label =>
    [.word "(", .phrase inner, .word " :as ", .phrase label.phrase, .word ")"]
  | .either _ alternatives => .word "(:or " :: series alternatives ++ [.word ")"]
  | .row r => .word "[" :: series r.cells ++ [.word "]"]
  | .group _ first rest => .word "(:or " :: series ((first :: rest).map .row) ++ [.word ")"]
  | .otherwise => [.word ":else"]

/-- Write a piece. -/
def Line.put (spelling : Spelling) (watched : Option Phrase) (w : Line) :
    Piece → Except Stop Line
  | .word s => return w.add s
  | .literal v => return w.add (← spelling.literal v)
  | .escaped v => return w.add (← spelling.escaped v)
  | .phrase p => w.write spelling watched p

section Pieces

variable {spelling : Spelling} {watched : Option Phrase}

theorem Line.writeEach_eq (ps : List Phrase) (w : Line) :
    Line.writeEach spelling watched ps w =
      (Piece.spread ps).foldlM (Line.put spelling watched) w := by
  induction ps generalizing w with
  | nil => rfl
  | cons p ps ih =>
    rw [Line.writeEach, funext ih]
    rfl

theorem Line.writeSeries_eq (ps : List Phrase) (w : Line) :
    Line.writeSeries spelling watched ps w =
      (Piece.series ps).foldlM (Line.put spelling watched) w := by
  cases ps with
  | nil => rfl
  | cons p ps =>
    rw [Line.writeSeries, funext (Line.writeEach_eq ps)]
    rfl

theorem Line.writeRows_eq (rows : List Row) (w : Line) :
    Line.writeRows spelling watched rows w =
      (Piece.spread (rows.map .row)).foldlM (Line.put spelling watched) w := by
  induction rows generalizing w with
  | nil => rfl
  | cons r rows ih =>
    rw [Line.writeRows, funext ih]
    rfl

/-- Writing a phrase is writing its pieces one after another. -/
theorem Line.write_eq (p : Phrase) (w : Line) :
    Line.write spelling watched p w =
      (·.note watched p w.width) <$> p.pieces.foldlM (Line.put spelling watched) w := by
  cases p with
  | name stamp text => rfl
  | literal stamp v =>
    rw [Line.write]
    cases h : spelling.literal v <;> simp [Phrase.pieces, Line.put, h]
  | compound stamp head fields =>
    simp [Line.write, Line.writeEach_eq, Phrase.pieces, Piece.series, Line.put, Ident.phrase]
  | defer stamp content =>
    cases content with
    | phrase q => simp [Line.write, Phrase.pieces, Line.put]
    | _ => simp [Line.write, Phrase.pieces, Line.put]
  | named stamp inner name =>
    simp [Line.write, Phrase.pieces, Line.put, Ident.phrase]
  | either stamp alternatives =>
    simp [Line.write, Line.writeSeries_eq, Phrase.pieces, Line.put]
  | row r =>
    obtain ⟨stamp, cells⟩ := r
    simp [Line.write, Line.writeRow, Line.writeSeries_eq, Phrase.pieces, Line.put, Row.cells]
  | group stamp first rest =>
    simp [Line.write, Line.writeRows_eq, Phrase.pieces, Piece.series, Line.put]
  | otherwise => rfl

theorem Piece.phrase_mem_spread {p : Phrase} {ps : List Phrase} :
    Piece.phrase p ∈ Piece.spread ps ↔ p ∈ ps := by
  simp [Piece.spread]

theorem Piece.phrase_mem_series {p : Phrase} {ps : List Phrase} :
    Piece.phrase p ∈ Piece.series ps ↔ p ∈ ps := by
  cases ps with
  | nil => simp [Piece.series]
  | cons q ps => simp [Piece.series, Piece.phrase_mem_spread]

theorem Ident.sizeOf_phrase (i : Ident) : sizeOf i.phrase = sizeOf i := rfl

/-- What is written for a phrase is smaller than the phrase. -/
theorem Phrase.sizeOf_lt_of_mem_pieces {p q : Phrase} (h : .phrase q ∈ p.pieces) :
    sizeOf q < sizeOf p := by
  cases p with
  | name stamp text => simp [Phrase.pieces] at h
  | literal stamp v => simp [Phrase.pieces] at h
  | compound stamp head fields =>
    have hq : q = head.phrase ∨ q ∈ fields := by
      simpa [Phrase.pieces, Piece.phrase_mem_series] using h
    rcases hq with rfl | hq
    · simp only [Phrase.compound.sizeOf_spec, Ident.sizeOf_phrase]
      omega
    · have hlt := List.sizeOf_lt_of_mem hq
      simp only [Phrase.compound.sizeOf_spec]
      omega
  | defer stamp content =>
    cases content with
    | phrase p =>
      obtain rfl : q = p := by simpa [Phrase.pieces] using h
      simp only [Phrase.defer.sizeOf_spec, Value.phrase.sizeOf_spec]
      omega
    | _ => simp [Phrase.pieces] at h
  | named stamp inner label =>
    have hq : q = inner ∨ q = label.phrase := by simpa [Phrase.pieces] using h
    rcases hq with rfl | rfl
    · simp only [Phrase.named.sizeOf_spec]
      omega
    · simp only [Phrase.named.sizeOf_spec, Ident.sizeOf_phrase]
      omega
  | either stamp alternatives =>
    have hq : q ∈ alternatives := by simpa [Phrase.pieces, Piece.phrase_mem_series] using h
    have hlt := List.sizeOf_lt_of_mem hq
    simp only [Phrase.either.sizeOf_spec]
    omega
  | row r =>
    obtain ⟨stamp, cells⟩ := r
    have hq : q ∈ cells := by simpa [Phrase.pieces, Piece.phrase_mem_series, Row.cells] using h
    have hlt := List.sizeOf_lt_of_mem hq
    simp only [Phrase.row.sizeOf_spec, Row.mk.sizeOf_spec]
    omega
  | group stamp first rest =>
    have hq : q = .row first ∨ ∃ r ∈ rest, Phrase.row r = q := by
      simpa [Phrase.pieces, Piece.phrase_mem_series] using h
    rcases hq with rfl | ⟨r, hr, rfl⟩
    · have hpos : 1 ≤ sizeOf rest := by
        cases rest with
        | nil => simp
        | cons r rest => rw [List.cons.sizeOf_spec, Nat.add_assoc]; exact Nat.le_add_right _ _
      simp only [Phrase.group.sizeOf_spec, Phrase.row.sizeOf_spec]
      omega
    · have hlt := List.sizeOf_lt_of_mem hr
      simp only [Phrase.group.sizeOf_spec, Phrase.row.sizeOf_spec]
      omega
  | otherwise => simp [Phrase.pieces] at h

end Pieces

/-! ### Texts -/

/-- The text of a piece. -/
def Piece.text (spelling : Spelling) : Piece → Written
  | .word s => return s
  | .literal v => spelling.literal v
  | .escaped v => spelling.escaped v
  | .phrase p => p.spelled spelling

/-- The text of pieces one after another. -/
def Piece.joined (spelling : Spelling) : List Piece → Written
  | [] => return ""
  | piece :: rest => return (← piece.text spelling) ++ (← joined spelling rest)

section Texts

variable {spelling : Spelling} {watched : Option Phrase}

theorem Piece.joined_cons_eq_ok {piece : Piece} {rest : List Piece} {text : String} :
    joined spelling (piece :: rest) = .ok text ↔
      ∃ a b, piece.text spelling = .ok a ∧ joined spelling rest = .ok b ∧ text = a ++ b := by
  simp only [joined, bind_eq_ok]
  constructor
  · rintro ⟨a, ha, b, hb, h⟩
    cases h
    exact ⟨a, b, ha, hb, rfl⟩
  · rintro ⟨a, b, ha, hb, rfl⟩
    exact ⟨a, ha, b, hb, rfl⟩

theorem Piece.joined_append_eq_ok {ps qs : List Piece} {text : String} :
    joined spelling (ps ++ qs) = .ok text ↔
      ∃ a b, joined spelling ps = .ok a ∧ joined spelling qs = .ok b ∧ text = a ++ b := by
  induction ps generalizing text with
  | nil =>
    constructor
    · intro h
      exact ⟨"", text, rfl, h, by simp⟩
    · rintro ⟨a, b, ha, hb, rfl⟩
      cases ha
      simpa using hb
  | cons piece ps ih =>
    simp only [List.cons_append, joined_cons_eq_ok, ih]
    constructor
    · rintro ⟨a, _, ha, ⟨b, c, hb, hc, rfl⟩, rfl⟩
      exact ⟨a ++ b, c, ⟨a, b, ha, hb, rfl⟩, hc, (String.append_assoc ..).symm⟩
    · rintro ⟨_, c, ⟨a, b, ha, hb, rfl⟩, hc, rfl⟩
      exact ⟨a, b ++ c, ha, ⟨b, c, hb, hc, rfl⟩, String.append_assoc ..⟩

theorem Line.text_note (w : Line) (watched : Option Phrase) (p : Phrase) (start : ℕ) :
    (w.note watched p start).text = w.text := by
  rw [Line.note]
  split <;> rfl

/-- Pieces add their texts one after another, if the phrases among them do. -/
theorem Line.text_foldlM_put {ps : List Piece}
    (hps : ∀ q, .phrase q ∈ ps → ∀ w,
      Line.text <$> Line.write spelling watched q w = (w.text ++ ·) <$> q.spelled spelling)
    (w : Line) :
    Line.text <$> ps.foldlM (Line.put spelling watched) w =
      (w.text ++ ·) <$> Piece.joined spelling ps := by
  induction ps generalizing w with
  | nil => simp [Piece.joined]
  | cons piece ps ih =>
    have ih := ih fun q hq => hps q (List.mem_cons_of_mem _ hq)
    have hpiece : Line.text <$> Line.put spelling watched w piece =
        (w.text ++ ·) <$> piece.text spelling := by
      cases piece with
      | word s => rfl
      | literal v => simp [Line.put, Line.add, Piece.text]
      | escaped v => simp [Line.put, Line.add, Piece.text]
      | phrase q => exact hps q List.mem_cons_self w
    rw [List.foldlM_cons, Piece.joined]
    -- Either both the piece and its text are there, or both fail for one reason.
    cases hput : Line.put spelling watched w piece with
    | error e =>
      cases htext : piece.text spelling with
      | error e' =>
        rw [hput, htext] at hpiece
        cases hpiece
        rfl
      | ok s => simp [hput, htext] at hpiece
    | ok w' =>
      cases htext : piece.text spelling with
      | error e => simp [hput, htext] at hpiece
      | ok s =>
        have hw' : w'.text = w.text ++ s := by simpa [hput, htext] using hpiece
        have hrest := ih w'
        rw [hw'] at hrest
        cases hjoined : Piece.joined spelling ps with
        | error e =>
          rw [hjoined] at hrest
          exact hrest
        | ok s' =>
          rw [hjoined] at hrest
          exact hrest.trans (congrArg Except.ok (String.append_assoc ..))

/-- Writing a phrase adds its text, or fails when there is none. -/
theorem Line.text_write (watched : Option Phrase) (p : Phrase) (w : Line) :
    Line.text <$> Line.write spelling watched p w = (w.text ++ ·) <$> p.spelled spelling := by
  have hpieces (watched : Option Phrase) (w : Line) :
      Line.text <$> Line.write spelling watched p w =
        (w.text ++ ·) <$> Piece.joined spelling p.pieces := by
    rw [← Line.text_foldlM_put (fun q hq w => Line.text_write watched q w) w, Line.write_eq,
      Functor.map_map]
    simp only [Line.text_note]
  rw [Phrase.spelled, hpieces, hpieces, Functor.map_map]
  simp
termination_by sizeOf p
decreasing_by exact Phrase.sizeOf_lt_of_mem_pieces hq

/-- The text of a phrase is made of the texts of its pieces. -/
theorem Phrase.spelled_eq (p : Phrase) :
    p.spelled spelling = Piece.joined spelling p.pieces := by
  rw [Phrase.spelled, Line.write_eq, Functor.map_map]
  simp only [Line.text_note]
  rw [Line.text_foldlM_put fun q _ => Line.text_write none q]
  simp

theorem Line.width_foldlM_put {ps : List Piece} {w w' : Line}
    (h : ps.foldlM (Line.put spelling watched) w = .ok w') :
    ∃ text, Piece.joined spelling ps = .ok text ∧ w'.width = w.width + text.length := by
  have htext : Line.text <$> ps.foldlM (Line.put spelling watched) w = _ :=
    Line.text_foldlM_put (fun q _ => Line.text_write watched q) w
  rw [h] at htext
  cases hjoined : Piece.joined spelling ps with
  | error e => simp [hjoined] at htext
  | ok text =>
    have hw' : w'.text = w.text ++ text := by simpa [hjoined] using htext
    exact ⟨text, rfl, by rw [Line.width, hw', String.length_append, Line.width]⟩

end Texts

/-! ### Occurrences -/

/-- A phrase is part of another one: it is that phrase, or part of a piece of it. -/
inductive Phrase.Occurs (g : Phrase) : Phrase → Prop where
  | self : g.Occurs g
  | piece {p q : Phrase} (hq : .phrase q ∈ p.pieces) (h : g.Occurs q) : g.Occurs p

/-- A phrase occurs in another one at a position: it is that phrase, or it occurs in a piece of it,
after the texts of the pieces before. -/
inductive Phrase.OccursAt (spelling : Spelling) (g : Phrase) : Phrase → ℕ → Prop where
  | self : g.OccursAt spelling g 0
  | piece {p q : Phrase} {before after : List Piece} {text : String} {k : ℕ}
      (hp : p.pieces = before ++ .phrase q :: after)
      (htext : Piece.joined spelling before = .ok text) (h : g.OccursAt spelling q k) :
      g.OccursAt spelling p (text.length + k)

/-- A phrase occurs in one of several pieces. -/
def Phrase.OccursIn (spelling : Spelling) (g : Phrase) (ps : List Piece) (k : ℕ) : Prop :=
  ∃ before q after text k', ps = before ++ .phrase q :: after ∧
    Piece.joined spelling before = .ok text ∧ g.OccursAt spelling q k' ∧ k = text.length + k'

section Occurrences

variable {spelling : Spelling} {g p q : Phrase} {ps : List Piece} {k : ℕ} {text : String}

theorem Phrase.occursAt_iff :
    g.OccursAt spelling p k ↔ p = g ∧ k = 0 ∨ g.OccursIn spelling p.pieces k := by
  constructor
  · intro h
    cases h with
    | self => exact .inl ⟨rfl, rfl⟩
    | piece hp htext h => exact .inr ⟨_, _, _, _, _, hp, htext, h, rfl⟩
  · rintro (⟨rfl, rfl⟩ | ⟨before, q, after, text, k', hp, htext, h, rfl⟩)
    · exact .self
    · exact .piece hp htext h

/-- What is part of a phrase that can be written occurs in its text. -/
theorem Phrase.Occurs.exists_occursAt (h : g.Occurs p) (hp : p.spelled spelling = .ok text) :
    ∃ k, g.OccursAt spelling p k := by
  induction h generalizing text with
  | self => exact ⟨0, .self⟩
  | piece hq _ ih =>
    obtain ⟨before, after, hpieces⟩ := List.append_of_mem hq
    rw [Phrase.spelled_eq, hpieces, Piece.joined_append_eq_ok] at hp
    obtain ⟨a, _, hbefore, hrest, -⟩ := hp
    obtain ⟨b, _, hspelled, -, -⟩ := Piece.joined_cons_eq_ok.mp hrest
    obtain ⟨k, hk⟩ := ih hspelled
    exact ⟨_, .piece hpieces hbefore hk⟩

/-- Where a phrase occurs, its text is to be read. -/
theorem Phrase.OccursAt.exists_spelled_eq (h : g.OccursAt spelling p k)
    (hp : p.spelled spelling = .ok text) :
    ∃ before middle after, g.spelled spelling = .ok middle ∧ text = before ++ middle ++ after ∧
      before.length = k := by
  induction h generalizing text with
  | self => exact ⟨"", text, "", hp, by simp, rfl⟩
  | @piece _ _ _ _ start _ hpieces hstart _ ih =>
    rw [Phrase.spelled_eq, hpieces, Piece.joined_append_eq_ok] at hp
    obtain ⟨_, _, ha, hrest, rfl⟩ := hp
    cases ha.symm.trans hstart
    obtain ⟨b, c, hb, -, rfl⟩ := Piece.joined_cons_eq_ok.mp hrest
    obtain ⟨before, middle, after, hmiddle, rfl, rfl⟩ := ih hb
    refine ⟨start ++ before, middle, after ++ c, hmiddle, ?_, String.length_append ..⟩
    simp only [String.append_assoc]

theorem Phrase.OccursAt.add_length_le (h : g.OccursAt spelling p k)
    (hp : p.spelled spelling = .ok text) {middle : String} (hg : g.spelled spelling = .ok middle) :
    k + middle.length ≤ text.length := by
  obtain ⟨before, middle', after, hg', rfl, rfl⟩ := h.exists_spelled_eq hp
  cases hg.symm.trans hg'
  simp only [String.length_append]
  omega

theorem Phrase.OccursAt.sizeOf_le (h : g.OccursAt spelling p k) : sizeOf g ≤ sizeOf p := by
  induction h with
  | self => exact Nat.le_refl _
  | @piece p q before after text k hp _ _ ih =>
    have hq : .phrase q ∈ p.pieces := by simp [hp]
    have hlt := Phrase.sizeOf_lt_of_mem_pieces hq
    omega

/-- No phrase occurs inside itself. -/
theorem Phrase.not_occursIn_self : ¬ g.OccursIn spelling g.pieces k := by
  rintro ⟨before, q, after, text, k', hp, -, h, -⟩
  have hq : .phrase q ∈ g.pieces := by simp [hp]
  have hlt := Phrase.sizeOf_lt_of_mem_pieces hq
  have hle := h.sizeOf_le
  omega

theorem Phrase.OccursIn.le_length (h : g.OccursIn spelling ps k)
    (hps : Piece.joined spelling ps = .ok text) : k ≤ text.length := by
  obtain ⟨before, q, after, a, k', rfl, ha, h, rfl⟩ := h
  obtain ⟨a', _, ha', hrest, rfl⟩ := Piece.joined_append_eq_ok.mp hps
  cases ha.symm.trans ha'
  obtain ⟨b, c, hb, -, rfl⟩ := Piece.joined_cons_eq_ok.mp hrest
  obtain ⟨before', middle, after', -, rfl, rfl⟩ := h.exists_spelled_eq hb
  simp only [String.length_append]
  omega

theorem Phrase.occursIn_concat {piece : Piece} :
    g.OccursIn spelling (ps ++ [piece]) k ↔ g.OccursIn spelling ps k ∨
      ∃ q text k', piece = .phrase q ∧ Piece.joined spelling ps = .ok text ∧
        g.OccursAt spelling q k' ∧ k = text.length + k' := by
  constructor
  · rintro ⟨before, q, after, text, k', hps, htext, h, rfl⟩
    rcases List.eq_nil_or_concat after with rfl | ⟨after, last, rfl⟩
    · obtain ⟨rfl, hpiece⟩ := List.append_inj' hps rfl
      exact .inr ⟨q, text, k', List.singleton_inj.mp hpiece, htext, h, rfl⟩
    · rw [List.concat_eq_append, ← List.cons_append, ← List.append_assoc] at hps
      obtain ⟨rfl, -⟩ := List.append_inj' hps rfl
      exact .inl ⟨before, q, after, text, k', rfl, htext, h, rfl⟩
  · rintro (⟨before, q, after, text, k', rfl, htext, h, rfl⟩ | ⟨q, text, k', rfl, htext, h, rfl⟩)
    · exact ⟨before, q, after ++ [piece], text, k', by simp, htext, h, rfl⟩
    · exact ⟨ps, q, [], text, k', rfl, htext, h, rfl⟩

end Occurrences

/-! ### What a line remembers -/

/-- Whether a line that is continued, from `w` to `w'`, remembers the last of these positions,
counted from where it was continued, and a width; when there are none, it remembers what it did
before. -/
def Line.Lands (width : ℕ) (At : ℕ → Prop) (w w' : Line) : Prop :=
  (∃ k, At k ∧ (∀ k', At k' → k' ≤ k) ∧ w'.span = some (w.width + k, width)) ∨
    (∀ k, ¬ At k) ∧ w'.span = w.span

section Lands

variable {spelling : Spelling} {g : Phrase} {width : ℕ}

/-- Pieces that are written one after another: the last one that the phrase occurs in counts. -/
theorem Line.lands_foldlM_put {ps : List Piece}
    (hps : ∀ q, .phrase q ∈ ps → ∀ {w w'}, Line.write spelling (some g) q w = .ok w' →
      Line.Lands width (g.OccursAt spelling q) w w') {w w' : Line}
    (h : ps.foldlM (Line.put spelling (some g)) w = .ok w') :
    Line.Lands width (g.OccursIn spelling ps) w w' := by
  induction ps using List.reverseRecOn generalizing w' with
  | nil =>
    cases h
    refine .inr ⟨?_, rfl⟩
    rintro k ⟨before, q, after, text, k', hnil, -⟩
    simp at hnil
  | append_singleton ps piece ih =>
    rw [List.foldlM_append] at h
    obtain ⟨w₁, hw₁, h⟩ := bind_eq_ok.mp h
    rw [List.foldlM_cons] at h
    obtain ⟨w₂, hw₂, h⟩ := bind_eq_ok.mp h
    cases h
    have ih := ih (fun q hq => hps q (List.mem_append_left _ hq)) hw₁
    obtain ⟨text, htext, hwidth⟩ := Line.width_foldlM_put hw₁
    have hpiece : Line.Lands width
        (fun k => ∃ q, piece = .phrase q ∧ g.OccursAt spelling q k) w₁ w' := by
      cases piece with
      | word s =>
        cases hw₂
        exact .inr ⟨by simp, rfl⟩
      | literal v | escaped v =>
        obtain ⟨s, -, hs⟩ := bind_eq_ok.mp hw₂
        cases hs
        exact .inr ⟨by simp, rfl⟩
      | phrase q => simpa using hps q (by simp) hw₂
    rcases hpiece with ⟨k, ⟨q, rfl, hk⟩, hlast, hspan⟩ | ⟨hnone, hspan⟩
    · refine .inl ⟨text.length + k, ?_, fun k' hk' => ?_, ?_⟩
      · exact Phrase.occursIn_concat.mpr (.inr ⟨q, text, k, rfl, htext, hk, rfl⟩)
      · rcases Phrase.occursIn_concat.mp hk' with hin | ⟨q', text', k'', hq', htext', hat, rfl⟩
        · exact Nat.le_trans (hin.le_length htext) (Nat.le_add_right _ _)
        · cases htext.symm.trans htext'
          exact Nat.add_le_add_left (hlast k'' ⟨q', hq', hat⟩) _
      · rw [hspan, hwidth, Nat.add_assoc]
    · have hsame : ∀ k, g.OccursIn spelling (ps ++ [piece]) k ↔ g.OccursIn spelling ps k := by
        intro k
        rw [Phrase.occursIn_concat, or_iff_left]
        rintro ⟨q, text, k', hq, -, hat, -⟩
        exact hnone k' ⟨q, hq, hat⟩
      simpa only [Line.Lands, hsame, hspan] using ih

/-- **What a line remembers of the phrase that it watches for**: the last position where it occurs,
and how long it is. -/
theorem Line.lands_write {text : String} (hg : g.spelled spelling = .ok text) (p : Phrase)
    {w w' : Line} (h : Line.write spelling (some g) p w = .ok w') :
    Line.Lands text.length (g.OccursAt spelling p) w w' := by
  rw [Line.write_eq] at h
  obtain ⟨w₁, hw₁, rfl⟩ := map_eq_ok.mp h
  have hpieces : Line.Lands text.length (g.OccursIn spelling p.pieces) w w₁ :=
    Line.lands_foldlM_put (fun q hq _ _ h => Line.lands_write hg q h) hw₁
  by_cases hp : p = g
  · subst hp
    obtain ⟨text', htext', hwidth⟩ := Line.width_foldlM_put hw₁
    rw [Phrase.spelled_eq] at hg
    cases hg.symm.trans htext'
    refine .inl ⟨0, .self, fun k hk => ?_, ?_⟩
    · rcases Phrase.occursAt_iff.mp hk with ⟨-, rfl⟩ | hin
      · exact Nat.le_refl _
      · exact absurd hin Phrase.not_occursIn_self
    · rw [Line.note, if_pos rfl, hwidth, Nat.add_sub_cancel_left, Nat.add_zero]
  · have hsame : ∀ k, g.OccursAt spelling p k ↔ g.OccursIn spelling p.pieces k := by
      intro k
      rw [Phrase.occursAt_iff, or_iff_right (fun h => hp h.1)]
    rw [Line.note, if_neg (fun h => hp (Option.some.inj h).symm)]
    simpa only [Line.Lands, hsame] using hpieces
termination_by sizeOf p
decreasing_by exact Phrase.sizeOf_lt_of_mem_pieces hq

end Lands

end LazyMatch
