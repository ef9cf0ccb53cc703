import LazyMatch.Proofs.History
import LazyMatch.Proofs.Term

/-!
# Declaring datatypes

A session that is asked to declare datatypes, one after the other, refuses some of the declarations
and accepts the others. Which it accepts is said here without looking at how it checks them, and so
is what the registry holds in the end: the accepted datatypes in order, and under their bare names
exactly the constructors of all of them.

* `Spec.Describes` says what a description describes, `Declaration.Describes` which constructors a
  declaration describes;
* `Registry.Admits` is what a declaration must fulfil, and `declare_eq_ok_iff` that nothing else is
  asked of it;
* `Registry.Records` is what the registry holds after the accepted declarations;
* `Session.Keeps` is the invariant of sessions, whose registry is read off the members of the
  datatypes; a declaration keeps it (`Keeps.declareDatatype`) and so does any number of them
  (`Keeps.declaring`).
-/

namespace LazyMatch

/-! ### Descriptions -/

/-- What an unmarked description describes: a text is a constant, and a tuple of texts with at least
one element is a factory. A mark around a text is such a tuple too. -/
inductive Spec.Describes : Spec → String → Shape → Prop
  | text (name : String) : Describes (.datum (.text name)) name .constant
  | tuple (name : String) (fields : List String) :
    Describes (.tuple ((name :: fields).map fun word => .datum (.text word))) name (.factory fields)
  | datum (name : String) (fields : List String) :
    Describes (.datum (.tuple ((name :: fields).map .text))) name (.factory fields)
  | mark (name : String) : Describes (.marked (.datum (.text name))) name (.factory [])

/-- Whether a description is marked lazy. -/
def Spec.isMarked : Spec → Bool
  | .marked _ => true
  | _ => false

theorem Spec.text?_eq_some {spec : Spec} {word : String} (h : spec.text? = some word) :
    spec = .datum (.text word) := by
  cases spec with
  | datum d => cases d <;> cases h; rfl
  | tuple items => cases h
  | marked inner => cases h

theorem Spec.mapM_text?_eq_some {items : List Spec} {words : List String}
    (h : items.mapM Spec.text? = some words) :
    items = words.map fun word => .datum (.text word) := by
  induction items generalizing words with
  | nil =>
    cases h
    rfl
  | cons spec items ih =>
    rw [List.mapM_cons] at h
    obtain ⟨word, hword, h⟩ := Option.bind_eq_some_iff.mp h
    obtain ⟨rest, hrest, h⟩ := Option.bind_eq_some_iff.mp h
    cases h
    rw [Spec.text?_eq_some hword, ih hrest, List.map_cons]

theorem Spec.mapM_text?_texts (words : List String) :
    (words.map fun word => Spec.datum (.text word)).mapM Spec.text? = some words := by
  induction words with
  | nil => rfl
  | cons word words ih => rw [List.map_cons, List.mapM_cons, ih]; rfl

/-- The elements of a tuple of data that are all texts. -/
theorem Datum.eq_texts_of_map_datum {items : List Datum} {words : List String}
    (h : items.map Spec.datum = words.map fun word => .datum (.text word)) :
    items = words.map Datum.text := by
  have hinj : Function.Injective Spec.datum := fun _ _ he => Spec.datum.inj he
  exact hinj.list_map (by rw [h, List.map_map]; rfl)

/-- What a description describes is what is read off it. -/
theorem Spec.constructor?_eq_some_iff {spec : Spec} {name : String} {shape : Shape} :
    spec.constructor? = some (name, shape) ↔ spec.Describes name shape := by
  constructor
  · intro h
    unfold Spec.constructor? at h
    split at h
    · rename_i word _ hword
      cases h
      rw [Spec.text?_eq_some hword]
      exact .text _
    · rename_i head fields _ htexts
      cases h
      obtain ⟨items, hitems, hwords⟩ := Option.bind_eq_some_iff.mp htexts
      have hitems' := Spec.mapM_text?_eq_some hwords
      cases spec with
      | tuple its =>
        cases hitems
        rw [hitems']
        exact .tuple name fields
      | marked inner =>
        cases hitems
        cases fields with
        | nil =>
          rw [List.cons.inj hitems' |>.1]
          exact .mark name
        | cons _ _ => cases hitems'
      | datum d =>
        cases d with
        | tuple its =>
          cases hitems
          rw [Datum.eq_texts_of_map_datum hitems']
          exact .datum name fields
        | _ => cases hitems
    · cases h
  · rintro (_ | _ | _ | _)
    · rfl
    · rename_i fields
      simp only [Spec.constructor?, Spec.text?, Spec.texts?, Spec.items?, Option.bind_some,
        Spec.mapM_text?_texts]
    · rename_i fields
      have hdata : (((name :: fields).map Datum.text).map Spec.datum).mapM Spec.text? =
          some (name :: fields) := by
        rw [List.map_map]
        exact Spec.mapM_text?_texts (name :: fields)
      simp only [Spec.constructor?, Spec.text?, Spec.texts?, Spec.items?, Option.bind_some, hdata]
    · rfl

/-! ### Declarations -/

/-- How a declaration asks for a mode. -/
def Mode.datum : Mode → Datum
  | .strict => .text "none"
  | .marked => .text "marked"
  | .all => .text "all"

theorem Mode.ofDatum?_eq_some_iff {asked : Datum} {mode : Mode} :
    Mode.ofDatum? asked = some mode ↔ asked = mode.datum := by
  constructor
  · intro h
    unfold Mode.ofDatum? at h
    split at h
    · split_ifs at h with h₁ h₂ h₃ <;> cases h <;> simp [Mode.datum, *]
    · cases h
  · rintro rfl
    cases mode <;> rfl

/-- The constructors that a declaration describes, in its order: one for each description once a
mark is taken off. A constructor is lazy when it was marked, and all are when the mode says so. -/
def Declaration.Describes (d : Declaration) (cs : List Constructor) : Prop :=
  List.Forall₂ (fun spec c => spec.bare.Describes c.name c.shape ∧ c.datatype = d.name ∧
    (c.lazy = true ↔ spec.isMarked = true ∨ d.mode = Mode.all.datum)) d.specs cs

/-- What a declaration of constructors has to fulfil: it asks for one of the modes, its name is new,
nothing is marked when all is to be strict, and the names of its constructors are distinct and in no
datatype yet. -/
structure Registry.Accepts (r : Registry) (d : Declaration) (cs : List Constructor) : Prop where
  mode : ∃ mode : Mode, d.mode = mode.datum
  fresh : d.name ∉ Table.names r.datatypes
  unmarked : d.mode = Mode.strict.datum → ∀ spec ∈ d.specs, spec.isMarked = false
  described : d.Describes cs
  distinct : (cs.map (·.name)).Nodup
  unregistered : ∀ c ∈ cs, ∀ e ∈ r.datatypes, c.name ∉ Table.names e.2.constructors

/-- Whether a registry accepts a declaration. -/
def Registry.Admits (r : Registry) (d : Declaration) : Prop := ∃ cs, r.Accepts d cs

/-- The datatype of constructors. -/
def Datatype.ofVariants (name : String) (cs : List Constructor) : Datatype :=
  ⟨name, cs.map fun c => (c.name, c)⟩

@[simp] theorem Datatype.variants_ofVariants (name : String) (cs : List Constructor) :
    (Datatype.ofVariants name cs).variants = cs := by
  simp [Datatype.variants, Datatype.ofVariants, Function.comp_def]

theorem unmarked_eq_ok_iff {datatype : String} {lazy : Bool} {spec : Spec} {c : Constructor} :
    Registry.unmarked datatype lazy spec = .ok c ↔
      spec.Describes c.name c.shape ∧ c.datatype = datatype ∧ c.lazy = lazy := by
  rw [← Spec.constructor?_eq_some_iff]
  constructor
  · intro h
    obtain ⟨hspec, hc⟩ := unmarked_eq_ok h
    rw [hc]
    exact ⟨hspec, rfl, rfl⟩
  · rintro ⟨hspec, rfl, rfl⟩
    rw [Registry.unmarked, hspec]

theorem constructorOf_eq_ok_iff {datatype : String} {mode : Mode} {spec : Spec} {c : Constructor} :
    Registry.constructorOf datatype mode spec = .ok c ↔
      (mode = .strict → spec.isMarked = false) ∧ spec.bare.Describes c.name c.shape ∧
        c.datatype = datatype ∧ (c.lazy = true ↔ spec.isMarked = true ∨ mode = .all) := by
  cases spec with
  | marked inner =>
    have hmarked : (Spec.marked inner).isMarked = true := rfl
    rw [Registry.constructorOf]
    by_cases hmode : mode = .strict
    · simp [hmode, hmarked]
    · simp [hmode, hmarked, unmarked_eq_ok_iff, Spec.bare]
  | datum _ | tuple _ =>
    simp only [Registry.constructorOf, unmarked_eq_ok_iff, Spec.bare, Spec.isMarked,
      Bool.false_eq_true, false_or, implies_true, true_and]
    refine and_congr_right fun _ => and_congr_right fun _ => ?_
    rw [Bool.eq_iff_iff, decide_eq_true_eq]

/-- Constructors are accepted when each description gives one and all names are new. -/
theorem constructorsOf_eq_ok_iff {r : Registry} {datatype : String} {mode : Mode}
    {specs : List Spec} {taken : List String} {cs : List Constructor} :
    r.constructorsOf datatype mode specs taken = .ok cs ↔
      List.Forall₂ (fun spec c => Registry.constructorOf datatype mode spec = .ok c) specs cs ∧
        (cs.map (·.name)).Nodup ∧
        ∀ c ∈ cs, c.name ∉ taken ∧ c.name ∉ Table.names r.constructors := by
  -- The names of the constructors before this one are taken, which makes all of them distinct.
  induction specs generalizing taken cs with
  | nil =>
    constructor
    · intro h
      cases h
      exact ⟨.nil, by simp, by simp⟩
    · rintro ⟨⟨⟩, -, -⟩
      rfl
  | cons spec specs ih =>
    rw [Registry.constructorsOf]
    constructor
    · intro h
      obtain ⟨c, hc, h⟩ := bind_eq_ok.mp h
      split at h
      · cases h
      · rename_i hnew
        obtain ⟨rest, hrest, h⟩ := bind_eq_ok.mp h
        cases h
        obtain ⟨hall, hnodup, hfresh⟩ := ih.mp hrest
        simp only [Bool.or_eq_true, decide_eq_true_eq, not_or, Table.contains,
          Table.isSome_get?_iff] at hnew
        refine ⟨.cons hc hall, ?_, ?_⟩
        · rw [List.map_cons, List.nodup_cons]
          refine ⟨?_, hnodup⟩
          intro hmem
          obtain ⟨c', hc', hname⟩ := List.mem_map.mp hmem
          exact (hfresh c' hc').1 (by rw [hname]; exact List.mem_cons_self)
        · intro c' hc'
          rcases List.mem_cons.mp hc' with rfl | hc'
          · exact hnew
          · exact ⟨fun h => (hfresh c' hc').1 (List.mem_cons_of_mem _ h), (hfresh c' hc').2⟩
    · rintro ⟨hall, hnodup, hfresh⟩
      cases hall with
      | @cons _ c _ rest hc hall =>
        rw [List.map_cons, List.nodup_cons] at hnodup
        have hnew : ¬ (decide (c.name ∈ taken) || r.constructors.contains c.name) = true := by
          simp only [Bool.or_eq_true, decide_eq_true_eq, not_or, Table.contains,
            Table.isSome_get?_iff]
          exact hfresh c List.mem_cons_self
        have hrest : r.constructorsOf datatype mode specs (c.name :: taken) = .ok rest := by
          refine ih.mpr ⟨hall, hnodup.2, ?_⟩
          intro c' hc'
          obtain ⟨htaken, hbare⟩ := hfresh c' (List.mem_cons_of_mem _ hc')
          refine ⟨?_, hbare⟩
          intro hmem
          rcases List.mem_cons.mp hmem with hname | hmem
          · exact hnodup.1 (hname ▸ List.mem_map_of_mem hc')
          · exact htaken hmem
        refine bind_eq_ok.mpr ⟨c, hc, ?_⟩
        rw [if_neg hnew]
        exact bind_eq_ok.mpr ⟨rest, hrest, rfl⟩

/-! ### What the registry holds -/

/-- What a declaration enters under a name: its datatype, which holds the constructors that the
declaration describes, in order and each under its own name. -/
def Declaration.Gives (d : Declaration) (e : String × Datatype) : Prop :=
  ∃ cs, d.Describes cs ∧ e = (d.name, .ofVariants d.name cs)

/-- What a registry holds after declarations: their datatypes in order, and under bare names the
constructors of all datatypes, none of them twice. -/
structure Registry.Records (r : Registry) (accepted : List Declaration) : Prop where
  datatypes : List.Forall₂ Declaration.Gives accepted r.datatypes
  constructors : r.constructors = r.datatypes.flatMap fun e => e.2.constructors
  nodup_datatypes : (Table.names r.datatypes).Nodup
  nodup_constructors : (Table.names r.constructors).Nodup

theorem Registry.records_empty : Registry.empty.Records [] :=
  ⟨.nil, rfl, .nil, .nil⟩

section Records

variable {r : Registry} {accepted : List Declaration}

theorem Registry.Records.gives (h : r.Records accepted) {e : String × Datatype}
    (he : e ∈ r.datatypes) : ∃ d : Declaration, d.Gives e := by
  obtain ⟨d, _, hd⟩ := exists_of_mem_right h.datatypes he
  exact ⟨d, hd⟩

/-- A constructor of a datatype stands under its own name and refers back to the datatype. -/
theorem Registry.Records.own (h : r.Records accepted) {e : String × Datatype}
    (he : e ∈ r.datatypes) {e' : String × Constructor} (he' : e' ∈ e.2.constructors) :
    e'.1 = e'.2.name ∧ e'.2.datatype = e.1 := by
  obtain ⟨d, cs, hdescribes, rfl⟩ := h.gives he
  obtain ⟨c, hc, rfl⟩ := List.mem_map.mp he'
  obtain ⟨spec, _, -, hdatatype, -⟩ := exists_of_mem_right hdescribes hc
  exact ⟨rfl, hdatatype⟩

theorem Registry.Records.mem_constructors_iff (h : r.Records accepted)
    {e' : String × Constructor} :
    e' ∈ r.constructors ↔ ∃ e ∈ r.datatypes, e' ∈ e.2.constructors := by
  rw [h.constructors, List.mem_flatMap]

theorem Registry.Records.mem_names_iff (h : r.Records accepted) {name : String} :
    name ∈ Table.names r.constructors ↔
      ∃ e ∈ r.datatypes, name ∈ Table.names e.2.constructors := by
  simp only [Table.names, List.mem_map, h.mem_constructors_iff]
  constructor
  · rintro ⟨e', ⟨e, he, he'⟩, rfl⟩
    exact ⟨e, he, e', he', rfl⟩
  · rintro ⟨e, he, e', he', rfl⟩
    exact ⟨e', ⟨e, he, he'⟩, rfl⟩

/-- A constructor stands under its own name. -/
theorem Registry.Records.name_eq (h : r.Records accepted) {e' : String × Constructor}
    (he' : e' ∈ r.constructors) : e'.1 = e'.2.name := by
  obtain ⟨e, he, he'⟩ := h.mem_constructors_iff.mp he'
  exact (h.own he he').1

/-- A constructor lies in one datatype, the one it refers back to. -/
theorem Registry.Records.exists_home (h : r.Records accepted) {e' : String × Constructor}
    (he' : e' ∈ r.constructors) :
    ∃ home ∈ r.datatypes, home.1 = e'.2.datatype ∧
      ∀ e ∈ r.datatypes, e' ∈ e.2.constructors ↔ e = home := by
  obtain ⟨home, hhome, hmem⟩ := h.mem_constructors_iff.mp he'
  have hdatatype := (h.own hhome hmem).2
  refine ⟨home, hhome, hdatatype.symm, ?_⟩
  intro e he
  constructor
  · intro hmem'
    have hname : e.1 = home.1 := (h.own he hmem').2.symm.trans hdatatype
    have hfind := Table.get?_of_mem h.nodup_datatypes he
    rw [hname, Table.get?_of_mem h.nodup_datatypes hhome] at hfind
    exact Prod.ext hname (Option.some.inj hfind).symm
  · rintro rfl
    exact hmem

/-- The constructors of all descriptions, in terms of what the declaration says. -/
theorem forall₂_constructorOf_iff {d : Declaration} {mode : Mode} (hmode : d.mode = mode.datum)
    {cs : List Constructor} :
    List.Forall₂ (fun spec c => Registry.constructorOf d.name mode spec = .ok c) d.specs cs ↔
      (d.mode = Mode.strict.datum → ∀ spec ∈ d.specs, spec.isMarked = false) ∧ d.Describes cs := by
  have hsame : ∀ other : Mode, mode = other ↔ d.mode = other.datum := by
    intro other
    rw [← Mode.ofDatum?_eq_some_iff, hmode, Mode.ofDatum?_eq_some_iff.mpr rfl, Option.some_inj]
  simp only [constructorOf_eq_ok_iff, hsame, List.forall₂_and_left, Declaration.Describes]
  refine and_congr_left fun _ => ⟨?_, ?_⟩
  · intro h hstrict spec hspec
    exact h spec hspec hstrict
  · intro h spec hspec hstrict
    exact h hstrict spec hspec

/-- A declaration is accepted when it fulfils what is asked of it, and refused otherwise. -/
theorem declare_eq_ok_iff (h : r.Records accepted) {d : Declaration} {made : Datatype × Registry} :
    r.declare d.name d.specs d.mode = .ok made ↔
      ∃ cs, r.Accepts d cs ∧
        made = (.ofVariants d.name cs, r.enter (.ofVariants d.name cs)) := by
  have hcontains : r.datatypes.contains d.name = true ↔ d.name ∈ Table.names r.datatypes :=
    Table.isSome_get?_iff
  have hbare : ∀ c : Constructor, c.name ∉ Table.names r.constructors ↔
      ∀ e ∈ r.datatypes, c.name ∉ Table.names e.2.constructors := by
    intro c
    simp only [h.mem_names_iff, not_exists, not_and]
  constructor
  · intro hdeclare
    unfold Registry.declare at hdeclare
    split at hdeclare
    · rename_i mode hmode
      rw [Mode.ofDatum?_eq_some_iff] at hmode
      split at hdeclare
      · cases hdeclare
      · rename_i hname
        obtain ⟨cs, hcs, hdeclare⟩ := bind_eq_ok.mp hdeclare
        cases hdeclare
        obtain ⟨hall, hnodup, hnew⟩ := constructorsOf_eq_ok_iff.mp hcs
        obtain ⟨hunmarked, hdescribes⟩ := (forall₂_constructorOf_iff hmode).mp hall
        refine ⟨cs, ⟨⟨mode, hmode⟩, ?_, hunmarked, hdescribes, hnodup, ?_⟩, rfl⟩
        · rwa [hcontains] at hname
        · intro c hc
          exact (hbare c).mp (hnew c hc).2
    · cases hdeclare
  · rintro ⟨cs, haccepts, rfl⟩
    obtain ⟨mode, hmode⟩ := haccepts.mode
    have hcs : r.constructorsOf d.name mode d.specs [] = .ok cs := by
      refine constructorsOf_eq_ok_iff.mpr ⟨?_, haccepts.distinct, ?_⟩
      · exact (forall₂_constructorOf_iff hmode).mpr ⟨haccepts.unmarked, haccepts.described⟩
      · intro c hc
        exact ⟨List.not_mem_nil, (hbare c).mpr (haccepts.unregistered c hc)⟩
    unfold Registry.declare
    simp only [Mode.ofDatum?_eq_some_iff.mpr hmode, hcontains, haccepts.fresh, if_false]
    exact bind_eq_ok.mpr ⟨cs, hcs, rfl⟩

/-- An accepted declaration is recorded after those before it. -/
theorem Registry.Records.enter (h : r.Records accepted) {d : Declaration} {cs : List Constructor}
    (haccepts : r.Accepts d cs) :
    (r.enter (.ofVariants d.name cs)).Records (accepted ++ [d]) ∧
      (r.enter (.ofVariants d.name cs)).datatypes =
        r.datatypes ++ [(d.name, .ofVariants d.name cs)] := by
  -- All names are new, so that entering the constructors one by one appends them.
  have hnames : (Table.names (r.constructors ++ cs.map fun c => (c.name, c))).Nodup := by
    have happend : Table.names (r.constructors ++ cs.map fun c => (c.name, c)) =
        Table.names r.constructors ++ cs.map (·.name) := by
      simp [Table.names, Function.comp_def]
    rw [happend, List.nodup_append]
    refine ⟨h.nodup_constructors, haccepts.distinct, ?_⟩
    rintro name hname _ hmem rfl
    obtain ⟨c, hc, rfl⟩ := List.mem_map.mp hmem
    obtain ⟨e, he, hmem⟩ := h.mem_names_iff.mp hname
    exact haccepts.unregistered c hc e he hmem
  have hdatatypes : (r.enter (.ofVariants d.name cs)).datatypes =
      r.datatypes ++ [(d.name, .ofVariants d.name cs)] := Table.put_of_not_mem haccepts.fresh _
  have hconstructors : (r.enter (.ofVariants d.name cs)).constructors =
      r.constructors ++ cs.map fun c => (c.name, c) := by
    rw [Registry.constructors_enter, Datatype.variants_ofVariants]
    exact Table.foldl_put_of_nodup hnames
  refine ⟨⟨?_, ?_, ?_, ?_⟩, hdatatypes⟩
  · rw [hdatatypes]
    exact List.rel_append h.datatypes (.cons ⟨cs, haccepts.described, rfl⟩ .nil)
  · rw [hconstructors, hdatatypes, h.constructors, List.flatMap_append]
    simp [Datatype.ofVariants]
  · exact Table.nodup_put h.nodup_datatypes _ _
  · rwa [hconstructors]

end Records

/-! ### Tags -/

theorem cutLast_eq_none_iff {sep : Char} {text : List Char} :
    cutLast sep text = none ↔ sep ∉ text := by
  induction text with
  | nil => simp [cutLast]
  | cons c text ih =>
    rw [cutLast, List.mem_cons, not_or, ← ih]
    cases cutLast sep text with
    | some parts => simp
    | none => simp [eq_comm]

/-- A text is cut at its last separator, so that none is left in what follows. -/
theorem cutLast_eq_some_iff {sep : Char} {text head tail : List Char} :
    cutLast sep text = some (head, tail) ↔ text = head ++ sep :: tail ∧ sep ∉ tail := by
  constructor
  · intro h
    induction text generalizing head with
    | nil => cases h
    | cons c text ih =>
      rw [cutLast] at h
      cases hrest : cutLast sep text with
      | some parts =>
        rw [hrest] at h
        cases h
        obtain ⟨htext, htail⟩ := ih hrest
        exact ⟨by rw [htext, List.cons_append], htail⟩
      | none =>
        simp only [hrest] at h
        split at h
        · rename_i hc
          cases h
          exact ⟨by rw [hc, List.nil_append], cutLast_eq_none_iff.mp hrest⟩
        · cases h
  · rintro ⟨rfl, htail⟩
    induction head with
    | nil => rw [List.nil_append, cutLast, cutLast_eq_none_iff.mpr htail]; simp
    | cons c head ih => rw [List.cons_append, cutLast, ih]

/-- A qualified tag names a datatype and, after its last dot, a constructor. -/
theorem qualified?_eq_some_iff {tag datatype name : String} :
    Registry.qualified? tag = some (datatype, name) ↔
      tag = datatype ++ "." ++ name ∧ '.' ∉ name.toList := by
  have htag : tag = datatype ++ "." ++ name ↔
      tag.toList = datatype.toList ++ '.' :: name.toList := by
    rw [← String.toList_inj]
    simp
  rw [htag, ← cutLast_eq_some_iff, Registry.qualified?, Option.map_eq_some_iff]
  constructor
  · rintro ⟨⟨head, tail⟩, hcut, heq⟩
    cases heq
    simpa using hcut
  · intro hcut
    exact ⟨_, hcut, by simp⟩

/-- The constructors that the datatypes of a registry hold. -/
def Registry.Holds (r : Registry) (c : Constructor) : Prop := ∃ e ∈ r.datatypes, c ∈ e.2.variants

instance (r : Registry) (c : Constructor) : Decidable (r.Holds c) :=
  inferInstanceAs (Decidable (∃ e ∈ r.datatypes, c ∈ e.2.variants))

section Tags

variable {r : Registry} {accepted : List Declaration}

theorem Registry.Records.mem_variants_iff (h : r.Records accepted) {e : String × Datatype}
    (he : e ∈ r.datatypes) {c : Constructor} :
    c ∈ e.2.variants ↔ (c.name, c) ∈ e.2.constructors := by
  obtain ⟨d, cs, -, rfl⟩ := h.gives he
  rw [Datatype.variants_ofVariants, Datatype.ofVariants, List.mem_map]
  constructor
  · intro hc
    exact ⟨c, hc, rfl⟩
  · rintro ⟨c', hc', heq⟩
    obtain rfl : c' = c := (Prod.mk.inj heq).2
    exact hc'

theorem Registry.Records.holds_iff (h : r.Records accepted) {c : Constructor} :
    r.Holds c ↔ (c.name, c) ∈ r.constructors := by
  rw [h.mem_constructors_iff]
  refine exists_congr fun e => and_congr_right fun he => ?_
  exact h.mem_variants_iff he

/-- What stands in the table of bare names is a constructor under its name. -/
theorem Registry.Records.of_get? (h : r.Records accepted) {name : String} {c : Constructor}
    (hfind : r.constructors.get? name = some c) : r.Holds c ∧ c.name = name := by
  have hmem := Table.mem_of_get? hfind
  obtain rfl : name = c.name := h.name_eq hmem
  exact ⟨h.holds_iff.mpr hmem, rfl⟩

theorem Registry.Records.get?_name (h : r.Records accepted) {c : Constructor} (hc : r.Holds c) :
    r.constructors.get? c.name = some c :=
  Table.get?_of_mem h.nodup_constructors (h.holds_iff.mp hc)

/-- Constructors of one name are one constructor. -/
theorem Registry.Records.eq_of_name_eq (h : r.Records accepted) {c c' : Constructor}
    (hc : r.Holds c) (hc' : r.Holds c') (hname : c.name = c'.name) : c = c' := by
  have hfind := h.get?_name hc
  rw [hname, h.get?_name hc'] at hfind
  exact (Option.some.inj hfind).symm

/-- Every constructor is found by its bare name. -/
theorem Registry.Records.resolve?_name (h : r.Records accepted) {c : Constructor}
    (hc : r.Holds c) : r.resolve? c.name = some c := by
  rw [Registry.resolve?, h.get?_name hc]

/-- A datatype finds exactly its own constructors, by their names. -/
theorem Registry.Records.find_iff (h : r.Records accepted) {datatype name : String}
    {c : Constructor} :
    (r.datatype? datatype).bind (·.constructors.get? name) = some c ↔
      r.Holds c ∧ c.datatype = datatype ∧ c.name = name := by
  constructor
  · intro hfind
    obtain ⟨d, hd, hc⟩ := Option.bind_eq_some_iff.mp hfind
    have he := Table.mem_of_get? hd
    have hmem := Table.mem_of_get? hc
    obtain ⟨hname, hdatatype⟩ := h.own he hmem
    exact ⟨⟨_, he, List.mem_map_of_mem hmem⟩, hdatatype, hname.symm⟩
  · rintro ⟨⟨e, he, hc⟩, rfl, rfl⟩
    have hmem := (h.mem_variants_iff he).mp hc
    have hdatatype : r.datatype? c.datatype = some e.2 := by
      rw [(h.own he hmem).2]
      exact Table.get?_of_mem h.nodup_datatypes he
    have hsome : (e.2.constructors.get? c.name).isSome :=
      Table.isSome_get?_iff.mpr (List.mem_map_of_mem hmem)
    obtain ⟨c', hc'⟩ := Option.isSome_iff_exists.mp hsome
    have hmem' := Table.mem_of_get? hc'
    have hsame : c' = c :=
      h.eq_of_name_eq ⟨e, he, List.mem_map_of_mem hmem'⟩ ⟨e, he, hc⟩ (h.own he hmem').1.symm
    rw [hdatatype, Option.bind_some, hc', hsame]

/-- A tag stands for a constructor whose bare name or key it is. -/
theorem Registry.Records.of_resolve? (h : r.Records accepted) {tag : String} {c : Constructor}
    (hresolve : r.resolve? tag = some c) : r.Holds c ∧ (tag = c.name ∨ tag = c.key) := by
  unfold Registry.resolve? at hresolve
  split at hresolve
  · rename_i c' hbare
    cases hresolve
    obtain ⟨hc, hname⟩ := h.of_get? hbare
    exact ⟨hc, .inl hname.symm⟩
  · split at hresolve
    · rename_i datatype name hqualified
      obtain ⟨hc, rfl, rfl⟩ := h.find_iff.mp hresolve
      exact ⟨hc, .inr (qualified?_eq_some_iff.mp hqualified).1⟩
    · cases hresolve

end Tags

/-! ### Making datatypes -/

theorem Entries.get?_ofTable (t : Table Value) (name : String) :
    (Entries.ofTable t).get? (.text name) = t.get? name := by
  induction t with
  | nil => rfl
  | cons e t ih =>
    obtain ⟨k, v⟩ := e
    by_cases hk : k = name
    · simp [Entries.ofTable, Entries.get?, Table.get?, hk]
    · simpa [Entries.ofTable, Entries.get?, Table.get?, hk] using ih

/-- Whether a value is what a declaration makes of a constructor: the value of a constant, or the
factory itself. -/
def Store.HoldsValue (s : Store) (c : Constructor) (v : Value) : Prop :=
  if c.isConstant then s.HoldsConstant c v else v = .constructor c

theorem Store.HoldsValue.mono {s s' : Store} (hs : s.Widens s') {c : Constructor} {v : Value}
    (h : s.HoldsValue c v) : s'.HoldsValue c v := by
  unfold Store.HoldsValue at h ⊢
  cases hk : c.isConstant with
  | false => simpa [hk] using h
  | true =>
    simp only [hk, if_true] at h ⊢
    exact h.mono hs

/-- The value of a constructor is made, and what there was before stays. -/
theorem outcome_makeVariant (c : Constructor) (s : Store) :
    ∃ v s', outcome c.make s = (.ok v, s') ∧ s.Widens s' ∧ s'.HoldsValue c v := by
  cases hk : c.isConstant with
  | false =>
    refine ⟨.constructor c, s, by rw [Constructor.make_of_not_isConstant hk, outcome_pure],
      .refl s, ?_⟩
    rw [Store.HoldsValue, if_neg (by simp [hk])]
  | true =>
    let entries : Entries := .ofTable [("", .text c.key)]
    let s₁ := s.withRecord entries
    have hs₁ : s.Widens s₁ := widens_withRecord s entries
    have hlt : s.records.size < s₁.records.size := by simp [s₁, Store.withRecord]
    have hentries : c.entries [] = entries := by
      rw [Constructor.entries, Constructor.fields_of_isConstant hk]
      rfl
    have hmade : s₁.entries ⟨s.records.size⟩ = c.entries [] :=
      (s.entries_withRecord entries).trans hentries.symm
    rw [Constructor.make_of_isConstant hk]
    simp only [Store.HoldsValue, if_pos hk]
    cases hlazy : c.lazy with
    | false =>
      refine ⟨.record ⟨s.records.size⟩, s₁, c.outcome_wrap_of_strict hlazy _ _ s, hs₁,
        ⟨s.records.size⟩, hlt, hmade, ?_⟩
      rw [if_neg (by simp [hlazy])]
    | true =>
      refine ⟨.thunk ⟨s.thunks.size⟩, s₁.withThunk (.constant ⟨s.records.size⟩),
        c.outcome_wrap_of_lazy hlazy _ _ s,
        hs₁.trans ⟨fun _ _ h => h, fun _ _ h => h, (advances_withThunk s₁ _).defers⟩,
        ⟨s.records.size⟩, hlt, hmade, ?_⟩
      rw [if_pos hlazy]
      exact ⟨_, rfl, .inl (s₁.cell_withThunk _)⟩

/-- The values of constructors under their names. -/
def Store.HoldsValues (s : Store) : List Constructor → Table Value → Prop :=
  List.Forall₂ fun c e => e.1 = c.name ∧ s.HoldsValue c e.2

theorem Store.HoldsValues.mono {s s' : Store} (hs : s.Widens s') {cs : List Constructor}
    {values : Table Value} (h : s.HoldsValues cs values) : s'.HoldsValues cs values :=
  h.imp fun _ _ hv => ⟨hv.1, hv.2.mono hs⟩

theorem outcome_makeVariants (cs : List Constructor) (s : Store) :
    ∃ values s', outcome (cs.mapM fun c => return (c.name, ← c.make)) s = (.ok values, s') ∧
      s.Widens s' ∧ s'.HoldsValues cs values := by
  induction cs generalizing s with
  | nil => exact ⟨[], s, rfl, .refl s, .nil⟩
  | cons c cs ih =>
    obtain ⟨v, s₁, hv, hs₁, hvalue⟩ := outcome_makeVariant c s
    obtain ⟨values, s₂, hvalues, hs₂, hall⟩ := ih s₁
    refine ⟨(c.name, v) :: values, s₂, ?_, hs₁.trans hs₂, .cons ⟨rfl, hvalue.mono hs₂⟩ hall⟩
    rw [List.mapM_cons, bind_assoc, outcome_bind_ok hv, pure_bind, outcome_bind_ok hvalues]
    rfl

/-- What is made for a declared datatype: the record of its members, among which are the records of
its constructors and of their values under their names. -/
def Store.Carries (s : Store) (ref : DatatypeRef) (d : Datatype) : Prop :=
  ∃ (members constructors values : RecordRef) (table : Table Value),
    s.datatypes[ref.index]? = some members ∧
    s.records[members.index]? = some (.ofTable [("name", .text d.name),
      ("_constructors", .record constructors), ("_values", .record values),
      ("_sealed", .bool true)]) ∧
    s.records[constructors.index]? =
      some (.ofTable (d.variants.map fun c => (c.name, .constructor c))) ∧
    s.records[values.index]? = some (.ofTable table) ∧ s.HoldsValues d.variants table

theorem Store.Carries.mono {s s' : Store} (hs : s.Widens s') {ref : DatatypeRef} {d : Datatype}
    (h : s.Carries ref d) : s'.Carries ref d := by
  obtain ⟨members, constructors, values, table, hmembers, hentries, hconstructors, hvalues,
    hall⟩ := h
  exact ⟨members, constructors, values, table, hs.datatypes _ _ hmembers,
    hs.records _ _ hentries, hs.records _ _ hconstructors, hs.records _ _ hvalues, hall.mono hs⟩

/-- A datatype is made, and what there was before stays. -/
theorem outcome_makeDatatype (d : Datatype) (s : Store) :
    ∃ ref s', outcome d.make s = (.ok ref, s') ∧ s.Widens s' ∧ s'.Carries ref d := by
  obtain ⟨values, s₁, hvalues, hs₁, hall⟩ := outcome_makeVariants d.variants s
  let s₂ := s₁.withRecord (.ofTable values)
  let s₃ := s₂.withRecord (.ofTable (d.variants.map fun c => (c.name, .constructor c)))
  let s₄ := s₃.withRecord (.ofTable [("name", .text d.name),
    ("_constructors", .record ⟨s₂.records.size⟩), ("_values", .record ⟨s₁.records.size⟩),
    ("_sealed", .bool true)])
  let s₅ : Store := { s₄ with datatypes := s₄.datatypes.push ⟨s₃.records.size⟩ }
  have hmake : outcome d.make s = (.ok ⟨s₄.datatypes.size⟩, s₅) := by
    rw [Datatype.make, outcome_bind_ok hvalues]
    rfl
  have hs₂ : s₁.Widens s₂ := widens_withRecord _ _
  have hs₃ : s₂.Widens s₃ := widens_withRecord _ _
  have hs₄ : s₃.Widens s₄ := widens_withRecord _ _
  have hs₅ : s₄.Widens s₅ :=
    ⟨fun _ _ h => h, fun _ _ h => getElem?_push_of_eq_some h, fun _ _ h => h⟩
  have htable : s₂.records[s₁.records.size]? = some (.ofTable values) := Array.getElem?_push_size
  have hrecords : s₃.records[s₂.records.size]? =
      some (.ofTable (d.variants.map fun c => (c.name, .constructor c))) :=
    Array.getElem?_push_size
  have hrest : s₂.Widens s₅ := hs₃.trans (hs₄.trans hs₅)
  exact ⟨_, _, hmake, hs₁.trans (hs₂.trans hrest),
    ⟨s₃.records.size⟩, ⟨s₂.records.size⟩, ⟨s₁.records.size⟩, values, Array.getElem?_push_size,
    Array.getElem?_push_size, (hs₄.trans hs₅).records _ _ hrecords, hrest.records _ _ htable,
    hall.mono (hs₂.trans hrest)⟩

section Carries

variable {s : Store} {ref : DatatypeRef} {d : Datatype}

/-- The members of a declared datatype, which stay. -/
theorem Store.Carries.exists_members (h : s.Carries ref d) :
    ∃ (constructors values : RecordRef) (table : Table Value), s.HoldsValues d.variants table ∧
      ∀ s' : Store, s.Widens s' →
        (∀ name, s'.field? (s'.members ref) name = Table.get? [("name", .text d.name),
          ("_constructors", .record constructors), ("_values", .record values),
          ("_sealed", .bool true)] name) ∧
        s'.entries constructors = .ofTable (d.variants.map fun c => (c.name, .constructor c)) ∧
        s'.entries values = .ofTable table := by
  obtain ⟨members, constructors, values, table, hmembers, hentries, hconstructors, hvalues,
    hall⟩ := h
  refine ⟨constructors, values, table, hall, fun s' hs => ⟨fun name => ?_, ?_, ?_⟩⟩
  · rw [Store.field?, Store.members, hs.datatypes _ _ hmembers, Option.getD_some, Store.entries,
      hs.records _ _ hentries, Option.getD_some, Entries.get?_ofTable]
  · rw [Store.entries, hs.records _ _ hconstructors, Option.getD_some]
  · rw [Store.entries, hs.records _ _ hvalues, Option.getD_some]

/-- The constructors of a declared datatype are found in its members. -/
theorem Store.Carries.member (h : s.Carries ref d) :
    ∃ constructors : RecordRef, s.member ref "_constructors" = .ok (.record constructors) ∧
      s.entries constructors = .ofTable (d.variants.map fun c => (c.name, .constructor c)) ∧
      s.field? (s.members ref) Operation.constructor.key = none := by
  obtain ⟨constructors, values, table, -, hmembers⟩ := h.exists_members
  obtain ⟨hfield, hconstructors, -⟩ := hmembers s (.refl s)
  refine ⟨constructors, ?_, hconstructors, ?_⟩
  · rw [Store.member, hfield]
    rfl
  · rw [hfield]
    rfl

/-- A declared datatype is read off its members as it was declared. -/
theorem Store.Carries.current {name : String} {cs : List Constructor}
    (h : s.Carries ref (.ofVariants name cs)) :
    (Datatype.ofVariants name cs).current s ref = .ofVariants name cs := by
  obtain ⟨constructors, hmember, hentries, hfield⟩ := h.member
  rw [Datatype.variants_ofVariants] at hentries
  simp only [Datatype.current, hmember, hfield, hentries, Entries.ofTable, List.map_map,
    List.filterMap_map]
  exact congrArg (Datatype.mk name) (congrFun List.filterMap_eq_map cs)

/-- Whether a declared datatype has a constructor of a name. -/
theorem Store.Carries.holds {name : String} {cs : List Constructor}
    (h : s.Carries ref (.ofVariants name cs)) (wanted : String) :
    outcome (holdsConstructor ref (.text wanted)) s =
      (.ok ((Datatype.ofVariants name cs).constructors.get? wanted).isSome, s) := by
  obtain ⟨constructors, hmember, hentries, -⟩ := h.member
  have hfind : (s.entries constructors).get? (.text wanted) =
      ((Datatype.ofVariants name cs).constructors.get? wanted).map Value.constructor := by
    rw [hentries, Entries.get?_ofTable, ← Table.get?_map, Datatype.variants_ofVariants,
      Datatype.ofVariants, List.map_map]
    rfl
  have hkey : (Value.text wanted).isKey = true := rfl
  rw [holdsConstructor, outcome_get_bind, LazyMatch.holds, outcome_get_bind, hmember, orRaise,
    pure_bind, LazyMatch.holds, if_pos hkey, outcome_get_bind, hfind, Option.isSome_map]
  rfl

end Carries

/-! ### Sessions -/

/-- What comes of a declaration in a session, and the session that it leaves. -/
def Declaration.attempt (d : Declaration) (session : Session) :
    Except Stop (Datatype × List Note) × Session :=
  runFrom (Session.declareDatatype d.name d.specs d.mode) session

/-- The session after declarations one after the other, whatever comes of each. -/
def Session.declaring (session : Session) : List Declaration → Session
  | [] => session
  | d :: ds => (d.attempt session).2.declaring ds

/-- Those among declarations one after the other that are accepted. -/
def Session.accepting (session : Session) : List Declaration → List Declaration
  | [] => []
  | d :: ds =>
    match d.attempt session with
    | (.ok _, session') => d :: session'.accepting ds
    | (.error _, session') => session'.accepting ds

/-- What a session keeps that has accepted declarations: its registry records them, and each
datatype has been made. -/
structure Session.Keeps (session : Session) (accepted : List Declaration) : Prop where
  records : session.env.registry.Records accepted
  carries : List.Forall₂ (fun e e' => e'.1 = e.1 ∧ session.store.Carries e'.2 e.2)
    session.env.registry.datatypes session.env.datatypes

theorem Session.keeps_new : Session.Keeps {} [] := ⟨Registry.records_empty, .nil⟩

section Keeps

variable {session : Session} {accepted : List Declaration}

theorem Session.Keeps.names_eq (h : session.Keeps accepted) :
    Table.names session.env.datatypes = Table.names session.env.registry.datatypes :=
  map_eq_map_of_forall₂ h.carries fun _ _ hR => hR.1

/-- A datatype of the registry has been made. -/
theorem Session.Keeps.exists_ref (h : session.Keeps accepted) {e : String × Datatype}
    (he : e ∈ session.env.registry.datatypes) :
    ∃ ref, session.env.datatypes.get? e.1 = some ref ∧ session.store.Carries ref e.2 := by
  obtain ⟨e', he', hname, hcarries⟩ := exists_of_mem_right h.carries.flip he
  refine ⟨e'.2, Table.get?_of_mem ?_ ?_, hcarries⟩
  · rw [h.names_eq]
    exact h.records.nodup_datatypes
  · rwa [← hname]

/-- The registry is read off the members of the datatypes as it was declared. -/
theorem Session.Keeps.registry (h : session.Keeps accepted) :
    runFrom Session.registry session = (.ok session.env.registry, session) := by
  refine congrArg
    (fun datatypes => (Except.ok ({ session.env.registry with datatypes } : Registry), session))
    ((List.map_congr_left fun e he => ?_).trans (List.map_id _))
  obtain ⟨ref, href, hcarries⟩ := h.exists_ref he
  obtain ⟨d, cs, -, rfl⟩ := h.records.gives he
  simp only [href, hcarries.current, id]

/-- A declaration that the registry does not admit is refused, and leaves the session as it was. -/
theorem Session.Keeps.refuses (h : session.Keeps accepted) {d : Declaration}
    (hd : ¬ session.env.registry.Admits d) :
    ∃ f, d.attempt session = (.error (.fault (.declaration f)), session) := by
  cases hdeclare : session.env.registry.declare d.name d.specs d.mode with
  | ok made =>
    obtain ⟨cs, haccepts, -⟩ := (declare_eq_ok_iff h.records).mp hdeclare
    exact absurd ⟨cs, haccepts⟩ hd
  | error f =>
    refine ⟨f, ?_⟩
    rw [Declaration.attempt, Session.declareDatatype, runFrom_bind_ok h.registry, hdeclare]
    rfl

/-- A declaration that the registry admits is accepted, and recorded. -/
theorem Session.Keeps.accepts (h : session.Keeps accepted) {d : Declaration}
    {cs : List Constructor} (hcs : session.env.registry.Accepts d cs) :
    ∃ notes session', d.attempt session = (.ok (.ofVariants d.name cs, notes), session') ∧
      session'.env.registry = session.env.registry.enter (.ofVariants d.name cs) ∧
      session'.Keeps (accepted ++ [d]) := by
  have hdeclare := (declare_eq_ok_iff h.records).mpr ⟨cs, hcs, rfl⟩
  obtain ⟨ref, s', hmake, hwidens, hcarries⟩ :=
    outcome_makeDatatype (.ofVariants d.name cs) session.store
  have hrun : runFrom (Session.run fun _ => (Datatype.ofVariants d.name cs).make) session =
      (.ok ref, { session with store := s' }) := runFrom_run hmake
  obtain ⟨hrecords, hdatatypes⟩ := h.records.enter hcs
  let env : Env := { session.env with
    registry := session.env.registry.enter (.ofVariants d.name cs)
    datatypes := session.env.datatypes.put d.name ref }
  have hput : env.datatypes = session.env.datatypes ++ [(d.name, ref)] :=
    Table.put_of_not_mem (by rw [h.names_eq]; exact hcs.fresh) _
  let shown := ", ".intercalate ((Datatype.ofVariants d.name cs).variants.map (·.quoted))
  refine ⟨[⟨1, "datatype " ++ d.name ++ ": " ++ shown⟩], ⟨env, s'⟩, ?_, rfl, hrecords, ?_⟩
  · rw [Declaration.attempt, Session.declareDatatype, runFrom_bind_ok h.registry, hdeclare]
    exact runFrom_bind_ok hrun _
  · -- What the earlier datatypes carry is still there, since a datatype is made of new records.
    have hold : List.Forall₂ (fun e e' => e'.1 = e.1 ∧ s'.Carries e'.2 e.2)
        session.env.registry.datatypes session.env.datatypes :=
      h.carries.imp fun _ _ hR => ⟨hR.1, hR.2.mono hwidens⟩
    have hnew : List.Forall₂ (fun (e : String × Datatype) (e' : String × DatatypeRef) =>
        e'.1 = e.1 ∧ s'.Carries e'.2 e.2)
        [(d.name, Datatype.ofVariants d.name cs)] [(d.name, ref)] := .cons ⟨rfl, hcarries⟩ .nil
    have hall : List.Forall₂ _ (_ ++ _) (_ ++ _) := List.rel_append hold hnew
    rwa [← hdatatypes, ← hput] at hall

/-- A session keeps the invariant through declarations, and records those that it accepts. -/
theorem Session.Keeps.declaring (h : session.Keeps accepted) (ds : List Declaration) :
    (session.declaring ds).Keeps (accepted ++ session.accepting ds) := by
  induction ds generalizing session accepted with
  | nil => simpa [Session.declaring, Session.accepting] using h
  | cons d ds ih =>
    rw [Session.declaring, Session.accepting]
    by_cases hd : session.env.registry.Admits d
    · obtain ⟨cs, hcs⟩ := hd
      obtain ⟨notes, session', hattempt, -, hkeeps⟩ := h.accepts hcs
      rw [hattempt]
      simpa using ih hkeeps
    · obtain ⟨f, hattempt⟩ := h.refuses hd
      rw [hattempt]
      exact ih h

/-- What a datatype does not hold under a name of its own is nothing else either. -/
theorem Session.Keeps.stranger? (h : session.Keeps accepted) {tag : String}
    (htag : session.env.registry.resolve? tag = none) (again : Task → Run Value) :
    outcome (Session.stranger? again session.env tag) session.store =
      (.ok none, session.store) := by
  rw [Session.stranger?]
  cases hqualified : Registry.qualified? tag with
  | none => rfl
  | some parts =>
    obtain ⟨datatype, name⟩ := parts
    have hfind : (session.env.registry.datatype? datatype).bind (·.constructors.get? name) =
        none := by
      rw [Registry.resolve?, hqualified] at htag
      split at htag
      · cases htag
      · exact htag
    cases href : session.env.datatypes.get? datatype with
    | none => simp only [href, outcome_pure]
    | some ref =>
      have hname : datatype ∈ Table.names session.env.registry.datatypes := by
        rw [← h.names_eq, ← Table.isSome_get?_iff, href, Option.isSome_some]
      obtain ⟨e, he, rfl⟩ := List.mem_map.mp hname
      obtain ⟨ref', href', hcarries⟩ := h.exists_ref he
      obtain rfl : ref = ref' := Option.some.inj (href.symm.trans href')
      have hdatatype : session.env.registry.datatype? e.1 = some e.2 :=
        Table.get?_of_mem h.records.nodup_datatypes he
      obtain ⟨d, cs, -, rfl⟩ := h.records.gives he
      rw [hdatatype, Option.bind_some] at hfind
      have hholds := hcarries.holds name
      rw [hfind, Option.isSome_none] at hholds
      simp only [href]
      rw [outcome_bind_ok hholds]
      rfl

/-- What a tag stands for in a session is what it resolves to in the registry. -/
theorem Session.Keeps.resolve? (h : session.Keeps accepted) (evaluate : Env → Task → Run Value)
    (tag : String) :
    runFrom (Session.resolve? evaluate tag) session =
      (.ok ((session.env.registry.resolve? tag).map .constructor), session) := by
  rw [Session.resolve?, runFrom_bind_ok h.registry]
  cases htag : session.env.registry.resolve? tag with
  | some c => rfl
  | none => exact runFrom_run (h.stranger? htag (evaluate session.env))

end Keeps

/-- **The registry stays consistent, and declarations are all or nothing.** After declarations of
any kind, one after the other, the registry records those that were accepted. The next one is
accepted exactly when the registry admits it, and leaves the whole session as it was when it is
refused. Tags stand for constructors whose bare names or keys they are, and every bare name stands
for its constructor. -/
theorem registration_consistent (evaluate : Env → Task → Run Value) (ds : List Declaration) :
    ∃ r : Registry,
      runFrom Session.registry (Session.declaring {} ds) = (.ok r, Session.declaring {} ds) ∧
      r.Records (Session.accepting {} ds) ∧
      (∀ e ∈ r.constructors, e.1 = e.2.name ∧ ∃ home ∈ r.datatypes, home.1 = e.2.datatype ∧
        ∀ other ∈ r.datatypes, e ∈ other.2.constructors ↔ other = home) ∧
      (∀ d : Declaration,
        ((∃ made, (d.attempt (Session.declaring {} ds)).1 = .ok made) ↔ r.Admits d) ∧
        ∀ stop, (d.attempt (Session.declaring {} ds)).1 = .error stop →
          (d.attempt (Session.declaring {} ds)).2 = Session.declaring {} ds) ∧
      (∀ tag v, (runFrom (Session.resolve? evaluate tag) (Session.declaring {} ds)).1 =
          .ok (some v) →
        ∃ c, v = .constructor c ∧ r.Holds c ∧ (tag = c.name ∨ tag = c.key)) ∧
      ∀ c, r.Holds c → (runFrom (Session.resolve? evaluate c.name) (Session.declaring {} ds)).1 =
        .ok (some (.constructor c)) := by
  have h : (Session.declaring {} ds).Keeps (Session.accepting {} ds) :=
    Session.keeps_new.declaring ds
  refine ⟨_, h.registry, h.records, ?_, ?_, ?_, ?_⟩
  · intro e he
    exact ⟨h.records.name_eq he, h.records.exists_home he⟩
  · intro d
    by_cases hd : (Session.declaring {} ds).env.registry.Admits d
    · obtain ⟨cs, hcs⟩ := hd
      obtain ⟨notes, session', hattempt, -, -⟩ := h.accepts hcs
      rw [hattempt]
      exact ⟨⟨fun _ => ⟨cs, hcs⟩, fun _ => ⟨_, rfl⟩⟩, fun _ hstop => by cases hstop⟩
    · obtain ⟨f, hattempt⟩ := h.refuses hd
      rw [hattempt]
      exact ⟨⟨fun ⟨_, hmade⟩ => (by cases hmade), fun hadmits => absurd hadmits hd⟩, fun _ _ => rfl⟩
  · intro tag v hv
    rw [h.resolve? evaluate tag] at hv
    obtain ⟨c, hc, rfl⟩ := Option.map_eq_some_iff.mp (Except.ok.inj hv)
    exact ⟨c, rfl, h.records.of_resolve? hc⟩
  · intro c hc
    rw [h.resolve? evaluate c.name, h.records.resolve?_name hc]
    rfl

end LazyMatch
