import PartialEntity.Proofs.Graph.RoundTrip

/-!
# Where reading stops

A text that is not read is read up to some place: some levels are open there, items stand before it
at the innermost one, and what follows cannot go on.  `Leads` says which beginnings of a text lead
to a level where an item is due, and `Halts` for what reasons reading stops at that level.  Reading
fails exactly at such a place, and the offset of the error is that place.

What comes before it is therefore the beginning of a text that is read, provided a field can be
written at the level where one is missing.  For a syntax error before the end of a text the
character at the offset is what nothing that is read can have there.
-/

namespace PartialEntity

namespace Catalog

variable {κ : Type} [Catalog κ]

/-- Whether a kind has a field whose name can stand in a text.  Of a derived kind all names can; a
kind that is written by hand may have fields none of which has such a name. -/
def Writable (kind : κ) : Prop :=
  ∃ field, Has kind field ∧ Graph.isName (fieldName kind field).toList = true

/-- Every name of a field leads to a field, the first one that is called so. -/
theorem exists_position? {kind : κ} {field : Nat} (h : Has kind field) :
    ∃ first, position? kind (fieldName kind field) = some first := by
  rw [← Option.isSome_iff_exists, position?, List.findIdx?_isSome, List.any_eq_true]
  refine ⟨(fields kind).get ⟨field, h⟩, List.get_mem .., ?_⟩
  rw [fieldName_eq_get h, beq_iff_eq]

end Catalog

namespace Graph

variable {κ : Type} [Catalog κ]

/-! ## Beginnings of texts -/

/-- A level of a text: the kind that rules it, and whether it stands in braces. -/
structure Level (κ : Type) where
  kind : κ
  inBraces : Bool

/-- Whether a beginning of a level leads to a level at which an item is due next. -/
inductive Leads : Level κ → List Char → Level κ → Prop
  | here (level : Level κ) : Leads level [] level
  | comma {outer level : Level κ} {first front : List Char} {entry : Nat × Option (Graph κ)}
      (hitem : WrittenItem outer.kind first entry) (hrest : Leads outer front level) :
      Leads outer (first ++ ',' :: front) level
  | inside {outer level : Level κ} {inner : κ} {name front : List Char} {field : Nat}
      (hname : isName name = true)
      (hfield : Catalog.position? outer.kind (String.ofList name) = some field)
      (hnested : Catalog.nested? outer.kind field = some inner)
      (hinside : Leads ⟨inner, true⟩ front level) :
      Leads outer (name ++ '\x7b' :: front) level

inductive Stop (κ : Type) where
  | noName
  | unknownField (kind : κ) (name : List Char)
  | noSubfields (kind : κ) (field : Nat)
  /-- The text ends in braces behind a field whose name began that many characters before. -/
  | unclosed (taken : Nat)
  | illegal (c : Char)

/-- The fault that is reported, from the lengths of the text and of what was not read. -/
def Stop.fault (total left : Nat) : Stop κ → Fault
  | noName => .graphSyntax "zero-length field name" (total - left)
  | unknownField kind name =>
    .unknownField (Catalog.kindName kind) (String.ofList name) (total - left)
  | noSubfields kind field =>
    .graphSyntax ("field `" ++ Catalog.fieldName kind field ++ "` of " ++ Catalog.kindName kind ++
      " has no subfields") (total - left)
  | unclosed taken =>
    .graphSyntax ("unterminated subfields declaration (started at " ++ toString (total - taken) ++
      ")") (total - left)
  | illegal c => .graphSyntax ("illegal character '" ++ String.singleton c ++ "'") (total - left)

/-- Whether reading stops at a level where an item is due, behind a part of the item and before the
rest of the text. -/
inductive Halts (level : Level κ) : List Char → List Char → Stop κ → Prop
  | noName {rest : List Char} (hname : (splitName rest).1 = []) : Halts level [] rest .noName
  | unknownField {rest : List Char} (hname : (splitName rest).1 ≠ [])
      (hfield : Catalog.position? level.kind (String.ofList (splitName rest).1) = .none) :
      Halts level [] rest (.unknownField level.kind (splitName rest).1)
  | noSubfields {name body : List Char} {field : Nat} (hname : isName name = true)
      (hfield : Catalog.position? level.kind (String.ofList name) = some field)
      (hnested : Catalog.nested? level.kind field = .none) :
      Halts level name ('\x7b' :: body) (.noSubfields level.kind field)
  | unclosed {inner : κ} {name inside : List Char} {field : Nat}
      {entries : List (Nat × Option (Graph κ))} (hname : isName name = true)
      (hfield : Catalog.position? level.kind (String.ofList name) = some field)
      (hnested : Catalog.nested? level.kind field = some inner)
      (hinside : Written inner inside entries) :
      Halts level (name ++ '\x7b' :: inside) [] (.unclosed (name ++ '\x7b' :: inside).length)
  | illegal {item after : List Char} {entry : Nat × Option (Graph κ)} {c : Char}
      (hitem : WrittenItem level.kind item entry) (hends : EndsItem entry (c :: after))
      (hcomma : c ≠ ',') (hclose : ¬(c = '\x7d' ∧ level.inBraces = true)) :
      Halts level item (c :: after) (.illegal c)

variable {total : Nat} {nested : Bool} {graph : Graph κ} {text : List Char} {error : Error}

/-! ## How the readers fail -/

/-- Reading items fails in one of four ways: no name comes next, the name is that of no field, or
what is behind it fails, in braces or after them. -/
theorem readItems_eq_error_iff :
    readItems total nested graph text = .error error ↔
      (splitName text).1 = [] ∧ error = .of ((.noName : Stop κ).fault total text.length) ∨
      (splitName text).1 ≠ [] ∧
        Catalog.position? graph.kind (String.ofList (splitName text).1) = .none ∧
        error = .of ((Stop.unknownField graph.kind (splitName text).1).fault total text.length) ∨
      (splitName text).1 ≠ [] ∧ ∃ field,
        Catalog.position? graph.kind (String.ofList (splitName text).1) = some field ∧
        (readBraces total (total - text.length) graph.kind field (splitName text).2 =
            .error error ∨
          ∃ subgraph between, ReadsBraces total (total - text.length) graph.kind field
              (splitName text).2 subgraph between ∧
            readNext total nested (graph.insertEntry field subgraph) between = .error error) := by
  rw [readItems]
  by_cases hname : (splitName text).1 = []
  · rw [dif_pos hname]
    constructor
    · intro h
      cases h
      exact .inl ⟨hname, rfl⟩
    · rintro (⟨-, rfl⟩ | ⟨hne, -⟩ | ⟨hne, -⟩)
      · rfl
      · exact absurd hname hne
      · exact absurd hname hne
  rw [dif_neg hname]
  cases hfield : Catalog.position? graph.kind (String.ofList (splitName text).1) with
  | none =>
    constructor
    · intro h
      cases h
      exact .inr (.inl ⟨hname, rfl, rfl⟩)
    · rintro (⟨heq, -⟩ | ⟨-, -, rfl⟩ | ⟨-, _, h, -⟩)
      · exact absurd heq hname
      · rfl
      · cases h
  | some field =>
    simp only [Result.bind_eq_error_iff]
    constructor
    · rintro (hbraces | ⟨⟨subgraph, between⟩, hbraces, hnext | ⟨_, -, h⟩⟩)
      · exact .inr (.inr ⟨hname, field, rfl, .inl hbraces⟩)
      · exact .inr (.inr ⟨hname, field, rfl,
          .inr ⟨subgraph, between.1, ⟨between, hbraces, rfl⟩, hnext⟩⟩)
      · cases h
    · rintro (⟨heq, -⟩ | ⟨-, h, -⟩ | ⟨-, _, ⟨⟩, hbraces |
        ⟨subgraph, _, ⟨between, hbraces, rfl⟩, hnext⟩⟩)
      · exact absurd heq hname
      · cases h
      · exact .inl hbraces
      · exact .inr ⟨(subgraph, between), hbraces, .inl hnext⟩

/-- Reading braces fails where none can stand, where nothing closes them, and where their contents
fail. -/
theorem readBraces_eq_error_iff {start : Nat} {kind : κ} {field : Nat} :
    readBraces total start kind field text = .error error ↔ ∃ body, text = '\x7b' :: body ∧
      (Catalog.nested? kind field = .none ∧
          error = .of ((Stop.noSubfields kind field).fault total text.length) ∨
        ∃ inner, Catalog.nested? kind field = some inner ∧
          (readItems total true (none inner) body = .error error ∨
            ∃ inside rest, ReadsItems total true (none inner) body inside rest ∧
              (∀ after, rest ≠ '\x7d' :: after) ∧
              error = .of (.graphSyntax ("unterminated subfields declaration (started at " ++
                toString start ++ ")") (total - rest.length)))) := by
  by_cases hopen : ∃ body, text = '\x7b' :: body
  · obtain ⟨body, rfl⟩ := hopen
    rw [readBraces]
    simp only [List.cons.injEq, true_and, exists_eq_left']
    cases hnested : Catalog.nested? kind field with
    | none =>
      constructor
      · intro h
        cases h
        exact .inl ⟨rfl, rfl⟩
      · rintro (⟨-, rfl⟩ | ⟨_, h, -⟩)
        · rfl
        · cases h
    | some inner =>
      simp only [Result.bind_eq_error_iff]
      constructor
      · rintro (hitems | ⟨⟨inside, rest⟩, hitems, hclose⟩)
        · exact .inr ⟨inner, rfl, .inl hitems⟩
        · split at hclose
          · cases hclose
          · rename_i hne
            cases hclose
            exact .inr ⟨inner, rfl, .inr ⟨inside, rest.1, ⟨rest, hitems, rfl⟩, hne, rfl⟩⟩
      · rintro (⟨h, -⟩ | ⟨_, ⟨⟩, hitems | ⟨inside, _, ⟨rest, hitems, rfl⟩, hne, rfl⟩⟩)
        · cases h
        · exact .inl hitems
        · refine .inr ⟨(inside, rest), hitems, ?_⟩
          split
          · rename_i after hafter
            exact absurd hafter (hne after)
          · rfl
  · rw [readBraces]
    · exact iff_of_false nofun fun ⟨body, heq, _⟩ => hopen ⟨body, heq⟩
    · exact fun body heq => hopen ⟨body, heq⟩

/-- Reading on behind an item fails at a character that cannot stand there, and where the items
behind a comma fail. -/
theorem readNext_eq_error_iff :
    readNext total nested graph text = .error error ↔ ∃ c after, text = c :: after ∧
      (c = ',' ∧ readItems total nested graph after = .error error ∨
        c ≠ ',' ∧ ¬(c = '\x7d' ∧ nested = true) ∧
          error = .of ((.illegal c : Stop κ).fault total text.length)) := by
  cases text with
  | nil =>
    rw [readNext]
    exact iff_of_false (by rintro ⟨⟩) (by simp)
  | cons c after =>
    rw [readNext]
    by_cases hcomma : c = ','
    · subst hcomma
      rw [if_pos rfl, Result.bind_eq_error_iff]
      constructor
      · rintro (hitems | ⟨_, -, h⟩)
        · exact ⟨_, _, rfl, .inl ⟨rfl, hitems⟩⟩
        · cases h
      · rintro ⟨_, _, ⟨⟩, ⟨-, hitems⟩ | ⟨hne, -⟩⟩
        · exact .inl hitems
        · exact absurd rfl hne
    rw [if_neg hcomma]
    by_cases hclose : c = '\x7d' ∧ nested = true
    · rw [if_pos hclose]
      refine iff_of_false (by rintro ⟨⟩) ?_
      rintro ⟨_, _, ⟨⟩, ⟨heq, -⟩ | ⟨-, hne, -⟩⟩
      · exact hcomma heq
      · exact hne hclose
    · rw [if_neg hclose]
      constructor
      · intro h
        cases h
        exact ⟨c, after, rfl, .inr ⟨hcomma, hclose, rfl⟩⟩
      · rintro ⟨_, _, ⟨⟩, ⟨heq, -⟩ | ⟨-, -, rfl⟩⟩
        · exact absurd heq hcomma
        · rfl

/-! ## Reading fails exactly where it stops -/

def StopsAt (outer : Level κ) (text rest : List Char) (stop : Stop κ) : Prop :=
  ∃ before front level, text = before ++ (front ++ rest) ∧ Leads outer before level ∧
    Halts level front rest stop

theorem StopsAt.comma {outer : Level κ} {first rest : List Char}
    {entry : Nat × Option (Graph κ)} {stop : Stop κ} (hitem : WrittenItem outer.kind first entry)
    (h : StopsAt outer text rest stop) : StopsAt outer (first ++ ',' :: text) rest stop := by
  obtain ⟨before, front, level, rfl, hleads, hhalts⟩ := h
  exact ⟨_, front, level, by simp, .comma hitem hleads, hhalts⟩

/-- Reading that stops inside of the braces of a field stops there for the whole text. -/
theorem StopsAt.inside {outer : Level κ} {inner : κ} {name rest : List Char} {field : Nat}
    {stop : Stop κ} (hname : isName name = true)
    (hfield : Catalog.position? outer.kind (String.ofList name) = some field)
    (hnested : Catalog.nested? outer.kind field = some inner)
    (h : StopsAt ⟨inner, true⟩ text rest stop) :
    StopsAt outer (name ++ '\x7b' :: text) rest stop := by
  obtain ⟨before, front, level, rfl, hleads, hhalts⟩ := h
  exact ⟨_, front, level, by simp, .inside hname hfield hnested hleads, hhalts⟩

/-- Reading stops where a level halts. -/
theorem StopsAt.halts {level : Level κ} {front rest : List Char} {stop : Stop κ}
    (h : Halts level front rest stop) : StopsAt level (front ++ rest) rest stop :=
  ⟨[], front, level, rfl, .here level, h⟩

/-- When reading fails, it stops somewhere, and the error tells why and where. -/
theorem stopsAt_of_readItems {total : Nat} {nested : Bool} {graph : Graph κ} {text : List Char}
    {error : Error} (h : readItems total nested graph text = .error error) :
    ∃ rest stop, StopsAt ⟨graph.kind, nested⟩ text rest stop ∧
      error = .of (stop.fault total rest.length) := by
  rcases readItems_eq_error_iff.1 h with ⟨hname, rfl⟩ | ⟨hname, hfield, rfl⟩ |
    ⟨hname, field, hfield, hbraces | ⟨subgraph, between, hbraces, hnext⟩⟩
  · exact ⟨text, _, .halts (.noName hname), rfl⟩
  · exact ⟨text, _, .halts (.unknownField hname hfield), rfl⟩
  · have hisName := isName_splitName hname
    obtain ⟨body, hopen, hrest⟩ := readBraces_eq_error_iff.1 hbraces
    have hshorter : body.length < text.length := by
      have hlength := length_splitName text
      rw [hopen, List.length_cons] at hlength
      omega
    have htext : text = (splitName text).1 ++ '\x7b' :: body := by
      rw [← hopen, splitName_append]
    rcases hrest with ⟨hnested, rfl⟩ | ⟨inner, hnested, hitems | ⟨inside, rest, hitems, hne, rfl⟩⟩
    · refine ⟨'\x7b' :: body, _, ?_, by rw [hopen]⟩
      rw [htext]
      exact .halts (.noSubfields hisName hfield hnested)
    · obtain ⟨rest, stop, hstops, rfl⟩ := stopsAt_of_readItems hitems
      refine ⟨rest, stop, ?_, rfl⟩
      rw [htext]
      exact hstops.inside hisName hfield hnested
    · -- A level in braces ends at a closing brace, or else at the end of the text.
      obtain ⟨rfl | ⟨-, after, rfl⟩, front, entries, rfl, hwritten, -⟩ :=
        written_of_readsItems hitems
      · rw [List.append_nil] at htext
        have hhalts : Halts ⟨graph.kind, nested⟩ _ [] _ :=
          .unclosed hisName hfield hnested hwritten
        have hstops := StopsAt.halts hhalts
        rw [← htext, List.append_nil] at hstops
        exact ⟨[], .unclosed text.length, hstops, rfl⟩
      · exact absurd rfl (hne after)
  · obtain ⟨first, entry, rfl, hitem, rfl, rfl, hends, hshorter⟩ :=
      writtenItem_of_readsBraces hname hfield hbraces
    obtain ⟨c, after, rfl, ⟨rfl, hitems⟩ | ⟨hcomma, hclose, rfl⟩⟩ :=
      readNext_eq_error_iff.1 hnext
    · have hshorter : after.length < (first ++ ',' :: after).length := by
        simp only [List.length_append, List.length_cons]
        omega
      obtain ⟨rest, stop, hstops, rfl⟩ := stopsAt_of_readItems hitems
      exact ⟨rest, stop, hstops.comma hitem, rfl⟩
    · exact ⟨c :: after, _, .halts (.illegal hitem hends hcomma hclose), rfl⟩
termination_by text.length

theorem readItems_of_open {name body : List Char} {field : Nat} (hname : isName name = true)
    (hfield : Catalog.position? graph.kind (String.ofList name) = some field)
    (hbraces : readBraces total (total - (name ++ '\x7b' :: body).length) graph.kind field
      ('\x7b' :: body) = .error error) :
    readItems total nested graph (name ++ '\x7b' :: body) = .error error := by
  have hsplit : splitName (name ++ '\x7b' :: body) = (name, '\x7b' :: body) :=
    splitName_name_append hname fun c after heq => (List.cons.inj heq).1 ▸ rfl
  refine readItems_eq_error_iff.2 (.inr (.inr ?_))
  rw [hsplit]
  exact ⟨ne_nil_of_isName hname, field, hfield, .inl hbraces⟩

theorem readItems_of_item {first between : List Char} {entry : Nat × Option (Graph κ)}
    (hitem : WrittenItem graph.kind first entry) (hends : EndsItem entry between)
    (hnext : ∀ next : Graph κ, next.kind = graph.kind →
      readNext total nested next between = .error error) :
    readItems total nested graph (first ++ between) = .error error := by
  obtain ⟨hname, hfield, hbraces⟩ :=
    hitem.readsBraces total (total - (first ++ between).length) hends
  exact readItems_eq_error_iff.2
    (.inr (.inr ⟨hname, entry.1, hfield, .inr ⟨_, between, hbraces, hnext _ rfl⟩⟩))

/-- Where a level halts, reading fails with the fault of the stop. -/
theorem readItems_of_halts {front rest : List Char} {stop : Stop κ}
    (h : Halts ⟨graph.kind, nested⟩ front rest stop) (total : Nat) :
    readItems total nested graph (front ++ rest) = .error (.of (stop.fault total rest.length)) := by
  cases h with
  | noName hname => exact readItems_eq_error_iff.2 (.inl ⟨hname, rfl⟩)
  | unknownField hname hfield => exact readItems_eq_error_iff.2 (.inr (.inl ⟨hname, hfield, rfl⟩))
  | noSubfields hname hfield hnested =>
    exact readItems_of_open hname hfield
      (readBraces_eq_error_iff.2 ⟨_, rfl, .inl ⟨hnested, rfl⟩⟩)
  | @unclosed inner _ inside _ entries hname hfield hnested hinside =>
    have hitems : ReadsItems total true (none inner) (inside ++ [])
        (uniteEntries (none inner) entries) [] := hinside.readsItems total rfl (.inl rfl)
    rw [List.append_assoc, List.cons_append]
    refine readItems_of_open hname hfield (readBraces_eq_error_iff.2
      ⟨_, rfl, .inr ⟨_, hnested, .inr ⟨_, [], hitems, nofun, ?_⟩⟩⟩)
    rw [List.append_nil]
    rfl
  | illegal hitem hends hcomma hclose =>
    exact readItems_of_item hitem hends fun next _ =>
      readNext_eq_error_iff.2 ⟨_, _, rfl, .inr ⟨hcomma, hclose, rfl⟩⟩

/-- Where reading stops, it fails. -/
theorem readItems_of_stopsAt {outer : Level κ} {rest : List Char} {stop : Stop κ}
    (h : StopsAt outer text rest stop) (hkind : graph.kind = outer.kind) (total : Nat) :
    readItems total outer.inBraces graph text = .error (.of (stop.fault total rest.length)) := by
  obtain ⟨before, front, level, rfl, hleads, hhalts⟩ := h
  induction hleads generalizing graph with
  | here level =>
    obtain ⟨kind, inBraces⟩ := level
    subst hkind
    exact readItems_of_halts hhalts total
  | comma hitem hrest ih =>
    rw [List.append_assoc, List.cons_append]
    refine readItems_of_item (hkind ▸ hitem) ?_ fun next hnext =>
      readNext_eq_error_iff.2 ⟨_, _, rfl, .inl ⟨rfl, ih (hnext.trans hkind) hhalts⟩⟩
    exact FollowsItem.endsItem (.inr ⟨_, _, rfl, .inl rfl⟩) _
  | @inside _ _ inner _ _ _ hname hfield hnested hinside ih =>
    have hkind' : (none inner).kind = inner := rfl
    rw [List.append_assoc, List.cons_append]
    exact readItems_of_open hname (hkind ▸ hfield) (readBraces_eq_error_iff.2
      ⟨_, rfl, .inr ⟨inner, hkind ▸ hnested, .inl (ih hkind' hhalts)⟩⟩)

/-- At a level whose kind has no field that can be written, reading stops before any text. -/
theorem Halts.of_not_writable {level : Level κ} (h : ¬ Catalog.Writable level.kind)
    (rest : List Char) : ∃ stop, Halts level [] rest stop := by
  by_cases hname : (splitName rest).1 = []
  · exact ⟨_, .noName hname⟩
  cases hfield : Catalog.position? level.kind (String.ofList (splitName rest).1) with
  | none => exact ⟨_, .unknownField hname hfield⟩
  | some field =>
    refine absurd ⟨field, Catalog.has_of_position? hfield, ?_⟩ h
    rw [Catalog.fieldName_of_position? hfield, String.toList_ofList]
    exact isName_splitName hname

/-! ## Going on behind a beginning -/

/-- Something can be written over a kind that has a field with a name. -/
theorem exists_written {kind : κ} (h : Catalog.Writable kind) :
    ∃ name entries, Written kind name entries := by
  obtain ⟨field, hfield, hname⟩ := h
  obtain ⟨first, hfirst⟩ := Catalog.exists_position? hfield
  exact ⟨_, _, .single (.bare hname (by rwa [String.ofList_toList]))⟩

/-- What was read of a level that halts can be completed, if something can be written over its
kind. -/
theorem Halts.completes {level : Level κ} {front rest : List Char} {stop : Stop κ}
    (h : Halts level front rest stop) (hwritable : Catalog.Writable level.kind) :
    ∃ completion entries, Written level.kind (front ++ completion) entries := by
  cases h with
  | noName => exact exists_written hwritable
  | unknownField => exact exists_written hwritable
  | @noSubfields _ _ field hname hfield =>
    refine ⟨[], [(field, .none)], ?_⟩
    rw [List.append_nil]
    exact .single (.bare hname hfield)
  | unclosed hname hfield hnested hinside =>
    exact ⟨['\x7d'], _, .single (.braced hname hfield hnested hinside)⟩
  | @illegal _ _ entry _ hitem =>
    refine ⟨[], [entry], ?_⟩
    rw [List.append_nil]
    exact .single hitem

/-- A level that can be completed inside of braces can be completed outside of them. -/
theorem Leads.completes {outer level : Level κ} {before front : List Char}
    (h : Leads outer before level)
    (hlevel : ∃ completion entries, Written level.kind (front ++ completion) entries) :
    ∃ completion entries, Written outer.kind (before ++ (front ++ completion)) entries := by
  induction h with
  | here => exact hlevel
  | @comma _ _ _ _ entry hitem hrest ih =>
    obtain ⟨completion, entries, hwritten⟩ := ih hlevel
    refine ⟨completion, entry :: entries, ?_⟩
    rw [List.append_assoc, List.cons_append]
    exact .comma hitem hwritten
  | @inside _ _ inner name before field hname hfield hnested hinside ih =>
    obtain ⟨completion, entries, hwritten⟩ := ih hlevel
    refine ⟨completion ++ ['\x7d'], [(field, some (node inner entries))], ?_⟩
    have hclosed : name ++ '\x7b' :: before ++ (front ++ (completion ++ ['\x7d'])) =
        name ++ '\x7b' :: (before ++ (front ++ completion)) ++ ['\x7d'] := by
      simp
    rw [hclosed]
    exact .single (.braced hname hfield hnested hwritten)

/-- A text leads only to levels whose kinds are nested under the outermost one. -/
theorem Leads.reaches {outer level : Level κ} {before : List Char} (h : Leads outer before level) :
    Catalog.Reaches outer.kind level.kind := by
  induction h with
  | here => exact .refl
  | comma _ _ ih => exact ih
  | inside _ _ hnested _ ih => exact .head ⟨_, hnested⟩ ih

/-- Unless a name is unknown, reading stops before any text with the same next character. -/
theorem Halts.congr {level : Level κ} {front rest : List Char} {c : Char} {stop : Stop κ}
    (h : Halts level front (c :: rest) stop) (hstop : ∀ kind name, stop ≠ .unknownField kind name)
    (more : List Char) : Halts level front (c :: more) stop := by
  cases h with
  | noName hname => exact .noName (splitName_cons_eq_nil_iff.2 (splitName_cons_eq_nil_iff.1 hname))
  | unknownField => exact absurd rfl (hstop _ _)
  | noSubfields hname hfield hnested => exact .noSubfields hname hfield hnested
  | illegal hitem hends hcomma hclose =>
    refine .illegal hitem ?_ hcomma hclose
    rintro hnone d after heq
    obtain ⟨rfl, -⟩ := List.cons.inj heq
    exact hends hnone _ _ rfl

/-! ## What stands before and behind the place where reading stops -/

/-- What stands before the place can be completed, since there is a field for the level there. -/
theorem StopsAt.completes {outer : Level κ} {rest : List Char} {stop : Stop κ}
    (h : StopsAt outer text rest stop)
    (hwritable : ∀ member, Catalog.Reaches outer.kind member → Catalog.Writable member) :
    ∃ completion entries,
      Written outer.kind (text.take (text.length - rest.length) ++ completion) entries := by
  obtain ⟨before, front, level, rfl, hleads, hhalts⟩ := h
  obtain ⟨completion, entries, hwritten⟩ :=
    hleads.completes (hhalts.completes (hwritable _ hleads.reaches))
  refine ⟨completion, entries, ?_⟩
  rwa [← List.append_assoc, List.length_append, Nat.add_sub_cancel, List.take_left,
    List.append_assoc]

/-- An unknown field begins right behind the place, and is none of the level there. -/
theorem StopsAt.of_unknownField {outer : Level κ} {rest name : List Char} {kind : κ}
    (h : StopsAt outer text rest (.unknownField kind name)) :
    ∃ level : Level κ, kind = level.kind ∧
      Leads outer (text.take (text.length - rest.length)) level ∧
      (∀ info ∈ Catalog.fields level.kind, info.name ≠ String.ofList name) ∧
      isName name = true ∧
      text.drop (text.length - rest.length) = name ++ (splitName rest).2 ∧
      ∀ {c : Char} {after : List Char}, (splitName rest).2 = c :: after → isNameRest c = false := by
  obtain ⟨before, front, level, rfl, hleads, hhalts⟩ := h
  cases hhalts with
  | unknownField hname hfield =>
    rw [List.nil_append, List.length_append, Nat.add_sub_cancel, List.take_left, List.drop_left]
    refine ⟨level, rfl, hleads, fun info hinfo => ?_, isName_splitName hname,
      (splitName_append rest).symm, not_isNameRest_of_splitName hname⟩
    rw [Catalog.position?, List.findIdx?_eq_none_iff] at hfield
    simpa using hfield info hinfo

/-- Unless a field is unknown, reading stops at the same place of every text that agrees with this
one up to and including the next character. -/
theorem StopsAt.congr {outer : Level κ} {rest other : List Char} {stop : Stop κ}
    (h : StopsAt outer text rest stop) (hstop : ∀ kind name, stop ≠ .unknownField kind name)
    (hlt : text.length - rest.length < text.length)
    (hagrees : text.take (text.length - rest.length + 1) <+: other) :
    ∃ more, StopsAt outer other more stop := by
  obtain ⟨before, front, level, rfl, hleads, hhalts⟩ := h
  cases rest with
  | nil => simp at hlt
  | cons c rest =>
    obtain ⟨more, rfl⟩ := hagrees
    refine ⟨c :: more, before, front, level, ?_, hleads, hhalts.congr hstop more⟩
    rw [← List.append_assoc, List.length_append, Nat.add_sub_cancel, List.take_length_add_append,
      List.take_one]
    simp

/-! ## The offset of an error -/

theorem parse_eq_error_iff {kind : κ} {text : String} :
    parse kind text = .error error ↔ Text.isBlank text.toList = false ∧
      readItems text.toList.length false (none kind) text.toList = .error error := by
  rw [parse]
  cases hblank : Text.isBlank text.toList with
  | true => exact iff_of_false (by rintro ⟨⟩) (by simp)
  | false =>
    rw [if_neg Bool.false_ne_true, Result.bind_eq_error_iff]
    constructor
    · rintro (h | ⟨_, -, h⟩)
      · exact ⟨rfl, h⟩
      · cases h
    · exact fun h => .inl h.2

/-- If reading a text stops somewhere, then the fault that is reported is that of the stop. -/
theorem parse_of_stopsAt {kind : κ} {text : String} {rest : List Char} {stop : Stop κ}
    (hblank : Text.isBlank text.toList = false) (h : StopsAt ⟨kind, false⟩ text.toList rest stop) :
    parse kind text = .error (.of (stop.fault text.toList.length rest.length)) := by
  have hkind : (none kind).kind = kind := rfl
  exact parse_eq_error_iff.2 ⟨hblank, readItems_of_stopsAt h hkind _⟩

theorem offset?_fault (stop : Stop κ) (total left : Nat) :
    (Error.of (stop.fault total left)).offset? = some (total - left) := by
  cases stop <;> rfl

/-- The fault of a stop is of exactly one of two categories, and an unknown name decides which. -/
theorem unknownField_or_graphSyntax (stop : Stop κ) (total left : Nat) :
    (∃ kind name, stop = .unknownField kind name) ∧
        (Error.of (stop.fault total left)).is .unknownField = true ∧
        (Error.of (stop.fault total left)).is .graphSyntax = false ∨
      (∀ kind name, stop ≠ .unknownField kind name) ∧
        (Error.of (stop.fault total left)).is .unknownField = false ∧
        (Error.of (stop.fault total left)).is .graphSyntax = true := by
  cases stop with
  | unknownField kind name => exact .inl ⟨⟨kind, name, rfl⟩, rfl, rfl⟩
  | _ => exact .inr ⟨nofun, rfl, rfl⟩

/-- When a text is not read, the error has an offset in it.  What stands before the offset can be
completed to a text that is read, if all kinds in reach have a field that can be written.  If a
field is unknown, its name is the longest one at the offset, and the kind in the message, which
rules the level there, has no such field.  If the syntax is wrong and the text does not end at the
offset, no text but a blank one is read that agrees with it up to and including the character
there. -/
theorem offset_of_parse_error {kind : κ} {text : String} (h : parse kind text = .error error) :
    ∃ offset, error.offset? = some offset ∧ offset ≤ text.toList.length ∧
      (error.is .unknownField = true ∨ error.is .graphSyntax = true) ∧
      ((∀ member, Catalog.Reaches kind member → Catalog.Writable member) →
        ∃ completion graph,
          parse kind (String.ofList (text.toList.take offset ++ completion)) = .ok graph) ∧
      (error.is .unknownField = true → ∃ level name rest,
        error = .of (.unknownField (Catalog.kindName level.kind) (String.ofList name) offset) ∧
        Leads ⟨kind, false⟩ (text.toList.take offset) level ∧
        (∀ info ∈ Catalog.fields level.kind, info.name ≠ String.ofList name) ∧
        text.toList.drop offset = name ++ rest ∧ isName name = true ∧
        ∀ c after, rest = c :: after → isNameRest c = false) ∧
      (error.is .graphSyntax = true → offset < text.toList.length → ∀ other : String,
        text.toList.take (offset + 1) <+: other.toList → Text.isBlank other.toList = false →
        ∃ stop, parse kind other = .error stop) := by
  obtain ⟨hblank, hread⟩ := parse_eq_error_iff.1 h
  obtain ⟨rest, stop, hstops, rfl⟩ := stopsAt_of_readItems hread
  refine ⟨_, offset?_fault .., Nat.sub_le .., ?_, ?_, ?_, ?_⟩
  · rcases unknownField_or_graphSyntax stop text.toList.length rest.length with
      ⟨-, his, -⟩ | ⟨-, -, his⟩
    · exact .inl his
    · exact .inr his
  · intro hwritable
    obtain ⟨completion, entries, hwritten⟩ := hstops.completes hwritable
    rw [← String.toList_ofList (l := _ ++ completion)] at hwritten
    obtain ⟨graph, hparse, -⟩ := hwritten.levels_of_parse
    exact ⟨completion, graph, hparse⟩
  · intro his
    rcases unknownField_or_graphSyntax stop text.toList.length rest.length with
      ⟨⟨member, name, rfl⟩, -, -⟩ | ⟨-, hnot, -⟩
    · obtain ⟨level, rfl, hleads, hunknown, hname, hdrop, hends⟩ := hstops.of_unknownField
      exact ⟨level, name, _, rfl, hleads, hunknown, hdrop, hname, fun c after => hends⟩
    · rw [hnot] at his
      cases his
  · intro his hlt other hagrees hother
    rcases unknownField_or_graphSyntax stop text.toList.length rest.length with
      ⟨-, -, hnot⟩ | ⟨hstop, -, -⟩
    · rw [hnot] at his
      cases his
    · obtain ⟨more, hstops⟩ := hstops.congr hstop hlt hagrees
      exact ⟨_, parse_of_stopsAt hother hstops⟩

section Harbor

open Harbor (Kind)

theorem writable_harbor (kind : Kind) : Catalog.Writable kind := by
  cases kind <;> exact ⟨0, by decide, by decide⟩

theorem parse_crewName :
    parse Kind.person "boat\x7bcrew\x7bnme" = .error (.of (.unknownField "Person" "nme" 10)) := by
  have hblank : Text.isBlank "boat\x7bcrew\x7bnme".toList = false := by decide
  have hstops : StopsAt ⟨Kind.person, false⟩
      ("boat".toList ++ '\x7b' :: ("crew".toList ++ '\x7b' :: ([] ++ "nme".toList))) "nme".toList
      (.unknownField .person "nme".toList) :=
    .inside rfl rfl rfl (.inside rfl rfl rfl (.halts (.unknownField (by decide) (by decide))))
  exact parse_of_stopsAt hblank hstops

theorem parse_boatType :
    parse Kind.person "name,boat\x7btype\x7dx" =
      .error (.of (.graphSyntax "illegal character 'x'" 15)) := by
  have hblank : Text.isBlank "name,boat\x7btype\x7dx".toList = false := by decide
  have hstops : StopsAt ⟨Kind.person, false⟩
      ("name".toList ++ ',' :: ("boat".toList ++ '\x7b' :: "type".toList ++ ['\x7d'] ++ ['x']))
      ['x'] (.illegal 'x') :=
    .comma (.bare rfl rfl) (.halts (.illegal (.braced rfl rfl rfl (.single (.bare rfl rfl))) nofun
      (by decide) (by decide)))
  exact parse_of_stopsAt hblank hstops

/-- A field that is unknown in two pairs of braces, and a character that cannot follow an item. -/
theorem offset_of_parse_error_person :
    parse Kind.person "boat\x7bcrew\x7bnme" = .error (.of (.unknownField "Person" "nme" 10)) ∧
    (∃ completion graph,
      parse Kind.person (String.ofList ("boat\x7bcrew\x7b".toList ++ completion)) = .ok graph) ∧
    parse Kind.person "name,boat\x7btype\x7dx" =
      .error (.of (.graphSyntax "illegal character 'x'" 15)) ∧
    ∀ other : String, "name,boat\x7btype\x7dx".toList <+: other.toList →
      Text.isBlank other.toList = false → ∃ stop, parse Kind.person other = .error stop := by
  obtain ⟨_, hten, -, -, hcompletes, -⟩ := offset_of_parse_error parse_crewName
  obtain ⟨_, hfifteen, -, -, -, -, hrejects⟩ := offset_of_parse_error parse_boatType
  obtain rfl := Option.some.inj hten
  obtain rfl := Option.some.inj hfifteen
  exact ⟨parse_crewName, hcompletes fun member _ => writable_harbor member, parse_boatType,
    hrejects rfl (by decide)⟩

end Harbor

/-! ## Fields that no text can name -/

/-- Two kinds written by hand.  The only field of a mooring is called `1st`, which is no name. -/
inductive Quay where
  | pier
  | mooring

instance : Catalog Quay where
  kindName
    | .pier => "Pier"
    | .mooring => "Mooring"
  fields
    | .pier => [⟨"mooring", "Mooring", some .mooring, .nested .mooring (.member .mooring)⟩]
    | .mooring => [⟨"1st", "First", .none, .plain .text⟩]
  identity _ := .byId
  members _ := []

theorem not_writable_mooring : ¬ Catalog.Writable Quay.mooring := by
  rintro ⟨field, hfield, hname⟩
  obtain rfl : field = 0 := Nat.lt_one_iff.1 hfield
  exact absurd hname (by decide)

/-- A field is not enough for a completion: both kinds have one, and the text stops behind the brace
that opens a mooring, where nothing can follow. -/
theorem not_completes_mooring :
    (∀ kind : Quay, ∃ field, Catalog.Has kind field) ∧
    parse Quay.pier "mooring\x7b" = .error (.of (.graphSyntax "zero-length field name" 8)) ∧
    ∀ completion : List Char, ∃ error,
      parse Quay.pier (String.ofList ("mooring\x7b".toList ++ completion)) = .error error := by
  have hinside {rest : List Char} {stop : Stop Quay} (h : Halts ⟨Quay.mooring, true⟩ [] rest stop) :
      StopsAt ⟨Quay.pier, false⟩ ("mooring\x7b".toList ++ rest) rest stop :=
    have hname : isName "mooring".toList = true := rfl
    (StopsAt.halts h).inside hname rfl rfl
  refine ⟨fun kind => ⟨0, by cases kind <;> decide⟩, ?_, fun completion => ?_⟩
  · have hblank : Text.isBlank "mooring\x7b".toList = false := by decide
    exact parse_of_stopsAt hblank (hinside (.noName rfl))
  · have hstop : ∃ stop, Halts ⟨Quay.mooring, true⟩ [] completion stop :=
      Halts.of_not_writable not_writable_mooring completion
    obtain ⟨stop, hhalts⟩ := hstop
    have hstops := hinside hhalts
    have hblank : Text.isBlank ("mooring\x7b".toList ++ completion) = false := by
      simp [Text.isBlank, Text.isBlankChar]
    rw [← String.toList_ofList (l := _ ++ completion)] at hblank hstops
    exact ⟨_, parse_of_stopsAt hblank hstops⟩

end Graph

end PartialEntity
