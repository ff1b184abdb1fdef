import PartialEntity.Derive.Instance
import PartialEntity.Proofs.Result

/-!
# Which declarations are accepted

Reading stops, skips and goes on in different ways after a problem, but whether there is one can be
said without it.  A declaration is accepted exactly when it is an enumeration without parameters,
the attributes that speak of fields have the arguments of their place in parentheses, each at most
once, and all variants carry nothing and give different names that can stand in a text.  The kind
that is read then has a field for every variant, in order.
-/

namespace PartialEntity.Derive

/-! ## Arguments -/

namespace Argument

def textOf (key : String) (argument : Argument) : Option String :=
  match argument.value with
  | .text content => if argument.key = key then some content else none
  | _ => none

def typeOf (key : String) (argument : Argument) : Option String :=
  match argument.value with
  | .type source =>
    if argument.key = key ∧ TypeSource.isType source = true then some source else none
  | _ => none

end Argument

/-- The arguments of the attributes that speak of fields, in order. -/
def ownArguments (attributes : List Attribute) : List Argument :=
  (attributes.filter Attribute.isOwn).flatMap Attribute.arguments

/-- Whether all attributes that speak of fields have arguments in parentheses, and nothing else. -/
def Listed (attributes : List Attribute) : Prop :=
  ∀ attr ∈ attributes, attr.isOwn = true → ∃ arguments, attr.form = .list arguments

/-! ## Names -/

/-- Whether a character is one of `[A-Za-z_$]`. -/
def StartsName (c : Char) : Prop :=
  ('A' ≤ c ∧ c ≤ 'Z') ∨ ('a' ≤ c ∧ c ≤ 'z') ∨ c = '_' ∨ c = '$'

/-- Whether a character is one of `[A-Za-z0-9_$]`. -/
def ContinuesName (c : Char) : Prop :=
  StartsName c ∨ ('0' ≤ c ∧ c ≤ '9')

/-- Whether a text matches `[A-Za-z_$][A-Za-z0-9_$]*`. -/
def IsFieldName (text : String) : Prop :=
  ∃ c rest, text.toList = c :: rest ∧ StartsName c ∧ ∀ d ∈ rest, ContinuesName d

theorem isNameStart_iff {c : Char} : Graph.isNameStart c = true ↔ StartsName c := by
  simp only [Graph.isNameStart, StartsName, Char.isAlpha, Char.isUpper, Char.isLower,
    Bool.or_eq_true, Bool.and_eq_true, decide_eq_true_iff, beq_iff_eq, or_assoc]
  rfl

theorem isNameRest_iff {c : Char} : Graph.isNameRest c = true ↔ ContinuesName c := by
  have hsplit : Graph.isNameRest c = (Graph.isNameStart c || c.isDigit) := by
    rw [Graph.isNameRest, Graph.isNameStart, Char.isAlphanum, Bool.or_right_comm c.isAlpha,
      Bool.or_right_comm _ c.isDigit]
  have hdigit : c.isDigit = true ↔ '0' ≤ c ∧ c ≤ '9' := by
    simp only [Char.isDigit, Bool.and_eq_true, decide_eq_true_iff]
    rfl
  rw [hsplit, Bool.or_eq_true, isNameStart_iff, hdigit, ContinuesName]

/-- The names that variants may give are those that graphs are written with. -/
theorem isName_iff {text : String} : Graph.isName text.toList = true ↔ IsFieldName text := by
  rw [IsFieldName]
  cases text.toList with
  | nil => exact iff_of_false nofun nofun
  | cons c rest =>
    rw [Graph.isName, Bool.and_eq_true, List.all_eq_true, isNameStart_iff]
    simp only [isNameRest_iff]
    constructor
    · exact fun h => ⟨c, rest, rfl, h⟩
    · rintro ⟨_, _, ⟨⟩, h⟩
      exact h

/-! ## Acceptable declarations -/

namespace Variant

def renames (variant : Variant) : List String :=
  (ownArguments variant.attributes).filterMap (Argument.textOf "rename")

def nestings (variant : Variant) : List String :=
  (ownArguments variant.attributes).filterMap (Argument.typeOf "nested")

/-- The name of the field that a variant stands for: the one it is given, or else the identifier in
camel case. -/
def fieldName (camel : String → String) (variant : Variant) : String :=
  variant.renames.head?.getD (camel variant.identifier)

def asField (camel : String → String) (variant : Variant) : Field :=
  ⟨variant.identifier, variant.fieldName camel, variant.nestings.head?⟩

/-- Whether nothing is wrong with a variant: it carries nothing, and its attributes hold at most one
`rename` with a string, at most one `nested` with a type, and nothing else. -/
structure Acceptable (variant : Variant) : Prop where
  unit : variant.isUnit = true
  listed : Listed variant.attributes
  known : ∀ argument ∈ ownArguments variant.attributes,
    (argument.textOf "rename").isSome = true ∨ (argument.typeOf "nested").isSome = true
  renamed_once : variant.renames.length ≤ 1
  nested_once : variant.nestings.length ≤ 1

end Variant

namespace Declaration

def givenNames (declaration : Declaration) : List String :=
  (ownArguments declaration.attributes).filterMap (Argument.textOf "name")

def described (camel : String → String) (declaration : Declaration) : Kind where
  identifier := declaration.identifier
  name := declaration.givenNames.head?.getD (defaultName declaration.identifier)
  fields := declaration.variants.map (Variant.asField camel)

/-- Whether nothing is wrong with a declaration: it is an enumeration without parameters whose
attributes hold at most one `name` with a string and nothing else, and its variants are acceptable
and give different names that can stand in a text. -/
structure Acceptable (camel : String → String) (declaration : Declaration) : Prop where
  enumeration : declaration.sort = .enumeration
  closed : declaration.isGeneric = false
  listed : Listed declaration.attributes
  known : ∀ argument ∈ ownArguments declaration.attributes,
    (argument.textOf "name").isSome = true
  named_once : declaration.givenNames.length ≤ 1
  variants : ∀ variant ∈ declaration.variants, variant.Acceptable
  valid : ∀ variant ∈ declaration.variants, IsFieldName (variant.fieldName camel)
  distinct : (declaration.variants.map (Variant.fieldName camel)).Nodup

end Declaration

/-! ## Reading attributes -/

theorem Listed.nil : Listed [] :=
  nofun

section Cons

variable {attr : Attribute} {rest : List Attribute}

theorem ending_eq_none_iff :
    attr.ending = none ↔ ∃ arguments, attr.form = .list arguments := by
  rw [Attribute.ending]
  cases attr.form with
  | list arguments => exact iff_of_true rfl ⟨arguments, rfl⟩
  | broken | bare | assigned => exact iff_of_false nofun nofun

/-- The arguments of an attribute that speaks of fields stand before those that follow. -/
theorem listed_cons_and_iff (hown : attr.isOwn = true) {P : List Argument → Prop} :
    Listed (attr :: rest) ∧ P (ownArguments (attr :: rest)) ↔
      attr.ending = none ∧ Listed rest ∧ P (attr.arguments ++ ownArguments rest) := by
  rw [Listed, List.forall_mem_cons, forall_prop_of_true hown, ← ending_eq_none_iff, ownArguments,
    List.filter_cons_of_pos hown, List.flatMap_cons, and_assoc]
  rfl

theorem listed_cons_and_iff_of_not (hown : ¬attr.isOwn = true) {P : List Argument → Prop} :
    Listed (attr :: rest) ∧ P (ownArguments (attr :: rest)) ↔
      Listed rest ∧ P (ownArguments rest) := by
  rw [Listed, List.forall_mem_cons, and_iff_right fun h => absurd h hown, ownArguments,
    List.filter_cons_of_neg hown]
  rfl

end Cons

/-- What an option holds is a list of at most one element. -/
theorem eq_toList_iff {α : Type} {list : List α} {value : Option α} :
    list = value.toList ↔ list.length ≤ 1 ∧ value = list.head? := by
  constructor
  · rintro rfl
    exact ⟨value.length_toList_le, value.head?_toList.symm⟩
  · rintro ⟨hlength, rfl⟩
    match list, hlength with
    | [], _ | [_], _ => rfl

theorem toList_inj {α : Type} {first second : Option α} :
    first.toList = second.toList ↔ first = second :=
  ⟨fun h => by rw [← first.head?_toList, h, second.head?_toList], congrArg Option.toList⟩

/-- An option has room for something more only if it holds nothing. -/
theorem toList_append_cons_eq_iff {α : Type} {value given : Option α} {element : α}
    {rest : List α} :
    value.toList ++ element :: rest = given.toList ↔
      value = none ∧ (some element).toList ++ rest = given.toList := by
  cases value with
  | none => exact (and_iff_right rfl).symm
  | some old =>
    refine iff_of_false (fun h => ?_) nofun
    have hlength := h ▸ given.length_toList_le
    simp at hlength

namespace Argument

variable {key : String} {argument : Argument}

theorem textOf_eq_some_iff {content : String} :
    argument.textOf key = some content ↔
      argument.key = key ∧ argument.value.asText = .ok content := by
  rw [textOf]
  cases argument.value with
  | text given =>
    by_cases hkey : argument.key = key <;> simp [hkey, Value.asText, pure, Except.pure]
  | absent | type => exact iff_of_false nofun nofun

theorem typeOf_eq_some_iff {source : String} :
    argument.typeOf key = some source ↔
      argument.key = key ∧ argument.value.asType = .ok source := by
  rw [typeOf]
  cases argument.value with
  | type given =>
    by_cases htype : TypeSource.isType given = true <;>
      by_cases hkey : argument.key = key <;>
        simp [hkey, htype, Value.asType, pure, Except.pure]
  | absent | text => exact iff_of_false nofun nofun

/-- A string is no type. -/
theorem typeOf_eq_none {content : String} (other : String)
    (h : argument.textOf key = some content) : argument.typeOf other = none := by
  rw [textOf] at h
  rw [typeOf]
  cases hvalue : argument.value with
  | absent | text => rfl
  | type source =>
    rw [hvalue] at h
    cases h

end Argument

/-! ## The enumeration -/

theorem readName_cons_eq_ok_iff {ending : Option Problem} {name given : Option String}
    {argument : Argument} {rest : List Argument} :
    readName ending name (argument :: rest) = .ok given ↔
      ∃ text, argument.textOf "name" = some text ∧ name = none ∧
        readName ending (some text) rest = .ok given := by
  rw [readName]
  by_cases hkey : argument.key = "name"
  · rw [if_pos hkey, Result.bind_eq_ok_iff]
    simp only [Argument.textOf_eq_some_iff, hkey, true_and]
    refine exists_congr fun text => and_congr_right fun _ => ?_
    cases name with
    | none => exact (and_iff_right rfl).symm
    | some old => exact iff_of_false nofun nofun
  · rw [if_neg hkey]
    exact iff_of_false nofun fun ⟨_, htext, _⟩ => hkey (Argument.textOf_eq_some_iff.1 htext).1

/-- Reading the arguments of an enumeration succeeds if they are names, one at most, and nothing is
wrong behind them. -/
theorem readName_eq_ok_iff {ending : Option Problem} {name given : Option String}
    {arguments : List Argument} :
    readName ending name arguments = .ok given ↔ ending = none ∧
      (∀ argument ∈ arguments, (argument.textOf "name").isSome = true) ∧
        name.toList ++ arguments.filterMap (Argument.textOf "name") = given.toList := by
  induction arguments generalizing name with
  | nil =>
    rw [List.filterMap_nil, List.append_nil, toList_inj]
    cases ending with
    | none => exact ⟨fun h => ⟨rfl, nofun, Except.ok.inj h⟩, fun h => congrArg _ h.2.2⟩
    | some problem => exact iff_of_false nofun nofun
  | cons argument rest ih =>
    rw [readName_cons_eq_ok_iff, List.forall_mem_cons, Option.isSome_iff_exists]
    cases htext : argument.textOf "name" with
    | none => simp
    | some text =>
      rw [List.filterMap_cons_some htext, toList_append_cons_eq_iff]
      simp [ih, and_left_comm]

theorem readName_append_eq_ok_iff {ending : Option Problem} {name given : Option String}
    {front back : List Argument} :
    readName ending name (front ++ back) = .ok given ↔
      ∃ between, readName none name front = .ok between ∧
        readName ending between back = .ok given := by
  induction front generalizing name with
  | nil =>
    constructor
    · exact fun h => ⟨name, rfl, h⟩
    · rintro ⟨_, ⟨⟩, h⟩
      exact h
  | cons argument rest ih =>
    simp only [List.cons_append, readName_cons_eq_ok_iff, ih]
    constructor
    · rintro ⟨text, htext, hnone, between, hfront, hback⟩
      exact ⟨between, ⟨text, htext, hnone, hfront⟩, hback⟩
    · rintro ⟨between, ⟨text, htext, hnone, hfront⟩, hback⟩
      exact ⟨text, htext, hnone, between, hfront, hback⟩

/-- It makes no difference how the arguments are spread over attributes. -/
theorem foldlM_readName_eq_ok_iff {name given : Option String} {attributes : List Attribute} :
    (attributes.filter Attribute.isOwn).foldlM
        (fun name attr => readName attr.ending name attr.arguments) name = Except.ok given ↔
      Listed attributes ∧ readName none name (ownArguments attributes) = .ok given := by
  induction attributes generalizing name with
  | nil => exact (and_iff_right Listed.nil).symm
  | cons attr rest ih =>
    by_cases hown : attr.isOwn = true
    · have hending {between : Option String} :
          readName attr.ending name attr.arguments = .ok between ↔
            attr.ending = none ∧ readName none name attr.arguments = .ok between := by
        rw [readName_eq_ok_iff, readName_eq_ok_iff, and_iff_right rfl]
      rw [listed_cons_and_iff hown
          (P := fun arguments => readName none name arguments = .ok given),
        List.filter_cons_of_pos hown, List.foldlM_cons, Result.bind_eq_ok_iff]
      simp only [hending, ih, readName_append_eq_ok_iff]
      constructor
      · rintro ⟨between, ⟨hending, hfront⟩, hlisted, hback⟩
        exact ⟨hending, hlisted, between, hfront, hback⟩
      · rintro ⟨hending, hlisted, between, hfront, hback⟩
        exact ⟨between, ⟨hending, hfront⟩, hlisted, hback⟩
    · rw [listed_cons_and_iff_of_not hown
          (P := fun arguments => readName none name arguments = .ok given),
        List.filter_cons_of_neg hown, ih]

theorem givenName_eq_ok_iff {given : Option String} {attributes : List Attribute} :
    givenName attributes = .ok given ↔
      Listed attributes ∧
        (∀ argument ∈ ownArguments attributes, (argument.textOf "name").isSome = true) ∧
          (ownArguments attributes).filterMap (Argument.textOf "name") = given.toList := by
  rw [givenName, foldlM_readName_eq_ok_iff, readName_eq_ok_iff, and_iff_right rfl]
  rfl

/-! ## Settings -/

namespace Settings

variable {settings after : Settings} {ending : Option Problem}

theorem readArguments_cons_eq_iff {argument : Argument} {rest : List Argument} :
    readArguments ending settings (argument :: rest) = (after, []) ↔
      (∃ text, argument.textOf "rename" = some text ∧ settings.rename = none ∧
        readArguments ending { settings with rename := some text } rest = (after, [])) ∨
      ∃ source, argument.typeOf "nested" = some source ∧ settings.nested = none ∧
        readArguments ending { settings with nested := some source } rest = (after, []) := by
  rw [readArguments]
  simp only [Argument.textOf_eq_some_iff, Argument.typeOf_eq_some_iff]
  by_cases hrename : argument.key = "rename"
  · have hnested : argument.key ≠ "nested" := by rw [hrename]; decide
    simp only [hrename, true_and, if_true]
    cases argument.value.asText with
    | error problem => simp
    | ok text => cases settings.rename <;> simp
  · by_cases hnested : argument.key = "nested"
    · simp only [hnested, true_and, if_true]
      cases argument.value.asType with
      | error problem => simp
      | ok source => cases settings.nested <;> simp
    · simp [hrename, hnested]

theorem readArguments_append_eq_iff {front back : List Argument} :
    readArguments ending settings (front ++ back) = (after, []) ↔
      ∃ between, readArguments none settings front = (between, []) ∧
        readArguments ending between back = (after, []) := by
  induction front generalizing settings with
  | nil =>
    constructor
    · exact fun h => ⟨settings, rfl, h⟩
    · rintro ⟨_, ⟨⟩, h⟩
      exact h
  | cons argument rest ih =>
    simp only [List.cons_append, readArguments_cons_eq_iff, ih]
    constructor
    · rintro (⟨text, htext, hnone, between, hfront, hback⟩ |
        ⟨source, hsource, hnone, between, hfront, hback⟩)
      · exact ⟨between, .inl ⟨text, htext, hnone, hfront⟩, hback⟩
      · exact ⟨between, .inr ⟨source, hsource, hnone, hfront⟩, hback⟩
    · rintro ⟨between, ⟨text, htext, hnone, hfront⟩ | ⟨source, hsource, hnone, hfront⟩, hback⟩
      · exact .inl ⟨text, htext, hnone, between, hfront, hback⟩
      · exact .inr ⟨source, hsource, hnone, between, hfront, hback⟩

/-- Reading the arguments of a variant finds no problem if each is a name or a type, at most one of
either, and nothing is wrong behind them. -/
theorem readArguments_eq_iff {arguments : List Argument} :
    readArguments ending settings arguments = (after, []) ↔ ending = none ∧
      (∀ argument ∈ arguments,
        (argument.textOf "rename").isSome = true ∨ (argument.typeOf "nested").isSome = true) ∧
      settings.rename.toList ++ arguments.filterMap (Argument.textOf "rename") =
        after.rename.toList ∧
      settings.nested.toList ++ arguments.filterMap (Argument.typeOf "nested") =
        after.nested.toList := by
  induction arguments generalizing settings with
  | nil =>
    rw [readArguments, Prod.mk.injEq, Option.toList_eq_nil_iff, and_comm]
    simp only [List.filterMap_nil, List.append_nil, toList_inj]
    refine and_congr_right fun _ => ?_
    constructor
    · rintro rfl
      exact ⟨nofun, rfl, rfl⟩
    · rintro ⟨-, hrename, hnested⟩
      obtain ⟨rename, nested⟩ := settings
      cases hrename
      cases hnested
      rfl
  | cons argument rest ih =>
    rw [readArguments_cons_eq_iff, List.forall_mem_cons, Option.isSome_iff_exists,
      Option.isSome_iff_exists]
    simp only [ih]
    -- An argument is a name or a type and never both, so it goes to one of the two lists.
    cases htext : argument.textOf "rename" with
    | some text =>
      have htype := Argument.typeOf_eq_none "nested" htext
      rw [List.filterMap_cons_some htext, List.filterMap_cons_none htype, toList_append_cons_eq_iff]
      simp [htype, and_left_comm, and_assoc]
    | none =>
      cases htype : argument.typeOf "nested" with
      | none => simp
      | some source =>
        rw [List.filterMap_cons_none htext, List.filterMap_cons_some htype,
          toList_append_cons_eq_iff]
        simp [and_left_comm]

theorem readAttributes_cons_eq_iff {attr : Attribute} {rest : List Attribute}
    (hown : attr.isOwn = true) :
    settings.readAttributes (attr :: rest) = (after, []) ↔
      ∃ between, (attr.ending = none ∧
          readArguments none settings attr.arguments = (between, [])) ∧
        between.readAttributes rest = (after, []) := by
  have hending {between : Settings} :
      readArguments attr.ending settings attr.arguments = (between, []) ↔
        attr.ending = none ∧ readArguments none settings attr.arguments = (between, []) := by
    rw [readArguments_eq_iff, readArguments_eq_iff, and_iff_right rfl]
  simp only [← hending]
  rw [readAttributes, if_pos hown]
  obtain ⟨between, found⟩ := readArguments attr.ending settings attr.arguments
  simp [Prod.ext_iff, and_left_comm]

/-- It makes no difference how the arguments are spread over attributes. -/
theorem readAttributes_eq_iff {attributes : List Attribute} :
    settings.readAttributes attributes = (after, []) ↔
      Listed attributes ∧ readArguments none settings (ownArguments attributes) = (after, []) := by
  induction attributes generalizing settings with
  | nil => exact (and_iff_right Listed.nil).symm
  | cons attr rest ih =>
    by_cases hown : attr.isOwn = true
    · rw [listed_cons_and_iff hown
          (P := fun arguments => readArguments none settings arguments = (after, [])),
        readAttributes_cons_eq_iff hown]
      simp only [ih, readArguments_append_eq_iff]
      constructor
      · rintro ⟨between, ⟨hending, hfront⟩, hlisted, hback⟩
        exact ⟨hending, hlisted, between, hfront, hback⟩
      · rintro ⟨hending, hlisted, between, hfront, hback⟩
        exact ⟨between, ⟨hending, hfront⟩, hlisted, hback⟩
    · rw [listed_cons_and_iff_of_not hown
          (P := fun arguments => readArguments none settings arguments = (after, [])),
        readAttributes, if_neg hown, ih]

end Settings

/-! ## Variants -/

def Variant.settings (variant : Variant) : Settings :=
  ⟨variant.renames.head?, variant.nestings.head?⟩

namespace Variant

variable {camel : String → String} {variant : Variant}

/-- Nothing is wrong with a variant exactly if it carries nothing and reading its attributes finds
nothing. -/
theorem read_iff_acceptable {settings : Settings} :
    variant.isUnit = true ∧ Settings.empty.readAttributes variant.attributes = (settings, []) ↔
      variant.Acceptable ∧ settings = variant.settings := by
  rw [Settings.readAttributes_eq_iff, Settings.readArguments_eq_iff, and_iff_right rfl]
  have hrenames : Settings.empty.rename.toList ++
      (ownArguments variant.attributes).filterMap (Argument.textOf "rename") =
        settings.rename.toList ↔
      variant.renames.length ≤ 1 ∧ settings.rename = variant.renames.head? := eq_toList_iff
  have hnestings : Settings.empty.nested.toList ++
      (ownArguments variant.attributes).filterMap (Argument.typeOf "nested") =
        settings.nested.toList ↔
      variant.nestings.length ≤ 1 ∧ settings.nested = variant.nestings.head? := eq_toList_iff
  rw [hrenames, hnestings]
  constructor
  · rintro ⟨hunit, hlisted, hknown, ⟨honce, hrename⟩, ⟨htwice, hnested⟩⟩
    refine ⟨⟨hunit, hlisted, hknown, honce, htwice⟩, ?_⟩
    rw [Variant.settings, ← hrename, ← hnested]
  · rintro ⟨⟨hunit, hlisted, hknown, honce, htwice⟩, rfl⟩
    exact ⟨hunit, hlisted, hknown, ⟨honce, rfl⟩, htwice, rfl⟩

theorem field_eq_ok_iff_read {field : Field} :
    variant.field camel = .ok field ↔ ∃ settings,
      (variant.isUnit = true ∧
        Settings.empty.readAttributes variant.attributes = (settings, [])) ∧
      Graph.isName (settings.rename.getD (camel variant.identifier)).toList = true ∧
      field = ⟨variant.identifier, settings.rename.getD (camel variant.identifier),
        settings.nested⟩ := by
  rw [Variant.field]
  by_cases hunit : variant.isUnit = true
  · obtain ⟨settings, problems⟩ := Settings.empty.readAttributes variant.attributes
    cases problems with
    | nil =>
      by_cases hname : Graph.isName
          (settings.rename.getD (camel variant.identifier)).toList = true
      · simp [hunit, hname, pure, Except.pure, eq_comm (a := field)]
      · simp [hunit, hname]
    | cons problem problems => simp [hunit]
  · simp [hunit]

theorem field_eq_ok_iff {field : Field} :
    variant.field camel = .ok field ↔
      variant.Acceptable ∧ IsFieldName (variant.fieldName camel) ∧
        field = variant.asField camel := by
  rw [field_eq_ok_iff_read]
  simp only [read_iff_acceptable, isName_iff]
  constructor
  · rintro ⟨_, ⟨hacceptable, rfl⟩, hname, hfield⟩
    exact ⟨hacceptable, hname, hfield⟩
  · rintro ⟨hacceptable, hname, hfield⟩
    exact ⟨_, ⟨hacceptable, rfl⟩, hname, hfield⟩

/-- What is wrong with a variant is told. -/
theorem field_ne_error_nil : variant.field camel ≠ .error [] := by
  rw [Variant.field]
  obtain ⟨settings, problems⟩ := Settings.empty.readAttributes variant.attributes
  by_cases hunit : variant.isUnit = true
  · cases problems with
    | nil =>
      by_cases hname : Graph.isName
          (settings.rename.getD (camel variant.identifier)).toList = true
      · simp [hunit, hname, pure, Except.pure]
      · simp [hunit, hname, throw, throwThe, MonadExceptOf.throw]
    | cons problem problems => simp [hunit, throw, throwThe, MonadExceptOf.throw]
  · simp [hunit, throw, throwThe, MonadExceptOf.throw]

end Variant

section Reading

variable {camel : String → String}

theorem find?_name_eq_none_iff {before : List Field} {name : String} :
    before.find? (fun other => other.name == name) = none ↔ name ∉ before.map (·.name) := by
  simp [List.find?_eq_none]

theorem readVariants_cons_eq_iff {before fields : List Field} {variant : Variant}
    {rest : List Variant} :
    readVariants camel before (variant :: rest) = (fields, []) ↔
      ∃ field, variant.field camel = .ok field ∧ field.name ∉ before.map (·.name) ∧
        readVariants camel (before ++ [field]) rest = (fields, []) := by
  rw [readVariants]
  simp only [← find?_name_eq_none_iff]
  cases hfield : variant.field camel with
  | error found =>
    have hfound : found ≠ [] := fun hnil => variant.field_ne_error_nil (hnil ▸ hfield)
    simp [hfound]
  | ok field =>
    simp only [Except.ok.injEq, exists_eq_left']
    cases before.find? fun other => other.name == field.name with
    | none => exact (and_iff_right rfl).symm
    | some first => exact iff_of_false nofun nofun

/-- Reading variants finds no problem if they are acceptable and give different names, which are not
among those given before. -/
theorem readVariants_eq_iff {before fields : List Field} {variants : List Variant}
    (hbefore : (before.map (·.name)).Nodup) :
    readVariants camel before variants = (fields, []) ↔
      (∀ variant ∈ variants, variant.Acceptable ∧ IsFieldName (variant.fieldName camel)) ∧
        (before.map (·.name) ++ variants.map (Variant.fieldName camel)).Nodup ∧
          fields = before ++ variants.map (Variant.asField camel) := by
  induction variants generalizing before with
  | nil =>
    rw [List.map_nil, List.append_nil, List.map_nil, List.append_nil]
    constructor
    · rintro ⟨⟩
      exact ⟨nofun, hbefore, rfl⟩
    · rintro ⟨-, -, rfl⟩
      rfl
  | cons variant rest ih =>
    -- The rest is read after one field more, so the names before it must still be different.
    have hnames : (before ++ [variant.asField camel]).map (·.name) =
        before.map (·.name) ++ [variant.fieldName camel] := List.map_append
    have hnew : ((before ++ [variant.asField camel]).map (·.name)).Nodup ↔
        variant.fieldName camel ∉ before.map (·.name) := by
      rw [hnames, List.nodup_append_comm, List.singleton_append, List.nodup_cons,
        and_iff_left hbefore]
    rw [readVariants_cons_eq_iff, List.forall_mem_cons]
    simp only [Variant.field_eq_ok_iff]
    constructor
    · rintro ⟨_, ⟨hacceptable, hname, rfl⟩, hfresh, hrest⟩
      obtain ⟨hall, hdistinct, rfl⟩ := (ih (hnew.2 hfresh)).1 hrest
      rw [hnames, List.append_assoc] at hdistinct
      exact ⟨⟨⟨hacceptable, hname⟩, hall⟩, hdistinct, List.append_assoc ..⟩
    · rintro ⟨⟨⟨hacceptable, hname⟩, hall⟩, hdistinct, rfl⟩
      rw [List.map_cons, ← List.singleton_append, ← List.append_assoc, ← hnames] at hdistinct
      have hfresh := hdistinct.of_append_left
      exact ⟨_, ⟨hacceptable, hname, rfl⟩, hnew.1 hfresh,
        (ih hfresh).2 ⟨hall, hdistinct, List.append_cons ..⟩⟩

/-! ## Declarations -/

theorem kind_eq_ok_iff_read {declaration : Declaration} {kind : Kind} :
    declaration.kind camel = .ok kind ↔
      declaration.sort = .enumeration ∧ declaration.isGeneric = false ∧
        ∃ given, givenName declaration.attributes = .ok given ∧
          ∃ fields, readVariants camel [] declaration.variants = (fields, []) ∧
            kind = ⟨declaration.identifier, given.getD (defaultName declaration.identifier),
              fields⟩ := by
  rw [Declaration.kind]
  by_cases hsort : declaration.sort = .enumeration
  · by_cases hgeneric : declaration.isGeneric = true
    · simp [hsort, hgeneric]
    · obtain ⟨fields, problems⟩ := readVariants camel [] declaration.variants
      cases givenName declaration.attributes with
      | error problem => simp [hsort, hgeneric]
      | ok given =>
        cases problems <;> simp [hsort, hgeneric, pure, Except.pure, eq_comm (a := kind)]
  · simp [hsort]

/-- The kind that a declaration describes is read exactly if nothing is wrong with it. -/
theorem kind_eq_ok_iff {declaration : Declaration} {kind : Kind} :
    declaration.kind camel = .ok kind ↔
      declaration.Acceptable camel ∧ kind = declaration.described camel := by
  have hgiven {given : Option String} : givenName declaration.attributes = .ok given ↔
      Listed declaration.attributes ∧
        (∀ argument ∈ ownArguments declaration.attributes,
          (argument.textOf "name").isSome = true) ∧
        declaration.givenNames.length ≤ 1 ∧ given = declaration.givenNames.head? := by
    rw [givenName_eq_ok_iff, ← eq_toList_iff]
    rfl
  have hnone : (([] : List Field).map (·.name)).Nodup := List.nodup_nil
  rw [kind_eq_ok_iff_read]
  simp only [hgiven, readVariants_eq_iff hnone]
  constructor
  · rintro ⟨hsort, hclosed, _, ⟨hlisted, hknown, honce, rfl⟩, _, ⟨hall, hdistinct, rfl⟩, rfl⟩
    exact ⟨⟨hsort, hclosed, hlisted, hknown, honce,
      fun variant hvariant => (hall variant hvariant).1,
      fun variant hvariant => (hall variant hvariant).2, hdistinct⟩, rfl⟩
  · rintro ⟨h, rfl⟩
    exact ⟨h.enumeration, h.closed, _, ⟨h.listed, h.known, h.named_once, rfl⟩, _,
      ⟨fun variant hvariant => ⟨h.variants variant hvariant, h.valid variant hvariant⟩, h.distinct,
        rfl⟩, rfl⟩

/-- An instance is generated exactly for the declarations that nothing is wrong with. -/
theorem instanceBy?_eq_ok_iff {declaration : Declaration} {generated : Instance} :
    declaration.instanceBy? camel = .ok generated ↔
      declaration.Acceptable camel ∧ generated = Instance.ofKind (declaration.described camel) := by
  have hmap : declaration.instanceBy? camel = Instance.ofKind <$> declaration.kind camel := rfl
  rw [hmap, Result.map_eq_ok_iff]
  simp only [kind_eq_ok_iff]
  constructor
  · rintro ⟨_, ⟨hacceptable, rfl⟩, rfl⟩
    exact ⟨hacceptable, rfl⟩
  · rintro ⟨hacceptable, rfl⟩
    exact ⟨_, ⟨hacceptable, rfl⟩, rfl⟩

end Reading

end PartialEntity.Derive
