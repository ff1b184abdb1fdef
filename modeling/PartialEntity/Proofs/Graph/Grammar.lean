import PartialEntity.Graph.Parser
import PartialEntity.Harbor.Kinds
import PartialEntity.Proofs.Graph.Levels

/-!
# The grammar of field graphs

A text denotes a graph if it is a list of items between commas, where an item is a name and perhaps
a graph in braces.  Which names and which braces are allowed depends on the kind that rules the
level.  `Graph.Written` is this grammar; it keeps the items in the order in which they are written,
with repetitions.  Reading accepts exactly the blank texts and the texts of the grammar, and unites
the items of a field at the place of the first one.
-/

namespace PartialEntity.Graph

variable {κ : Type}

/-! ## Texts -/

section Grammar

variable [Catalog κ]

mutual

/-- Whether a text is written over a kind as a list of items: `graph := item (',' item)*`. -/
inductive Written : κ → List Char → List (Nat × Option (Graph κ)) → Prop
  | single {kind : κ} {text : List Char} {entry : Nat × Option (Graph κ)}
      (hitem : WrittenItem kind text entry) : Written kind text [entry]
  | comma {kind : κ} {first rest : List Char} {entry : Nat × Option (Graph κ)}
      {entries : List (Nat × Option (Graph κ))} (hitem : WrittenItem kind first entry)
      (hrest : Written kind rest entries) :
      Written kind (first ++ ',' :: rest) (entry :: entries)

/-- Whether a text is written over a kind as an item: `item := identifier ('{' graph '}')?`, where
the identifier names a field of the kind, and the kind nested under it rules the braces. -/
inductive WrittenItem : κ → List Char → Nat × Option (Graph κ) → Prop
  | bare {kind : κ} {name : List Char} {field : Nat} (hname : isName name = true)
      (hfield : Catalog.position? kind (String.ofList name) = some field) :
      WrittenItem kind name (field, .none)
  | braced {kind inner : κ} {name text : List Char} {field : Nat}
      {entries : List (Nat × Option (Graph κ))} (hname : isName name = true)
      (hfield : Catalog.position? kind (String.ofList name) = some field)
      (hnested : Catalog.nested? kind field = some inner) (hinside : Written inner text entries) :
      WrittenItem kind (name ++ '\x7b' :: text ++ ['\x7d']) (field, some (node inner entries))

end

end Grammar

/-! ## Names -/

section Name

variable {name text rest : List Char}

theorem ne_nil_of_isName (hname : isName name = true) : name ≠ [] := by
  rintro rfl
  cases hname

/-- What is split off the front of a text is a name, unless it is empty. -/
theorem isName_splitName (h : (splitName text).1 ≠ []) : isName (splitName text).1 = true := by
  cases text with
  | nil => exact absurd rfl h
  | cons c text =>
    rw [splitName] at h ⊢
    split
    · rename_i hstart
      rw [isName, hstart, Bool.true_and]
      exact List.all_eq_true.2 fun _ => List.mem_takeWhile_imp
    · rename_i hstart
      rw [if_neg hstart] at h
      exact absurd rfl h

/-- No name is split off a text exactly when its first character cannot begin one. -/
theorem splitName_cons_eq_nil_iff {c : Char} :
    (splitName (c :: text)).1 = [] ↔ isNameStart c = false := by
  rw [splitName]
  cases isNameStart c <;> simp

/-- A name is split off before anything that cannot go on with it. -/
theorem splitName_name_append (hname : isName name = true)
    (hrest : ∀ c after, rest = c :: after → isNameRest c = false) :
    splitName (name ++ rest) = (name, rest) := by
  cases name with
  | nil => cases hname
  | cons c name =>
    rw [isName, Bool.and_eq_true, List.all_eq_true] at hname
    have hstop : rest.takeWhile isNameRest = [] ∧ rest.dropWhile isNameRest = rest := by
      cases rest with
      | nil => exact ⟨rfl, rfl⟩
      | cons d after => simp [hrest d after rfl]
    rw [List.cons_append, splitName, if_pos hname.1, List.takeWhile_append_of_pos hname.2,
      List.dropWhile_append_of_pos hname.2, hstop.1, hstop.2, List.append_nil]

/-- A name is split off as far as it goes. -/
theorem not_isNameRest_of_splitName (h : (splitName text).1 ≠ []) {c : Char}
    (hrest : (splitName text).2 = c :: rest) : isNameRest c = false := by
  cases text with
  | nil => exact absurd rfl h
  | cons d text =>
    rw [splitName] at h hrest
    split at hrest
    · have hstop := List.head?_dropWhile_not isNameRest text
      rw [show text.dropWhile isNameRest = c :: rest from hrest] at hstop
      exact hstop
    · rename_i hstart
      rw [if_neg hstart] at h
      exact absurd rfl h

theorem braces_append (name text rest : List Char) :
    name ++ '\x7b' :: text ++ ['\x7d'] ++ rest = name ++ '\x7b' :: (text ++ '\x7d' :: rest) := by
  simp

theorem isBlankChar_of_isNameStart {c : Char} (h : isNameStart c = true) :
    Text.isBlankChar c = false := by
  have hcode : (65 ≤ c.toNat ∧ c.toNat ≤ 90 ∨ 97 ≤ c.toNat ∧ c.toNat ≤ 122) ∨
      c.toNat = 95 ∨ c.toNat = 36 := by
    rw [isNameStart, Bool.or_eq_true, Bool.or_eq_true, beq_iff_eq, beq_iff_eq] at h
    rcases h with (h | rfl) | rfl
    · left
      simp only [Char.isAlpha, Char.isUpper, Char.isLower, Bool.or_eq_true, Bool.and_eq_true,
        decide_eq_true_eq, ge_iff_le, UInt32.le_iff_toNat_le] at h
      exact h
    · exact .inr (.inl rfl)
    · exact .inr (.inr rfl)
  rw [Bool.eq_false_iff]
  simp only [Text.isBlankChar, ne_eq, Bool.or_eq_true, Bool.and_eq_true, decide_eq_true_eq,
    beq_iff_eq]
  omega

/-- A text that begins with a name is not blank. -/
theorem not_isBlank_of_isName (hname : isName name = true) (rest : List Char) :
    Text.isBlank (name ++ rest) = false := by
  cases name with
  | nil => cases hname
  | cons c name =>
    rw [isName, Bool.and_eq_true] at hname
    rw [Text.isBlank, List.cons_append, List.all_cons, isBlankChar_of_isNameStart hname.1,
      Bool.false_and]

end Name

section Parser

variable [Catalog κ]

/-! ## What the readers read -/

section Readers

variable {total : Nat} {nested : Bool} {graph result : Graph κ} {text rest : List Char}

/-- Whether the items of a level are read off a text, with what they make of a graph. -/
def ReadsItems (total : Nat) (nested : Bool) (graph : Graph κ) (text : List Char)
    (result : Graph κ) (rest : List Char) : Prop :=
  ∃ left, readItems total nested graph text = .ok (result, left) ∧ left.1 = rest

/-- Whether braces are read off a text, or nothing if it does not begin with them. -/
def ReadsBraces (total start : Nat) (kind : κ) (field : Nat) (text : List Char)
    (subgraph : Option (Graph κ)) (rest : List Char) : Prop :=
  ∃ left, readBraces total start kind field text = .ok (subgraph, left) ∧ left.1 = rest

def ReadsNext (total : Nat) (nested : Bool) (graph : Graph κ) (text : List Char)
    (result : Graph κ) (rest : List Char) : Prop :=
  ∃ left, readNext total nested graph text = .ok (result, left) ∧ left.1 = rest

/-- Items begin with a name, the braces behind it, and what follows them. -/
theorem readsItems_iff :
    ReadsItems total nested graph text result rest ↔
      (splitName text).1 ≠ [] ∧ ∃ field subgraph between,
        Catalog.position? graph.kind (String.ofList (splitName text).1) = some field ∧
        ReadsBraces total (total - text.length) graph.kind field (splitName text).2 subgraph
          between ∧
        ReadsNext total nested (graph.insertEntry field subgraph) between result rest := by
  rw [ReadsItems, readItems]
  by_cases hname : (splitName text).1 = []
  · rw [dif_pos hname]
    refine iff_of_false ?_ fun h => h.1 hname
    rintro ⟨_, h, -⟩
    cases h
  rw [dif_neg hname]
  cases hfield : Catalog.position? graph.kind (String.ofList (splitName text).1) with
  | none =>
    constructor
    · rintro ⟨_, h, -⟩
      cases h
    · rintro ⟨-, _, _, _, h, -⟩
      cases h
  | some field =>
    simp only [Result.bind_eq_ok_iff]
    constructor
    · rintro ⟨_, ⟨⟨subgraph, between⟩, hbraces, ⟨after, left⟩, hnext, heq⟩, rfl⟩
      cases heq
      exact ⟨hname, field, subgraph, between.1, rfl, ⟨between, hbraces, rfl⟩, left, hnext, rfl⟩
    · rintro ⟨-, _, subgraph, _, ⟨⟩, ⟨between, hbraces, rfl⟩, left, hnext, rfl⟩
      exact ⟨_, ⟨(subgraph, between), hbraces, (result, left), hnext, rfl⟩, rfl⟩

/-- Braces are read as a level of the nested kind that ends with the closing brace. -/
theorem readsBraces_iff {start : Nat} {kind : κ} {field : Nat} {subgraph : Option (Graph κ)} :
    ReadsBraces total start kind field text subgraph rest ↔
      ((∀ body, text ≠ '\x7b' :: body) ∧ subgraph = .none ∧ rest = text) ∨
      ∃ body inner inside, text = '\x7b' :: body ∧ Catalog.nested? kind field = some inner ∧
        ReadsItems total true (none inner) body inside ('\x7d' :: rest) ∧
        subgraph = some inside := by
  rw [ReadsBraces]
  by_cases hopen : ∃ body, text = '\x7b' :: body
  · obtain ⟨body, rfl⟩ := hopen
    have hnot : ¬∀ other, '\x7b' :: body ≠ '\x7b' :: other := fun h => h body rfl
    rw [readBraces]
    simp only [hnot, false_and, false_or, List.cons.injEq, true_and]
    cases hnested : Catalog.nested? kind field with
    | none =>
      constructor
      · rintro ⟨_, h, -⟩
        cases h
      · rintro ⟨_, _, _, _, h, -⟩
        cases h
    | some inner =>
      simp only [Result.bind_eq_ok_iff]
      constructor
      · rintro ⟨left, ⟨⟨inside, after⟩, hitems, hclose⟩, rfl⟩
        split at hclose
        · rename_i tail hafter
          cases hclose
          exact ⟨body, inner, inside, rfl, rfl, ⟨after, hitems, hafter⟩, rfl⟩
        · cases hclose
      · rintro ⟨_, _, inside, rfl, ⟨⟩, ⟨after, hitems, hafter⟩, rfl⟩
        refine ⟨.closed '\x7b' after hafter, ⟨(inside, after), hitems, ?_⟩, rfl⟩
        split
        · rename_i tail htail
          obtain ⟨-, rfl⟩ := List.cons.inj (hafter.symm.trans htail)
          rfl
        · rename_i hne
          exact absurd hafter (hne _)
  · have hnot : ∀ body, text ≠ '\x7b' :: body := fun body heq => hopen ⟨body, heq⟩
    rw [readBraces]
    · constructor
      · rintro ⟨left, h, rfl⟩
        cases h
        exact .inl ⟨hnot, rfl, rfl⟩
      · rintro (⟨-, rfl, rfl⟩ | ⟨body, _, _, rfl, _⟩)
        · exact ⟨_, rfl, rfl⟩
        · exact absurd rfl (hnot body)
    · exact hnot

/-- Behind an item a level ends, or a comma goes on with it. -/
theorem readsNext_iff :
    ReadsNext total nested graph text result rest ↔
      (text = [] ∧ result = graph ∧ rest = []) ∨
      (∃ after, text = ',' :: after ∧ ReadsItems total nested graph after result rest) ∨
      (nested = true ∧ ∃ after, text = '\x7d' :: after ∧ result = graph ∧ rest = text) := by
  rw [ReadsNext]
  cases text with
  | nil =>
    rw [readNext]
    constructor
    · rintro ⟨left, h, rfl⟩
      cases h
      exact .inl ⟨rfl, rfl, rfl⟩
    · rintro (⟨-, rfl, rfl⟩ | ⟨_, h, _⟩ | ⟨_, _, h, _⟩)
      · exact ⟨_, rfl, rfl⟩
      · cases h
      · cases h
  | cons c after =>
    rw [readNext]
    by_cases hcomma : c = ','
    · subst hcomma
      rw [if_pos rfl]
      simp only [Result.bind_eq_ok_iff]
      constructor
      · rintro ⟨left, ⟨⟨inside, tail⟩, hitems, heq⟩, rfl⟩
        cases heq
        exact .inr (.inl ⟨after, rfl, tail, hitems, rfl⟩)
      · rintro (⟨h, -⟩ | ⟨_, ⟨⟩, tail, hitems, rfl⟩ | ⟨-, _, h, -⟩)
        · cases h
        · exact ⟨_, ⟨(result, tail), hitems, rfl⟩, rfl⟩
        · exact absurd (List.cons.inj h).1 (by decide)
    · rw [if_neg hcomma]
      split
      · rename_i hclose
        obtain ⟨rfl, rfl⟩ := hclose
        constructor
        · rintro ⟨left, h, rfl⟩
          cases h
          exact .inr (.inr ⟨rfl, after, rfl, rfl, rfl⟩)
        · rintro (⟨h, -⟩ | ⟨_, h, -⟩ | ⟨-, _, -, rfl, rfl⟩)
          · cases h
          · exact absurd (List.cons.inj h).1 hcomma
          · exact ⟨_, rfl, rfl⟩
      · rename_i hclose
        constructor
        · rintro ⟨_, h, -⟩
          cases h
        · rintro (⟨h, -⟩ | ⟨_, h, -⟩ | ⟨hnested, _, h, -⟩)
          · cases h
          · exact absurd (List.cons.inj h).1 hcomma
          · exact absurd ⟨(List.cons.inj h).1, hnested⟩ hclose

end Readers

/-! ## Uniting items -/

mutual

/-- The graph of items as they are written, those of a field united at the place of the first. -/
def unite : Graph κ → Graph κ
  | node kind entries => uniteEntries (none kind) entries

def uniteEntries (graph : Graph κ) : List (Nat × Option (Graph κ)) → Graph κ
  | [] => graph
  | (field, subgraph) :: rest =>
    uniteEntries (graph.insertEntry field (uniteAttached subgraph)) rest

def uniteAttached : Option (Graph κ) → Option (Graph κ)
  | .none => .none
  | some subgraph => some (unite subgraph)

end

/-- Whether a text ends a level: it is at its end, or the closing brace comes next. -/
def EndsLevel (nested : Bool) (rest : List Char) : Prop :=
  rest = [] ∨ nested = true ∧ ∃ after, rest = '\x7d' :: after

/-- Whether an item can end before a text: a name without braces goes on as far as it can. -/
def EndsItem (entry : Nat × Option (Graph κ)) (rest : List Char) : Prop :=
  entry.2 = .none → ∀ c after, rest = c :: after → isNameRest c = false ∧ c ≠ '\x7b'

mutual

/-- What is read is written in the grammar. -/
theorem written_of_readsItems {total : Nat} {nested : Bool} {graph result : Graph κ}
    {text rest : List Char} (h : ReadsItems total nested graph text result rest) :
    EndsLevel nested rest ∧ ∃ front entries, text = front ++ rest ∧
      Written graph.kind front entries ∧ result = uniteEntries graph entries := by
  obtain ⟨hname, field, subgraph, between, hfield, hbraces, hnext⟩ := readsItems_iff.1 h
  obtain ⟨first, ⟨_, inside⟩, htext, hwritten, rfl, rfl, -, hshorter⟩ :=
    writtenItem_of_readsBraces hname hfield hbraces
  rcases readsNext_iff.1 hnext with ⟨rfl, rfl, rfl⟩ | ⟨after, rfl, hitems⟩ |
    ⟨hnested, after, rfl, rfl, rfl⟩
  · exact ⟨.inl rfl, first, _, htext, .single hwritten, rfl⟩
  · rw [List.length_cons] at hshorter
    obtain ⟨hends, front, entries, rfl, hrest, rfl⟩ := written_of_readsItems hitems
    exact ⟨hends, first ++ ',' :: front, _, by simp [htext], .comma hwritten hrest, rfl⟩
  · exact ⟨.inr ⟨hnested, after, rfl⟩, first, _, htext, .single hwritten, rfl⟩
termination_by (text.length, 1)

/-- A name and the braces that are read behind it are an item, which ends where the rest of the level
begins. -/
theorem writtenItem_of_readsBraces {total start : Nat} {kind : κ} {field : Nat}
    {text between : List Char} {subgraph : Option (Graph κ)} (hname : (splitName text).1 ≠ [])
    (hfield : Catalog.position? kind (String.ofList (splitName text).1) = some field)
    (hbraces : ReadsBraces total start kind field (splitName text).2 subgraph between) :
    ∃ front entry, text = front ++ between ∧ WrittenItem kind front entry ∧
      entry.1 = field ∧ subgraph = uniteAttached entry.2 ∧ EndsItem entry between ∧
      between.length < text.length := by
  have hisName := isName_splitName hname
  have hsplit := splitName_append text
  have hlength := length_splitName text
  have hpositive := List.length_pos_iff.2 hname
  rcases readsBraces_iff.1 hbraces with ⟨hopen, rfl, rfl⟩ |
    ⟨body, inner, inside, hopen, hnested, hitems, rfl⟩
  · refine ⟨_, (field, .none), hsplit.symm, .bare hisName hfield, rfl, rfl, ?_, by omega⟩
    rintro - c after hrest
    refine ⟨not_isNameRest_of_splitName hname hrest, ?_⟩
    rintro rfl
    exact hopen after hrest
  · have hshorter : body.length < text.length := by
      rw [hopen, List.length_cons] at hlength
      omega
    obtain ⟨-, front, entries, rfl, hwritten, rfl⟩ := written_of_readsItems hitems
    refine ⟨_, (field, some (node inner entries)), ?_, .braced hisName hfield hnested hwritten,
      rfl, rfl, nofun, ?_⟩
    · rw [braces_append, ← hopen, hsplit]
    · simp only [List.length_append, List.length_cons] at hshorter
      omega
termination_by (text.length, 0)

end

/-- Whether a text can come behind an item: it is at its end, or the next character divides items
or closes a level. -/
def FollowsItem (rest : List Char) : Prop :=
  rest = [] ∨ ∃ c after, rest = c :: after ∧ (c = ',' ∨ c = '\x7d')

omit [Catalog κ] in
theorem FollowsItem.endsItem {rest : List Char} (h : FollowsItem rest)
    (entry : Nat × Option (Graph κ)) : EndsItem entry rest := by
  rintro - c after rfl
  rcases h with h | ⟨_, _, heq, rfl | rfl⟩
  · cases h
  all_goals
    obtain ⟨rfl, -⟩ := List.cons.inj heq
    exact ⟨rfl, by decide⟩

theorem EndsLevel.followsItem {nested : Bool} {rest : List Char} (h : EndsLevel nested rest) :
    FollowsItem rest :=
  h.imp_right fun ⟨_, after, heq⟩ => ⟨_, after, heq, .inr rfl⟩

mutual

/-- What is written in the grammar is read. -/
theorem Written.readsItems {kind : κ} {text : List Char} {entries : List (Nat × Option (Graph κ))}
    (h : Written kind text entries) (total : Nat) {nested : Bool} {graph : Graph κ}
    (hkind : graph.kind = kind) {rest : List Char} (hrest : EndsLevel nested rest) :
    ReadsItems total nested graph (text ++ rest) (uniteEntries graph entries) rest := by
  subst hkind
  cases h with
  | @single _ _ entry hitem =>
    obtain ⟨hname, hfield, hbraces⟩ :=
      hitem.readsBraces total (total - (text ++ rest).length) (hrest.followsItem.endsItem entry)
    refine readsItems_iff.2 ⟨hname, entry.1, _, rest, hfield, hbraces, readsNext_iff.2 ?_⟩
    rcases hrest with rfl | ⟨hnested, after, rfl⟩
    · exact .inl ⟨rfl, rfl, rfl⟩
    · exact .inr (.inr ⟨hnested, after, rfl, rfl, rfl⟩)
  | @comma _ first more entry entries hitem hmore =>
    obtain ⟨field, inside⟩ := entry
    have hfollows : FollowsItem (',' :: (more ++ rest)) := .inr ⟨_, _, rfl, .inl rfl⟩
    obtain ⟨hname, hfield, hbraces⟩ :=
      hitem.readsBraces total (total - ((first ++ ',' :: more) ++ rest).length)
        (hfollows.endsItem _)
    have happend : first ++ ',' :: more ++ rest = first ++ ',' :: (more ++ rest) := by simp
    rw [← happend] at hname hfield hbraces
    refine readsItems_iff.2 ⟨hname, field, _, _, hfield, hbraces, readsNext_iff.2 ?_⟩
    -- The level goes on with the graph that the first item was united with.
    have hlevel : (graph.insertEntry field (uniteAttached inside)).kind = graph.kind := rfl
    exact .inr (.inl ⟨_, rfl, hmore.readsItems total hlevel hrest⟩)

/-- The name of a written item is split off whole and known, and the braces behind it are read. -/
theorem WrittenItem.readsBraces {kind : κ} {text : List Char} {entry : Nat × Option (Graph κ)}
    (h : WrittenItem kind text entry) (total start : Nat) {rest : List Char}
    (hrest : EndsItem entry rest) :
    (splitName (text ++ rest)).1 ≠ [] ∧
      Catalog.position? kind (String.ofList (splitName (text ++ rest)).1) = some entry.1 ∧
      ReadsBraces total start kind entry.1 (splitName (text ++ rest)).2 (uniteAttached entry.2)
        rest := by
  cases h with
  | bare hname hfield =>
    rw [splitName_name_append hname fun c after heq => (hrest rfl c after heq).1]
    refine ⟨ne_nil_of_isName hname, hfield, readsBraces_iff.2 (.inl ⟨?_, rfl, rfl⟩)⟩
    exact fun body heq => (hrest rfl _ body heq).2 rfl
  | @braced _ inner name inside _ entries hname hfield hnested hinside =>
    rw [braces_append, splitName_name_append hname fun c after heq => (List.cons.inj heq).1 ▸ rfl]
    refine ⟨ne_nil_of_isName hname, hfield, readsBraces_iff.2 (.inr ?_)⟩
    exact ⟨_, inner, _, rfl, hnested,
      hinside.readsItems total rfl (.inr ⟨rfl, rest, rfl⟩), rfl⟩

end

/-! ## Levels of united items -/

omit [Catalog κ] in
theorem kind_uniteEntries (graph : Graph κ) (entries : List (Nat × Option (Graph κ))) :
    (uniteEntries graph entries).kind = graph.kind := by
  induction entries generalizing graph with
  | nil => rfl
  | cons entry entries ih =>
    obtain ⟨field, subgraph⟩ := entry
    rw [uniteEntries, ih]
    rfl

omit [Catalog κ] in
private theorem mentions_singleton_eraseDups {kind : κ} {field : Nat}
    {subgraph united : Option (Graph κ)}
    (h : ∀ path, attachedMentions united path = (attachedMentions subgraph path).eraseDups)
    (path : List Nat) :
    (node kind [(field, united)]).mentions path =
      ((node kind [(field, subgraph)]).mentions path).eraseDups := by
  cases path with
  | nil => exact (FirstMention.eraseDups_eq_self (List.nodup_singleton field)).symm
  | cons other path =>
    rw [mentions_singleton_cons, mentions_singleton_cons]
    split
    · exact h path
    · rfl

mutual

/-- Uniting items keeps of every field at a level its first mention. -/
theorem Written.levels {kind : κ} {text : List Char} {entries : List (Nat × Option (Graph κ))}
    (h : Written kind text entries) {graph : Graph κ} (hkind : graph.kind = kind)
    (hgraph : graph.WellFormed) :
    (uniteEntries graph entries).WellFormed ∧ ∀ path, (uniteEntries graph entries).mentions path =
      (graph.mentions path ++ (node kind entries).mentions path).eraseDups := by
  subst hkind
  cases h with
  | @single _ _ entry hitem =>
    obtain ⟨hattached, hlevels⟩ := hitem.levels
    refine ⟨hgraph.insertEntry hattached, fun path => ?_⟩
    rw [uniteEntries, uniteEntries, mentions_insertEntry hgraph hattached, hlevels,
      FirstMention.eraseDups_append_eraseDups]
  | @comma _ _ _ entry entries hitem hrest =>
    obtain ⟨hattached, hlevels⟩ := hitem.levels
    have hkind : (graph.insertEntry entry.1 (uniteAttached entry.2)).kind = graph.kind := rfl
    obtain ⟨hwell, hmore⟩ := hrest.levels hkind (hgraph.insertEntry hattached)
    refine ⟨hwell, fun path => ?_⟩
    rw [uniteEntries, hmore, mentions_insertEntry hgraph hattached, hlevels,
      FirstMention.eraseDups_append_eraseDups, FirstMention.eraseDups_eraseDups_append,
      List.append_assoc, ← mentions_cons_entry]

/-- Uniting what stands in the braces of a written item keeps the levels well formed, and mentions
each field once where it was first mentioned. -/
theorem WrittenItem.levels {kind : κ} {text : List Char} {entry : Nat × Option (Graph κ)}
    (h : WrittenItem kind text entry) :
    (∀ added, uniteAttached entry.2 = some added →
      Catalog.nested? kind entry.1 = some added.kind ∧ added.WellFormed) ∧
    ∀ path, (node kind [(entry.1, uniteAttached entry.2)]).mentions path =
      ((node kind [entry]).mentions path).eraseDups := by
  cases h with
  | bare =>
    exact ⟨nofun, mentions_singleton_eraseDups fun _ => rfl⟩
  | @braced _ inner _ _ _ entries _ _ hnested hinside =>
    have hkind : (none inner).kind = inner := rfl
    obtain ⟨hwell, hlevels⟩ := hinside.levels hkind (.none inner)
    constructor
    · rintro _ ⟨⟩
      rw [unite, kind_uniteEntries]
      exact ⟨hnested, hwell⟩
    · refine mentions_singleton_eraseDups fun path => ?_
      have hlevel := hlevels path
      rwa [mentions_none, List.nil_append] at hlevel

end

/-! ## Reading -/

theorem Written.not_isBlank {kind : κ} {text : List Char}
    {entries : List (Nat × Option (Graph κ))} (h : Written kind text entries) :
    Text.isBlank text = false := by
  have hitem : ∀ {first entry}, WrittenItem kind first entry → ∀ rest,
      Text.isBlank (first ++ rest) = false := by
    intro first entry hitem rest
    cases hitem with
    | bare hname => exact not_isBlank_of_isName hname rest
    | braced hname =>
      rw [List.append_assoc, List.append_assoc]
      exact not_isBlank_of_isName hname _
  cases h with
  | single hsingle => simpa using hitem hsingle []
  | comma hfirst => exact hitem hfirst _

/-- A blank text is the empty graph. -/
theorem parse_of_isBlank (kind : κ) {text : String} (h : Text.isBlank text.toList = true) :
    parse kind text = .ok (none kind) := by
  rw [parse, if_pos h]
  rfl

/-- A text that is not blank is read as the union of the items that are written in it. -/
theorem parse_eq_ok_iff {kind : κ} {text : String} {graph : Graph κ}
    (h : Text.isBlank text.toList = false) :
    parse kind text = .ok graph ↔ ∃ entries, Written kind text.toList entries ∧
      graph = (uniteEntries (none kind) entries).normalize := by
  rw [parse, if_neg (by rw [h]; exact Bool.false_ne_true), Result.bind_eq_ok_iff]
  constructor
  · rintro ⟨⟨read, rest⟩, hread, hgraph⟩
    obtain ⟨hends, front, entries, htext, hwritten, rfl⟩ :=
      written_of_readsItems ⟨rest, hread, rfl⟩
    rcases hends with hrest | ⟨hnested, -⟩
    · rw [hrest, List.append_nil] at htext
      exact ⟨entries, htext ▸ hwritten, (Except.ok.inj hgraph).symm⟩
    · cases hnested
  · rintro ⟨entries, hwritten, rfl⟩
    have hreads : ReadsItems text.toList.length false (none kind) (text.toList ++ [])
        (uniteEntries (none kind) entries) [] := hwritten.readsItems _ rfl (.inl rfl)
    rw [List.append_nil] at hreads
    obtain ⟨rest, hread, -⟩ := hreads
    exact ⟨_, hread, rfl⟩

/-- What reading makes of the items of a text. -/
theorem Written.levels_of_parse {kind : κ} {text : String}
    {entries : List (Nat × Option (Graph κ))} (h : Written kind text.toList entries) :
    ∃ graph, parse kind text = .ok graph ∧ graph.kind = kind ∧ graph.WellFormed ∧
      graph.Normal ∧ ∀ path, graph.mentions path = ((node kind entries).mentions path).eraseDups := by
  have hkind : (none kind).kind = kind := rfl
  obtain ⟨hwell, hlevels⟩ := h.levels hkind (.none kind)
  refine ⟨_, (parse_eq_ok_iff h.not_isBlank).2 ⟨entries, h, rfl⟩, ?_, hwell.normalize,
    normal_normalize _, fun path => ?_⟩
  · rw [WellFormed.kind_normalize, kind_uniteEntries]
    rfl
  · rw [mentions_normalize, hlevels, mentions_none, List.nil_append]

/-- Reading accepts exactly the grammar.  A text is read if it is blank, as the empty graph, or if
it is written in the grammar over the kind.  The graph that is read then selects the paths that are
written, and at every level its fields stand in the order of their first mention there. -/
theorem parse_accepts_grammar (kind : κ) (text : String) :
    ((∃ graph, parse kind text = .ok graph) ↔
      Text.isBlank text.toList = true ∨ ∃ entries, Written kind text.toList entries) ∧
    (Text.isBlank text.toList = true → parse kind text = .ok (none kind)) ∧
    ∀ entries, Written kind text.toList entries → ∃ graph, parse kind text = .ok graph ∧
      graph.kind = kind ∧ graph.WellFormed ∧ graph.selects = (node kind entries).selects ∧
      ∀ path, graph.mentions path = ((node kind entries).mentions path).eraseDups := by
  have hwritten : ∀ entries, Written kind text.toList entries → ∃ graph,
      parse kind text = .ok graph ∧ graph.kind = kind ∧ graph.WellFormed ∧
      graph.selects = (node kind entries).selects ∧
      ∀ path, graph.mentions path = ((node kind entries).mentions path).eraseDups := by
    intro entries h
    obtain ⟨graph, hparse, hkind, hwell, -, hlevels⟩ := h.levels_of_parse
    refine ⟨graph, hparse, hkind, hwell, selects_eq_of_mentions fun path field => ?_, hlevels⟩
    rw [hlevels, List.mem_eraseDups]
  refine ⟨⟨?_, ?_⟩, parse_of_isBlank kind, hwritten⟩
  · rintro ⟨graph, hparse⟩
    cases hblank : Text.isBlank text.toList with
    | true => exact .inl rfl
    | false =>
      obtain ⟨entries, h, -⟩ := (parse_eq_ok_iff hblank).1 hparse
      exact .inr ⟨entries, h⟩
  · rintro (hblank | ⟨entries, h⟩)
    · exact ⟨_, parse_of_isBlank kind hblank⟩
    · obtain ⟨graph, hparse, -⟩ := hwritten entries h
      exact ⟨graph, hparse⟩

open Harbor (Kind) in
/-- What is in the braces of a repeated field is united at the place of the first ones. -/
theorem parse_repeated_boat :
    ∃ graph, parse Kind.person "boat\x7bname\x7d,email,boat\x7btype,name\x7d" = .ok graph ∧
      graph.mentions [] = [3, 2] ∧ graph.mentions [3] = [1, 2] := by
  have hwritten : Written Kind.person
      ("boat".toList ++ '\x7b' :: "name".toList ++ ['\x7d'] ++ ',' :: ("email".toList ++
        ',' :: ("boat".toList ++ '\x7b' :: ("type".toList ++ ',' :: "name".toList) ++ ['\x7d'])))
      [(3, some (node .boat [(1, .none)])), (2, .none),
        (3, some (node .boat [(2, .none), (1, .none)]))] :=
    .comma (.braced rfl rfl rfl (.single (.bare rfl rfl))) (.comma (.bare rfl rfl)
      (.single (.braced rfl rfl rfl (.comma (.bare rfl rfl) (.single (.bare rfl rfl))))))
  obtain ⟨graph, hparse, -, -, -, hlevels⟩ := (parse_accepts_grammar Kind.person
    "boat\x7bname\x7d,email,boat\x7btype,name\x7d").2.2 _ hwritten
  exact ⟨graph, hparse, (hlevels []).trans (by decide), (hlevels [3]).trans (by decide)⟩

end Parser

end PartialEntity.Graph
