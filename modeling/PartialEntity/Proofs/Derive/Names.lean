import PartialEntity.Proofs.Derive.Acceptance

/-!
# The names of derived fields

Whatever attributes a declaration has, the fields of the kind that it describes have different
names, each of which can stand in the text of a graph.  So a name says which field is meant.
-/

namespace PartialEntity.Derive

/-- Whether fields have different names that can stand in the text of a graph. -/
structure Readable (fields : List Field) : Prop where
  distinct : (fields.map (·.name)).Nodup
  valid : ∀ field ∈ fields, Graph.isName field.name.toList = true

variable {camel : String → String} {declaration : Declaration}

theorem Declaration.Acceptable.readable (h : declaration.Acceptable camel) :
    Readable (declaration.described camel).fields := by
  have hnames : (declaration.described camel).fields.map (·.name) =
      declaration.variants.map (Variant.fieldName camel) := List.map_map
  constructor
  · rw [hnames]
    exact h.distinct
  · intro field hfield
    obtain ⟨variant, hvariant, rfl⟩ := List.mem_map.1 hfield
    exact isName_iff.2 (h.valid variant hvariant)

/-- The names in a generated catalogue are different and can stand in the text of a graph. -/
theorem names_of_instance {generated : Instance}
    (h : declaration.instanceBy? camel = .ok generated) :
    (generated.schema.map (·.1)).Nodup ∧
      ∀ name ∈ generated.schema.map (·.1), Graph.isName name.toList = true := by
  obtain ⟨hacceptable, rfl⟩ := instanceBy?_eq_ok_iff.1 h
  have hreadable := hacceptable.readable
  have hnames : (Instance.ofKind (declaration.described camel)).schema.map (·.1) =
      (declaration.described camel).fields.map (·.name) := List.map_map
  rw [hnames]
  refine ⟨hreadable.distinct, fun name hname => ?_⟩
  obtain ⟨field, hfield, rfl⟩ := List.mem_map.1 hname
  exact hreadable.valid field hfield

/-- Among elements with different keys, the first of a key is the only one. -/
theorem findIdx?_eq_some_iff {α : Type} {key : α → String} {list : List α}
    (hdistinct : (list.map key).Nodup) {text : String} {index : Nat} :
    (list.findIdx? fun element => key element == text) = some index ↔
      list[index]?.map key = some text := by
  rw [List.Nodup, List.pairwise_map, List.pairwise_iff_getElem] at hdistinct
  rw [List.findIdx?_eq_some_iff_getElem]
  constructor
  · rintro ⟨hbound, hsame, -⟩
    rw [List.getElem?_eq_getElem hbound, Option.map_some, beq_iff_eq.1 hsame]
  · intro h
    obtain ⟨element, helement, rfl⟩ := Option.map_eq_some_iff.1 h
    obtain ⟨hbound, rfl⟩ := List.getElem?_eq_some_iff.1 helement
    exact ⟨hbound, beq_self_eq_true _, fun earlier hearlier hsame =>
      hdistinct earlier index (hearlier.trans hbound) hbound hearlier (beq_iff_eq.1 hsame)⟩

end PartialEntity.Derive
