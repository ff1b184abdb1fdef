import PartialEntity.Proofs.Derive.Acceptance
import PartialEntity.Proofs.Graph.RoundTrip

/-!
# What generated instances do

An instance is generated for exactly the declarations that nothing is wrong with.  Its ordinals
count the variants in order, its catalogue lists their names in that order, and as the names are
different and can stand in a text, a variant is found again by its name and its name is read as the
graph that selects it alone.
-/

namespace PartialEntity.Derive

namespace Instance

variable {kind : Kind}

end Instance

/-! ## Names as texts of graphs -/

section Faithful

variable (camel : String → String) (declaration : Declaration)

/-- Whether an instance does what a declaration says. -/
structure Instance.Faithful (generated : Instance) : Prop where
  /-- The catalogue lists the names of the variants in order. -/
  schema : generated.schema =
    declaration.variants.map fun variant => (variant.fieldName camel, variant.nestings.head?)
  /-- The variant of an ordinal is the one at that place. -/
  variants : ∀ ordinal, generated.variant? ordinal =
    declaration.variants[ordinal]?.map (·.identifier)
  /-- Every variant has an ordinal. -/
  ordinals : ∀ variant ∈ declaration.variants, ∃ ordinal,
    generated.ordinal? variant.identifier = some ordinal
  /-- No two variants of an enumeration have one identifier, and so the variant of an ordinal and
  the ordinal of a variant are inverse to each other. -/
  inverse : (declaration.variants.map (·.identifier)).Nodup → ∀ ordinal variant,
    generated.ordinal? variant = some ordinal ↔ generated.variant? ordinal = some variant
  /-- A variant is found again by its name. -/
  names : ∀ variant ordinal, generated.ordinal? variant = some ordinal → ∃ name,
    generated.nameOf? variant = some name ∧ generated.ofName? name = some variant
  /-- The name of a variant is read as the graph that selects its field alone. -/
  texts : ∀ (κ : Type) [DecidableEq κ] [Catalog κ] (kind : κ),
    generated.schema.map (·.1) = (Catalog.fields kind).map (·.name) →
    ∀ variant ordinal name, generated.ordinal? variant = some ordinal →
      generated.nameOf? variant = some name →
      Graph.parse kind name = .ok (Graph.ofList kind [ordinal])

end Faithful

end PartialEntity.Derive
