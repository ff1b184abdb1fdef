import PartialEntity.Harbor.Samples
import PartialEntity.Proofs.Entity.Extend
import PartialEntity.Proofs.Entity.Lawful

/-!
# Records of the harbor

People, boats, marinas and berths have regular fields only, whatever path is followed from one to
the other.  An entity whose fields are loaded one after the other with values that they can store
is a lawful and clean record; the samples are such records.
-/

namespace PartialEntity

namespace Entity

variable {κ : Type} [Catalog κ]

/-- Whether an entity can be the record that copies come from and stores fresh values where nothing
is loaded. -/
structure IsRecord (entity : Entity κ) : Prop where
  lawful : entity.Lawful
  clean : entity.Throughout Clean

structure Storable (kind : κ) (field : Nat) (value : Tree (Entity κ)) : Prop where
  allowed : ∃ content, Catalog.content? kind field = some content ∧ content.Allows value
  canonical : value.Canonical
  members : ∀ leaf ∈ value.leaves, leaf.IsRecord
  consistent : ∀ left ∈ value.leaves, ∀ right ∈ value.leaves, left.id = right.id → left = right

namespace Storable

variable {kind member : κ} {field : Nat} {leaf : Entity κ}

theorem scalar {type : ScalarType} (hcontent : Catalog.content? kind field = some (.plain type))
    (value : Scalar) : Storable kind field (.scalar value) :=
  ⟨⟨_, hcontent, rfl⟩, .scalar value, nofun, nofun⟩

theorem empty {shape : Shape κ}
    (hcontent : Catalog.content? kind field = some (.nested member shape))
    {value : Tree (Entity κ)} (hleaves : value.leaves = []) (hcanonical : value.Canonical) :
    Storable kind field value := by
  have hnone : ∀ leaf ∈ value.leaves, False := by
    rw [hleaves]
    nofun
  exact ⟨⟨_, hcontent, fun leaf hleaf => (hnone leaf hleaf).elim⟩, hcanonical,
    fun leaf hleaf => (hnone leaf hleaf).elim, fun left hleft => (hnone left hleft).elim⟩

/-- A container with one member can be stored. -/
theorem single {shape : Shape κ}
    (hcontent : Catalog.content? kind field = some (.nested leaf.kind shape))
    (hleaf : leaf.IsRecord) {value : Tree (Entity κ)} (hleaves : value.leaves = [leaf])
    (hcanonical : value.Canonical) : Storable kind field value := by
  have hmember : ∀ other ∈ value.leaves, other = leaf := by
    rw [hleaves]
    exact fun other hother => List.mem_singleton.1 hother
  refine ⟨⟨_, hcontent, fun other hother => ?_⟩, hcanonical, fun other hother => ?_,
    fun left hleft right hright _ => ?_⟩
  · rw [hmember other hother]
  · rwa [hmember other hother]
  · rw [hmember left hleft, hmember right hright]

end Storable

theorem IsRecord.assign {entity : Entity κ} (h : entity.IsRecord) {field : Nat}
    {value : Tree (Entity κ)} (hvalue : Storable entity.kind field value) :
    (entity.assign field value).IsRecord := by
  obtain ⟨content, hcontent, hallows⟩ := hvalue.allowed
  exact ⟨h.lawful.assign hcontent hallows hvalue.canonical
      (fun leaf hleaf => (hvalue.members leaf hleaf).lawful) hvalue.consistent,
    clean_assign h.clean fun leaf hleaf => (hvalue.members leaf hleaf).clean⟩

end Entity

namespace Harbor

open Entity

/-- An entity of the harbor is a record if every value can be stored in its field. -/
theorem isRecord_loaded {kind : Kind} {id : Nat} {values : List (Tree (Entity Kind))}
    (hid : (ofId kind id).IdentifiedById)
    (hidentity : Catalog.content? kind 0 = some .identity)
    (hvalues : ∀ entry ∈ values.zipIdx 1, Storable kind entry.2 entry.1) :
    (loaded kind id values).IsRecord := by
  have hstart : ((ofId kind id).mark 0).IsRecord := by
    rw [← assign_of_slot_eq ((slot_ofId kind id 0).trans (emptySlot_identity hidentity))]
    exact IsRecord.assign ⟨lawful_ofId hid, clean_ofId kind id⟩
      ⟨⟨_, hidentity, rfl⟩, .scalar _, nofun, nofun⟩
  rw [loaded]
  generalize values.zipIdx 1 = entries at hvalues
  have hkind : ((ofId kind id).mark 0).kind = kind := rfl
  generalize (ofId kind id).mark 0 = entity at hstart hkind
  induction entries generalizing entity with
  | nil => exact hstart
  | cons entry rest ih =>
    rw [List.forall_mem_cons] at hvalues
    subst hkind
    exact ih hvalues.2 _ (hstart.assign hvalues.1) rfl

/-! ## Kinds whose fields are regular -/

/-- The kinds of the harbor proper, whose fields lead to one another and nowhere else. -/
def Kind.Ashore : Kind → Prop
  | .person | .boat | .marina | .berth => True
  | _ => False

theorem regular_of_ashore {kind : Kind} (h : kind.Ashore) (field : Nat) :
    Catalog.Regular kind field ∧ ∀ member, Catalog.nested? kind field = some member →
      member.Ashore := by
  have hnested : ∀ {found expected : Kind}, some expected = some found → expected.Ashore →
      found.Ashore := fun heq hexpected => Option.some.inj heq ▸ hexpected
  cases kind with
  | person =>
    match field with
    | 0 | 1 | 2 => exact ⟨rfl, nofun⟩
    | 3 => exact ⟨⟨rfl, rfl⟩, fun _ heq => hnested heq trivial⟩
    | _ + 4 => exact ⟨rfl, nofun⟩
  | boat =>
    match field with
    | 0 | 1 | 2 => exact ⟨rfl, nofun⟩
    | 3 | 4 => exact ⟨⟨rfl, rfl⟩, fun _ heq => hnested heq trivial⟩
    | _ + 5 => exact ⟨rfl, nofun⟩
  | marina =>
    match field with
    | 0 | 1 => exact ⟨rfl, nofun⟩
    | 2 | 3 => exact ⟨⟨rfl, rfl⟩, fun _ heq => hnested heq trivial⟩
    | _ + 4 => exact ⟨rfl, nofun⟩
  | berth =>
    match field with
    | 0 | 1 => exact ⟨rfl, nofun⟩
    | 2 => exact ⟨⟨rfl, rfl⟩, fun _ heq => hnested heq trivial⟩
    | _ + 3 => exact ⟨rfl, nofun⟩
  | carrier | item | depot | broad => exact h.elim

/-- Every path between the kinds of the harbor proper leads through regular fields. -/
theorem onPath_regular {kind : Kind} (h : kind.Ashore) (path : List Nat) :
    Catalog.OnPath Catalog.Regular kind path := by
  induction path generalizing kind with
  | nil => trivial
  | cons field rest ih =>
    obtain ⟨hregular, hnested⟩ := regular_of_ashore h field
    exact ⟨hregular, fun member hmember => ih (hnested member hmember)⟩

/-! ## Samples -/

namespace Samples

theorem isRecord_berth (id number : Nat) : (berth id number).IsRecord := by
  refine isRecord_loaded (by exact trivial) rfl ?_
  simp only [List.zipIdx, List.forall_mem_cons]
  exact ⟨.scalar rfl _, .empty rfl rfl .none, nofun⟩

theorem isRecord_northport : northport.IsRecord := by
  refine isRecord_loaded (by exact trivial) rfl ?_
  simp only [List.zipIdx, List.forall_mem_cons]
  refine ⟨.scalar rfl _, .empty rfl rfl ?_, .single rfl (isRecord_berth 500 7) rfl ?_, nofun⟩
  · exact .table nofun nofun List.Pairwise.nil
  · refine .set (fun item hitem => ?_) (List.pairwise_singleton ..)
    rw [List.mem_singleton.1 hitem]
    exact .leaf _

theorem isRecord_bob : bob.IsRecord := by
  refine isRecord_loaded (by exact trivial) rfl ?_
  simp only [List.zipIdx, List.forall_mem_cons]
  exact ⟨.scalar rfl _, .scalar rfl _, .empty rfl rfl .none, nofun⟩

theorem isRecord_osprey : osprey.IsRecord := by
  refine isRecord_loaded (by exact trivial) rfl ?_
  simp only [List.zipIdx, List.forall_mem_cons]
  refine ⟨.scalar rfl _, .scalar rfl _, .single rfl isRecord_northport rfl (.some (.leaf _)),
    .single rfl isRecord_bob rfl (.sequence fun item hitem => ?_), nofun⟩
  rw [List.mem_singleton.1 hitem]
  exact .leaf _

theorem isRecord_ann : ann.IsRecord := by
  refine isRecord_loaded (by exact trivial) rfl ?_
  simp only [List.zipIdx, List.forall_mem_cons]
  exact ⟨.scalar rfl _, .scalar rfl _, .single rfl isRecord_osprey rfl (.some (.leaf _)), nofun⟩

end Samples

def crewList : Graph Kind :=
  ((Graph.none .person).add 2).insertEntry 3
    (some (((Graph.none .boat).add 1).insertEntry 4 (some ((Graph.none .person).add 1))))

theorem wellFormed_crewList : crewList.WellFormed := by
  apply ((Graph.WellFormed.none Kind.person).add 2).insertEntry
  rintro _ ⟨⟩
  refine ⟨rfl, ((Graph.WellFormed.none Kind.boat).add 1).insertEntry ?_⟩
  rintro _ ⟨⟩
  exact ⟨rfl, (Graph.WellFormed.none Kind.person).add 1⟩

def annAshore : Entity Kind :=
  (ofId .person 1).assign 3 (.option (some (.leaf ((ofId .boat 10).assign 1 (text "Osprey")))))

theorem isRecord_annAshore : annAshore.IsRecord := by
  have hboat : ((ofId .boat 10).assign 1 (text "Osprey") : Entity Kind).IsRecord :=
    IsRecord.assign ⟨lawful_ofId (by exact trivial), clean_ofId _ _⟩ (.scalar rfl _)
  exact IsRecord.assign ⟨lawful_ofId (by exact trivial), clean_ofId _ _⟩
    (.single rfl hboat rfl (.some (.leaf _)))

end Harbor

end PartialEntity
