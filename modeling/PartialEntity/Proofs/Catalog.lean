import PartialEntity.Graph.Basic
import PartialEntity.Proofs.Result

/-!
# Fields whose declaration agrees with their content

Which fields a copy through a graph accepts, and which ones every operation accepts.  A path of
fields is followed from kind to kind by what the fields declare.
-/

namespace PartialEntity

namespace Catalog

variable {κ : Type} [Catalog κ]

/-- Whether a field that is visited as a nested tree declares the kind of the members of the tree.
Nothing is asked of a field that is visited as a scalar. -/
def Copyable (kind : κ) (field : Nat) : Prop :=
  ∀ member shape, content? kind field = some (.nested member shape) →
    nested? kind field = some member

/-- Whether a field either is visited as a nested tree that is not opaque and declares the kind of
its members, or is visited as a scalar and declares none. -/
def Regular (kind : κ) (field : Nat) : Prop :=
  match content? kind field with
  | some (.nested member shape) => shape.isOpaque = false ∧ nested? kind field = some member
  | _ => nested? kind field = none

def OnPath (P : κ → Nat → Prop) (kind : κ) : List Nat → Prop
  | [] => True
  | field :: rest => P kind field ∧
    ∀ member, nested? kind field = some member → OnPath P member rest

theorem Regular.copyable {kind : κ} {field : Nat} (h : Regular kind field) :
    Copyable kind field := by
  intro member shape hcontent
  rw [Regular, hcontent] at h
  exact h.2

/-- A regular field that declares a kind is a nested tree of members of that kind. -/
theorem Regular.content {kind member : κ} {field : Nat} (h : Regular kind field)
    (hnested : nested? kind field = some member) :
    ∃ shape, content? kind field = some (.nested member shape) ∧ shape.isOpaque = false := by
  rw [Regular] at h
  split at h
  · rename_i other shape hcontent
    rw [hnested, Option.some.injEq] at h
    exact ⟨shape, h.2 ▸ hcontent, h.1⟩
  · rw [hnested] at h
    cases h

theorem OnPath.mono {P Q : κ → Nat → Prop} (himp : ∀ kind field, P kind field → Q kind field)
    {kind : κ} {path : List Nat} (h : OnPath P kind path) : OnPath Q kind path := by
  induction path generalizing kind with
  | nil => trivial
  | cons field path ih => exact ⟨himp kind field h.1, fun member hmember => ih (h.2 member hmember)⟩

/-- What holds on a path holds on all of its beginnings. -/
theorem OnPath.of_append {P : κ → Nat → Prop} {kind : κ} {path rest : List Nat}
    (h : OnPath P kind (path ++ rest)) : OnPath P kind path := by
  induction path generalizing kind with
  | nil => trivial
  | cons field path ih => exact ⟨h.1, fun member hmember => ih (h.2 member hmember)⟩

theorem OnPath.dropLast {P : κ → Nat → Prop} {kind : κ} {path : List Nat}
    (h : OnPath P kind path) : OnPath P kind path.dropLast := by
  by_cases hnil : path = []
  · rw [hnil]
    trivial
  · rw [← List.dropLast_append_getLast hnil] at h
    exact h.of_append

theorem OnPath.dropLast_of_append {P : κ → Nat → Prop} {kind : κ} {path rest : List Nat}
    (h : OnPath P kind (path ++ rest).dropLast) : OnPath P kind path.dropLast := by
  by_cases hnil : rest = []
  · rwa [hnil, List.append_nil] at h
  · rw [List.dropLast_append_of_ne_nil hnil] at h
    exact h.of_append.dropLast

end Catalog

namespace Graph

variable {κ : Type} [DecidableEq κ] [Catalog κ]

theorem checkNested_eq_ok_iff {kind actual : κ} {field : Nat} :
    checkNested kind field actual = .ok () ↔ Catalog.nested? kind field = some actual := by
  rw [checkNested]
  cases Catalog.nested? kind field with
  | none => exact iff_of_false nofun nofun
  | some declared =>
    rw [Option.some.injEq]
    by_cases hsame : declared = actual
    · simp only [hsame, if_true]
      exact iff_of_true rfl trivial
    · simp only [hsame, if_false]
      exact iff_of_false nofun not_false

/-- The check of a nested kind fails in one way only. -/
theorem typeMismatch_of_checkNested {kind actual : κ} {field : Nat} {error : Error}
    (h : checkNested kind field actual = .error error) : error.is .typeMismatch = true := by
  rw [checkNested] at h
  split at h
  · split at h <;> cases h
    rfl
  · cases h
    rfl

end Graph

end PartialEntity
