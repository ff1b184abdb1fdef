import PartialEntity.Entity.Basic
import PartialEntity.Text.Quoted

/-!
# Entities in diagnostics

The whole content of an entity on one line: its id, the fields it holds and every stored value,
those of fields that are not held included.
-/

namespace PartialEntity

def Scalar.describe : Scalar → String
  | unit => "()"
  | bool value => toString value
  | char value => Text.quoteChar value
  | text value => Text.quote value
  | integer value => toString value

namespace Tree

mutual

def describe : Tree String → String
  | leaf text => text
  | scalar value => value.describe
  | option none => "None"
  | option (some inner) => "Some(" ++ describe inner ++ ")"
  | sequence items => "[" ++ ", ".intercalate (describeAll items) ++ "]"
  | set _ items => "\x7b" ++ ", ".intercalate (describeAll items) ++ "\x7d"
  | table _ entries => "\x7b" ++ ", ".intercalate (describeEntries entries) ++ "\x7d"

def describeAll : List (Tree String) → List String
  | [] => []
  | item :: rest => describe item :: describeAll rest

def describeEntries : List (Tree String × Tree String) → List String
  | [] => []
  | (key, value) :: rest => (describe key ++ ": " ++ describe value) :: describeEntries rest

end

end Tree

namespace Entity

variable {κ : Type} [Catalog κ]

def describe : Entity κ → String :=
  fold fun kind id held slots =>
    let shown (entry : String × Nat) : String :=
      entry.1 ++ ": " ++ (slots.getD entry.2 (.scalar .unit)).describe
    Catalog.kindName kind ++ " \x7b " ++
      ", ".intercalate
        (("id: " ++ toString id) :: ("fields: " ++ held.describe kind) ::
          (Catalog.members kind).map shown) ++ " \x7d"

def label (kind : κ) (id : Nat) : String :=
  Catalog.kindName kind ++ "(" ++ toString id ++ ")"

end Entity

end PartialEntity
