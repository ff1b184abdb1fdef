import PartialEntity.Derive.Token

/-!
# Arguments between angle brackets

Between angle brackets lifetimes come first, wherever they stood in the source.
-/

namespace PartialEntity.Derive

structure AngleArgument where
  /-- Whether the argument is a lifetime, or the parameter for one. -/
  lifetime : Bool
  tokens : Tokens
  /-- Whether a comma follows. -/
  comma : Bool
deriving DecidableEq, Repr

namespace AngleArgument

/-- An argument with its comma. -/
def written (argument : AngleArgument) : Tokens :=
  if argument.comma then argument.tokens ++ [("," : Token)] else argument.tokens

/-- Arguments with a comma wherever there is none between two of them.  `separated` says whether
none is needed in front. -/
def separate : Bool → List AngleArgument → Tokens
  | _, [] => []
  | separated, argument :: rest =>
    (if separated then [] else [("," : Token)]) ++ argument.written ++ separate argument.comma rest

/-- Arguments with all lifetimes first. -/
def arrange (arguments : List AngleArgument) : Tokens :=
  let (lifetimes, others) := arguments.partition AngleArgument.lifetime
  lifetimes.flatMap written ++ separate (lifetimes.getLast?.all (·.comma)) others

def enclose (inside : Tokens) : Tokens :=
  ("<" : Token) :: inside ++ [(">" : Token)]

end AngleArgument

end PartialEntity.Derive
