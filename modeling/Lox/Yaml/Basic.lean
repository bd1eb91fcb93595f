import Lox.Text.Basic

set_option autoImplicit false
set_option relaxedAutoImplicit false

namespace Lox.Yaml

/-- A node of a document, with the line on which it begins. -/
inductive Node
  | scalar (line : Nat) (quoted : Bool) (text : Text)
  | sequence (line : Nat) (items : List Node)
  | mapping (line : Nat) (members : List (Node × Node))

namespace Node

def line : Node → Nat
  | scalar l _ _ | sequence l _ | mapping l _ => l

def empty (line : Nat) : Node := scalar line false []

def text : Node → Text
  | scalar _ _ t => t
  | _ => []

/-- Whether two nodes are both scalars, both sequences or both mappings. -/
def sameKind : Node → Node → Bool
  | scalar .., scalar .. | sequence .., sequence .. | mapping .., mapping .. => true
  | _, _ => false

end Node
end Lox.Yaml
