import Lox.Decimal.Reader
import Lox.Run.Machine
import Lox.Text.Blank

set_option autoImplicit false
set_option relaxedAutoImplicit false

namespace Lox

open Text (lit)

namespace Native

def unary (name : String) (act : Value → Action) : Native :=
  { name := lit name, arity := 1,
    act := fun
      | [v] => act v
      | _ => .fail (.internal (.reported (lit "wrong number of arguments")) none) }

def clock : Native :=
  { name := lit "clock", arity := 0, act := fun _ => .clock fun t => .give (.number t) }

/-- Prints its argument as the print statement does. -/
def out : Native := unary "out" fun v =>
  .write v.print fun
    | none => .give .nil
    | some reason => .fail (.plain (lit "out: " ++ reason))

def str : Native := unary "str" fun v => .give (.string v.print)

def typeof : Native := unary "typeof" fun v => .give (.string v.typeName)

def len : Native := unary "len" fun
  | .string t => .give (.number (Float.ofNat t.countRunes))
  | v => .fail (.runtime
      (.raised .type (lit "len: argument must be a string, got " ++ v.typeName ++ lit ".")) none)

/-- The number that a string denotes, or nil. Blanks around the numeral do not matter. -/
def num : Native := unary "num" fun
  | .number x => .give (.number x)
  | .string t =>
    match Decimal.read? (Text.trim t) with
    | some x => .give (.number x)
    | none => .give .nil
  | _ => .give .nil

end Native

/-- Native functions by name, each name once. -/
structure Registry where
  natives : List Native

namespace Registry

/-- No native functions. -/
def empty : Registry := { natives := [] }

/-- With one more native function, in place of a former one of its name. -/
def register (r : Registry) (n : Native) : Registry :=
  { natives := r.natives.filter (fun m => m.name != n.name) ++ [n] }

/-- The native functions of the language. -/
def standard : Registry :=
  [Native.clock, .out, .str, .typeof, .len, .num].foldl register empty

def get? (r : Registry) (name : Text) : Option Native := r.natives.find? fun n => n.name == name

def sorted (r : Registry) : List Native := r.natives.mergeSort fun a b => a.name.le b.name

/-- The native functions that a filter lets pass, in the order of their names. -/
def select (r : Registry) (allowed : Text → Bool) : List Native :=
  r.sorted.filter fun n => allowed n.name

end Registry

/-- The global bindings of native functions: each name to the number of its function. -/
def nativeBindings (natives : List Native) : Bindings :=
  natives.zipIdx.foldl (fun bs (n, i) => Bindings.bind bs n.name (.native i)) []

end Lox
