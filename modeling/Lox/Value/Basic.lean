import Lox.Decimal.Layout
import Lox.Syntax.Basic

set_option autoImplicit false
set_option relaxedAutoImplicit false

namespace Lox

open Text (lit)

abbrev FrameId := Nat

/-- A function of a program together with the frame in which it was declared. A function without a
name has the empty name. -/
structure Function where
  id : Nat
  name : Text
  params : List Param
  body : List Stmt
  closure : FrameId
  isInit : Bool

namespace Function

def arity (f : Function) : Nat := f.params.length

def print (f : Function) : Text :=
  if f.name.isEmpty then lit "<fn>" else lit "<fn " ++ f.name ++ lit ">"

end Function

/-- A class with its own methods and static methods. -/
inductive Class
  | mk (id : Nat) (name : Text) (superclass : Option Class)
      (methods statics : List (Text × Function))

namespace Class

def id : Class → Nat
  | mk i _ _ _ _ => i

def name : Class → Text
  | mk _ n _ _ _ => n

/-- The nearest method with a name, from the class upward. -/
def findMethod (name : Text) : Class → Option Function
  | mk _ _ none methods _ => methods.lookup name
  | mk _ _ (some sup) methods _ => (methods.lookup name).or (findMethod name sup)

/-- The nearest static method with a name, from the class upward. -/
def findStatic (name : Text) : Class → Option Function
  | mk _ _ none _ statics => statics.lookup name
  | mk _ _ (some sup) _ statics => (statics.lookup name).or (findStatic name sup)

def initializer (c : Class) : Option Function := c.findMethod (lit "init")

def arity (c : Class) : Nat := (c.initializer.map Function.arity).getD 0

end Class

/-- Values. A host may also hand in no value at all, which acts as nil. -/
inductive Value
  | nil
  | absent
  | bool (value : Bool)
  | number (value : Float)
  | string (value : Text)
  | function (f : Function)
  | method (id : Nat) (f : Function) (receiver : Value)
  | native (id : Nat)
  | cls (c : Class)
  | object (id : Nat) (c : Class)

namespace Value

def ofLiteral : Literal → Value
  | .nil => nil
  | .bool b => bool b
  | .number x => number x
  | .string t => string t

/-- Whether a value counts as true. Nil, false, zero and the empty string do not. -/
def truthy : Value → Bool
  | nil | absent => false
  | bool b => b
  | number x => x != 0
  | string t => !t.isEmpty
  | _ => true

/-- Whether two values are equal. Values of different kinds are not; functions, classes and objects
are equal only to themselves. -/
def equal : Value → Value → Bool
  | nil, nil | nil, absent | absent, nil | absent, absent => true
  | bool a, bool b => a == b
  | number a, number b => a == b
  | string a, string b => a == b
  | function f, function g => f.id == g.id
  | method i _ _, method j _ _ => i == j
  | native i, native j => i == j
  | cls c, cls d => c.id == d.id
  | object i _, object j _ => i == j
  | _, _ => false

def print : Value → Text
  | nil | absent => lit "nil"
  | bool b => lit (if b then "true" else "false")
  | number x => Decimal.print x
  | string t => t
  | function f => f.print
  | method _ f _ => f.print
  | native _ => lit "<native fn>"
  | cls c => c.name
  | object _ c => c.name ++ lit " instance"

def typeName : Value → Text
  | nil | absent => lit "nil"
  | bool _ => lit "boolean"
  | number _ => lit "number"
  | string _ => lit "string"
  | function _ | method _ _ _ | native _ => lit "function"
  | cls _ => lit "class"
  | object _ _ => lit "instance"

def isClass : Value → Bool
  | cls _ => true
  | _ => false

end Value
end Lox
