import Lox.Proofs.Scope.Scoped
import Lox.Scope.Basic

set_option autoImplicit false
set_option relaxedAutoImplicit false

namespace Lox

open Text (lit)

/-- What can stand around a place. The first clause of a loop and each of its rounds stand around
different parts of the loop. -/
inductive Construct
  | script
  | block
  | function (isInitializer : Bool)
  | firstClause
  | round
  | whileBody
  | classBody (derived : Bool)
  deriving DecidableEq

namespace Construct

def isFunction : Construct → Bool
  | function _ => true
  | _ => false

def isLoop : Construct → Bool
  | round | whileBody => true
  | _ => false

end Construct

/-- Something around a place, with the names that are declared in it before the place, and the
variable in whose initial value the place is. -/
structure Around where
  construct : Construct
  names : List Text := []
  initial : Option Text := none

namespace Around

/-- The names of each local scope, innermost first. A variable is declared from its initial value
on. The globals are no local scope, and the body of a `while` has none of its own. -/
def scopes (a : Around) : List (List Text) :=
  match a.construct with
  | .script | .whileBody => []
  | .classBody false => [[lit "this"]]
  | .classBody true => [[lit "this"], [lit "super"]]
  | .block | .function _ | .firstClause | .round => [a.names ++ a.initial.toList]

def declaring (a : Around) (names : List Text) : Around := { a with names := a.names ++ names }

def inInitial (a : Around) (name : Text) : Around := { a with initial := some name }

def status (a : Around) (name : Text) : Option Bool :=
  if name ∈ a.names then some true else if a.initial = some name then some false else none

variable (around : List Around)

/-- Whether there is a loop, not counting those around the nearest function. -/
def inLoop : Bool :=
  ((around.map Around.construct).takeWhile (!·.isFunction)).any Construct.isLoop

def nearestFunction : Option Bool :=
  around.findSome? fun a =>
    match a.construct with
    | .function isInitializer => some isInitializer
    | _ => none

def nearestClass : Option Bool :=
  around.findSome? fun a =>
    match a.construct with
    | .classBody derived => some derived
    | _ => none

/-- Whether a place in the initial value of a variable of this name, and in no function there, comes
before the variable exists. -/
def beforeValue (bound : List Text) (name : Text) : Bool :=
  match around with
  | [] => false
  | a :: _ => a.initial == some name && !a.names.contains name &&
      !(a.construct == .script && bound.contains name)

end Around

/-- What stands at a place. A parameter knows the names of those before it. -/
inductive Site
  | read (use : NameUse)
  | assign (target : NameUse)
  | this (span : Span) (hops : Option Int)
  | super (span : Span) (hops : Option Int)
  | superclass (className : Text) (use : NameUse)
  | param (earlier : List Text) (p : Param)
  | breaks (span : Span)
  | returns (span : Span) (hasValue : Bool)

namespace Site

/-- The name that occurs at a place, and its hops. -/
def occurrence : Site → Option (Text × Option Int)
  | read use | assign use | superclass _ use => some (use.name, use.hops)
  | this _ hops => some (lit "this", hops)
  | super _ hops => some (lit "super", hops)
  | param _ _ | breaks _ | returns _ _ => none

/-- With other hops, for the name that occurs there. -/
def withHops (hops : Text → Option Int) : Site → Site
  | read use => read { use with hops := hops use.name }
  | assign target => assign { target with hops := hops target.name }
  | this span _ => this span (hops (lit "this"))
  | super span _ => super span (hops (lit "super"))
  | superclass className use => superclass className { use with hops := hops use.name }
  | param earlier p => param earlier p
  | breaks span => breaks span
  | returns span hasValue => returns span hasValue

@[simp] theorem occurrence_withHops (hops : Text → Option Int) (site : Site) :
    (site.withHops hops).occurrence = site.occurrence.map fun (name, _) => (name, hops name) := by
  cases site <;> rfl

end Site

/-- A place in a program. -/
structure Place where
  around : List Around
  site : Site

namespace Place

/-- The names of the local scopes around a place, innermost first. -/
def scopes (place : Place) : List (List Text) := place.around.flatMap Around.scopes

/-- The place with the hops that lead to the innermost local scope with its name. -/
def located (place : Place) : Place :=
  { place with site := place.site.withHops fun name =>
      (place.scopes.findIdx? (·.contains name)).map Nat.cast }

/-- The place without hops. -/
def unlocated (place : Place) : Place := { place with site := place.site.withHops fun _ => none }

theorem unlocated_located (place : Place) : place.located.unlocated = place.unlocated := by
  obtain ⟨around, site⟩ := place
  cases site <;> rfl

def violation? (bound : List Text) (place : Place) : Option (Violation × Span) :=
  match place.site with
  | .read use =>
    if Around.beforeValue place.around bound use.name then some
      (.selfInit use.name, use.span) else none
  | .assign _ => none
  | .this span _ =>
    if Around.nearestClass place.around = none then some (.thisOutsideClass, span) else none
  | .super span _ =>
    match Around.nearestClass place.around with
    | none => some (.superOutsideClass, span)
    | some false => some (.superNoSuperclass, span)
    | some true => none
  | .superclass className use =>
    if use.name = className then some (.inheritSelf, use.span) else none
  | .param earlier p => if p.name ∈ earlier then some (.dupParam p.name, p.span) else none
  | .breaks span => if Around.inLoop place.around then none else some (.breakOutsideLoop, span)
  | .returns span hasValue =>
    match Around.nearestFunction place.around with
    | none => some (.returnTopLevel, span)
    | some isInitializer => if isInitializer && hasValue then some (.returnInit, span) else none

def diagnostic? (bound : List Text) (place : Place) : Option Diagnostic :=
  (place.violation? bound).map fun (v, span) => v.diagnostic span

end Place

def Param.places (around : List Around) (earlier : List Text) : List Param → List Place
  | [] => []
  | p :: r => ⟨around, .param earlier p⟩ :: places around (p.name :: earlier) r

def Around.ofFunction (isInitializer : Bool) (ps : List Param) : Around :=
  { construct := .function isInitializer, names := ps.map Param.name }

mutual

/-- The places in an expression, in the order in which they are looked at: the value of an
assignment comes before what is assigned. -/
def Expr.places (around : List Around) : Expr → List Place
  | .literal _ _ => []
  | .grouping _ e => e.places around
  | .unary _ _ e => e.places around
  | .binary _ _ a b => a.places around ++ b.places around
  | .logical _ _ a b => a.places around ++ b.places around
  | .conditional _ c a b => c.places around ++ a.places around ++ b.places around
  | .name use => [⟨around, .read use⟩]
  | .assign target e => e.places around ++ [⟨around, .assign target⟩]
  | .call _ f args => f.places around ++ Expr.placesAll around args
  | .get _ o _ => o.places around
  | .set _ o _ e => e.places around ++ o.places around
  | .this span hops => [⟨around, .this span hops⟩]
  | .super span _ hops => [⟨around, .super span hops⟩]
  | .lambda _ ps body =>
    Param.places around [] ps ++ Stmt.placesAll (.ofFunction false ps) around body

def Expr.placesAll (around : List Around) : List Expr → List Place
  | [] => []
  | e :: r => e.places around ++ Expr.placesAll around r

def Expr.placesOption (around : List Around) : Option Expr → List Place
  | none => []
  | some e => e.places around

/-- The places in a statement that stands in `a`, with the others around that. -/
def Stmt.places (a : Around) (around : List Around) : Stmt → List Place
  | .exprStmt _ e => e.places (a :: around)
  | .printStmt _ e => e.places (a :: around)
  | .varDecl _ n init => Expr.placesOption (a.inInitial n :: around) init
  | .block _ body => Stmt.placesAll { construct := .block } (a :: around) body
  | .ifStmt _ c yes no =>
    c.places (a :: around) ++ yes.places a around ++ Stmt.placesOption a around no
  | .whileStmt _ c body =>
    c.places (a :: around) ++ body.places { construct := .whileBody } (a :: around)
  | .forStmt _ none c step body =>
    Expr.placesOption (a :: around) c ++ body.places { construct := .round } (a :: around) ++
      Expr.placesOption ({ construct := .round } :: a :: around) step
  | .forStmt _ (some init) c step body =>
    let first : Around := { construct := .firstClause }
    let outer := first.declaring init.declared :: a :: around
    init.places first (a :: around) ++ Expr.placesOption outer c ++
      body.places { construct := .round } outer ++
      Expr.placesOption ({ construct := .round } :: outer) step
  | .breakStmt span => [⟨a :: around, .breaks span⟩]
  | .returnStmt span e =>
    ⟨a :: around, .returns span e.isSome⟩ :: Expr.placesOption (a :: around) e
  | .funDecl d => d.places false (a.declaring [d.name] :: around)
  | .classDecl _ n none methods statics =>
    let outer := { construct := .classBody false } :: a.declaring [n] :: around
    FunDecl.placesAll true outer methods ++ FunDecl.placesAll false outer statics
  | .classDecl _ n (some sup) methods statics =>
    let outer := { construct := .classBody true } :: a.declaring [n] :: around
    ⟨a.declaring [n] :: around, .superclass n sup⟩ ::
      (FunDecl.placesAll true outer methods ++ FunDecl.placesAll false outer statics)

/-- The places in statements. What one declares is declared for those after it. -/
def Stmt.placesAll (a : Around) (around : List Around) : List Stmt → List Place
  | [] => []
  | s :: r => s.places a around ++ Stmt.placesAll (a.declaring s.declared) around r

def Stmt.placesOption (a : Around) (around : List Around) : Option Stmt → List Place
  | none => []
  | some s => s.places a around

def FunDecl.places (isInitializer : Bool) (around : List Around) : FunDecl → List Place
  | .mk _ _ ps body =>
    Param.places around [] ps ++ Stmt.placesAll (.ofFunction isInitializer ps) around body

/-- The places in methods, or in static methods, none of which is an initializer. -/
def FunDecl.placesAll (ofInstances : Bool) (around : List Around) : List FunDecl → List Place
  | [] => []
  | d :: r =>
    d.places (ofInstances && d.name == lit "init") around ++ FunDecl.placesAll ofInstances around r

end

namespace Program

/-- The places in a program. -/
def places (p : Program) : List Place := Stmt.placesAll { construct := .script } [] p.body

/-- The violations in a program as they are reported. -/
def violations (bound : List Text) (p : Program) : List Diagnostic :=
  p.places.filterMap (Place.diagnostic? bound)

end Program
end Lox
