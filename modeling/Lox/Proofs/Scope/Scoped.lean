import Lox.Syntax.Basic

set_option autoImplicit false
set_option relaxedAutoImplicit false

namespace Lox

open Text (lit)

abbrev Layer := Text → Prop

namespace Layer

def empty : Layer := fun _ => False

def single (name : Text) : Layer := fun n => n = name

def ofParams (ps : List Param) : Layer := fun n => ∃ p ∈ ps, p.name = n

end Layer

abbrev Layers := List Layer

namespace Layers

/-- One more name in the innermost layer. At the top a declared name is global. -/
def declare (name : Text) : Layers → Layers
  | [] => []
  | l :: r => (fun n => n = name ∨ l n) :: r

def Binds (ls : Layers) (hops : Nat) (name : Text) : Prop := ∃ l, ls[hops]? = some l ∧ l name

def Reaches (ls : Layers) (hops : Option Int) (name : Text) : Prop :=
  ∀ d, hops = some d → ∃ n : Nat, d = n ∧ Binds ls n name

end Layers

open Layers

structure Takes where
  leaveLoop : Bool
  leaveFunction : Bool

def Takes.inFunction : Takes := { leaveLoop := false, leaveFunction := true }

def Takes.inLoop (takes : Takes) : Takes := { takes with leaveLoop := true }

namespace Stmt

def isDeclaration : Stmt → Bool
  | .varDecl _ _ _ | .funDecl _ | .classDecl _ _ _ _ _ => true
  | _ => false

/-- The names that a statement declares in the frame in which it is carried out. -/
def declared : Stmt → List Text
  | .varDecl _ name _ => [name]
  | .funDecl d => [d.name]
  | .classDecl _ name _ _ _ => [name]
  | .ifStmt _ _ a none => a.declared
  | .ifStmt _ _ a (some b) => a.declared ++ b.declared
  | .whileStmt _ _ b => b.declared
  | _ => []

/-- Whether a statement declares its names whenever it is carried out, and not in a part of it that
may be left out. -/
def DeclaresAlways (s : Stmt) : Prop := s.isDeclaration = true ∨ s.declared = []

def after (ls : Layers) : Stmt → Layers
  | .varDecl _ n _ => declare n ls
  | .funDecl d => declare d.name ls
  | .classDecl _ n _ _ _ => declare n ls
  | _ => ls

theorem after_eq_self {s : Stmt} (h : s.isDeclaration = false) (ls : Layers) : s.after ls = ls := by
  cases s <;> first | rfl | cases h

end Stmt

mutual

def Expr.Scoped (ls : Layers) : Expr → Prop
  | .literal _ _ => True
  | .grouping _ e => e.Scoped ls
  | .unary _ op e => (∀ t, op ≠ .other t) ∧ e.Scoped ls
  | .binary _ op a b => (∀ t, op ≠ .other t) ∧ a.Scoped ls ∧ b.Scoped ls
  | .logical _ _ a b => a.Scoped ls ∧ b.Scoped ls
  | .conditional _ c a b => c.Scoped ls ∧ a.Scoped ls ∧ b.Scoped ls
  | .name use => Reaches ls use.hops use.name
  | .assign target e =>
    e.Scoped ls ∧ Reaches ls target.hops target.name ∧ target.name ≠ lit "super"
  | .call _ f args => f.Scoped ls ∧ Expr.ScopedAll ls args
  | .get _ o _ => o.Scoped ls
  | .set _ o _ e => o.Scoped ls ∧ e.Scoped ls
  | .this _ hops => Reaches ls hops (lit "this")
  | .super _ _ hops => ∃ d : Nat, hops = some ((d : Int) + 1) ∧ Binds ls (d + 1) (lit "super") ∧
      Binds ls d (lit "this")
  | .lambda _ ps body =>
    (∀ p ∈ ps, p.name ≠ lit "super") ∧ Stmt.ScopedAll (.ofParams ps :: ls) .inFunction body

def Expr.ScopedAll (ls : Layers) : List Expr → Prop
  | [] => True
  | e :: r => e.Scoped ls ∧ Expr.ScopedAll ls r

def Expr.ScopedOption (ls : Layers) : Option Expr → Prop
  | none => True
  | some e => e.Scoped ls

def Stmt.Scoped (ls : Layers) (takes : Takes) : Stmt → Prop
  | .exprStmt _ e => e.Scoped ls
  | .printStmt _ e => e.Scoped ls
  | .varDecl _ n init => n ≠ lit "super" ∧ Expr.ScopedOption (declare n ls) init
  | .block _ body => Stmt.ScopedAll (.empty :: ls) takes body
  | .ifStmt _ c a b =>
    c.Scoped ls ∧ a.isDeclaration = false ∧ a.Scoped ls takes ∧ Stmt.ScopedElse ls takes b
  | .whileStmt _ c b => c.Scoped ls ∧ b.isDeclaration = false ∧ b.Scoped ls takes.inLoop
  | .forStmt _ none c i b =>
    Expr.ScopedOption ls c ∧ b.isDeclaration = false ∧ b.Scoped (.empty :: ls) takes.inLoop ∧
      Expr.ScopedOption (.empty :: ls) i
  | .forStmt _ (some init) c i b =>
    init.Scoped (.empty :: ls) takes ∧ Expr.ScopedOption (init.after (.empty :: ls)) c ∧
      b.isDeclaration = false ∧ b.Scoped (.empty :: init.after (.empty :: ls)) takes.inLoop ∧
      Expr.ScopedOption (.empty :: init.after (.empty :: ls)) i
  | .breakStmt _ => takes.leaveLoop = true
  | .returnStmt _ e => takes.leaveFunction = true ∧ Expr.ScopedOption ls e
  | .funDecl d => d.name ≠ lit "super" ∧ d.Scoped (declare d.name ls)
  | .classDecl _ n none ms ss =>
    n ≠ lit "super" ∧ FunDecl.ScopedAll (.single (lit "this") :: declare n ls) ms ∧
      FunDecl.ScopedAll (.single (lit "this") :: declare n ls) ss
  | .classDecl _ n (some sup) ms ss =>
    n ≠ lit "super" ∧ Reaches ls sup.hops sup.name ∧
      FunDecl.ScopedAll (.single (lit "this") :: .single (lit "super") :: declare n ls) ms ∧
      FunDecl.ScopedAll (.single (lit "this") :: .single (lit "super") :: declare n ls) ss

def Stmt.ScopedElse (ls : Layers) (takes : Takes) : Option Stmt → Prop
  | none => True
  | some b => b.isDeclaration = false ∧ b.Scoped ls takes

def Stmt.ScopedAll (ls : Layers) (takes : Takes) : List Stmt → Prop
  | [] => True
  | s :: r => s.Scoped ls takes ∧ Stmt.ScopedAll (s.after ls) takes r

def FunDecl.Scoped (ls : Layers) : FunDecl → Prop
  | .mk _ _ ps body =>
    (∀ p ∈ ps, p.name ≠ lit "super") ∧ Stmt.ScopedAll (.ofParams ps :: ls) .inFunction body

def FunDecl.ScopedAll (ls : Layers) : List FunDecl → Prop
  | [] => True
  | d :: r => d.Scoped ls ∧ FunDecl.ScopedAll ls r

end

end Lox
