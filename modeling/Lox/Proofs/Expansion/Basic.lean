import Lox.Proofs.Parse
import Lox.Proofs.Simulation.Code

set_option autoImplicit false
set_option relaxedAutoImplicit false

namespace Lox

mutual

def Expr.expanded : Expr → Expr
  | .literal s v => .literal s v
  | .grouping s e => .grouping s e.expanded
  | .unary s op e => .unary s op e.expanded
  | .binary s op a b => .binary s op a.expanded b.expanded
  | .logical s op a b => .logical s op a.expanded b.expanded
  | .conditional s c a b => .conditional s c.expanded a.expanded b.expanded
  | .name use => .name use
  | .assign target e => .assign target e.expanded
  | .call s f args => .call s f.expanded (Expr.expandedAll args)
  | .get s o n => .get s o.expanded n
  | .set s o n e => .set s o.expanded n e.expanded
  | .this s hops => .this s hops
  | .super s m hops => .super s m hops
  | .lambda s ps body => .lambda s ps (Stmt.expandedAll body)

def Expr.expandedAll : List Expr → List Expr
  | [] => []
  | e :: es => e.expanded :: Expr.expandedAll es

def Expr.expandedOption : Option Expr → Option Expr
  | none => none
  | some e => some e.expanded

/-- A statement with all loops in it expanded. What can be parsed has no other first clauses of
loops than those that can be put in front of a loop. -/
def Stmt.expanded : Stmt → Stmt
  | .exprStmt s e => .exprStmt s e.expanded
  | .printStmt s e => .printStmt s e.expanded
  | .varDecl s n e => .varDecl s n (Expr.expandedOption e)
  | .block s body => .block s (Stmt.expandedAll body)
  | .ifStmt s c a none => .ifStmt s c.expanded a.expanded none
  | .ifStmt s c a (some b) => .ifStmt s c.expanded a.expanded (some b.expanded)
  | .whileStmt s c b => .whileStmt s c.expanded b.expanded
  | .forStmt s none c i b => .asWhile s (Expr.expandedOption c) (Expr.expandedOption i) b.expanded
  | .forStmt s (some init) c i b =>
    if init.isClause then
      .block s [init.expanded,
        .asWhile s (Expr.expandedOption c) (Expr.expandedOption i) b.expanded]
    else .forStmt s (some init.expanded) (Expr.expandedOption c) (Expr.expandedOption i) b.expanded
  | .breakStmt s => .breakStmt s
  | .returnStmt s e => .returnStmt s (Expr.expandedOption e)
  | .funDecl d => .funDecl d.expanded
  | .classDecl s n sup ms ss => .classDecl s n sup (FunDecl.expandedAll ms) (FunDecl.expandedAll ss)

def Stmt.expandedAll : List Stmt → List Stmt
  | [] => []
  | s :: ss => s.expanded :: Stmt.expandedAll ss

def FunDecl.expanded : FunDecl → FunDecl
  | .mk s n ps body => .mk s n ps (Stmt.expandedAll body)

def FunDecl.expandedAll : List FunDecl → List FunDecl
  | [] => []
  | d :: ds => d.expanded :: FunDecl.expandedAll ds

end

/-- A program with all loops in it expanded. -/
def Program.expanded (p : Program) : Program := { p with body := Stmt.expandedAll p.body }

/-! ### Expanded pieces match -/

section

variable {L : Latitude} (hL : L.loops)
include hL

set_option linter.unusedSectionVars false in
mutual

theorem Expr.matches_expanded (e : Expr) : Expr.Matches L e e.expanded := by
  cases e with
  | literal s v => exact .literal s v
  | grouping s e => exact .grouping s (Expr.matches_expanded e)
  | unary s op e => exact .unary s op (Expr.matches_expanded e)
  | binary s op a b => exact .binary s op (Expr.matches_expanded a) (Expr.matches_expanded b)
  | logical s op a b => exact .logical s op (Expr.matches_expanded a) (Expr.matches_expanded b)
  | conditional s c a b =>
    exact .conditional s (Expr.matches_expanded c) (Expr.matches_expanded a)
      (Expr.matches_expanded b)
  | name use => exact .name use
  | assign target e => exact .assign target (Expr.matches_expanded e)
  | call s f args => exact .call s (Expr.matches_expanded f) (Expr.matchesAll_expanded args)
  | get s o n => exact .get s n (Expr.matches_expanded o)
  | set s o n e => exact .set s n (Expr.matches_expanded o) (Expr.matches_expanded e)
  | this s hops => exact .this s hops
  | super s m hops => exact .super s m hops
  | lambda s ps body => exact .lambda s ps (Stmt.matchesAll_expanded body)

theorem Expr.matchesAll_expanded (es : List Expr) : Expr.MatchesAll L es (Expr.expandedAll es) := by
  cases es with
  | nil => exact .nil
  | cons e es => exact .cons (Expr.matches_expanded e) (Expr.matchesAll_expanded es)

theorem Expr.matchesOption_expanded (e : Option Expr) :
    Expr.MatchesOption L e (Expr.expandedOption e) := by
  cases e with
  | none => exact .none
  | some e => exact .some (Expr.matches_expanded e)

theorem Stmt.matches_expanded (s : Stmt) : Stmt.Matches L s s.expanded := by
  cases s with
  | exprStmt s e => exact .exprStmt s (Expr.matches_expanded e)
  | printStmt s e => exact .printStmt s (Expr.matches_expanded e)
  | varDecl s n e => exact .varDecl s n (Expr.matchesOption_expanded e)
  | block s body => exact .block s (Stmt.matchesAll_expanded body)
  | ifStmt s c a b =>
    cases b with
    | none => exact .ifThen s (Expr.matches_expanded c) (Stmt.matches_expanded a)
    | some b =>
      exact .ifElse s (Expr.matches_expanded c) (Stmt.matches_expanded a) (Stmt.matches_expanded b)
  | whileStmt s c b => exact .whileStmt s (Expr.matches_expanded c) (Stmt.matches_expanded b)
  | forStmt s init c i b =>
    have hc := Expr.matchesOption_expanded c
    have hi := Expr.matchesOption_expanded i
    have hb := Stmt.matches_expanded b
    cases init with
    | none => exact .unrolled s hL hc hi hb
    | some init =>
      have hinit := Stmt.matches_expanded init
      rw [Stmt.expanded]
      split
      · rename_i hclause
        exact .unrolledInit s hL hclause hinit hc hi hb
      · exact .forInit s hinit hc hi hb
  | breakStmt s => exact .breakStmt s
  | returnStmt s e => exact .returnStmt s (Expr.matchesOption_expanded e)
  | funDecl d => exact .funDecl (FunDecl.matches_expanded d)
  | classDecl s n sup ms ss =>
    exact .classDecl s n sup (FunDecl.matchesAll_expanded ms) (FunDecl.matchesAll_expanded ss)

theorem Stmt.matchesAll_expanded (ss : List Stmt) : Stmt.MatchesAll L ss (Stmt.expandedAll ss) := by
  cases ss with
  | nil => exact .nil
  | cons s ss => exact .cons (Stmt.matches_expanded s) (Stmt.matchesAll_expanded ss)

theorem FunDecl.matches_expanded (d : FunDecl) : FunDecl.Matches L d d.expanded := by
  obtain ⟨s, n, ps, body⟩ := d
  exact .mk s n ps (Stmt.matchesAll_expanded body)

theorem FunDecl.matchesAll_expanded (ds : List FunDecl) :
    FunDecl.MatchesAll L ds (FunDecl.expandedAll ds) := by
  cases ds with
  | nil => exact .nil
  | cons d ds => exact .cons (FunDecl.matches_expanded d) (FunDecl.matchesAll_expanded ds)

end

end

/-! ### Nothing is left to expand -/

mutual

def Expr.Unrolled : Expr → Prop
  | .literal _ _ | .name _ | .this _ _ | .super _ _ _ => True
  | .grouping _ e | .unary _ _ e | .assign _ e | .get _ e _ => e.Unrolled
  | .binary _ _ a b | .logical _ _ a b | .set _ a _ b => a.Unrolled ∧ b.Unrolled
  | .conditional _ c a b => c.Unrolled ∧ a.Unrolled ∧ b.Unrolled
  | .call _ f args => f.Unrolled ∧ Expr.UnrolledAll args
  | .lambda _ _ body => Stmt.UnrolledAll body

def Expr.UnrolledAll : List Expr → Prop
  | [] => True
  | e :: es => e.Unrolled ∧ Expr.UnrolledAll es

def Expr.UnrolledOption : Option Expr → Prop
  | none => True
  | some e => e.Unrolled

def Stmt.Unrolled : Stmt → Prop
  | .exprStmt _ e | .printStmt _ e => e.Unrolled
  | .varDecl _ _ e | .returnStmt _ e => Expr.UnrolledOption e
  | .block _ body => Stmt.UnrolledAll body
  | .ifStmt _ c a none => c.Unrolled ∧ a.Unrolled
  | .ifStmt _ c a (some b) => c.Unrolled ∧ a.Unrolled ∧ b.Unrolled
  | .whileStmt _ c b => c.Unrolled ∧ b.Unrolled
  | .forStmt _ _ _ _ _ => False
  | .breakStmt _ => True
  | .funDecl d => d.Unrolled
  | .classDecl _ _ _ ms ss => FunDecl.UnrolledAll ms ∧ FunDecl.UnrolledAll ss

def Stmt.UnrolledAll : List Stmt → Prop
  | [] => True
  | s :: ss => s.Unrolled ∧ Stmt.UnrolledAll ss

def FunDecl.Unrolled : FunDecl → Prop
  | .mk _ _ _ body => Stmt.UnrolledAll body

def FunDecl.UnrolledAll : List FunDecl → Prop
  | [] => True
  | d :: ds => d.Unrolled ∧ FunDecl.UnrolledAll ds

end

private theorem Stmt.unrolled_asWhile {s : Span} {c i : Option Expr} {b : Stmt}
    (hc : Expr.UnrolledOption c)
    (hi : Expr.UnrolledOption i) (hb : b.Unrolled) : (asWhile s c i b).Unrolled := by
  have hcondition : (c.getD (.literal s (.bool true))).Unrolled := by
    cases c with
    | none => trivial
    | some c => exact hc
  have hlast : Stmt.UnrolledAll (i.map (.exprStmt s)).toList := by
    cases i with
    | none => trivial
    | some i => exact ⟨hi, trivial⟩
  exact ⟨hcondition, hb, hlast⟩

namespace Grammar

def Node.Unrolls : Node → Prop
  | .expr e => e.expanded.Unrolled
  | .exprs es => Expr.UnrolledAll (Expr.expandedAll es)
  | .stmt s => s.expanded.Unrolled
  | .stmts ss => Stmt.UnrolledAll (Stmt.expandedAll ss)
  | .function d => d.expanded.Unrolled
  | .members ms ss =>
    FunDecl.UnrolledAll (FunDecl.expandedAll ms) ∧ FunDecl.UnrolledAll (FunDecl.expandedAll ss)
  | .init none => True
  | .init (some s) => s.isClause = true ∧ s.expanded.Unrolled
  | .clause e => Expr.UnrolledOption (Expr.expandedOption e)

private theorem Derives.isClause {ts : List Token} {s : Stmt}
    (h : Derives .variable_ ts (.stmt s)) :
    s.isClause = true := by
  cases h <;> rfl

private theorem Derives.unrolls {sym : Sym} {ts : List Token} {n : Node} (h : Derives sym ts n) :
    n.Unrolls := by
  induction h with
  | simple _ ih | plain _ ih | operand _ ih | called _ ih | head _ ih | someArguments _ ih
  | varDecl _ ih | statement _ ih | assignName _ _ _ ih | not _ _ ih | negate _ _ ih | get _ _ _ ih
  | group _ _ _ ih | lambda _ _ _ ih | block _ _ _ ih | funDecl _ _ ih | value _ _ _ _ _ ih
  | function _ _ _ ih | exprStmt _ _ ih | print _ _ _ ih | return_ _ _ _ ih | inBlock _ ih
  | someClause _ ih => exact ih
  | assignField _ _ _ _ _ iho ihv => exact ⟨iho, ihv⟩
  | choice _ _ _ _ _ ihc iha ihb => exact ⟨ihc, iha, ihb⟩
  | @chain _ _ op _ _ _ _ _ _ _ _ iha ihb => cases op <;> exact ⟨iha, ihb⟩
  | apply _ _ _ _ ihf ihargs => exact ⟨ihf, ihargs⟩
  | lastArgument _ _ ih => exact ⟨ih, trivial⟩
  | moreArguments _ _ _ ih ihs => exact ⟨ih, ihs⟩
  | noArguments _ | false_ _ | true_ _ | nil_ _ | number _ _ | string _ | this _ | super _ _ _
  | name _ | noDeclarations | noValue _ _ _ | break_ _ _ | noInit _ | noClause => trivial
  | moreDeclarations _ _ ih ihs => exact ⟨ih, ihs⟩
  | classDecl _ _ _ _ _ _ ih => exact ih
  | noMembers => exact ⟨trivial, trivial⟩
  | method _ _ ihd ih => exact ⟨⟨ihd, ih.1⟩, ih.2⟩
  | static _ _ _ ihd ih => exact ⟨ih.1, ihd, ih.2⟩
  | while_ _ _ _ _ _ ihc ihb => exact ⟨ihc, ihb⟩
  | if_ _ _ _ _ _ ihc ihy => exact ⟨ihc, ihy⟩
  | ifElse _ _ _ _ _ _ _ _ ihc ihy ihn => exact ⟨ihc, ihy, ihn⟩
  | @for_ _ _ _ _ _ _ _ _ init c step body s _ _ _ _ _ _ _ _ ihi ihc ihs ihb =>
    have hloop := Stmt.unrolled_asWhile (s := s) ihc ihs ihb
    cases init with
    | none => exact hloop
    | some init =>
      show Stmt.Unrolled (Stmt.expanded _)
      rw [Stmt.expanded, if_pos ihi.1]
      exact ⟨ihi.2, hloop, trivial⟩
  | varInit hd ih => exact ⟨hd.isClause, ih⟩
  | exprInit _ _ ih => exact ⟨rfl, ih⟩

end Grammar

theorem Program.unrolled_expanded {file source : Text} {p : Program}
    (h : parse file source = .ok p) :
    Stmt.UnrolledAll p.expanded.body := by
  obtain ⟨ts, -, -, hderives⟩ := parse_derives h
  exact hderives.unrolls

end Lox
