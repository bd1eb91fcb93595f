import Lox.Proofs.Grammar.Bare
import Lox.Proofs.Lexing

/-!
Trees where they stand. A tree consists of parts in the order of the source: single tokens and other
trees. It stands at some tokens if its parts take these tokens one after another, each tree among
them stands at the tokens that it takes, and its span runs from the first token to the last one.
-/

set_option autoImplicit false
set_option relaxedAutoImplicit false

namespace Lox

namespace Grammar

/-- The trees that have a span: expressions, statements, the members of a class, parameters, and the
name of a superclass. -/
inductive Tree
  | expr (e : Expr)
  | stmt (s : Stmt)
  | method (d : FunDecl)
  | static (d : FunDecl)
  | param (p : Param)
  | superclass (use : NameUse)

def Tree.span : Tree → Span
  | expr e => e.span
  | stmt s => s.span
  | method d => d.span
  | static d => d.span
  | param p => p.span
  | superclass use => use.span

/-- What a tree consists of: tokens of some sort, other trees, and the members of a class, which the
tree does not keep in the order of the source. -/
inductive Piece
  | token (is : Token → Prop)
  | tree (t : Tree)
  | members (methods statics : List FunDecl)

namespace Piece

def mark (m : Mark) : Piece := .token fun t => t.kind = .mark m

def word (k : Keyword) : Piece := .token fun t => t.kind = .keyword k

def name (n : Text) : Piece := .token fun t => t.kind = .name ∧ t.text = n

def operator (op : Parser.Operator) : Piece := .token fun t => ∃ tier, IsOperator tier t.kind op

def sign (op : UnaryOp) : Piece :=
  .token fun t => op = .not ∧ t.kind = .mark .bang ∨ op = .negate ∧ t.kind = .mark .minus

def literal : Literal → Piece
  | .nil => word .nil_
  | .bool true => word .true_
  | .bool false => word .false_
  | .number x => .token fun t => t.kind = .number ∧ Decimal.read? t.text = some x
  | .string s => .token fun t => t.kind = .string ∧ t.text = s

def separated : List Tree → List Piece
  | [] => []
  | [t] => [.tree t]
  | t :: u :: r => .tree t :: mark .comma :: separated (u :: r)

def statements (body : List Stmt) : List Piece := body.map fun s => .tree (.stmt s)

def clause : Option Expr → List Piece
  | none => []
  | some e => [.tree (.expr e)]

def initial : Option Expr → List Piece
  | none => []
  | some e => [mark .equal, .tree (.expr e)]

def loopInitial : Option Stmt → List Piece
  | none => [mark .semicolon]
  | some s => [.tree (.stmt s)]

def otherwise : Option Stmt → List Piece
  | none => []
  | some s => [word .else_, .tree (.stmt s)]

def inherits : Option NameUse → List Piece
  | none => []
  | some use => [mark .less, .tree (.superclass use)]

/-- Parameters and a body, from parenthesis to brace. -/
def callable (ps : List Param) (body : List Stmt) : List Piece :=
  mark .leftParen :: (separated (ps.map .param) ++ mark .rightParen :: mark .leftBrace ::
    (statements body ++ [mark .rightBrace]))

def function : FunDecl → List Piece
  | .mk _ n ps body => name n :: callable ps body

end Piece

/-- The parts of a tree in the order of the source. -/
def Tree.parts : Tree → List Piece
  | expr (.literal _ v) => [.literal v]
  | expr (.grouping _ e) => [.mark .leftParen, .tree (.expr e), .mark .rightParen]
  | expr (.unary _ op e) => [.sign op, .tree (.expr e)]
  | expr (.binary _ op a b) => [.tree (.expr a), .operator (.binary op), .tree (.expr b)]
  | expr (.logical _ op a b) => [.tree (.expr a), .operator (.logical op), .tree (.expr b)]
  | expr (.conditional _ c a b) =>
    [.tree (.expr c), .mark .question, .tree (.expr a), .mark .colon, .tree (.expr b)]
  | expr (.name use) => [.name use.name]
  | expr (.assign target e) => [.name target.name, .mark .equal, .tree (.expr e)]
  | expr (.call _ f args) =>
    .tree (.expr f) :: .mark .leftParen :: (Piece.separated (args.map .expr) ++ [.mark .rightParen])
  | expr (.get _ o n) => [.tree (.expr o), .mark .dot, .name n]
  | expr (.set _ o n e) =>
    [.tree (.expr o), .mark .dot, .name n, .mark .equal, .tree (.expr e)]
  | expr (.this _ _) => [.word .this_]
  | expr (.super _ m _) => [.word .super_, .mark .dot, .name m]
  | expr (.lambda _ ps body) => .word .fun_ :: Piece.callable ps body
  | stmt (.exprStmt _ e) => [.tree (.expr e), .mark .semicolon]
  | stmt (.printStmt _ e) => [.word .print_, .tree (.expr e), .mark .semicolon]
  | stmt (.varDecl _ n init) =>
    .word .var_ :: .name n :: (Piece.initial init ++ [.mark .semicolon])
  | stmt (.block _ body) => .mark .leftBrace :: (Piece.statements body ++ [.mark .rightBrace])
  | stmt (.ifStmt _ c yes no) =>
    .word .if_ :: .mark .leftParen :: .tree (.expr c) :: .mark .rightParen :: .tree (.stmt yes) ::
      Piece.otherwise no
  | stmt (.whileStmt _ c body) =>
    [.word .while_, .mark .leftParen, .tree (.expr c), .mark .rightParen, .tree (.stmt body)]
  | stmt (.forStmt _ init c step body) =>
    .word .for_ :: .mark .leftParen :: (Piece.loopInitial init ++ (Piece.clause c ++
      .mark .semicolon :: (Piece.clause step ++ [.mark .rightParen, .tree (.stmt body)])))
  | stmt (.breakStmt _) => [.word .break_, .mark .semicolon]
  | stmt (.returnStmt _ e) => .word .return_ :: (Piece.clause e ++ [.mark .semicolon])
  | stmt (.funDecl d) => .word .fun_ :: Piece.function d
  | stmt (.classDecl _ n sup methods statics) =>
    .word .class_ :: .name n :: (Piece.inherits sup ++
      [.mark .leftBrace, .members methods statics, .mark .rightBrace])
  | method d => Piece.function d
  | static d => .word .class_ :: Piece.function d
  | param p => [.name p.name]
  | superclass use => [.name use.name]

/-- A span runs from the start of the first of some tokens to the end of the last one. -/
def Covers (ts : List Token) (s : Span) : Prop :=
  ∃ first last, ts.head? = some first ∧ ts.getLast? = some last ∧ s = first.span.cover last.span

/-- Parts take tokens one after another. A tree among them takes those which its own parts take, and
its span covers them. The members of a class stand in any order that keeps the order of the methods
and that of the static methods. -/
inductive StandAll : List Piece → List Token → Prop
  | nil : StandAll [] []
  | token {is : Token → Prop} {t : Token} {ps : List Piece} {ts : List Token} :
      is t → StandAll ps ts → StandAll (.token is :: ps) (t :: ts)
  | tree {u : Tree} {ps : List Piece} {us ts : List Token} :
      StandAll u.parts us → Covers us u.span → StandAll ps ts → StandAll (.tree u :: ps) (us ++ ts)
  | noMembers {ps : List Piece} {ts : List Token} :
      StandAll ps ts → StandAll (.members [] [] :: ps) ts
  | method {d : FunDecl} {methods statics : List FunDecl} {ps : List Piece} {ts : List Token} :
      StandAll (.tree (.method d) :: .members methods statics :: ps) ts →
      StandAll (.members (d :: methods) statics :: ps) ts
  | static {d : FunDecl} {methods statics : List FunDecl} {ps : List Piece} {ts : List Token} :
      StandAll (.tree (.static d) :: .members methods statics :: ps) ts →
      StandAll (.members methods (d :: statics) :: ps) ts

/-- A tree stands at some tokens: its parts take them, and its span covers them. -/
structure Stands (u : Tree) (ts : List Token) : Prop where
  parts : StandAll u.parts ts
  covers : Covers ts u.span

theorem StandAll.cons {u : Tree} {ps : List Piece} {us ts : List Token} (hu : Stands u us)
    (h : StandAll ps ts) : StandAll (.tree u :: ps) (us ++ ts) :=
  .tree hu.parts hu.covers h

theorem StandAll.single {u : Tree} {us : List Token} (hu : Stands u us) :
    StandAll [.tree u] us := by
  simpa using StandAll.cons hu .nil

theorem StandAll.append {ps qs : List Piece} {ts us : List Token} (h : StandAll ps ts)
    (h' : StandAll qs us) : StandAll (ps ++ qs) (ts ++ us) := by
  induction h with
  | nil => exact h'
  | token ht _ ih => exact .token ht ih
  | tree hu hcovers _ _ ih =>
    rw [List.append_assoc]
    exact .tree hu hcovers ih
  | noMembers _ ih => exact .noMembers ih
  | method _ ih => exact .method ih
  | static _ ih => exact .static ih

/-! ### Covered tokens -/

theorem Covers.ne_nil {ts : List Token} {s : Span} (h : Covers ts s) : ts ≠ [] := by
  rintro rfl
  obtain ⟨_, _, hhead, -⟩ := h
  cases hhead

theorem Covers.token (t : Token) : Covers [t] t.span := ⟨t, t, rfl, rfl, rfl⟩

theorem Covers.append {ts us : List Token} {a b : Span} (ha : Covers ts a) (hb : Covers us b)
    (vs : List Token) : Covers (ts ++ (vs ++ us)) (a.cover b) := by
  obtain ⟨t, t', hhead, -, rfl⟩ := ha
  obtain ⟨u, u', -, hlast, rfl⟩ := hb
  refine ⟨t, u', by simp [hhead], ?_, rfl⟩
  rw [← List.append_assoc, List.getLast?_append, hlast]
  rfl

structure Ordered (ts : List Token) : Prop where
  taken : ∀ t ∈ ts, ¬ t.span.stop.le t.span.start
  pairs : ts.Pairwise fun t u => t.span.stop.le u.span.start

theorem Ordered.sublist {ts us : List Token} (h : Ordered ts) (hu : us.Sublist ts) : Ordered us :=
  ⟨fun t ht => h.taken t (hu.subset ht), h.pairs.sublist hu⟩

end Grammar

theorem Pos.le_of_not_le {p q : Pos} (h : ¬ p.le q) : q.le p := by
  unfold Pos.le at *
  omega

namespace Grammar

/-- Where tokens follow one another, none starts before the first one or stops after the last one.
-/
theorem Covers.bounds {ts : List Token} {s : Span} (hs : Covers ts s)
    (hforward : ∀ t ∈ ts, t.span.start.le t.span.stop)
    (hpairs : ts.Pairwise fun t u => t.span.stop.le u.span.start) :
    ∀ t ∈ ts, s.start.le t.span.start ∧ t.span.stop.le s.stop := by
  obtain ⟨first, last, hhead, hlast, rfl⟩ := hs
  intro t ht
  constructor
  · cases ts with
    | nil => cases hhead
    | cons u us =>
      cases hhead
      rcases List.mem_cons.1 ht with rfl | hmem
      · exact Pos.le_refl _
      · exact Pos.le_trans (hforward _ List.mem_cons_self) (List.rel_of_pairwise_cons hpairs hmem)
  · obtain ⟨us, rfl⟩ := List.getLast?_eq_some_iff.1 hlast
    rcases List.mem_append.1 ht with hmem | hmem
    · have hbefore := (List.pairwise_append.1 hpairs).2.2 t hmem last List.mem_cons_self
      exact Pos.le_trans hbefore (hforward _ (by simp))
    · rw [List.mem_singleton.1 hmem]
      exact Pos.le_refl _

private theorem Ordered.bounds {ts : List Token} {s : Span} (h : Ordered ts) (hs : Covers ts s) :
    ∀ t ∈ ts, s.start.le t.span.start ∧ t.span.stop.le s.stop :=
  hs.bounds (fun t ht => Pos.le_of_not_le (h.taken t ht)) h.pairs

theorem not_stop_le_start {s s' : Span} (h : ¬ s'.stop.le s'.start)
    (hin : s.start.le s'.start ∧ s'.stop.le s.stop) : ¬ s.stop.le s.start :=
  fun hle => h (Pos.le_trans hin.2 (Pos.le_trans hle hin.1))

theorem Ordered.nonempty {ts : List Token} {s : Span} (h : Ordered ts) (hs : Covers ts s) :
    ¬ s.stop.le s.start := by
  obtain ⟨t, ht⟩ := List.exists_mem_of_ne_nil ts hs.ne_nil
  exact not_stop_le_start (h.taken t ht) (h.bounds hs t ht)

theorem Ordered.within {ts us : List Token} {s s' : Span} (h : Ordered ts) (hs : Covers ts s)
    (hu : us.Sublist ts) (hs' : Covers us s') : s.start.le s'.start ∧ s'.stop.le s.stop := by
  obtain ⟨first, last, hhead, hlast, rfl⟩ := hs'
  exact ⟨(h.bounds hs first (hu.subset (List.mem_of_mem_head? hhead))).1,
    (h.bounds hs last (hu.subset (List.mem_of_getLast? hlast))).2⟩

private theorem Ordered.before {ts us : List Token} {a b : Span}
    (h : Ordered (ts ++ us)) (ha : Covers ts a) (hb : Covers us b) : a.stop.le b.start := by
  obtain ⟨_, last, -, hlast, rfl⟩ := ha
  obtain ⟨first, _, hhead, -, rfl⟩ := hb
  exact (List.pairwise_append.1 h.pairs).2.2 last (List.mem_of_getLast? hlast) first
    (List.mem_of_mem_head? hhead)

/-! ### The trees in a tree -/

def Piece.trees : Piece → List Tree
  | .token _ => []
  | .tree t => [t]
  | .members methods statics => methods.map .method ++ statics.map .static

def Tree.children (t : Tree) : List Tree := t.parts.flatMap Piece.trees

/-- The trees among some parts in the order of the source, which is told by the parts but for the
order between the methods and the static methods of a class. -/
inductive InOrder : List Piece → List Tree → Prop
  | nil : InOrder [] []
  | token {is : Token → Prop} {ps : List Piece} {cs : List Tree} :
      InOrder ps cs → InOrder (.token is :: ps) cs
  | tree {u : Tree} {ps : List Piece} {cs : List Tree} :
      InOrder ps cs → InOrder (.tree u :: ps) (u :: cs)
  | noMembers {ps : List Piece} {cs : List Tree} :
      InOrder ps cs → InOrder (.members [] [] :: ps) cs
  | method {d : FunDecl} {methods statics : List FunDecl} {ps : List Piece} {cs : List Tree} :
      InOrder (.tree (.method d) :: .members methods statics :: ps) cs →
      InOrder (.members (d :: methods) statics :: ps) cs
  | static {d : FunDecl} {methods statics : List FunDecl} {ps : List Piece} {cs : List Tree} :
      InOrder (.tree (.static d) :: .members methods statics :: ps) cs →
      InOrder (.members methods (d :: statics) :: ps) cs

theorem InOrder.perm {ps : List Piece} {cs : List Tree} (h : InOrder ps cs) :
    cs.Perm (ps.flatMap Piece.trees) := by
  induction h with
  | nil => exact .refl _
  | token _ ih => exact ih
  | tree _ ih => exact ih.cons _
  | noMembers _ ih => exact ih
  | method _ ih => exact ih
  | @static d methods statics ps cs _ ih =>
    refine ih.trans ?_
    simp only [List.flatMap_cons, Piece.trees, List.map_cons, List.append_assoc, List.cons_append,
      List.nil_append]
    exact List.perm_middle.symm

/-- The trees among parts that take tokens stand at some of the tokens, and follow one another. -/
theorem StandAll.inOrder {ps : List Piece} {ts : List Token} (h : StandAll ps ts)
    (hts : Ordered ts) : ∃ cs, InOrder ps cs ∧ (∀ c ∈ cs, ∃ us, us <:+: ts ∧ Stands c us) ∧
      cs.Pairwise fun c d => c.span.stop.le d.span.start := by
  induction h with
  | nil => exact ⟨[], .nil, nofun, .nil⟩
  | @token is t ps ts _ _ ih =>
    obtain ⟨cs, horder, hstand, hpairs⟩ := ih (hts.sublist (List.sublist_cons_self t ts))
    refine ⟨cs, .token horder, fun c hc => ?_, hpairs⟩
    obtain ⟨us, hus, hc⟩ := hstand c hc
    exact ⟨us, hus.trans (List.suffix_cons t ts).isInfix, hc⟩
  | @tree u ps us ts hu hcovers _ _ ih =>
    obtain ⟨cs, horder, hstand, hpairs⟩ := ih (hts.sublist (List.sublist_append_right us ts))
    refine ⟨u :: cs, .tree horder, List.forall_mem_cons.2 ⟨?_, fun c hc => ?_⟩,
      List.pairwise_cons.2 ⟨fun c hc => ?_, hpairs⟩⟩
    · exact ⟨us, (List.prefix_append us ts).isInfix, hu, hcovers⟩
    · obtain ⟨vs, hvs, hc⟩ := hstand c hc
      exact ⟨vs, hvs.trans (List.suffix_append us ts).isInfix, hc⟩
    · obtain ⟨vs, hvs, hc⟩ := hstand c hc
      have hlater : Ordered (us ++ vs) := hts.sublist (hvs.sublist.append_left us)
      exact hlater.before hcovers hc.covers
  | noMembers _ ih =>
    obtain ⟨cs, horder, hrest⟩ := ih hts
    exact ⟨cs, .noMembers horder, hrest⟩
  | method _ ih =>
    obtain ⟨cs, horder, hrest⟩ := ih hts
    exact ⟨cs, .method horder, hrest⟩
  | static _ ih =>
    obtain ⟨cs, horder, hrest⟩ := ih hts
    exact ⟨cs, .static horder, hrest⟩

end Grammar
end Lox
