import Lox.Proofs.Core.Reading

set_option autoImplicit false
set_option relaxedAutoImplicit false

namespace Lox

open Token (IsLexeme Lexical)

mutual

def Expr.Worded : Expr → Prop
  | .literal _ v => v.Writable
  | .grouping _ e => e.Worded
  | .unary _ op e => (∀ t, op ≠ .other t) ∧ e.Worded
  | .binary _ op a b => (∀ t, op ≠ .other t) ∧ a.Worded ∧ b.Worded
  | .logical _ op a b => (∀ t, op ≠ .other t) ∧ a.Worded ∧ b.Worded
  | .conditional _ c a b => c.Worded ∧ a.Worded ∧ b.Worded
  | .name use => use.Writable
  | .assign target e => target.Writable ∧ e.Worded
  | .call _ f args => f.Worded ∧ Expr.WordedAll args
  | .get _ o n => o.Worded ∧ IsLexeme .name n n
  | .set _ o n e => o.Worded ∧ IsLexeme .name n n ∧ e.Worded
  | .this _ hops => hops = none
  | .super _ m hops => IsLexeme .name m m ∧ hops = none
  | .lambda _ ps body => (∀ p ∈ ps, IsLexeme .name p.name p.name) ∧ Stmt.WordedAll body

def Expr.WordedAll : List Expr → Prop
  | [] => True
  | e :: r => e.Worded ∧ Expr.WordedAll r

def Expr.WordedOption : Option Expr → Prop
  | none => True
  | some e => e.Worded

def Stmt.Worded : Stmt → Prop
  | .exprStmt _ e | .printStmt _ e => e.Worded
  | .varDecl _ n init => IsLexeme .name n n ∧ Expr.WordedOption init
  | .block _ body => Stmt.WordedAll body
  | .ifStmt _ c a b => c.Worded ∧ a.Worded ∧ Stmt.WordedOption b
  | .whileStmt _ c b => c.Worded ∧ b.Worded
  | .forStmt _ init c step b =>
    Stmt.WordedOption init ∧ Expr.WordedOption c ∧ Expr.WordedOption step ∧ b.Worded
  | .breakStmt _ => True
  | .returnStmt _ e => Expr.WordedOption e
  | .funDecl d => d.Worded
  | .classDecl _ n sup ms ss =>
    IsLexeme .name n n ∧ (∀ use ∈ sup, use.Writable) ∧ FunDecl.WordedAll ms ∧ FunDecl.WordedAll ss

def Stmt.WordedAll : List Stmt → Prop
  | [] => True
  | s :: r => s.Worded ∧ Stmt.WordedAll r

def Stmt.WordedOption : Option Stmt → Prop
  | none => True
  | some s => s.Worded

def FunDecl.Worded : FunDecl → Prop
  | .mk _ n ps body =>
    IsLexeme .name n n ∧ (∀ p ∈ ps, IsLexeme .name p.name p.name) ∧ Stmt.WordedAll body

def FunDecl.WordedAll : List FunDecl → Prop
  | [] => True
  | d :: r => d.Worded ∧ FunDecl.WordedAll r

end

private theorem Literal.writable_string {t : Token} (hkind : t.kind = .string)
    (h : ∃ bytes, IsLexeme t.kind t.text bytes) : Literal.Writable (.string t.text) := by
  obtain ⟨bytes, h⟩ := h
  rw [hkind] at h
  generalize t.text = text at h
  cases h with
  | @string s hquote => exact ⟨(Text.isUtf8_iff _).2 ⟨s, rfl⟩, hquote⟩

private theorem Literal.writable_number {t : Token} {x : Float} (hkind : t.kind = .number)
    (h : ∃ bytes, IsLexeme t.kind t.text bytes) (hx : Decimal.read? t.text = some x) :
    Literal.Writable (.number x) := by
  obtain ⟨bytes, h⟩ := h
  rw [hkind] at h
  exact Decimal.finite_of_read? h hx

namespace Grammar

def Node.Worded : Node → Prop
  | .expr e => e.Worded
  | .exprs es => Expr.WordedAll es
  | .stmt s => s.Worded
  | .stmts ss => Stmt.WordedAll ss
  | .function d => d.Worded
  | .members ms ss => FunDecl.WordedAll ms ∧ FunDecl.WordedAll ss
  | .init s => Stmt.WordedOption s
  | .clause e => Expr.WordedOption e

private theorem IsOperator.worded {tier : Parser.Tier} {kind : Token.Kind}
    {op : Parser.Operator} {s : Span}
    {a b : Expr} (h : IsOperator tier kind op) (ha : a.Worded) (hb : b.Worded) :
    (combine s a b op).Worded := by
  cases h <;> exact ⟨nofun, ha, hb⟩

private theorem IsSuperclass.worded {ts : List Token} {sup : Option NameUse}
    (h : IsSuperclass ts sup) (hts : Lexical ts) : ∀ use ∈ sup, use.Writable := by
  cases h with
  | none => nofun
  | some _ hn =>
    simp only [lexical_cons] at hts
    rintro _ ⟨rfl⟩
    exact ⟨.of_name hts.2.1 hn, rfl⟩

private theorem Derives.worded {sym : Sym} {ts : List Token} {n : Node} (h : Derives sym ts n)
    (hts : Lexical ts) : n.Worded := by
  induction h with try simp only [lexical_append, lexical_cons] at hts
  | simple _ ih | plain _ ih | operand _ ih | called _ ih | head _ ih | someArguments _ ih
  | varDecl _ ih | statement _ ih | inBlock _ ih | varInit _ ih | someClause _ ih => exact ih hts
  | noArguments _ | noDeclarations | break_ _ _ | noInit _ | noClause => trivial
  | false_ _ | true_ _ | nil_ _ => trivial
  | this _ => rfl
  | noMembers => exact ⟨trivial, trivial⟩
  | number ht hx => exact Literal.writable_number ht hts.1 hx
  | string ht => exact Literal.writable_string ht hts.1
  | name hn => exact ⟨.of_name hts.1 hn, rfl⟩
  | super _ _ hn => exact ⟨.of_name hts.2.2.1 hn, rfl⟩
  | assignName hn _ _ ih => exact ⟨⟨.of_name hts.1 hn, rfl⟩, ih hts.2.2⟩
  | assignField _ _ hn _ _ iho ihv => exact ⟨iho hts.1, .of_name hts.2.2.1 hn, ihv hts.2.2.2.2⟩
  | choice _ _ _ _ _ ihc iha ihb => exact ⟨ihc hts.1, iha hts.2.2.1, ihb hts.2.2.2.2⟩
  | chain _ hop _ iha ihb => exact hop.worded (iha hts.1) (ihb hts.2.2)
  | not _ _ ih | negate _ _ ih => exact ⟨nofun, ih hts.2⟩
  | apply _ _ _ _ ihf ihargs => exact ⟨ihf hts.1, ihargs hts.2.2⟩
  | get _ _ hn ih => exact ⟨ih hts.1, .of_name hts.2.2.1 hn⟩
  | lastArgument _ _ ih => exact ⟨ih hts.1, trivial⟩
  | moreArguments _ _ _ ih ihs => exact ⟨ih hts.1, ihs hts.2.2⟩
  | lambda _ hps _ ih => exact ⟨(hps.admitted hts.2.1).1, ih hts.2.2⟩
  | group _ _ _ ih | block _ _ _ ih | print _ _ _ ih | return_ _ _ _ ih => exact ih hts.2.1
  | exprStmt _ _ ih | exprInit _ _ ih => exact ih hts.1
  | moreDeclarations _ _ ih ihs => exact ⟨ih hts.1, ihs hts.2⟩
  | classDecl _ hn hsup _ _ _ ih =>
    obtain ⟨-, hname, hts, -, hmembers, -⟩ := hts
    exact ⟨.of_name hname hn, hsup.worded hts, ih hmembers⟩
  | funDecl _ _ ih => exact ih hts.2
  | noValue _ hn _ => exact ⟨.of_name hts.2.1 hn, trivial⟩
  | value _ hn _ _ _ ih => exact ⟨.of_name hts.2.1 hn, ih hts.2.2.2.1⟩
  | function hn hps _ ih => exact ⟨.of_name hts.1 hn, (hps.admitted hts.2.1).1, ih hts.2.2⟩
  | method _ _ ih ihs => exact ⟨⟨ih hts.1, (ihs hts.2).1⟩, (ihs hts.2).2⟩
  | static _ _ _ ih ihs => exact ⟨(ihs hts.2.2).1, ih hts.2.1, (ihs hts.2.2).2⟩
  | while_ _ _ _ _ _ ihc ihb => exact ⟨ihc hts.2.2.1, ihb hts.2.2.2.2⟩
  | if_ _ _ _ _ _ ihc ihy => exact ⟨ihc hts.2.2.1, ihy hts.2.2.2.2, trivial⟩
  | ifElse _ _ _ _ _ _ _ _ ihc ihy ihn =>
    exact ⟨ihc hts.2.2.1, ihy hts.2.2.2.2.1, ihn hts.2.2.2.2.2.2⟩
  | for_ _ _ _ _ _ _ _ _ ihi ihc ihs ihb =>
    obtain ⟨-, -, ⟨hi, hc⟩, -, hs, -, hb⟩ := hts
    exact ⟨ihi hi, ihc hc, ihs hs, ihb hb⟩

end Grammar

theorem Program.worded_of_parse {file source : Text} {p : Program} (h : parse file source = .ok p) :
    Stmt.WordedAll p.body := by
  obtain ⟨ts, -, hts, hderives⟩ := parse_derives h
  exact hderives.worded hts

end Lox
