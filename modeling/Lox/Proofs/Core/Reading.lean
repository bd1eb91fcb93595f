import Lox.Proofs.Core.Derivable
import Lox.Proofs.Core.Session

set_option autoImplicit false
set_option relaxedAutoImplicit false

namespace Lox

open Text (lit)
open Token (IsLexeme)
open Lox.Parser (maxArgs)

/-! ### Trees that can be written -/

/-- A constant that has a text: a finite number without a sign, or a string without quotes. -/
def Literal.Writable : Literal → Prop
  | .nil | .bool _ => True
  | .number x => ∃ m q, Decimal.shape x = .finite false m q
  | .string t => t.isUtf8 = true ∧ Byte.quote ∉ t

def NameUse.Writable (use : NameUse) : Prop := IsLexeme .name use.name use.name ∧ use.hops = none

mutual

/-- An expression that has a text: its operators are those of the language, its names can be names,
and it has no more parameters and arguments than are allowed. -/
def Expr.Writable : Expr → Prop
  | .literal _ v => v.Writable
  | .grouping _ e => e.Writable
  | .unary _ op e => (∀ t, op ≠ .other t) ∧ e.Writable
  | .binary _ op a b => (∀ t, op ≠ .other t) ∧ a.Writable ∧ b.Writable
  | .logical _ op a b => (∀ t, op ≠ .other t) ∧ a.Writable ∧ b.Writable
  | .conditional _ c a b => c.Writable ∧ a.Writable ∧ b.Writable
  | .name use => use.Writable
  | .assign target e => target.Writable ∧ e.Writable
  | .call _ f args => f.Writable ∧ Expr.WritableAll args ∧ args.length ≤ maxArgs
  | .get _ o n => o.Writable ∧ IsLexeme .name n n
  | .set _ o n e => o.Writable ∧ IsLexeme .name n n ∧ e.Writable
  | .this _ hops => hops = none
  | .super _ m hops => IsLexeme .name m m ∧ hops = none
  | .lambda _ ps body => Grammar.Param.Admitted ps ∧ Stmt.WritableAll body

def Expr.WritableAll : List Expr → Prop
  | [] => True
  | e :: r => e.Writable ∧ Expr.WritableAll r

/-- A statement that has a text and no other statement in it but in a block or a function. -/
def Stmt.Writable : Stmt → Prop
  | .exprStmt _ e | .printStmt _ e => e.Writable
  | .varDecl _ n (some e) => IsLexeme .name n n ∧ e.Writable
  | .block _ body => Stmt.WritableAll body
  | .breakStmt _ | .returnStmt _ none => True
  | .returnStmt _ (some e) => e.Writable
  | _ => False

def Stmt.WritableAll : List Stmt → Prop
  | [] => True
  | s :: r => s.Writable ∧ Stmt.WritableAll r

end

/-- A program that has a text. -/
def Program.Writable (p : Program) : Prop := Stmt.WritableAll p.body

/-! ### Operands -/

namespace Layout

private theorem wrapped_of_fits {inner outer : Int} {side : Side}
    (h : needsParens inner outer side = false) (t : Text) : wrapped inner outer side t = t := by
  rw [wrapped, h]
  rfl

private theorem le_of_fits {inner outer : Int} {side : Side}
    (h : needsParens inner outer side = false) :
    outer ≤ inner := by
  simp only [needsParens, Bool.or_eq_false_iff, decide_eq_false_iff_not] at h
  omega

private theorem lt_of_fits {inner outer : Int} (hlow : 0 < outer) (hhigh : outer < 5)
    (h : needsParens inner outer .right = false) : outer < inner := by
  refine lt_of_le_of_ne (le_of_fits h) ?_
  rintro rfl
  simp [needsParens, hlow, hhigh] at h

private theorem fits_of_highest {outer : Int} (h : outer ≤ 6) (side : Side) :
    needsParens 6 outer side = false := by
  have hlt : ¬ (6 : Int) < outer := by omega
  simp [needsParens, hlt]

end Layout

namespace Grammar

open Lox.Parser (Tier Operator)
open Layout (needsParens wrapped)

/-- An expression that the grammar derives, with the canonical form and the core of another one. -/
structure ReadAs (e e' : Expr) : Prop where
  layout (depth : Nat) : Layout.expr depth e' = Layout.expr depth e
  core : e'.core = e.core
  rank : e'.rank = e.rank
  derivable (n : Nat) : 6 ≤ e'.rank + n → Derivable (rung n) (.expr e')

/-- What the text of an operand is read as, parentheses around it included. -/
structure ReadAsOperand (outer : Int) (side : Layout.Side) (e x : Expr) : Prop where
  layout (depth : Nat) : Layout.expr depth x = wrapped e.rank outer side (Layout.expr depth e)
  core : x.core = e.core
  fits : needsParens x.rank outer side = false
  derivable (n : Nat) : 6 ≤ x.rank + n → Derivable (rung n) (.expr x)

private theorem ReadAsOperand.wrapped_eq {outer : Int} {side : Layout.Side} {e x : Expr}
    (h : ReadAsOperand outer side e x) (depth : Nat) :
    wrapped x.rank outer side (Layout.expr depth x) =
      wrapped e.rank outer side (Layout.expr depth e) := by
  rw [Layout.wrapped_of_fits h.fits, h.layout]

private theorem neg_three_le_rank (e : Expr) : -3 ≤ e.rank := by
  cases e with
  | binary s op a b => cases op <;> simp [Expr.rank, BinaryOp.rank]
  | logical s op a b => cases op <;> simp [Expr.rank, LogicalOp.rank]
  | _ => simp [Expr.rank]

namespace ReadAs

variable {s : Span} {e e' a a' b b' c c' : Expr} {name : Text}

private theorem of_rung {n : Nat} (hlayout : ∀ depth, Layout.expr depth e' = Layout.expr depth e)
    (hcore : e'.core = e.core) (hrank : e'.rank = e.rank) (hn : e'.rank = 6 - n)
    (h : Derivable (rung n) (.expr e')) : ReadAs e e' :=
  ⟨hlayout, hcore, hrank, fun _ hk => h.loosen (by omega)⟩

private theorem of_primary (hrank : e.rank = 6) (h : Derivable .primary (.expr e)) : ReadAs e e :=
  .of_rung (n := 0) (fun _ => rfl) rfl rfl hrank (h.imp fun _ => .head)

private theorem expression (h : ReadAs e e') : Derivable .expression (.expr e') :=
  h.derivable 9 (by have := neg_three_le_rank e'; omega)

private theorem operand (h : ReadAs e e') {outer : Int} (houter : outer ≤ 6) (side : Layout.Side) :
    ∃ x, ReadAsOperand outer side e x := by
  cases hneeds : needsParens e.rank outer side with
  | true =>
    refine ⟨.grouping .blank e', fun depth =>
      ?_, h.core, Layout.fits_of_highest houter side, fun n _ => ?_⟩
    · rw [Layout.expr, h.layout, wrapped, if_pos hneeds]
    · exact (h.expression.group.imp fun _ => .head : Derivable (rung 0) _).loosen n.zero_le
  | false =>
    refine ⟨e', fun depth => ?_, h.core, h.rank ▸ hneeds, h.derivable⟩
    rw [h.layout, Layout.wrapped_of_fits hneeds]

private theorem grouping (h : ReadAs e e') : ReadAs (.grouping s e) (.grouping s e') := by
  refine of_rung (n := 0) (fun depth => ?_) h.core rfl rfl (h.expression.group.imp fun _ => .head)
  rw [Layout.expr, Layout.expr, h.layout]

private theorem unary {op : UnaryOp} (hop : ∀ t, op ≠ .other t) (h : ReadAs e e') :
    ∃ z, ReadAs (.unary s op e) z := by
  obtain ⟨x, hx⟩ := h.operand (by decide : (5 : Int) ≤ 6) .left
  have hunary : Derivable .unary (.expr x) :=
    hx.derivable 1 (by have := Layout.le_of_fits hx.fits; omega)
  refine ⟨.unary s op x, of_rung (n := 1) (fun depth => ?_) ?_ rfl rfl ?_⟩
  · rw [Layout.expr, Layout.expr, hx.wrapped_eq]
  · exact congrArg (Expr.unary .blank op) hx.core
  · cases op with
    | negate => exact hunary.negate
    | not => exact hunary.not
    | other t => exact absurd rfl (hop t)

private theorem exists_operator {op : BinaryOp} (hop : ∀ t, op ≠ .other t) :
    ∃ tier kind, IsOperator tier kind (.binary op) ∧ 0 < op.rank ∧ op.rank < 5 := by
  cases op with
  | add => exact ⟨_, _, .add, by decide, by decide⟩
  | sub => exact ⟨_, _, .sub, by decide, by decide⟩
  | mul => exact ⟨_, _, .mul, by decide, by decide⟩
  | div => exact ⟨_, _, .div, by decide, by decide⟩
  | greater => exact ⟨_, _, .greater, by decide, by decide⟩
  | less => exact ⟨_, _, .less, by decide, by decide⟩
  | greaterEqual => exact ⟨_, _, .greaterEqual, by decide, by decide⟩
  | lessEqual => exact ⟨_, _, .lessEqual, by decide, by decide⟩
  | equal => exact ⟨_, _, .equal, by decide, by decide⟩
  | notEqual => exact ⟨_, _, .notEqual, by decide, by decide⟩
  | other t => exact absurd rfl (hop t)

/-- The second operand binds more tightly than the operator, so what was grouped to the right is
read so. -/
theorem binary {op : BinaryOp} (hop : ∀ t, op ≠ .other t) (ha : ReadAs a a') (hb : ReadAs b b') :
    ∃ z, ReadAs (.binary s op a b) z := by
  obtain ⟨tier, kind, hoperator, hlow, hhigh⟩ := exists_operator hop
  obtain ⟨n, hsym, hoperand, hn⟩ := exists_rung tier
  have hrank : op.rank = (Sym.tier tier).rank := hoperator.rank_combine s a b
  obtain ⟨x, hx⟩ := ha.operand (by omega : op.rank ≤ 6) .left
  obtain ⟨y, hy⟩ := hb.operand (by omega : op.rank ≤ 6) .right
  have hxrank := Layout.le_of_fits hx.fits
  have hyrank := Layout.lt_of_fits hlow hhigh hy.fits
  have hxd : Derivable (.tier tier) (.expr x) := hsym ▸ hx.derivable (n + 1) (by push_cast; omega)
  have hyd : Derivable (operandOf tier) (.expr y) := hoperand ▸ hy.derivable n (by omega)
  refine ⟨.binary s op x y, of_rung (n := n + 1) (fun depth => ?_) ?_ rfl ?_ ?_⟩
  · rw [Layout.expr, Layout.expr, hx.wrapped_eq, hy.wrapped_eq]
  · exact congrArg₂ (Expr.binary .blank op) hx.core hy.core
  · show op.rank = _
    push_cast
    omega
  · rw [← hsym]
    exact hxd.chain hoperator hyd

/-- The second operand may be a chain of the same operator, which then goes on the first one. -/
theorem logical {op : LogicalOp} (hop : ∀ t, op ≠ .other t) (ha : ReadAs a a') (hb : ReadAs b b') :
    ∃ z, ReadAs (.logical s op a b) z := by
  obtain ⟨tier, kind, hoperator⟩ : ∃ tier kind, IsOperator tier kind (.logical op) := by
    cases op with
    | and => exact ⟨_, _, .and⟩
    | or => exact ⟨_, _, .or⟩
    | other t => exact absurd rfl (hop t)
  obtain ⟨n, hsym, -, hn⟩ := exists_rung tier
  have hrank : op.rank = (Sym.tier tier).rank := hoperator.rank_combine s a b
  obtain ⟨x, hx⟩ := ha.operand (by omega : op.rank ≤ 6) .left
  obtain ⟨y, hy⟩ := hb.operand (by omega : op.rank ≤ 6) .right
  have hxrank := Layout.le_of_fits hx.fits
  have hyrank := Layout.le_of_fits hy.fits
  have hxd : Derivable (.tier tier) (.expr x) := hsym ▸ hx.derivable (n + 1) (by push_cast; omega)
  have hyd : Derivable (.tier tier) (.expr y) := hsym ▸ hy.derivable (n + 1) (by push_cast; omega)
  obtain ⟨hjoined, hlayout⟩ := hxd.join hoperator hyd
  refine ⟨op.join x y, of_rung (n := n + 1) (fun depth => ?_) ?_ (rank_join op x y) ?_ ?_⟩
  · rw [hlayout, hx.layout, hy.layout, Layout.expr]
    simp only [List.append_assoc]
    rfl
  · calc (op.join x y).core = op.join x.core y.core := op.core_join x y
      _ = op.join a.core b.core := by rw [hx.core, hy.core]
  · rw [rank_join]
    push_cast
    omega
  · rwa [← hsym]

private theorem conditional (hc : ReadAs c c') (ha : ReadAs a a') (hb : ReadAs b b') :
    ∃ z, ReadAs (.conditional s c a b) z := by
  obtain ⟨x, hx⟩ := hc.operand (by decide : (-1 : Int) ≤ 6) .left
  obtain ⟨y, hy⟩ := hb.operand (by decide : (-2 : Int) ≤ 6) .left
  have hxd : Derivable (.tier .or) (.expr x) :=
    hx.derivable 7 (by have := Layout.le_of_fits hx.fits; omega)
  have hyd : Derivable .conditional (.expr y) :=
    hy.derivable 8 (by have := Layout.le_of_fits hy.fits; omega)
  refine ⟨.conditional s x a' y, of_rung (n := 8) (fun depth => ?_) ?_ rfl rfl
    (hxd.choice ha.expression hyd)⟩
  · rw [Layout.expr, Layout.expr, hx.wrapped_eq, ha.layout, hy.wrapped_eq]
  · show Expr.conditional .blank x.core a'.core y.core = .conditional .blank c.core a.core b.core
    rw [hx.core, ha.core, hy.core]

private theorem assign (hn : IsLexeme .name name name) (h : ReadAs e e') :
    ReadAs (.assign { span := s, name, hops := none } e)
      (.assign { span := s, name, hops := none } e') := by
  refine of_rung (n := 9) (fun depth => ?_) ?_ rfl rfl (Derivable.assignName hn h.expression)
  · rw [Layout.expr, Layout.expr, h.layout]
  · exact congrArg (Expr.assign { span := .blank, name, hops := none }) h.core

private theorem object (h : ReadAs e e') :
    ∃ x, ReadAsOperand 6 .left e x ∧ Derivable .call (.expr x) := by
  obtain ⟨x, hx⟩ := h.operand (Int.le_refl 6) .left
  exact ⟨x, hx, hx.derivable 0 (by have := Layout.le_of_fits hx.fits; omega)⟩

private theorem get (h : ReadAs e e') (hn : IsLexeme .name name name) :
    ∃ z, ReadAs (.get s e name) z := by
  obtain ⟨x, hx, hd⟩ := h.object
  refine ⟨.get s x name, of_rung (n := 0) (fun depth => ?_) ?_ rfl rfl (hd.get hn)⟩
  · rw [Layout.expr, Layout.expr, hx.wrapped_eq]
  · exact congrArg (Expr.get .blank · name) hx.core

private theorem set (h : ReadAs e e') (hn : IsLexeme .name name name) (ha : ReadAs a a') :
    ∃ z, ReadAs (.set s e name a) z := by
  obtain ⟨x, hx, hd⟩ := h.object
  refine ⟨.set s x name a', of_rung (n := 9) (fun depth => ?_) ?_ rfl rfl
    (hd.assignField hn ha.expression)⟩
  · rw [Layout.expr, Layout.expr, hx.wrapped_eq, ha.layout]
  · exact congrArg₂ (Expr.set .blank · name ·) hx.core ha.core

private theorem layout_all {es es' : List Expr} (h : List.Forall₂ ReadAs es es') (depth : Nat) :
    Layout.exprs depth es' = Layout.exprs depth es := by
  induction h with
  | nil => rfl
  | cons he _ ih => rw [Layout.exprs, Layout.exprs, he.layout, ih]

private theorem core_all {es es' : List Expr} (h : List.Forall₂ ReadAs es es') :
    Expr.regroupedAll (Expr.bareAll es') = Expr.regroupedAll (Expr.bareAll es) := by
  induction h with
  | nil => rfl
  | cons he _ ih => exact congrArg₂ List.cons he.core ih

private theorem derivable_all {es es' : List Expr} (h : List.Forall₂ ReadAs es es') :
    ∀ e ∈ es', Derivable .expression (.expr e) := by
  induction h with
  | nil => nofun
  | cons he _ ih => exact List.forall_mem_cons.2 ⟨he.expression, ih⟩

private theorem call {args args' : List Expr} (h : ReadAs e e')
    (hargs : List.Forall₂ ReadAs args args')
    (hcount : args.length ≤ maxArgs) : ∃ z, ReadAs (.call s e args) z := by
  obtain ⟨x, hx, hd⟩ := h.object
  have hcall : Derivable .call (.expr (.call s x args')) :=
    hd.apply (derivable_all hargs) (hargs.length_eq ▸ hcount)
  refine ⟨.call s x args', of_rung (n := 0) (fun depth => ?_) ?_ rfl rfl hcall⟩
  · rw [Layout.expr, Layout.expr, hx.wrapped_eq, layout_all hargs]
  · exact congrArg₂ (Expr.call .blank) hx.core (core_all hargs)

private theorem literal {v : Literal} (hv : v.Writable) : ReadAs (.literal s v) (.literal s v) :=
  match v, hv with
  | .nil, _ => .of_primary rfl .nil
  | .bool b, _ => .of_primary rfl (.bool b)
  | .number _, ⟨_, _, hx⟩ => .of_primary rfl (.number hx)
  | .string _, ⟨hutf8, hquote⟩ => .of_primary rfl (.string hutf8 hquote)

end ReadAs

/-! ### Statements -/

/-- A statement that the grammar derives, with the canonical form and the core of another one. -/
structure ReadAsStmt (s s' : Stmt) : Prop where
  layout (depth : Nat) : Layout.stmt depth s' = Layout.stmt depth s
  core : s'.core = s.core
  derivable : Derivable .declaration (.stmt s')

namespace ReadAsStmt

variable {s : Span} {e e' : Expr} {ss ss' : List Stmt}

private theorem layout_all (h : List.Forall₂ ReadAsStmt ss ss') (depth : Nat) :
    Layout.lines depth ss' = Layout.lines depth ss := by
  induction h with
  | nil => rfl
  | cons hs _ ih => rw [Layout.lines, Layout.lines, hs.layout, ih]

private theorem core_all (h : List.Forall₂ ReadAsStmt ss ss') :
    Stmt.coreAll ss' = Stmt.coreAll ss := by
  induction h with
  | nil => rfl
  | cons hs _ ih => exact congrArg₂ List.cons hs.core ih

private theorem derivable_all (h : List.Forall₂ ReadAsStmt ss ss') :
    ∀ s ∈ ss', Derivable .declaration (.stmt s) := by
  induction h with
  | nil => nofun
  | cons hs _ ih => exact List.forall_mem_cons.2 ⟨hs.derivable, ih⟩

private theorem exprStmt (h : ReadAs e e') : ReadAsStmt (.exprStmt s e) (.exprStmt s e') where
  layout depth := by rw [Layout.stmt, Layout.stmt, h.layout]
  core := congrArg (Stmt.exprStmt .blank) h.core
  derivable := h.expression.exprStmt

private theorem print (h : ReadAs e e') : ReadAsStmt (.printStmt s e) (.printStmt s e') where
  layout depth := by rw [Layout.stmt, Layout.stmt, h.layout]
  core := congrArg (Stmt.printStmt .blank) h.core
  derivable := h.expression.print

private theorem value {name : Text} (hn : IsLexeme .name name name) (h : ReadAs e e') :
    ReadAsStmt (.varDecl s name (some e)) (.varDecl s name (some e')) where
  layout depth := by rw [Layout.stmt, Layout.stmt, h.layout]
  core := congrArg (fun e => Stmt.varDecl .blank name (some e)) h.core
  derivable := .value hn h.expression

private theorem block (h : List.Forall₂ ReadAsStmt ss ss') :
    ReadAsStmt (.block s ss) (.block s ss') where
  layout depth := by rw [Layout.stmt, Layout.stmt, layout_all h]
  core := congrArg (Stmt.block .blank) (core_all h)
  derivable := .inBlock (derivable_all h)

private theorem break_ : ReadAsStmt (.breakStmt s) (.breakStmt s) := ⟨fun _ => rfl, rfl, .break_⟩

private theorem return_none : ReadAsStmt (.returnStmt s none) (.returnStmt s none) :=
  ⟨fun _ => rfl, rfl, .return_ nofun⟩

private theorem return_some (h : ReadAs e e') :
    ReadAsStmt (.returnStmt s (some e)) (.returnStmt s (some e')) where
  layout depth := by rw [Layout.stmt, Layout.stmt, h.layout]
  core := congrArg (fun e => Stmt.returnStmt .blank (some e)) h.core
  derivable := .return_ fun v hv => Option.some.inj hv ▸ h.expression

end ReadAsStmt

private theorem ReadAs.lambda {s : Span} {ps : List Param} {ss ss' : List Stmt}
    (hps : Param.Admitted ps)
    (h : List.Forall₂ ReadAsStmt ss ss') : ReadAs (.lambda s ps ss) (.lambda s ps ss') := by
  refine of_rung (n := 0) (fun depth => ?_) ?_ rfl rfl
    ((Derivable.lambda hps (ReadAsStmt.derivable_all h)).imp fun _ => .head)
  · rw [Layout.expr, Layout.expr, ReadAsStmt.layout_all h]
  · exact congrArg (Expr.lambda .blank (ps.map Param.bare)) (ReadAsStmt.core_all h)

end Grammar

/-! ### Trees that can be written can be read -/

open Grammar (ReadAs ReadAsStmt)

mutual

theorem Expr.Writable.readAs {e : Expr} (h : e.Writable) : ∃ e', ReadAs e e' := by
  cases e with
  | literal s v => exact ⟨_, .literal h⟩
  | grouping s e =>
    obtain ⟨e', he⟩ := Expr.Writable.readAs (e := e) h
    exact ⟨_, he.grouping⟩
  | unary s op e =>
    obtain ⟨e', he⟩ := Expr.Writable.readAs h.2
    exact he.unary h.1
  | binary s op a b =>
    obtain ⟨a', ha⟩ := Expr.Writable.readAs h.2.1
    obtain ⟨b', hb⟩ := Expr.Writable.readAs h.2.2
    exact ha.binary h.1 hb
  | logical s op a b =>
    obtain ⟨a', ha⟩ := Expr.Writable.readAs h.2.1
    obtain ⟨b', hb⟩ := Expr.Writable.readAs h.2.2
    exact ha.logical h.1 hb
  | conditional s c a b =>
    obtain ⟨c', hc⟩ := Expr.Writable.readAs h.1
    obtain ⟨a', ha⟩ := Expr.Writable.readAs h.2.1
    obtain ⟨b', hb⟩ := Expr.Writable.readAs h.2.2
    exact hc.conditional ha hb
  | name use =>
    obtain ⟨s, n, hops⟩ := use
    obtain ⟨hn, rfl⟩ := h
    exact ⟨_, .of_primary rfl (.use hn)⟩
  | assign target e =>
    obtain ⟨s, n, hops⟩ := target
    obtain ⟨⟨hn, rfl⟩, he⟩ := h
    obtain ⟨e', he⟩ := Expr.Writable.readAs he
    exact ⟨_, he.assign hn⟩
  | call s f args =>
    obtain ⟨f', hf⟩ := Expr.Writable.readAs h.1
    obtain ⟨args', hargs⟩ := Expr.WritableAll.readAs h.2.1
    exact hf.call hargs h.2.2
  | get s o n =>
    obtain ⟨o', ho⟩ := Expr.Writable.readAs h.1
    exact ho.get h.2
  | set s o n e =>
    obtain ⟨o', ho⟩ := Expr.Writable.readAs h.1
    obtain ⟨e', he⟩ := Expr.Writable.readAs h.2.2
    exact ho.set h.2.1 he
  | this s hops =>
    obtain rfl := h
    exact ⟨_, .of_primary rfl .this⟩
  | super s m hops =>
    obtain ⟨hm, rfl⟩ := h
    exact ⟨_, .of_primary rfl (.super hm)⟩
  | lambda s ps body =>
    obtain ⟨body', hbody⟩ := Stmt.WritableAll.readAs h.2
    exact ⟨_, .lambda h.1 hbody⟩

theorem Expr.WritableAll.readAs {es : List Expr} (h : Expr.WritableAll es) :
    ∃ es', List.Forall₂ ReadAs es es' := by
  cases es with
  | nil => exact ⟨[], .nil⟩
  | cons e es =>
    obtain ⟨e', he⟩ := Expr.Writable.readAs h.1
    obtain ⟨es', hes⟩ := Expr.WritableAll.readAs h.2
    exact ⟨e' :: es', .cons he hes⟩

theorem Stmt.Writable.readAs {s : Stmt} (h : s.Writable) : ∃ s', ReadAsStmt s s' := by
  cases s with
  | exprStmt s e =>
    obtain ⟨e', he⟩ := Expr.Writable.readAs (e := e) h
    exact ⟨_, .exprStmt he⟩
  | printStmt s e =>
    obtain ⟨e', he⟩ := Expr.Writable.readAs (e := e) h
    exact ⟨_, .print he⟩
  | varDecl s n init =>
    cases init with
    | none => exact h.elim
    | some e =>
      obtain ⟨e', he⟩ := Expr.Writable.readAs h.2
      exact ⟨_, .value h.1 he⟩
  | block s body =>
    obtain ⟨body', hbody⟩ := Stmt.WritableAll.readAs (show Stmt.WritableAll body from h)
    exact ⟨_, .block hbody⟩
  | breakStmt s => exact ⟨_, .break_⟩
  | returnStmt s e =>
    cases e with
    | none => exact ⟨_, .return_none⟩
    | some e =>
      obtain ⟨e', he⟩ := Expr.Writable.readAs (e := e) h
      exact ⟨_, .return_some he⟩
  | _ => exact h.elim

private theorem Stmt.WritableAll.readAs {ss : List Stmt} (h : Stmt.WritableAll ss) :
    ∃ ss', List.Forall₂ ReadAsStmt ss ss' := by
  cases ss with
  | nil => exact ⟨[], .nil⟩
  | cons s ss =>
    obtain ⟨s', hs⟩ := Stmt.Writable.readAs h.1
    obtain ⟨ss', hss⟩ := Stmt.WritableAll.readAs h.2
    exact ⟨s' :: ss', .cons hs hss⟩

end

namespace Program

open Grammar

private theorem parse_layout_of_derivable {p : Program}
    (h : Derivable .declarations (.stmts p.body)) (file : Text) :
    ∃ q, parse file p.layout = .ok q ∧ q.bare = p.bare := by
  obtain ⟨ts, hts, hd⟩ := h
  obtain ⟨us, hspells, hus, hd'⟩ := layout_spells hd hts file
  have hended : Parser.Ended (us ++ [Token.eofAt file p.layout]) := by
    refine Parser.ended_of_eof rfl fun t ht => ?_
    obtain ⟨bytes, hlexeme⟩ := hus t ht
    exact hlexeme.ne_eof
  obtain ⟨q, hq, hbare⟩ := ofTokens_complete file hended ⟨us, _, rfl, rfl, hd'⟩
  refine ⟨q, ?_, by rw [bare, hbare, bare]⟩
  rw [parse, Token.scan_eq_ok_iff.2 hspells]
  exact hq

/-- The canonical form of a program that can be written is read, and as a program with the same
core. -/
theorem parse_layout_core {p : Program} (hp : p.Writable) (file : Text) :
    ∃ q, parse file p.layout = .ok q ∧ q.core = p.core := by
  obtain ⟨ss, hss⟩ := Stmt.WritableAll.readAs hp
  let p' : Program := { p with body := ss }
  have hd : Derivable .declarations (.stmts p'.body) := .declarations (ReadAsStmt.derivable_all hss)
  obtain ⟨q, hq, hbare⟩ := parse_layout_of_derivable hd file
  have hlayout : p'.layout = p.layout := by
    have hempty : ss.isEmpty = p.body.isEmpty := by
      generalize p.body = body at hss
      cases hss <;> rfl
    simp only [layout, p', hempty, ReadAsStmt.layout_all hss]
  have hbody : Stmt.bareAll q.body = Stmt.bareAll ss := congrArg Program.body hbare
  refine ⟨q, hlayout ▸ hq, ?_⟩
  show Program.mk .blank (Stmt.coreAll q.body) = .mk .blank (Stmt.coreAll p.body)
  rw [← ReadAsStmt.core_all hss, Stmt.coreAll, hbody, Stmt.coreAll]

end Program

namespace Session

/-- Trees without groupings are written correctly. The canonical form of a program that can be
written is read again, under any file name; the two programs have one core, that is, they differ in
spans, in parentheses and in how chains of `and` and of `or` are put together, and in nothing else.
In every session whose native functions do not tell such code apart, running the text ends as
running the program does: with the same violations in the same order if it is refused, and otherwise
with the same output and the same error, if any, but for the places. One of them goes on forever if
the other does. -/
theorem run_layout {p : Program} (hp : p.Writable) (file : Text) :
    ∃ q, Program.parse file p.layout = .ok q ∧ q.core = p.core ∧
      ∀ s : Session, (∀ n ∈ s.settings.natives, n.Impartial .ofCore) → ∀ r output,
        (∃ fuel, Finished (s.run fuel file p.layout) r output) ↔ s.EndsWith p r output := by
  obtain ⟨q, hq, hcore⟩ := Program.parse_layout_core hp file
  refine ⟨q, hq, hcore, fun s hs r output => ?_⟩
  simp only [run_of_parse hq]
  exact ⟨fun h => EndsWith.of_core hs hcore.symm h, fun h => EndsWith.of_core hs hcore h⟩

/-- A chain that leans to the right and the negation of a comparison, without parentheses in the
tree. -/
def ungrouped : Program where
  span := .blank
  body := [
    .varDecl .blank (lit "a") (some (.logical .blank .or (.literal .blank .nil) (.logical .blank .or
      (.literal .blank (.number (Float.ofBits 0x4008000000000000)))
        (.literal .blank (.string (lit "x")))))),
    .printStmt .blank (.unary .blank .not (.binary .blank .equal
      (.name { span := .blank, name := lit "a", hops := none })
        (.literal .blank (.string (lit "x")))))]

private theorem writable_ungrouped : ungrouped.Writable := by
  have hkeyword : ∀ k : Keyword, k.spelling ≠ lit "a" := by
    intro k
    cases k <;> decide
  have hname : IsLexeme .name (lit "a") (lit "a") := .name (by decide) nofun hkeyword
  have hnumber : Decimal.shape (Float.ofBits 0x4008000000000000) =
      .finite false (3 * 2 ^ 51) (-51) := by
    decide +kernel
  have hstring : (Literal.string (lit "x")).Writable := ⟨by decide +kernel, by decide +kernel⟩
  exact ⟨⟨hname, nofun, trivial, nofun, ⟨_, _, hnumber⟩, hstring⟩,
    ⟨nofun, nofun, ⟨hname, rfl⟩, hstring⟩,
    trivial⟩

theorem run_layout_ungrouped :
    let s : Session :=
      { settings := { limit := 10, natives := #[.out] }, machine := .initial [.out] }
    let text := lit "var a = nil or 3 or \"x\";\nprint !(a == \"x\");\n"
    ungrouped.Writable ∧ ungrouped.layout = text ∧
      (∃ q, Program.parse [] text = .ok q ∧ q.core = ungrouped.core) ∧
      ∃ fuel, Finished (s.run fuel [] text) (.ok ()) [lit "true\n"] := by
  intro s text
  have htext : ungrouped.layout = text := by decide +kernel
  have hnatives : ∀ n ∈ s.settings.natives, n.Impartial .ofCore := by
    intro n hn
    obtain rfl : n = .out := List.mem_singleton.1 (Array.mem_toList_iff.2 hn)
    exact Native.plain_out.impartial .ofCore
  have hends : s.EndsWith ungrouped (.ok ()) [lit "true\n"] := by
    refine ⟨10, ?_, ?_, ?_⟩ <;> decide +kernel
  obtain ⟨q, hq, hcore, hruns⟩ := run_layout writable_ungrouped []
  have hrun := (hruns s hnatives (.ok ()) [lit "true\n"]).2 hends
  rw [htext] at hq hrun
  exact ⟨writable_ungrouped, htext, ⟨q, hq, hcore⟩, hrun⟩

end Session
end Lox
