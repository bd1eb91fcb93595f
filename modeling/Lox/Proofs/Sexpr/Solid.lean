import Lox.Proofs.Sexpr.Words

set_option autoImplicit false
set_option relaxedAutoImplicit false

namespace Lox

open Text (lit)
open Token (IsLexeme)

namespace Sexpr

/-! ### What the words of a tree are -/

theorem expr_assign (target : NameUse) (e : Expr) :
    expr (.assign target e) = form (lit "=") [target.name, expr e] :=
  form_head (lit "=") target.name [expr e]

theorem expr_set (s : Span) (o : Expr) (n : Text) (e : Expr) :
    expr (.set s o n e) = form (lit "set") [lit "." ++ n, expr o, expr e] :=
  form_head (lit "set") (lit "." ++ n) [expr o, expr e]

theorem expr_super (s : Span) (m : Text) (hops : Option Int) :
    expr (.super s m hops) = form (lit "super") [m] :=
  form_head (lit "super") m []

theorem expr_lambda (s : Span) (ps : List Param) (body : List Stmt) :
    expr (.lambda s ps body) = form (lit "fun") (Param.listSource ps :: stmts body) :=
  form_head (lit "fun") (Param.listSource ps) (stmts body)

theorem stmt_noValue (s : Span) (n : Text) : stmt (.varDecl s n none) = form (lit "var") [n] :=
  form_head (lit "var") n []

theorem stmt_value (s : Span) (n : Text) (e : Expr) :
    stmt (.varDecl s n (some e)) = form (lit "var") [n, expr e] :=
  form_head (lit "var") n [expr e]

theorem funDecl_eq (word : Text) (d : FunDecl) :
    funDecl (word ++ lit " ") d =
      form word ((d.name ++ Param.listSource d.params) :: stmts d.body) := by
  cases d with
  | mk s n ps body =>
    rw [funDecl, List.append_assoc (word ++ lit " "), form_head]
    rfl

theorem stmt_class (s : Span) (n : Text) (ms ss : List FunDecl) :
    stmt (.classDecl s n none ms ss) =
      form (lit "class") (n :: (funDecls (lit "static ") ss ++ funDecls (lit "method ") ms)) :=
  form_head (lit "class") n _

theorem stmt_subclass (s : Span) (n : Text) (sup : NameUse) (ms ss : List FunDecl) :
    stmt (.classDecl s n (some sup) ms ss) =
      form (lit "class")
        (n :: lit "<" :: sup.name ::
          (funDecls (lit "static ") ss ++ funDecls (lit "method ") ms)) := by
  rw [← form_head (lit "class") n, ← form_head (lit "class" ++ lit " " ++ n) (lit "<"),
    ← form_head _ sup.name]
  simp only [stmt, List.append_assoc]
  rfl

/-! ### What belongs to one word -/

private theorem isPlain_of_isNamePart {b : UInt8} (h : Byte.isNamePart b = true) :
    isPlain b = true := by
  simp only [isPlain, Token.isBlank, Bool.and_eq_true, Bool.not_eq_true', Bool.or_eq_false_iff,
    beq_eq_false_iff_ne, bne_iff_ne]
  refine ⟨⟨⟨⟨⟨⟨?_, ?_⟩, ?_⟩, ?_⟩, ?_⟩, ?_⟩, ?_⟩ <;>
  · rintro rfl
    exact absurd h (by decide)

private theorem isPlain_of_isDigit {b : UInt8} (h : Byte.isDigit b = true) : isPlain b = true :=
  isPlain_of_isNamePart (by simp [Byte.isNamePart, h])

namespace Solid

private theorem lexeme {kind : Token.Kind} {text x : Text} (h : IsLexeme kind text x)
    (hkind : ∀ m, kind ≠ .mark m) : Solid x := by
  obtain ⟨b, r, rfl, ⟨hb, -, -, hr⟩ | ⟨hb, -, -, hr⟩ | ⟨m, -, -, hm⟩ | ⟨rfl, -, hquote, -, rfl⟩⟩ :=
    h.first_byte
  · refine of_plain (List.all_eq_true.2 (List.forall_mem_cons.2 ⟨isPlain_of_isNamePart ?_, ?_⟩))
    · simp [Byte.isNamePart, hb]
    · exact fun c hc => isPlain_of_isNamePart (hr c hc)
  · exact of_plain (List.all_eq_true.2 (List.forall_mem_cons.2 ⟨isPlain_of_isDigit hb,
      hr.forall_mem (fun _ => isPlain_of_isDigit) (by decide)⟩))
  · obtain ⟨rfl, -⟩ | ⟨longer, -, rfl, -⟩ := hm
    · exact absurd rfl (hkind m)
    · exact absurd rfl (hkind longer)
  · exact string hquote

theorem name {t : Text} (h : IsLexeme .name t t) : Solid t := lexeme h nofun

end Solid

theorem solid_literal {v : Literal} (h : v.Writable) : Solid v.source := by
  match v, h with
  | .nil, _ => exact .of_plain rfl
  | .bool true, _ | .bool false, _ => exact .of_plain rfl
  | .string t, h => exact .string h.2
  | .number x, ⟨m, q, hx⟩ => exact .lexeme (Decimal.read?_literal hx).1 nofun

private theorem enclosed_join {ns : List Text} (h : ∀ n ∈ ns, Solid n) :
    Enclosed (Text.join (lit ", ") ns) := by
  unfold Text.join
  induction ns with
  | nil => exact Solid.nil.enclosed
  | cons n ns ih =>
    rw [List.forall_mem_cons] at h
    cases ns with
    | nil => simpa using h.1.enclosed
    | cons n' ns =>
      rw [List.intercalate_cons_cons]
      have hcomma : Enclosed (lit ", ") :=
        (Solid.of_plain (t := lit ",") rfl).enclosed.append .blank
      exact (h.1.enclosed.append hcomma).append (ih h.2)

theorem solid_listSource {ps : List Param} (h : ∀ p ∈ ps, IsLexeme .name p.name p.name) :
    Solid (Param.listSource ps) :=
  .parens (enclosed_join (List.forall_mem_map.2 fun p hp => .name (h p hp)))

theorem solid_signature {n : Text} {ps : List Param} (hn : IsLexeme .name n n)
    (hps : ∀ p ∈ ps, IsLexeme .name p.name p.name) : Solid (n ++ Param.listSource ps) :=
  .append (.name hn) (solid_listSource hps)

theorem solid_unaryOp {op : UnaryOp} (h : ∀ t, op ≠ .other t) : Solid op.spelling := by
  cases op with
  | other t => exact absurd rfl (h t)
  | _ => exact .of_plain rfl

theorem solid_binaryOp {op : BinaryOp} (h : ∀ t, op ≠ .other t) : Solid op.spelling := by
  cases op with
  | other t => exact absurd rfl (h t)
  | _ => exact .of_plain rfl

theorem solid_logicalOp {op : LogicalOp} (h : ∀ t, op ≠ .other t) : Solid op.spelling := by
  cases op with
  | other t => exact absurd rfl (h t)
  | _ => exact .of_plain rfl

end Sexpr
end Lox
