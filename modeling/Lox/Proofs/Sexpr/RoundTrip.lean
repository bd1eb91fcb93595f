import Lox.Proofs.Sexpr.Filled
import Lox.Proofs.Sexpr.Reader
import Lox.Proofs.Sexpr.Solid

set_option autoImplicit false
set_option relaxedAutoImplicit false

namespace Lox

open Text (lit)
open Token (IsLexeme)

namespace Sexpr

/-! ### Names and constants -/

private theorem names_cons {b : UInt8} (h : Byte.isNamePart b = false) (r : Text) :
    names (b :: r) = names r := by
  rw [names, List.splitOnP_cons_eq_if_modifyHead, h]
  rfl

private theorem names_name {w : Text} {b : UInt8} (hw : IsLexeme .name w w)
    (hb : Byte.isNamePart b = false) (r : Text) : names (w ++ b :: r) = w :: names r := by
  cases hw with
  | @name c w hletter hparts _ =>
    have hall : ∀ d ∈ c :: w, (!Byte.isNamePart d) = false := by
      refine List.forall_mem_cons.2 ⟨by simp [Byte.isNamePart, hletter], fun d hd => ?_⟩
      rw [hparts d hd]
      rfl
    rw [names, List.splitOnP_append_cons_of_forall_mem hall b (by simp [hb])]
    rfl

private theorem names_join {ns : List Text} (h : ∀ n ∈ ns, IsLexeme .name n n) :
    names (Text.join (lit ", ") ns ++ lit ")") = ns := by
  induction ns with
  | nil => rfl
  | cons n ns ih =>
    rw [List.forall_mem_cons] at h
    cases ns with
    | nil =>
      have htext : Text.join (lit ", ") [n] = n := by simp [Text.join]
      rw [htext]
      exact names_name h.1 (by decide) []
    | cons n' ns =>
      have htext : Text.join (lit ", ") (n :: n' :: ns) ++ lit ")" =
          n ++ 44 :: (Byte.space :: (Text.join (lit ", ") (n' :: ns) ++ lit ")")) := by
        rw [Text.join, List.intercalate_cons_cons, List.append_assoc, List.append_assoc]
        rfl
      rw [htext, names_name h.1 (by decide), names_cons (by decide), ih h.2]

private theorem listSource_cons (ps : List Param) :
    Param.listSource ps = 40 :: (Text.join (lit ", ") (ps.map Param.name) ++ lit ")") := by
  rw [Param.listSource, List.append_assoc]
  rfl

private theorem names_listSource {ps : List Param} (h : ∀ p ∈ ps, IsLexeme .name p.name p.name) :
    names (Param.listSource ps) = ps.map Param.name := by
  rw [listSource_cons, names_cons (by decide), names_join (List.forall_mem_map.2 h)]

private theorem names_signature {n : Text} {ps : List Param} (hn : IsLexeme .name n n)
    (hps : ∀ p ∈ ps, IsLexeme .name p.name p.name) :
    names (n ++ Param.listSource ps) = n :: ps.map Param.name := by
  rw [listSource_cons, names_name hn (by decide), names_join (List.forall_mem_map.2 hps)]

private theorem params_names (ps : List Param) :
    params (ps.map Param.name) = ps.map Param.bare := by
  rw [params, List.map_map]
  rfl

private theorem atom?_name {use : NameUse} (h : use.Writable) :
    atom? use.name = some (.name use.bare) := by
  obtain ⟨s, n, hops⟩ := use
  obtain ⟨hname, rfl⟩ : IsLexeme .name n n ∧ hops = none := h
  cases hname with
  | name hletter _ hword =>
    rw [atom?, if_neg (Byte.ne_quote_of_isLetter hletter), Byte.isDigit_of_isLetter hletter,
      if_neg Bool.false_ne_true, Keyword.ofSpelling?_eq_none.2 hword]
    rfl

private theorem atom?_literal {v : Literal} (h : v.Writable) :
    atom? v.source = some (.literal .blank v) := by
  match v, h with
  | .nil, _ | .bool true, _ | .bool false, _ => rfl
  | .string t, _ =>
    show some (Expr.literal .blank (.string (t ++ [Byte.quote]).dropLast)) = _
    rw [List.dropLast_concat]
  | .number x, ⟨m, q, hx⟩ =>
    obtain ⟨hlexeme, hread⟩ := Decimal.read?_literal hx
    show atom? (Decimal.literal x) = _
    generalize Decimal.literal x = t at hlexeme hread
    obtain ⟨b, r, rfl, ⟨-, hkind, -⟩ | ⟨hdigit, -⟩ | ⟨m, -, -, ⟨hkind, -⟩ | ⟨_, -, hkind, -⟩⟩ |
      ⟨-, hkind, -⟩⟩ := hlexeme.first_byte
    · unfold Token.wordKind at hkind
      split at hkind <;> cases hkind
    · rw [atom?, if_neg (Byte.ne_quote_of_isDigit hdigit), if_pos hdigit, hread]
      rfl
    all_goals cases hkind

private theorem parts?_word {t : Text} (h : t.head? ≠ some 40) : parts? t = none := by
  unfold parts?
  split
  · exact absurd rfl h
  · rfl

private theorem head?_lexeme {kind : Token.Kind} {text x : Text} (h : IsLexeme kind text x)
    (hkind : ∀ m, kind ≠ .mark m) : x.head? ≠ some 40 := by
  intro hhead
  obtain ⟨r, rfl⟩ := List.head?_eq_some_iff.1 hhead
  obtain ⟨-, ⟨hmark, -⟩ | ⟨_, -, hmark, -⟩⟩ := h.of_mark (m := .leftParen) rfl
  · exact hkind _ hmark
  · exact hkind _ hmark

private theorem head?_literal {v : Literal} (h : v.Writable) : v.source.head? ≠ some 40 := by
  match v, h with
  | .nil, _ | .bool true, _ | .bool false, _ => decide +kernel
  | .string t, _ => exact fun hhead => absurd (Option.some.inj hhead) (by decide)
  | .number x, ⟨m, q, hx⟩ => exact head?_lexeme (Decimal.read?_literal hx).1 nofun

/-! ### What a text denotes -/

/-- A text belongs to one word, which is read as told with any bound above its length. -/
structure Denotes {α : Type} (read : Nat → Text → Option α) (t : Text) (a : α) : Prop where
  solid : Solid t
  read_eq : ∀ n, t.length < n → read n t = some a

/-- Texts of one word each that are read as told, with any bound above their lengths. -/
structure DenoteAll {α : Type} (read : Nat → Text → Option α) (ts : List Text) (as : List α) :
    Prop where
  solid : ∀ t ∈ ts, Solid t
  read_eq : ∀ n, (∀ t ∈ ts, t.length < n) → ts.mapM (read n) = some as

namespace DenoteAll

variable {α : Type} {read : Nat → Text → Option α} {t : Text} {ts us : List Text}
  {a : α} {as bs : List α}

private theorem nil : DenoteAll read [] [] := ⟨nofun, fun _ _ => rfl⟩

private theorem cons (h : Denotes read t a) (hs : DenoteAll read ts as) :
    DenoteAll read (t :: ts) (a :: as) := by
  refine ⟨List.forall_mem_cons.2 ⟨h.solid, hs.solid⟩, fun n hn => ?_⟩
  rw [List.forall_mem_cons] at hn
  rw [List.mapM_cons, h.read_eq n hn.1, hs.read_eq n hn.2]
  rfl

private theorem append (h : DenoteAll read ts as) (h' : DenoteAll read us bs) :
    DenoteAll read (ts ++ us) (as ++ bs) := by
  refine ⟨List.forall_mem_append.2 ⟨h.solid, h'.solid⟩, fun n hn => ?_⟩
  rw [List.forall_mem_append] at hn
  rw [List.mapM_append, h.read_eq n hn.1, h'.read_eq n hn.2]
  rfl

end DenoteAll

section Forms

variable {head : Text} {ws : List Text}

private theorem denotes_exprForm {e : Expr} (hhead : Solid head) (hws : ∀ w ∈ ws, Solid w)
    (h : ∀ n, (∀ w ∈ ws, w.length < n) → exprForm (expr? n) (stmt? n) head ws = some e) :
    Denotes expr? (form head ws) e := by
  refine ⟨solid_form hhead hws, fun n hn => ?_⟩
  obtain ⟨m, rfl⟩ : ∃ m, n = m + 1 := ⟨n - 1, by omega⟩
  rw [expr?, parts?_form hhead hws]
  refine h m fun w hw => ?_
  have := length_lt_form head hw
  omega

private theorem denotes_stmtForm {s : Stmt} (hhead : Solid head) (hws : ∀ w ∈ ws, Solid w)
    (h : ∀ n, (∀ w ∈ ws, w.length < n) → stmtForm (expr? n) (stmt? n) head ws = some s) :
    Denotes stmt? (form head ws) s := by
  refine ⟨solid_form hhead hws, fun n hn => ?_⟩
  obtain ⟨m, rfl⟩ : ∃ m, n = m + 1 := ⟨n - 1, by omega⟩
  rw [stmt?, parts?_form hhead hws]
  refine h m fun w hw => ?_
  have := length_lt_form head hw
  omega

private theorem denotes_word {t : Text} {e : Expr} (hsolid : Solid t) (ht : t.head? ≠ some 40)
    (h : atom? t = some e) : Denotes expr? t e := by
  refine ⟨hsolid, fun n hn => ?_⟩
  obtain ⟨m, rfl⟩ : ∃ m, n = m + 1 := ⟨n - 1, by omega⟩
  rw [expr?, parts?_word ht]
  exact h

variable {f : Text → Option Expr} {g : Text → Option Stmt} {t u : Text}

private theorem exprForm_unary {op : UnaryOp} (h : ∀ t, op ≠ .other t) :
    exprForm f g op.spelling [t] = (f t).map (.unary .blank op) := by
  cases op with
  | other t => exact absurd rfl (h t)
  | _ => rfl

private theorem exprForm_binary {op : BinaryOp} (h : ∀ t, op ≠ .other t) :
    exprForm f g op.spelling [t, u] = do return .binary .blank op (← f t) (← f u) := by
  cases op with
  | other t => exact absurd rfl (h t)
  | _ => rfl

private theorem exprForm_logical {op : LogicalOp} (h : ∀ t, op ≠ .other t) :
    exprForm f g op.spelling [t, u] = do return .logical .blank op (← f t) (← f u) := by
  cases op with
  | other t => exact absurd rfl (h t)
  | _ => rfl

private theorem exprForm_call (ts : List Text) :
    exprForm f g (lit "call") (t :: ts) = do return .call .blank (← f t) (← ts.mapM f) := by
  cases ts with
  | nil =>
    show (f t).map (fun e => Expr.call .blank e []) = _
    cases f t <;> rfl
  | cons u ts => rfl

private theorem exprForm_lambda (ts : List Text) :
    exprForm f g (lit "fun") (t :: ts) = (ts.mapM g).map (.lambda .blank (params (names t))) := by
  cases ts with
  | nil => rfl
  | cons u ts => rfl

private theorem stmtForm_fun (ts : List Text) :
    stmtForm f g (lit "fun") (t :: ts) = (function? g t ts).map .funDecl := by
  cases ts with
  | nil => rfl
  | cons u ts => rfl

private theorem stmtForm_class {n : Text} {ms : List Text} (h : ∀ w ∈ ms, w ≠ lit "<") :
    stmtForm f g (lit "class") (n :: ms) = class? g n none ms := by
  cases ms with
  | nil => rfl
  | cons w ms =>
    have hw : w ≠ [60] := h w List.mem_cons_self
    unfold stmtForm
    simp only [reduceIte, show lit "class" ≠ lit "block" by decide,
      show lit "class" ≠ lit "fun" by decide]
    split
    · exact absurd rfl hw
    · rfl

private theorem function?_eq {n : Text} {ps : List Param} {ts : List Text} {body : List Stmt}
    (hn : IsLexeme .name n n) (hps : ∀ p ∈ ps, IsLexeme .name p.name p.name)
    (h : ts.mapM g = some body) :
    function? g (n ++ Param.listSource ps) ts = some (.mk .blank n (ps.map Param.bare) body) := by
  rw [function?, names_signature hn hps, h]
  simp only [params_names, Option.map_some]

private theorem class?_eq {n : Text} {sup : Option NameUse} {ts : List Text} {ms ss : List FunDecl}
    (hsup : ∀ use ∈ sup, use.Writable)
    (h : ts.mapM (member? g) = some (ss.map (true, ·) ++ ms.map (false, ·))) :
    class? g n (sup.map NameUse.name) ts =
      some (.classDecl .blank n (sup.map NameUse.bare) ms ss) := by
  have huses : (sup.map NameUse.name).map (fun name => ⟨Span.blank, name, none⟩) =
      sup.map NameUse.bare := by
    cases sup with
    | none => rfl
    | some use =>
      obtain ⟨s, name, hops⟩ := use
      obtain rfl : hops = none := (hsup _ rfl).2
      rfl
  rw [class?, h, huses]
  simp [List.filter_map, Function.comp_def]

end Forms

/-- A function is read from the word of its name and parameters and from those of its body. -/
structure DenotesFunction (d : FunDecl) : Prop where
  solid : ∀ w ∈ (d.name ++ Param.listSource d.params) :: stmts d.body, Solid w
  read_eq : ∀ n, (∀ w ∈ (d.name ++ Param.listSource d.params) :: stmts d.body, w.length < n) →
    function? (stmt? n) (d.name ++ Param.listSource d.params) (stmts d.body) = some d.bare.filled

private theorem denotes_funDecl {d : FunDecl} (h : DenotesFunction d) :
    Denotes stmt? (stmt (.funDecl d)) (Stmt.funDecl d).bare.filled := by
  have htext : stmt (.funDecl d) =
      form (lit "fun") ((d.name ++ Param.listSource d.params) :: stmts d.body) :=
        funDecl_eq (lit "fun") d
  rw [htext]
  refine denotes_stmtForm (.of_plain rfl) h.solid fun n hn => ?_
  rw [stmtForm_fun, h.read_eq n hn]
  rfl

private theorem denotes_member {word : Text} {isStatic : Bool} {d : FunDecl}
    (hplain : word.all isPlain = true)
    (hword : decide (word = lit "static") = isStatic) (h : DenotesFunction d) :
    Denotes (fun n => member? (stmt? n)) (funDecl (word ++ lit " ") d)
      (isStatic, d.bare.filled) := by
  rw [funDecl_eq]
  refine ⟨solid_form (.of_plain hplain) h.solid, fun n hn => ?_⟩
  rw [member?, parts?_form (.of_plain hplain) h.solid]
  have hread := h.read_eq n fun w hw => Nat.lt_trans (length_lt_form word hw) hn
  simp only [hread, hword, Option.map_some]

private theorem head?_stmt (s : Stmt) : (stmt s).head? = some 40 := by
  cases s with
  | varDecl _ _ init => cases init <;> rfl
  | ifStmt _ _ _ b => cases b <;> rfl
  | forStmt _ init => cases init <;> rfl
  | returnStmt _ e => cases e <;> rfl
  | funDecl d => cases d; rfl
  | classDecl _ _ sup => cases sup <;> rfl
  | _ => rfl

private theorem head?_funDecls {word w : Text} {ds : List FunDecl} (h : w ∈ funDecls word ds) :
    w.head? = some 40 := by
  induction ds with
  | nil => cases h
  | cons d ds ih =>
    obtain rfl | h := List.mem_cons.1 h
    · cases d
      rfl
    · exact ih h

private theorem denotes_for {s : Span} {c step : Option Expr} {b : Stmt}
    (hc : Denotes expr? (clause c) (Expr.filledClause (Expr.bareOption c)))
    (hstep : Denotes expr? (clause step) (Expr.filledClause (Expr.bareOption step)))
    (hb : Denotes stmt? (stmt b) b.bare.filled) :
    Denotes stmt? (stmt (.forStmt s none c step b)) (Stmt.forStmt s none c step b).bare.filled := by
  refine denotes_stmtForm (.of_plain rfl)
    (by simpa using ⟨.of_plain rfl, hc.solid, hstep.solid, hb.solid⟩) fun n hn => ?_
  show (do
    return Stmt.forStmt .blank none (some (← expr? n (clause c))) (some (← expr? n (clause step)))
      (← stmt? n (stmt b))) = _
  rw [hc.read_eq n (hn _ (by simp)), hstep.read_eq n (hn _ (by simp)),
    hb.read_eq n (hn _ (by simp))]
  rfl

private theorem denotes_forInit {s : Span} {init : Stmt} {c step : Option Expr} {b : Stmt}
    (hinit : Denotes stmt? (stmt init) init.bare.filled)
    (hc : Denotes expr? (clause c) (Expr.filledClause (Expr.bareOption c)))
    (hstep : Denotes expr? (clause step) (Expr.filledClause (Expr.bareOption step)))
    (hb : Denotes stmt? (stmt b) b.bare.filled) :
    Denotes stmt? (stmt (.forStmt s (some init) c step b))
      (Stmt.forStmt s (some init) c step b).bare.filled := by
  have hform : stmt init ≠ lit "nil" := by
    intro hnil
    have hhead := head?_stmt init
    rw [hnil] at hhead
    exact absurd hhead (by decide +kernel)
  refine denotes_stmtForm (.of_plain rfl)
    (by simpa using ⟨hinit.solid, hc.solid, hstep.solid, hb.solid⟩) fun n hn => ?_
  show (if stmt init = lit "nil" then _ else (do
    return Stmt.forStmt .blank (some (← stmt? n (stmt init))) (some (← expr? n (clause c)))
      (some (← expr? n (clause step))) (← stmt? n (stmt b)))) = _
  rw [if_neg hform, hinit.read_eq n (hn _ (by simp)), hc.read_eq n (hn _ (by simp)),
    hstep.read_eq n (hn _ (by simp)), hb.read_eq n (hn _ (by simp))]
  rfl

private theorem denotes_class {s : Span} {n : Text} {sup : Option NameUse} {ms ss : List FunDecl}
    (hn : IsLexeme .name n n) (hsup : ∀ use ∈ sup, use.Writable)
    (hmembers : DenoteAll (fun n => member? (stmt? n))
      (funDecls (lit "static ") ss ++ funDecls (lit "method ") ms)
      ((FunDecl.filledAll (FunDecl.bareAll ss)).map (true, ·) ++
        (FunDecl.filledAll (FunDecl.bareAll ms)).map (false, ·))) :
    Denotes stmt? (stmt (.classDecl s n sup ms ss)) (Stmt.classDecl s n sup ms ss).bare.filled := by
  cases sup with
  | none =>
    have hforms : ∀ w ∈ funDecls (lit "static ") ss ++ funDecls (lit "method ") ms,
        w ≠ lit "<" := by
      rintro _ hw rfl
      refine absurd ?_ (show (lit "<").head? ≠ some 40 by decide +kernel)
      obtain hw | hw := List.mem_append.1 hw <;> exact head?_funDecls hw
    rw [stmt_class]
    refine denotes_stmtForm (.of_plain rfl) (List.forall_mem_cons.2 ⟨.name hn, hmembers.solid⟩)
      fun m hm => ?_
    rw [stmtForm_class hforms]
    exact class?_eq hsup (hmembers.read_eq m (List.forall_mem_cons.1 hm).2)
  | some sup =>
    rw [stmt_subclass]
    refine denotes_stmtForm (.of_plain rfl)
      (List.forall_mem_cons.2 ⟨.name hn, List.forall_mem_cons.2
      ⟨.of_plain rfl, List.forall_mem_cons.2 ⟨.name (hsup sup rfl).1, hmembers.solid⟩⟩⟩) fun m hm =>
        ?_
    simp only [List.forall_mem_cons] at hm
    exact class?_eq hsup (hmembers.read_eq m hm.2.2.2)

/-! ### Every piece of a program -/

mutual

theorem denotes_expr (e : Expr) (h : e.Worded) : Denotes expr? (expr e) e.bare.filled := by
  cases e with
  | literal _ v => exact denotes_word (solid_literal h) (head?_literal h) (atom?_literal h)
  | name use => exact denotes_word (.name h.1) (head?_lexeme h.1 nofun) (atom?_name h)
  | this _ hops =>
    obtain rfl : hops = none := h
    exact denotes_word (t := lit "this") (.of_plain rfl) (by decide +kernel) rfl
  | grouping _ e =>
    have he := denotes_expr e h
    refine denotes_exprForm (.of_plain rfl) (by simpa using he.solid) fun n hn => ?_
    show (expr? n (expr e)).map (Expr.grouping .blank) = _
    rw [he.read_eq n (hn _ (by simp))]
    rfl
  | unary _ op e =>
    have he := denotes_expr e h.2
    refine denotes_exprForm (solid_unaryOp h.1) (by simpa using he.solid) fun n hn => ?_
    rw [exprForm_unary h.1, he.read_eq n (hn _ (by simp))]
    rfl
  | binary _ op a b =>
    have ha := denotes_expr a h.2.1
    have hb := denotes_expr b h.2.2
    refine denotes_exprForm (solid_binaryOp h.1)
      (by simpa using ⟨ha.solid, hb.solid⟩) fun n hn => ?_
    rw [exprForm_binary h.1, ha.read_eq n (hn _ (by simp)), hb.read_eq n (hn _ (by simp))]
    rfl
  | logical _ op a b =>
    have ha := denotes_expr a h.2.1
    have hb := denotes_expr b h.2.2
    refine denotes_exprForm (solid_logicalOp h.1)
      (by simpa using ⟨ha.solid, hb.solid⟩) fun n hn => ?_
    rw [exprForm_logical h.1, ha.read_eq n (hn _ (by simp)), hb.read_eq n (hn _ (by simp))]
    rfl
  | conditional _ c a b =>
    have hc := denotes_expr c h.1
    have ha := denotes_expr a h.2.1
    have hb := denotes_expr b h.2.2
    refine denotes_exprForm (.of_plain rfl) (by simpa using ⟨hc.solid, ha.solid, hb.solid⟩)
      fun n hn => ?_
    show (do
      return Expr.conditional .blank (← expr? n (expr c)) (← expr? n (expr a))
        (← expr? n (expr b))) = _
    rw [hc.read_eq n (hn _ (by simp)), ha.read_eq n (hn _ (by simp)), hb.read_eq n (hn _ (by simp))]
    rfl
  | assign target e =>
    obtain ⟨s, name, hops⟩ := target
    obtain ⟨⟨hname, rfl⟩, he⟩ : (IsLexeme .name name name ∧ hops = none) ∧ e.Worded := h
    have he := denotes_expr e he
    rw [expr_assign]
    refine denotes_exprForm (.of_plain rfl) (by simpa using ⟨.name hname, he.solid⟩) fun n hn => ?_
    show (expr? n (expr e)).map (Expr.assign { span := .blank, name, hops := none }) = _
    rw [he.read_eq n (hn _ (by simp))]
    rfl
  | call _ f args =>
    have hf := denotes_expr f h.1
    have hargs := denote_exprs args h.2
    refine denotes_exprForm (.of_plain rfl) (List.forall_mem_cons.2 ⟨hf.solid, hargs.solid⟩)
      fun n hn => ?_
    rw [List.forall_mem_cons] at hn
    rw [exprForm_call, hf.read_eq n hn.1, hargs.read_eq n hn.2]
    rfl
  | get _ o name =>
    have ho := denotes_expr o h.1
    refine denotes_exprForm (.append (.of_plain rfl) (.name h.2)) (by simpa using ho.solid)
      fun n hn => ?_
    show (expr? n (expr o)).map (fun o => Expr.get .blank o name) = _
    rw [ho.read_eq n (hn _ (by simp))]
    rfl
  | set _ o name e =>
    have ho := denotes_expr o h.1
    have he := denotes_expr e h.2.2
    have hname : Solid (lit "." ++ name) := .append (.of_plain rfl) (.name h.2.1)
    rw [expr_set]
    refine denotes_exprForm (.of_plain rfl)
      (by simpa using ⟨hname, ho.solid, he.solid⟩) fun n hn => ?_
    show (do return Expr.set .blank (← expr? n (expr o)) name (← expr? n (expr e))) = _
    rw [ho.read_eq n (hn _ (by simp)), he.read_eq n (hn _ (by simp))]
    rfl
  | super _ m hops =>
    obtain ⟨hm, rfl⟩ := h
    rw [expr_super]
    exact denotes_exprForm (.of_plain rfl) (by simpa using .name hm) fun n _ => rfl
  | lambda _ ps body =>
    have hbody := denote_stmts body h.2
    rw [expr_lambda]
    refine denotes_exprForm (.of_plain rfl)
      (List.forall_mem_cons.2 ⟨solid_listSource h.1, hbody.solid⟩) fun n hn => ?_
    rw [List.forall_mem_cons] at hn
    rw [exprForm_lambda, hbody.read_eq n hn.2, names_listSource h.1, params_names]
    rfl

theorem denote_exprs (es : List Expr) (h : Expr.WordedAll es) :
    DenoteAll expr? (exprs es) (Expr.filledAll (Expr.bareAll es)) := by
  cases es with
  | nil => exact .nil
  | cons e es => exact .cons (denotes_expr e h.1) (denote_exprs es h.2)

theorem denotes_clause (c : Option Expr) (h : Expr.WordedOption c) :
    Denotes expr? (clause c) (Expr.filledClause (Expr.bareOption c)) := by
  cases c with
  | none => exact denotes_word (.of_plain rfl) (by decide +kernel) rfl
  | some e => exact denotes_expr e h

theorem denotes_stmt (s : Stmt) (h : s.Worded) : Denotes stmt? (stmt s) s.bare.filled := by
  cases s with
  | exprStmt _ e =>
    have he := denotes_expr e h
    refine denotes_stmtForm (.of_plain rfl) (by simpa using he.solid) fun n hn => ?_
    show (expr? n (expr e)).map (Stmt.exprStmt .blank) = _
    rw [he.read_eq n (hn _ (by simp))]
    rfl
  | printStmt _ e =>
    have he := denotes_expr e h
    refine denotes_stmtForm (.of_plain rfl) (by simpa using he.solid) fun n hn => ?_
    show (expr? n (expr e)).map (Stmt.printStmt .blank) = _
    rw [he.read_eq n (hn _ (by simp))]
    rfl
  | varDecl _ name init =>
    cases init with
    | none =>
      rw [stmt_noValue]
      exact denotes_stmtForm (.of_plain rfl) (by simpa using .name h.1) fun n _ => rfl
    | some e =>
      have he := denotes_expr e h.2
      rw [stmt_value]
      refine denotes_stmtForm (.of_plain rfl) (by simpa using ⟨.name h.1, he.solid⟩) fun n hn => ?_
      show (expr? n (expr e)).map (fun e => Stmt.varDecl .blank name (some e)) = _
      rw [he.read_eq n (hn _ (by simp))]
      rfl
  | block _ body =>
    have hbody := denote_stmts body h
    refine denotes_stmtForm (.of_plain rfl) hbody.solid fun n hn => ?_
    show ((stmts body).mapM (stmt? n)).map (Stmt.block .blank) = _
    rw [hbody.read_eq n hn]
    rfl
  | ifStmt _ c a b =>
    have hc := denotes_expr c h.1
    have ha := denotes_stmt a h.2.1
    cases b with
    | none =>
      refine denotes_stmtForm (.of_plain rfl) (by simpa using ⟨hc.solid, ha.solid⟩) fun n hn => ?_
      show (do return Stmt.ifStmt .blank (← expr? n (expr c)) (← stmt? n (stmt a)) none) = _
      rw [hc.read_eq n (hn _ (by simp)), ha.read_eq n (hn _ (by simp))]
      rfl
    | some b =>
      have hb := denotes_stmt b h.2.2
      refine denotes_stmtForm (.of_plain rfl) (by simpa using ⟨hc.solid, ha.solid, hb.solid⟩)
        fun n hn => ?_
      show (do
        return Stmt.ifStmt .blank (← expr? n (expr c)) (← stmt? n (stmt a))
          (some (← stmt? n (stmt b)))) = _
      rw [hc.read_eq n (hn _ (by simp)), ha.read_eq n (hn _ (by simp)),
        hb.read_eq n (hn _ (by simp))]
      rfl
  | whileStmt _ c b =>
    have hc := denotes_expr c h.1
    have hb := denotes_stmt b h.2
    refine denotes_stmtForm (.of_plain rfl) (by simpa using ⟨hc.solid, hb.solid⟩) fun n hn => ?_
    show (do return Stmt.whileStmt .blank (← expr? n (expr c)) (← stmt? n (stmt b))) = _
    rw [hc.read_eq n (hn _ (by simp)), hb.read_eq n (hn _ (by simp))]
    rfl
  | forStmt _ init c step b =>
    have hc := denotes_clause c h.2.1
    have hstep := denotes_clause step h.2.2.1
    have hb := denotes_stmt b h.2.2.2
    cases init with
    | none => exact denotes_for hc hstep hb
    | some init => exact denotes_forInit (denotes_stmt init h.1) hc hstep hb
  | breakStmt => exact denotes_stmtForm (.of_plain rfl) nofun fun _ _ => rfl
  | returnStmt _ e =>
    cases e with
    | none => exact denotes_stmtForm (.of_plain rfl) nofun fun _ _ => rfl
    | some e =>
      have he := denotes_expr e h
      refine denotes_stmtForm (.of_plain rfl) (by simpa using he.solid) fun n hn => ?_
      show (expr? n (expr e)).map (fun e => Stmt.returnStmt .blank (some e)) = _
      rw [he.read_eq n (hn _ (by simp))]
      rfl
  | funDecl d => exact denotes_funDecl (denotes_function d h)
  | classDecl _ n sup ms ss =>
    obtain ⟨hn, hsup, hms, hss⟩ := h
    exact denotes_class hn hsup ((denote_members (lit "static") true rfl rfl ss hss).append
      (denote_members (lit "method") false rfl rfl ms hms))

private theorem denote_stmts (ss : List Stmt) (h : Stmt.WordedAll ss) :
    DenoteAll stmt? (stmts ss) (Stmt.filledAll (Stmt.bareAll ss)) := by
  cases ss with
  | nil => exact .nil
  | cons s ss => exact .cons (denotes_stmt s h.1) (denote_stmts ss h.2)

theorem denotes_function (d : FunDecl) (h : d.Worded) : DenotesFunction d := by
  cases d with
  | mk _ n ps body =>
    obtain ⟨hn, hps, hbody⟩ := h
    have hbody := denote_stmts body hbody
    refine ⟨List.forall_mem_cons.2 ⟨solid_signature hn hps, hbody.solid⟩, fun m hm => ?_⟩
    exact function?_eq hn hps (hbody.read_eq m (List.forall_mem_cons.1 hm).2)

theorem denote_members (word : Text) (isStatic : Bool) (hplain : word.all isPlain = true)
    (hword : decide (word = lit "static") = isStatic) (ds : List FunDecl)
    (h : FunDecl.WordedAll ds) :
    DenoteAll (fun n => member? (stmt? n)) (funDecls (word ++ lit " ") ds)
      ((FunDecl.filledAll (FunDecl.bareAll ds)).map (isStatic, ·)) := by
  cases ds with
  | nil => exact .nil
  | cons d ds =>
    exact .cons (denotes_member hplain hword (denotes_function d h.1))
      (denote_members word isStatic hplain hword ds h.2)

end

end Sexpr

/-! ### Programs -/

namespace Program

open Sexpr

private theorem words_sexpr {ws : List Text} (h : ∀ w ∈ ws, Solid w) :
    words 0 false (ws.flatMap (· ++ [Byte.lineFeed])) = ws ++ [[]] := by
  induction ws with
  | nil => rfl
  | cons w ws ih =>
    rw [List.forall_mem_cons] at h
    have hline : words 0 false ([Byte.lineFeed] ++ ws.flatMap (· ++ [Byte.lineFeed])) =
        [] :: words 0 false (ws.flatMap (· ++ [Byte.lineFeed])) := rfl
    rw [List.flatMap_cons, List.append_assoc, h.1, hline, ih h.2]
    simp

/-- The parenthesised text of a program denotes the program, without spans and with a `nil` in place
of each clause that a loop lacks. -/
theorem ofSexpr?_sexpr {p : Program} (h : Stmt.WordedAll p.body) :
    ofSexpr? p.sexpr = some p.bare.filled := by
  have hbody := denote_stmts p.body h
  have hlong : ∀ w ∈ stmts p.body, w.length < p.sexpr.length := by
    intro w hw
    obtain ⟨before, after, hsplit⟩ := List.append_of_mem hw
    rw [sexpr, hsplit]
    simp only [List.flatMap_append, List.flatMap_cons, List.length_append, List.length_singleton]
    omega
  rw [ofSexpr?, show words 0 false p.sexpr = stmts p.body ++ [[]] from words_sexpr hbody.solid,
    List.dropLast_concat, hbody.read_eq _ hlong]
  rfl

/-- Two programs that were read have one parenthesised text exactly if they are equal without their
spans and with a `nil` in place of each condition and each last clause that a loop lacks. -/
theorem sexpr_eq_iff {file file' source source' : Text} {p q : Program}
    (hp : parse file source = .ok p) (hq : parse file' source' = .ok q) :
    p.sexpr = q.sexpr ↔ p.bare.filled = q.bare.filled := by
  constructor
  · intro h
    have hread := ofSexpr?_sexpr (worded_of_parse hp)
    rw [h, ofSexpr?_sexpr (worded_of_parse hq)] at hread
    exact (Option.some.inj hread).symm
  · intro h
    rw [← p.sexpr_filled, h, q.sexpr_filled]

/-- A loop without clauses and a loop that writes them out, with a string that looks like a tree. -/
theorem sexpr_eq_iff_clauses :
    let source := lit "for (;;) print \"(- 1)\" + \"\";"
    let source' := lit "for (; nil; nil)\n  print \"(- 1)\" + \"\";"
    ∃ p q, parse [] source = .ok p ∧ parse [] source' = .ok q ∧
      p.sexpr = lit "(for nil nil nil (print (+ \"(- 1)\" \"\")))\n" ∧
        p.bare.filled = q.bare.filled := by
  intro source source'
  have hfirst : (parse [] source).toOption.map sexpr =
      some (lit "(for nil nil nil (print (+ \"(- 1)\" \"\")))\n") := by decide +kernel
  have hsecond : (parse [] source').toOption.map sexpr = (parse [] source).toOption.map sexpr := by
    decide +kernel
  obtain ⟨p, hp, htext⟩ := Option.map_eq_some_iff.1 hfirst
  obtain ⟨q, hq, hsame⟩ := Option.map_eq_some_iff.1 (hsecond.trans hfirst)
  have hp := eq_ok_of_toOption hp
  have hq := eq_ok_of_toOption hq
  exact ⟨p, q, hp, hq, htext, (sexpr_eq_iff hp hq).1 (htext.trans hsame.symm)⟩

end Program
end Lox
