import Lox.Proofs.Grammar.Bare
import Lox.Proofs.Grammar.Reader

set_option autoImplicit false
set_option relaxedAutoImplicit false

namespace Lox

/-! ### Other spans -/

def Span.Respects (f : Span → Span) : Prop := ∀ a b, f (a.cover b) = (f a).cover (f b)

theorem Span.respects_blank : Span.Respects fun _ => .blank := fun _ _ => rfl

def Param.moved (f : Span → Span) (p : Param) : Param := { p with span := f p.span }

def NameUse.moved (f : Span → Span) (use : NameUse) : NameUse := { use with span := f use.span }

def Token.moved (f : Span → Span) (t : Token) : Token := { t with span := f t.span }

def Diagnostic.moved (f : Span → Span) (d : Diagnostic) : Diagnostic :=
  { d with span := d.span.map f }

mutual

def Expr.moved (f : Span → Span) : Expr → Expr
  | .literal s v => .literal (f s) v
  | .grouping s e => .grouping (f s) (e.moved f)
  | .unary s op e => .unary (f s) op (e.moved f)
  | .binary s op a b => .binary (f s) op (a.moved f) (b.moved f)
  | .logical s op a b => .logical (f s) op (a.moved f) (b.moved f)
  | .conditional s c a b => .conditional (f s) (c.moved f) (a.moved f) (b.moved f)
  | .name use => .name (use.moved f)
  | .assign target e => .assign (target.moved f) (e.moved f)
  | .call s g args => .call (f s) (g.moved f) (Expr.movedAll f args)
  | .get s o n => .get (f s) (o.moved f) n
  | .set s o n e => .set (f s) (o.moved f) n (e.moved f)
  | .this s hops => .this (f s) hops
  | .super s m hops => .super (f s) m hops
  | .lambda s ps body => .lambda (f s) (ps.map (Param.moved f)) (Stmt.movedAll f body)

def Expr.movedAll (f : Span → Span) : List Expr → List Expr
  | [] => []
  | e :: r => e.moved f :: Expr.movedAll f r

def Expr.movedOption (f : Span → Span) : Option Expr → Option Expr
  | none => none
  | some e => some (e.moved f)

def Stmt.moved (f : Span → Span) : Stmt → Stmt
  | .exprStmt s e => .exprStmt (f s) (e.moved f)
  | .printStmt s e => .printStmt (f s) (e.moved f)
  | .varDecl s n init => .varDecl (f s) n (Expr.movedOption f init)
  | .block s body => .block (f s) (Stmt.movedAll f body)
  | .ifStmt s c a b => .ifStmt (f s) (c.moved f) (a.moved f) (Stmt.movedOption f b)
  | .whileStmt s c b => .whileStmt (f s) (c.moved f) (b.moved f)
  | .forStmt s init c step b =>
    .forStmt (f s) (Stmt.movedOption f init) (Expr.movedOption f c) (Expr.movedOption f step)
      (b.moved f)
  | .breakStmt s => .breakStmt (f s)
  | .returnStmt s e => .returnStmt (f s) (Expr.movedOption f e)
  | .funDecl d => .funDecl (d.moved f)
  | .classDecl s n sup ms ss =>
    .classDecl (f s) n (sup.map (NameUse.moved f)) (FunDecl.movedAll f ms) (FunDecl.movedAll f ss)

def Stmt.movedAll (f : Span → Span) : List Stmt → List Stmt
  | [] => []
  | s :: r => s.moved f :: Stmt.movedAll f r

def Stmt.movedOption (f : Span → Span) : Option Stmt → Option Stmt
  | none => none
  | some s => some (s.moved f)

def FunDecl.moved (f : Span → Span) : FunDecl → FunDecl
  | .mk s n ps body => .mk (f s) n (ps.map (Param.moved f)) (Stmt.movedAll f body)

def FunDecl.movedAll (f : Span → Span) : List FunDecl → List FunDecl
  | [] => []
  | d :: r => d.moved f :: FunDecl.movedAll f r

end

attribute [simp] Expr.moved Expr.movedAll Expr.movedOption Stmt.moved Stmt.movedAll
  Stmt.movedOption FunDecl.moved FunDecl.movedAll

def Program.moved (f : Span → Span) (p : Program) : Program :=
  { span := f p.span, body := Stmt.movedAll f p.body }

mutual

theorem Expr.moved_blank (e : Expr) : e.moved (fun _ => .blank) = e.bare := by
  cases e with
  | literal | name | this | super => rfl
  | grouping _ e | unary _ _ e | assign _ e | get _ e _ =>
    simp only [Expr.moved, Expr.bare, Expr.moved_blank e]
    try rfl
  | binary _ _ a b | logical _ _ a b | set _ a _ b =>
    simp only [Expr.moved, Expr.bare, Expr.moved_blank a, Expr.moved_blank b]
  | conditional _ c a b =>
    simp only [Expr.moved, Expr.bare, Expr.moved_blank c, Expr.moved_blank a, Expr.moved_blank b]
  | call _ g args =>
    simp only [Expr.moved, Expr.bare, Expr.moved_blank g, Expr.movedAll_blank args]
  | lambda _ ps body =>
    simp only [Expr.moved, Expr.bare, Stmt.movedAll_blank body]
    rfl

theorem Expr.movedAll_blank (es : List Expr) :
    Expr.movedAll (fun _ => .blank) es = Expr.bareAll es := by
  cases es with
  | nil => rfl
  | cons e es => simp only [Expr.movedAll, Expr.bareAll, Expr.moved_blank e, Expr.movedAll_blank es]

theorem Expr.movedOption_blank (o : Option Expr) :
    Expr.movedOption (fun _ => .blank) o = Expr.bareOption o := by
  cases o with
  | none => rfl
  | some e => simp only [Expr.movedOption, Expr.bareOption, Expr.moved_blank e]

theorem Stmt.moved_blank (s : Stmt) : s.moved (fun _ => .blank) = s.bare := by
  cases s with
  | exprStmt _ e | printStmt _ e => simp only [Stmt.moved, Stmt.bare, Expr.moved_blank e]
  | varDecl _ _ e | returnStmt _ e => simp only [Stmt.moved, Stmt.bare, Expr.movedOption_blank e]
  | block _ body => simp only [Stmt.moved, Stmt.bare, Stmt.movedAll_blank body]
  | ifStmt _ c a b =>
    simp only [Stmt.moved, Stmt.bare, Expr.moved_blank c, Stmt.moved_blank a,
      Stmt.movedOption_blank b]
  | whileStmt _ c b => simp only [Stmt.moved, Stmt.bare, Expr.moved_blank c, Stmt.moved_blank b]
  | forStmt _ init c step b =>
    simp only [Stmt.moved, Stmt.bare, Stmt.movedOption_blank init, Expr.movedOption_blank c,
      Expr.movedOption_blank step, Stmt.moved_blank b]
  | breakStmt => rfl
  | funDecl d => simp only [Stmt.moved, Stmt.bare, FunDecl.moved_blank d]
  | classDecl _ _ sup ms ss =>
    simp only [Stmt.moved, Stmt.bare, FunDecl.movedAll_blank ms, FunDecl.movedAll_blank ss]
    rfl

private theorem Stmt.movedAll_blank (ss : List Stmt) :
    Stmt.movedAll (fun _ => .blank) ss = Stmt.bareAll ss := by
  cases ss with
  | nil => rfl
  | cons s ss => simp only [Stmt.movedAll, Stmt.bareAll, Stmt.moved_blank s, Stmt.movedAll_blank ss]

theorem Stmt.movedOption_blank (o : Option Stmt) :
    Stmt.movedOption (fun _ => .blank) o = Stmt.bareOption o := by
  cases o with
  | none => rfl
  | some s => simp only [Stmt.movedOption, Stmt.bareOption, Stmt.moved_blank s]

theorem FunDecl.moved_blank (d : FunDecl) : d.moved (fun _ => .blank) = d.bare := by
  cases d with
  | mk _ _ ps body =>
    simp only [FunDecl.moved, FunDecl.bare, Stmt.movedAll_blank body]
    rfl

theorem FunDecl.movedAll_blank (ds : List FunDecl) :
    FunDecl.movedAll (fun _ => .blank) ds = FunDecl.bareAll ds := by
  cases ds with
  | nil => rfl
  | cons d ds =>
    simp only [FunDecl.movedAll, FunDecl.bareAll, FunDecl.moved_blank d, FunDecl.movedAll_blank ds]

end

theorem Program.moved_blank (p : Program) : p.moved (fun _ => .blank) = p.bare := by
  rw [Program.moved, Program.bare, Stmt.movedAll_blank]

section

variable {f : Span → Span}

@[simp] theorem Expr.span_moved (e : Expr) : (e.moved f).span = f e.span := by
  cases e <;> rfl

theorem Parser.Operator.apply_moved (hf : Span.Respects f) (op : Operator) (a b : Expr) :
    (op.apply a b).moved f = op.apply (a.moved f) (b.moved f) := by
  cases op <;> simp [Operator.apply, hf _ _]

@[simp] theorem Token.kind_moved (t : Token) : (t.moved f).kind = t.kind := rfl

@[simp] theorem Token.text_moved (t : Token) : (t.moved f).text = t.text := rfl

@[simp] theorem Token.span_moved (t : Token) : (t.moved f).span = f t.span := rfl

end

namespace Parser

private theorem Fault.diagnostic_moved (f : Span → Span) (fault : Fault) (t : Token) :
    fault.diagnostic (t.moved f) = (fault.diagnostic t).moved f := by
  unfold Fault.diagnostic
  rw [Token.kind_moved]
  split <;> rfl

theorem Ended.moved {ts : List Token} (f : Span → Span) (h : Ended ts) :
    Ended (ts.map (Token.moved f)) := by
  induction ts with
  | nil => exact h
  | cons t ts ih =>
    cases ts with
    | nil => exact h
    | cons u us => exact ⟨h.1, ih h.2⟩

/-! ### Readers of moved tokens -/

def Cursor.moved (f : Span → Span) (c : Cursor) : Cursor :=
  { previous := c.previous.moved f, current := c.current.moved f,
    rest := c.rest.map (Token.moved f), faults := c.faults.map (Diagnostic.moved f) }

private theorem Cursor.moved_advance (f : Span → Span) (c : Cursor) :
    (c.moved f).advance = c.advance.moved f := by
  obtain ⟨previous, current, rest, faults⟩ := c
  cases rest <;> rfl

private theorem Cursor.moved_note (f : Span → Span) (c : Cursor) (fault : Fault) (t : Token) :
    (c.moved f).note fault (t.moved f) = (c.note fault t).moved f := by
  simp [Cursor.note, Cursor.moved, fault.diagnostic_moved]

/-- From tokens with other spans the second reader does what the first one does from the tokens. -/
def Moves {α β : Type} (f : Span → Span) (g : α → β) (p : Parser α) (q : Parser β) : Prop :=
  ∀ c : Cursor, q (c.moved f) = ((p c).1.map g, (p c).2.moved f)

namespace Moves

variable {α β γ δ : Type} {f : Span → Span} {g : α → β} {h : γ → δ}

theorem pure {a : α} {b : β} (hab : b = g a) : Moves f g (pure a) (pure b) := fun c => by
  rw [hab]
  rfl

theorem fail : Moves f g Parser.fail Parser.fail := fun _ => rfl

theorem bind {p : Parser α} {q : Parser β} {k : α → Parser γ} {l : β → Parser δ}
    (hp : Moves f g p q) (hk : ∀ a, Moves f h (k a) (l (g a))) :
    Moves f h (p >>= k) (q >>= l) := by
  intro c
  have hq := hp c
  cases hrun : p c with
  | mk o d =>
    rw [hrun] at hq
    cases o with
    | none => rw [bind_of_none hrun, bind_of_none hq]; rfl
    | some a => rw [bind_of_some hrun, bind_of_some hq, hk a d]

theorem map {p : Parser α} {q : Parser β} {k : α → γ} {l : β → δ} (hp : Moves f g p q)
    (hk : ∀ a, l (g a) = h (k a)) : Moves f h (do return k (← p)) (do return l (← q)) :=
  bind hp fun a => pure (hk a)

theorem current {k : Token → Parser γ} {l : Token → Parser δ}
    (hk : ∀ t, Moves f h (k t) (l (t.moved f))) :
    Moves f h (Parser.current >>= k) (Parser.current >>= l) :=
  fun c => hk c.current c

theorem peek {k : Token.Kind → Parser γ} {l : Token.Kind → Parser δ}
    (hk : ∀ kind, Moves f h (k kind) (l kind)) :
    Moves f h (Parser.peek >>= k) (Parser.peek >>= l) :=
  fun c => hk c.current.kind c

theorem peekSecond {k : Token.Kind → Parser γ} {l : Token.Kind → Parser δ}
    (hk : ∀ kind, Moves f h (k kind) (l kind)) :
    Moves f h (Parser.peekSecond >>= k) (Parser.peekSecond >>= l) := by
  intro c
  have hkind : (c.moved f).nextKind = c.nextKind := by
    obtain ⟨previous, current, rest, faults⟩ := c
    cases rest <;> rfl
  show l (c.moved f).nextKind (c.moved f) = _
  rw [hkind, hk c.nextKind c]
  rfl

theorem next {k : Token → Parser γ} {l : Token → Parser δ}
    (hk : ∀ t, Moves f h (k t) (l (t.moved f))) :
    Moves f h (Parser.next >>= k) (Parser.next >>= l) := by
  intro c
  show l (c.current.moved f) (c.moved f).advance = _
  rw [c.moved_advance, hk c.current c.advance]
  rfl

theorem accept {kind : Token.Kind} {k : Bool → Parser γ} {l : Bool → Parser δ}
    (hyes : Moves f h (k true) (l true)) (hno : Moves f h (k false) (l false)) :
    Moves f h (Parser.accept kind >>= k) (Parser.accept kind >>= l) := by
  intro c
  by_cases hc : c.current.kind = kind
  · rw [accept_bind hc, accept_bind (c := c.moved f) hc]
    exact next (fun _ => hyes) c
  · rw [accept_bind_ne hc, accept_bind_ne (c := c.moved f) hc, hno c]

theorem expect {kind : Token.Kind} {what : Wanted} {k : Token → Parser γ} {l : Token → Parser δ}
    (hk : ∀ t, Moves f h (k t) (l (t.moved f))) :
    Moves f h (Parser.expect kind what >>= k) (Parser.expect kind what >>= l) := by
  intro c
  by_cases hc : c.current.kind = kind
  · rw [expect_bind hc, expect_bind (c := c.moved f) hc]
    exact next hk c
  · rw [expect_bind_ne hc, expect_bind_ne (c := c.moved f) hc]
    exact congrArg _ (c.moved_note f _ _)

theorem expectMark {mark : Mark} {what : Wanted} {k : Token → Parser γ} {l : Token → Parser δ}
    (hk : ∀ t, Moves f h (k t) (l (t.moved f))) :
    Moves f h (Parser.expectMark mark what >>= k) (Parser.expectMark mark what >>= l) :=
  expect hk

theorem note {fault : Fault} {t : Token} {k : Unit → Parser γ} {l : Unit → Parser δ}
    (hk : Moves f h (k ()) (l ())) :
    Moves f h (Parser.note fault t >>= k) (Parser.note fault (t.moved f) >>= l) := by
  intro c
  show l () ((c.moved f).note fault (t.moved f)) = _
  rw [c.moved_note, hk]
  rfl

theorem noteIf {P : Prop} [Decidable P] {fault : Fault} {k : Unit → Parser γ} {l : Unit → Parser δ}
    (hk : Moves f h (k ()) (l ())) :
    Moves f h (if P then Parser.current >>= fun t => Parser.note fault t >>= k else k ())
      (if P then Parser.current >>= fun t => Parser.note fault t >>= l else l ()) := by
  split
  · exact current fun t => note hk
  · exact hk

theorem spanFrom (hf : Span.Respects f) {s : Span} {k : Span → Parser γ} {l : Span → Parser δ}
    (hk : ∀ s', Moves f h (k s') (l (f s'))) :
    Moves f h (Parser.spanFrom s >>= k) (Parser.spanFrom (f s) >>= l) := by
  intro c
  show l ((f s).cover (f c.previous.span)) (c.moved f) = _
  rw [← hf, hk]
  rfl

theorem atListEnd {closing : Option Mark} {k : Bool → Parser γ} {l : Bool → Parser δ}
    (hk : ∀ b, Moves f h (k b) (l b)) :
    Moves f h (Parser.atListEnd closing >>= k) (Parser.atListEnd closing >>= l) :=
  fun c => hk _ c

private theorem resume_moved (previous current : Token) (faults : List Diagnostic)
    (ts : List Token) :
    resume (previous.moved f) (current.moved f) (faults.map (Diagnostic.moved f))
      (ts.map (Token.moved f)) = (resume previous current faults ts).moved f := by
  induction ts generalizing previous current with
  | nil => rfl
  | cons t ts ih =>
    rw [List.map_cons, resume, resume, Token.kind_moved, Token.kind_moved]
    split
    · rfl
    · exact ih current t

theorem recover {p : Parser α} {q : Parser β} (hp : Moves f g p q) :
    Moves f (Option.map g) (Parser.recover p) (Parser.recover q) := by
  intro c
  have hq := hp c
  cases hrun : p c with
  | mk o d =>
    rw [hrun] at hq
    simp only [Parser.recover, hq, hrun]
    cases o with
    | some a => rfl
    | none =>
      have hsync : synchronize (d.moved f) = (synchronize d).moved f := by
        rw [synchronize, synchronize, d.moved_advance]
        exact resume_moved ..
      exact congrArg (Prod.mk _) hsync

end Moves
end Parser
end Lox
