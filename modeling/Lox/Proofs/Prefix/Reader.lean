import Lox.Proofs.Grammar.Soundness
import Lox.Proofs.Prefix.Trails

set_option autoImplicit false
set_option relaxedAutoImplicit false

namespace Lox.Parser

variable {extra : Nat}

private theorem trails_paramsFrom {surplus fuel fuel' : Nat}
    (h : fuel = surplus + fuel') (count : Nat)
    (c c' : Cursor) : Trails extra (c'.left.length ≤ fuel') (paramsFrom fuel count)
      (paramsFrom fuel' count) c c' := by
  induction fuel' generalizing fuel count c c' with
  | zero => exact .fail (Grammar.sound_paramsFrom fuel count c).keeps (by simp [Cursor.left])
  | succ fuel' ih =>
    obtain rfl : fuel = surplus + fuel' + 1 := h
    rw [paramsFrom, paramsFrom]
    refine .noteIf fun d d' => .expect (by decide) fun name e e' => ?_
    refine .accept (by decide) (fun i i' => ?_) (.expectMark fun close i i' => .pure _)
    exact .map ((ih rfl (count + 1) i i').weaken fun h => by omega)

private theorem trails_params {surplus fuel fuel' : Nat}
    (h : fuel = surplus + fuel') (c c' : Cursor) :
    Trails extra (c'.left.length ≤ fuel') (params fuel) (params fuel') c c' := by
  rw [params, params]
  exact .accept (by decide) (fun d d' => .pure []) (trails_paramsFrom h 0 c c')

private theorem trails_superclassUse (c c' : Cursor) :
    Trails extra True superclassUse superclassUse c c' := by
  rw [superclassUse]
  exact .accept (by decide) (fun d d' => .expect (by decide) fun name e e' => .pure _) (.pure none)

/-! ### A lone `fun`

Where the beginning ends after a `fun`, the reader of the whole has a name in sight and reads a
declaration, while the reader of the beginning tries an expression. -/

def GivesUp {α : Type} (p : Parser α) (c : Cursor) : Prop := ∃ d, p c = (none, d) ∧ d.RanOut

structure LoneFun (c : Cursor) : Prop where
  kind : c.current.kind = .keyword .fun_
  rest : ∃ eof : Token, c.rest = [eof] ∧ eof.kind = .eof
  hinted : ∀ d ∈ c.faults, d.hint = Diagnostic.endOfInput

private theorem GivesUp.bind {α β : Type} {p : Parser α} {k : α → Parser β} {c : Cursor}
    (h : GivesUp p c) : GivesUp (p >>= k) c := by
  obtain ⟨d, hrun, hout⟩ := h
  refine ⟨d, ?_, hout⟩
  show andThen p k c = _
  rw [andThen, hrun]

namespace LoneFun

variable {c : Cursor} (h : LoneFun c)
include h

private theorem primary (fuel : Nat) : GivesUp (Parser.primary (fuel + 1)) c := by
  obtain ⟨eof, hrest, heof⟩ := h.rest
  have hout : c.advance.RanOut := by
    rw [Cursor.advance, hrest]
    exact ⟨heof, rfl, h.hinted⟩
  have hother : ¬ c.advance.current.kind = .mark .leftParen := by simp [hout.eof]
  refine ⟨_, ?_, hout.note (.lacks .lambdaParams) hout.eof⟩
  simp only [Parser.primary, Bind.bind, andThen, Parser.current, h.kind, Parser.next,
    Parser.expectMark, Parser.expect, if_neg hother]

private theorem unary {fuel : Nat} (hfuel : 2 ≤ fuel) : GivesUp (Parser.unary fuel) c := by
  obtain ⟨fuel, rfl⟩ : ∃ n, fuel = n + 2 := ⟨fuel - 2, by omega⟩
  obtain ⟨d, hrun, hout⟩ := h.primary fuel
  refine ⟨d, ?_, hout⟩
  simp only [Parser.unary, Bind.bind, andThen, Parser.current, h.kind, hrun]

private theorem chain (tier : Tier) {fuel : Nat} (hfuel : tierDepth tier ≤ fuel) :
    GivesUp (Parser.chain fuel tier) c := by
  induction fuel using Nat.strongRecOn generalizing tier with
  | ind fuel ih =>
    have hpos : 4 ≤ tierDepth tier := by cases tier <;> decide
    obtain ⟨fuel, rfl⟩ : ∃ n, fuel = n + 2 := ⟨fuel - 2, by omega⟩
    rw [Parser.chain]
    refine .bind ?_
    rw [Parser.operand]
    cases tier
    case factor => exact h.unary (by rw [tierDepth] at hfuel; omega)
    all_goals exact ih fuel (by omega) _ (by simp only [tierDepth] at hfuel ⊢; omega)

private theorem statement {fuel : Nat} (hfuel : 18 ≤ fuel) : GivesUp (Parser.statement fuel) c := by
  obtain ⟨fuel, rfl⟩ : ∃ n, fuel = n + 4 := ⟨fuel - 4, by omega⟩
  have hexpression : GivesUp (Parser.expression (fuel + 2)) c := by
    rw [Parser.expression]
    refine .bind ?_
    rw [Parser.conditional]
    exact .bind (h.chain .or (by rw [tierDepth]; omega))
  obtain ⟨d, hrun, hout⟩ := hexpression
  refine ⟨d, ?_, hout⟩
  simp only [Parser.statement, Parser.exprStmt, Bind.bind, andThen, Parser.current, h.kind, hrun]

end LoneFun

/-- Every reader trails itself at a depth that suffices for the tokens left. Over the whole it is
deeper by as much as the missing tokens need. -/
structure TrailsAt (extra fuel fuel' : Nat) : Prop where
  expression (c c' : Cursor) : Trails extra (32 * c'.left.length + 16 ≤ fuel')
    (Parser.expression fuel) (Parser.expression fuel') c c'
  conditional (c c' : Cursor) : Trails extra (32 * c'.left.length + 15 ≤ fuel')
    (Parser.conditional fuel) (Parser.conditional fuel') c c'
  chain (tier : Tier) (c c' : Cursor) : Trails extra (32 * c'.left.length + tierDepth tier ≤ fuel')
    (Parser.chain fuel tier) (Parser.chain fuel' tier) c c'
  chainAfter (tier : Tier) (left : Expr) (c c' : Cursor) :
    Trails extra (32 * c'.left.length + 1 ≤ fuel')
      (Parser.chainAfter fuel tier left) (Parser.chainAfter fuel' tier left) c c'
  operand (tier : Tier) (c c' : Cursor) :
    Trails extra (32 * c'.left.length + tierDepth tier ≤ fuel' + 1)
      (Parser.operand fuel tier) (Parser.operand fuel' tier) c c'
  unary (c c' : Cursor) : Trails extra (32 * c'.left.length + 2 ≤ fuel')
    (Parser.unary fuel) (Parser.unary fuel') c c'
  callAfter (head : Expr) (c c' : Cursor) : Trails extra (32 * c'.left.length + 1 ≤ fuel')
    (Parser.callAfter fuel head) (Parser.callAfter fuel' head) c c'
  arguments (c c' : Cursor) : Trails extra (32 * c'.left.length + 18 ≤ fuel')
    (Parser.arguments fuel) (Parser.arguments fuel') c c'
  argumentsFrom (count : Nat) (c c' : Cursor) : Trails extra (32 * c'.left.length + 17 ≤ fuel')
    (Parser.argumentsFrom fuel count) (Parser.argumentsFrom fuel' count) c c'
  primary (c c' : Cursor) : Trails extra (32 * c'.left.length + 1 ≤ fuel')
    (Parser.primary fuel) (Parser.primary fuel') c c'
  blockBody (c c' : Cursor) : Trails extra (32 * c'.left.length + 21 ≤ fuel')
    (Parser.blockBody fuel) (Parser.blockBody fuel') c c'
  declarations (closing : Option Mark) (c c' : Cursor) :
    Trails extra (32 * c'.left.length + 20 ≤ fuel')
      (Parser.declarations fuel closing) (Parser.declarations fuel' closing) c c'
  declaration (c c' : Cursor) : Trails extra (32 * c'.left.length + 19 ≤ fuel')
    (Parser.declaration fuel) (Parser.declaration fuel') c c'
  classDecl (c c' : Cursor) :
    Trails extra (32 * c'.left.length + 1 ≤ fuel' ∧ c'.current.kind ≠ .eof)
      (Parser.classDecl fuel) (Parser.classDecl fuel') c c'
  members (c c' : Cursor) : Trails extra (32 * c'.left.length + 2 ≤ fuel')
    (Parser.members fuel) (Parser.members fuel') c c'
  funDecl (start : Span) (role : FunRole) (c c' : Cursor) :
    Trails extra (32 * c'.left.length + 1 ≤ fuel')
      (Parser.funDecl fuel start role) (Parser.funDecl fuel' start role) c c'
  varDecl (c c' : Cursor) :
    Trails extra (32 * c'.left.length + 1 ≤ fuel' ∧ c'.current.kind ≠ .eof)
      (Parser.varDecl fuel) (Parser.varDecl fuel') c c'
  initializer (c c' : Cursor) : Trails extra (32 * c'.left.length + 17 ≤ fuel')
    (Parser.initializer fuel) (Parser.initializer fuel') c c'
  statement (c c' : Cursor) : Trails extra (32 * c'.left.length + 18 ≤ fuel')
    (Parser.statement fuel) (Parser.statement fuel') c c'
  expressionUnless (mark : Mark) (c c' : Cursor) : Trails extra (32 * c'.left.length + 17 ≤ fuel')
    (Parser.expressionUnless fuel mark) (Parser.expressionUnless fuel' mark) c c'
  exprStmt (c c' : Cursor) : Trails extra (32 * c'.left.length + 17 ≤ fuel')
    (Parser.exprStmt fuel) (Parser.exprStmt fuel') c c'
  forStmt (c c' : Cursor) :
    Trails extra (32 * c'.left.length + 1 ≤ fuel' ∧ c'.current.kind ≠ .eof)
      (Parser.forStmt fuel) (Parser.forStmt fuel') c c'
  forInit (c c' : Cursor) : Trails extra (32 * c'.left.length + 18 ≤ fuel')
    (Parser.forInit fuel) (Parser.forInit fuel') c c'
  ifStmt (c c' : Cursor) :
    Trails extra (32 * c'.left.length + 1 ≤ fuel' ∧ c'.current.kind ≠ .eof)
      (Parser.ifStmt fuel) (Parser.ifStmt fuel') c c'
  whileStmt (c c' : Cursor) :
    Trails extra (32 * c'.left.length + 1 ≤ fuel' ∧ c'.current.kind ≠ .eof)
      (Parser.whileStmt fuel) (Parser.whileStmt fuel') c c'

private theorem trailsAt_zero (extra fuel : Nat) : TrailsAt extra fuel 0 := by
  have hnone (c' : Cursor) (n : Nat) : ¬ 32 * c'.left.length + n ≤ 0 := by
    have hpos : 0 < c'.left.length := Nat.succ_pos _
    omega
  have hsound := Grammar.soundAt fuel
  exact {
    expression c c' := .fail (hsound.expression c).keeps (hnone c' _)
    conditional c c' := .fail (hsound.conditional c).keeps (hnone c' _)
    chain tier c c' := .fail (hsound.chain tier c).keeps (hnone c' _)
    chainAfter tier left c c' := .fail (hsound.chainAfter tier left [] c).keeps (hnone c' _)
    operand tier c c' := .fail (hsound.operand tier c).keeps fun h => by
      have hdepth : 4 ≤ tierDepth tier := by cases tier <;> decide
      omega
    unary c c' := .fail (hsound.unary c).keeps (hnone c' _)
    callAfter head c c' := .fail (hsound.callAfter head [] c).keeps (hnone c' _)
    arguments c c' := .fail (hsound.arguments c).keeps (hnone c' _)
    argumentsFrom count c c' := .fail (hsound.argumentsFrom count c).keeps (hnone c' _)
    primary c c' := .fail (hsound.primary c).keeps (hnone c' _)
    blockBody c c' := .fail (hsound.blockBody c).keeps (hnone c' _)
    declarations closing c c' := .fail (hsound.declarations closing c).keeps (hnone c' _)
    declaration c c' := .fail (hsound.declaration c).keeps (hnone c' _)
    classDecl c c' := .fail (hsound.classDecl c).keeps fun h => hnone c' _ h.1
    members c c' := .fail (hsound.members c).keeps (hnone c' _)
    funDecl start role c c' := .fail (hsound.funDecl start role c).keeps (hnone c' _)
    varDecl c c' := .fail (hsound.varDecl c).keeps fun h => hnone c' _ h.1
    initializer c c' := .fail (hsound.initializer c).keeps (hnone c' _)
    statement c c' := .fail (hsound.statement c).keeps (hnone c' _)
    expressionUnless mark c c' := .fail (hsound.expressionUnless mark c).keeps (hnone c' _)
    exprStmt c c' := .fail (hsound.exprStmt c).keeps (hnone c' _)
    forStmt c c' := .fail (hsound.forStmt c).keeps fun h => hnone c' _ h.1
    forInit c c' := .fail (hsound.forInit c).keeps (hnone c' _)
    ifStmt c c' := .fail (hsound.ifStmt c).keeps fun h => hnone c' _ h.1
    whileStmt c c' := .fail (hsound.whileStmt c).keeps fun h => hnone c' _ h.1 }

namespace TrailsAt

variable {fuel fuel' : Nat} (ih : TrailsAt extra fuel fuel') (c c' : Cursor)
include ih

private theorem expression_succ (hfuel : fuel = 32 * extra + fuel') :
    Trails extra (32 * c'.left.length + 16 ≤ fuel' + 1)
      (Parser.expression (fuel + 1)) (Parser.expression (fuel' + 1)) c c' := by
  rw [Parser.expression, Parser.expression]
  refine .bind ((ih.conditional c c').weaken fun h => by omega) fun left d d' => ?_
  refine .peek fun kind => ?_
  split
  · rename_i hequal
    -- What can be assigned to is known before the value is read; of all else a fault is noted.
    cases left with
    | name use =>
      refine .next (fun h => by simp [← h.2, hequal]) fun equals e e' => ?_
      exact .bind ((ih.expression e e').weaken fun h => by omega) fun value i i' => .pure _
    | get s object name =>
      refine .next (fun h => by simp [← h.2, hequal]) fun equals e e' => ?_
      exact .bind ((ih.expression e e').weaken fun h => by omega) fun value i i' => .pure _
    | _ =>
      refine .dirty (B := 32 * d.left.length + 16 ≤ fuel + 1 ∧ d.current.kind = .mark .equal)
        (.next (fun h => by simp [h.2]) fun e => ?_) (fun h hstep => ?_) fun h => ?_
      · have hsound := (Grammar.soundAt fuel).expression e
        exact .bind (hsound.weaken fun h => by omega) fun value ts i =>
          .note fun j => .pure False.elim
      · rw [hstep.current, hstep.length_left, ← h.2]
        exact ⟨by omega, hequal⟩
      · simp [← h.2, hequal]
  · exact .pure left

private theorem conditional_succ : Trails extra (32 * c'.left.length + 15 ≤ fuel' + 1)
    (Parser.conditional (fuel + 1)) (Parser.conditional (fuel' + 1)) c c' := by
  rw [Parser.conditional, Parser.conditional]
  refine .bind ((ih.chain .or c c').weaken fun h => by rw [tierDepth]; omega)
    fun condition d d' => ?_
  refine .accept (by decide) (fun e e' => ?_) (.pure condition)
  refine .bind ((ih.expression e e').weaken fun h => by omega) fun yes i i' => ?_
  refine .expectMark fun colon j j' => ?_
  exact .map ((ih.conditional j j').weaken fun h => by omega)

private theorem chain_succ (tier : Tier) :
    Trails extra (32 * c'.left.length + tierDepth tier ≤ fuel' + 1)
    (Parser.chain (fuel + 1) tier) (Parser.chain (fuel' + 1) tier) c c' := by
  rw [Parser.chain, Parser.chain]
  refine .bind (ih.operand tier c c') fun left d d' => ?_
  have hpos : 1 < tierDepth tier := by cases tier <;> decide
  exact (ih.chainAfter tier left d d').weaken fun h => by omega

private theorem chainAfter_succ (tier : Tier) (left : Expr) :
    Trails extra (32 * c'.left.length + 1 ≤ fuel' + 1)
      (Parser.chainAfter (fuel + 1) tier left) (Parser.chainAfter (fuel' + 1) tier left) c c' := by
  rw [Parser.chainAfter, Parser.chainAfter]
  refine .peek fun kind => ?_
  split
  · exact .pure left
  · rename_i op hop
    refine .next (fun h heof => ?_) fun t d d' => ?_
    · rw [h.2, heof] at hop
      cases tier <;> cases hop
    · have hdepth : tierDepth tier ≤ 14 := by cases tier <;> decide
      refine .bind ((ih.operand tier d d').weaken fun h => by omega) fun right e e' => ?_
      exact (ih.chainAfter tier _ e e').weaken fun h => by omega

private theorem operand_succ (tier : Tier) :
    Trails extra (32 * c'.left.length + tierDepth tier ≤ fuel' + 1 + 1)
      (Parser.operand (fuel + 1) tier) (Parser.operand (fuel' + 1) tier) c c' := by
  rw [Parser.operand, Parser.operand]
  cases tier
  case factor => exact (ih.unary c c').weaken fun h => by rw [tierDepth] at h; omega
  all_goals exact (ih.chain _ c c').weaken fun h => by simp only [tierDepth] at h ⊢; omega

private theorem unary_succ : Trails extra (32 * c'.left.length + 2 ≤ fuel' + 1)
    (Parser.unary (fuel + 1)) (Parser.unary (fuel' + 1)) c c' := by
  rw [Parser.unary, Parser.unary]
  refine .current fun t => ?_
  split
  · rename_i hbang
    refine .next (fun h => by simp [← h.2, hbang]) fun bang d d' => ?_
    exact .map ((ih.unary d d').weaken fun h => by omega)
  · rename_i hminus
    refine .next (fun h => by simp [← h.2, hminus]) fun minus d d' => ?_
    exact .map ((ih.unary d d').weaken fun h => by omega)
  · refine .bind ((ih.primary c c').weaken fun h => by omega) fun head d d' => ?_
    exact (ih.callAfter head d d').weaken fun h => by omega

private theorem callAfter_succ (head : Expr) : Trails extra (32 * c'.left.length + 1 ≤ fuel' + 1)
    (Parser.callAfter (fuel + 1) head) (Parser.callAfter (fuel' + 1) head) c c' := by
  rw [Parser.callAfter, Parser.callAfter]
  refine .peek fun kind => ?_
  split
  · refine .next (fun h => by simp [← h.2]) fun paren d d' => ?_
    refine .bind ((ih.arguments d d').weaken fun h => by omega) fun r e e' => ?_
    exact (ih.callAfter _ e e').weaken fun h => by omega
  · refine .next (fun h => by simp [← h.2]) fun dot d d' => .expect (by decide) fun name e e' => ?_
    exact (ih.callAfter _ e e').weaken fun h => by omega
  · exact .pure head

private theorem arguments_succ : Trails extra (32 * c'.left.length + 18 ≤ fuel' + 1)
    (Parser.arguments (fuel + 1)) (Parser.arguments (fuel' + 1)) c c' := by
  rw [Parser.arguments, Parser.arguments]
  refine .peek fun kind => ?_
  split
  · rename_i hright
    exact .next (fun h => by simp [← h.2, hright]) fun right d d' => .pure ([], right)
  · exact (ih.argumentsFrom 0 c c').weaken fun h => by omega

private theorem argumentsFrom_succ (count : Nat) :
    Trails extra (32 * c'.left.length + 17 ≤ fuel' + 1)
    (Parser.argumentsFrom (fuel + 1) count) (Parser.argumentsFrom (fuel' + 1) count) c c' := by
  rw [Parser.argumentsFrom, Parser.argumentsFrom]
  refine .noteIf fun d d' => ?_
  refine .bind ((ih.expression d d').weaken fun h => by omega) fun arg e e' => ?_
  refine .accept (by decide) (fun i i' => ?_) (.expectMark fun right i i' => .pure ([arg], right))
  refine .bind ((ih.argumentsFrom (count + 1) i i').weaken fun h => by omega) fun r j j' => ?_
  exact .pure (arg :: r.1, r.2)

private theorem primary_succ (hfuel : fuel = 32 * extra + fuel') :
    Trails extra (32 * c'.left.length + 1 ≤ fuel' + 1)
      (Parser.primary (fuel + 1)) (Parser.primary (fuel' + 1)) c c' := by
  rw [Parser.primary, Parser.primary]
  refine .current fun t => ?_
  split <;> rename_i ht
  · exact .next (fun h => by simp [← h.2, ht]) fun false_ d d' => .pure _
  · exact .next (fun h => by simp [← h.2, ht]) fun true_ d d' => .pure _
  · exact .next (fun h => by simp [← h.2, ht]) fun nil_ d d' => .pure _
  · -- A numeral without a value is a fault of the whole too.
    cases hread : Decimal.read? t.text with
    | some x => exact .next (fun h => by simp [← h.2, ht]) fun numeral d d' => .pure _
    | none =>
      refine .dirty (B := c.current.kind = .number) (.next (fun h => by simp [h]) fun d => ?_)
        (fun h hstep => ?_) fun h => ?_
      · exact .note fun e => .fail id
      · rw [hstep.current, ← h.2, ht]
      · simp [← h.2, ht]
  · exact .next (fun h => by simp [← h.2, ht]) fun string d d' => .pure _
  · exact .next (fun h => by simp [← h.2, ht]) fun this d d' => .pure _
  · refine .next (fun h => by simp [← h.2, ht]) fun super d d' => .expectMark fun dot e e' => ?_
    exact .expect (by decide) fun name i i' => .pure _
  · exact .next (fun h => by simp [← h.2, ht]) fun name d d' => .pure _
  · refine .next (fun h => by simp [← h.2, ht]) fun fun_ d d' => .expectMark fun paren e e' => ?_
    refine .bind ((trails_params hfuel e e').weaken fun h => by omega) fun ps i i' => ?_
    refine .expectMark fun brace j j' => ?_
    refine .bind ((ih.blockBody j j').weaken fun h => by omega) fun body k k' => ?_
    exact .spanFrom fun s => .pure _
  · refine .next (fun h => by simp [← h.2, ht]) fun paren d d' => ?_
    refine .bind ((ih.expression d d').weaken fun h => by omega) fun inner e e' => ?_
    exact .expectMark fun right i i' => .spanFrom fun s => .pure _
  · exact .noteFail fun h => h.2

private theorem blockBody_succ : Trails extra (32 * c'.left.length + 21 ≤ fuel' + 1)
    (Parser.blockBody (fuel + 1)) (Parser.blockBody (fuel' + 1)) c c' := by
  rw [Parser.blockBody, Parser.blockBody]
  refine .bind ((ih.declarations _ c c').weaken fun h => by omega) fun body d d' => ?_
  exact .expectMark fun right e e' => .pure body

private theorem declarations_succ (hfuel : fuel = 32 * extra + fuel') (closing : Option Mark) :
    Trails extra (32 * c'.left.length + 20 ≤ fuel' + 1)
      (Parser.declarations (fuel + 1) closing) (Parser.declarations (fuel' + 1) closing) c c' := by
  rw [Parser.declarations, Parser.declarations]
  refine .atListEnd fun b => ?_
  split
  · exact .pure []
  · rename_i hgoes
    have hsound := (Grammar.soundAt fuel).declaration c
    have hroom (h : 32 * c'.left.length + 20 ≤ fuel' + 1) (hstep : InStep extra c c') :
        32 * c.left.length + 19 ≤ fuel := by
      rw [hstep.length_left]
      omega
    refine .bindPast (.recover ((ih.declaration c c').weaken fun h => by omega) hsound
      fun h => hroom h.1) hsound.recover (fun h => hroom h.1) (fun o ts d hQ => ?_) (fun h => ?_)
      fun first d d' => ?_
    · obtain ⟨b, -, hb⟩ := hQ
      obtain ⟨t, vs, rfl, -⟩ := hb.starts (by decide)
      exact List.cons_ne_nil t vs
    · intro heof
      rw [h.2, Cursor.atEnd, heof] at hgoes
      exact hgoes rfl
    · exact .map ((ih.declarations closing d d').weaken fun h => by omega)

private theorem declaration_succ : Trails extra (32 * c'.left.length + 19 ≤ fuel' + 1)
    (Parser.declaration (fuel + 1)) (Parser.declaration (fuel' + 1)) c c' := by
  rw [Parser.declaration, Parser.declaration]
  refine .peek fun kind => ?_
  split
  · exact (ih.classDecl c c').weaken fun h => ⟨by omega, by simp [← h.2]⟩
  · refine .peekSecond (fun h => by simp [← h.2]) (fun second => ?_)
      fun h eof hrest heof hinted => ?_
    · split
      · refine .next (fun h => by simp [← h.2]) fun fun_ d d' => ?_
        exact .map ((ih.funDecl _ _ d d').weaken fun h => by omega)
      · exact (ih.statement c c').weaken fun h => by omega
    · have hlone : LoneFun c' := ⟨h.2.symm, ⟨eof, hrest, heof⟩, hinted⟩
      obtain ⟨d, hrun, hout⟩ := hlone.statement (show 18 ≤ fuel' by omega)
      rw [if_neg (by simp), hrun]
      exact hout
  · exact (ih.varDecl c c').weaken fun h => ⟨by omega, by simp [← h.2]⟩
  · exact (ih.statement c c').weaken fun h => by omega

private theorem classDecl_succ :
    Trails extra (32 * c'.left.length + 1 ≤ fuel' + 1 ∧ c'.current.kind ≠ .eof)
      (Parser.classDecl (fuel + 1)) (Parser.classDecl (fuel' + 1)) c c' := by
  rw [Parser.classDecl, Parser.classDecl]
  refine .next (fun h => h.2) fun start d d' => .expect (by decide) fun name e e' => ?_
  refine .bind ((trails_superclassUse e e').weaken fun _ => trivial) fun sup i i' => ?_
  refine .expectMark fun left j j' => ?_
  refine .bind ((ih.members j j').weaken fun h => by omega) fun r k k' => ?_
  exact .expectMark fun right l l' => .spanFrom fun s => .pure _

private theorem members_succ (hfuel : fuel = 32 * extra + fuel') :
    Trails extra (32 * c'.left.length + 2 ≤ fuel' + 1)
      (Parser.members (fuel + 1)) (Parser.members (fuel' + 1)) c c' := by
  rw [Parser.members, Parser.members]
  refine .atListEnd fun b => ?_
  split
  · exact .pure ([], [])
  · rename_i hgoes
    refine .current fun t => ?_
    split
    · rename_i ht
      refine .next (fun h => by simp [← h.2, ht]) fun class_ d d' => ?_
      refine .bind ((ih.funDecl _ _ d d').weaken fun h => by omega) fun static e e' => ?_
      exact .bind ((ih.members e e').weaken fun h => by omega) fun r i i' =>
        .pure (r.1, static :: r.2)
    · refine .bindPast ((ih.funDecl _ _ c c').weaken fun h => by omega)
        ((Grammar.soundAt fuel).funDecl _ _ c) (fun h hstep => ?_) (fun d ts e hd => ?_)
        (fun h heof => ?_) fun method d d' => ?_
      · rw [hstep.length_left]
        omega
      · obtain ⟨t, vs, rfl, -⟩ := hd.starts (by decide)
        exact List.cons_ne_nil t vs
      · rw [h.1.2, Cursor.atEnd, heof] at hgoes
        exact hgoes rfl
      · refine .bind ((ih.members d d').weaken fun h => by omega) fun r e e' => ?_
        exact .pure (method :: r.1, r.2)

private theorem funDecl_succ (hfuel : fuel = 32 * extra + fuel') (start : Span) (role : FunRole) :
    Trails extra (32 * c'.left.length + 1 ≤ fuel' + 1)
      (Parser.funDecl (fuel + 1) start role) (Parser.funDecl (fuel' + 1) start role) c c' := by
  rw [Parser.funDecl, Parser.funDecl]
  refine .expect (by decide) fun name d d' => .expectMark fun paren e e' => ?_
  refine .bind ((trails_params hfuel e e').weaken fun h => by omega) fun ps i i' => ?_
  refine .expectMark fun brace j j' => ?_
  refine .bind ((ih.blockBody j j').weaken fun h => by omega) fun body k k' => ?_
  exact .spanFrom fun s => .pure _

private theorem varDecl_succ :
    Trails extra (32 * c'.left.length + 1 ≤ fuel' + 1 ∧ c'.current.kind ≠ .eof)
      (Parser.varDecl (fuel + 1)) (Parser.varDecl (fuel' + 1)) c c' := by
  rw [Parser.varDecl, Parser.varDecl]
  refine .next (fun h => h.2) fun start d d' => .expect (by decide) fun name e e' => ?_
  refine .bind ((ih.initializer e e').weaken fun h => by omega) fun init i i' => ?_
  exact .expectMark fun semicolon j j' => .spanFrom fun s => .pure _

private theorem initializer_succ : Trails extra (32 * c'.left.length + 17 ≤ fuel' + 1)
    (Parser.initializer (fuel + 1)) (Parser.initializer (fuel' + 1)) c c' := by
  rw [Parser.initializer, Parser.initializer]
  refine .accept (by decide) (fun d d' => ?_) (.pure none)
  exact .map ((ih.expression d d').weaken fun h => by omega)

private theorem statement_succ : Trails extra (32 * c'.left.length + 18 ≤ fuel' + 1)
    (Parser.statement (fuel + 1)) (Parser.statement (fuel' + 1)) c c' := by
  rw [Parser.statement, Parser.statement]
  refine .current fun t => ?_
  split <;> rename_i ht
  · exact (ih.forStmt c c').weaken fun h => ⟨by omega, by simp [← h.2, ht]⟩
  · exact (ih.ifStmt c c').weaken fun h => ⟨by omega, by simp [← h.2, ht]⟩
  · refine .next (fun h => by simp [← h.2, ht]) fun print d d' => ?_
    refine .bind ((ih.expression d d').weaken fun h => by omega) fun value e e' => ?_
    exact .expectMark fun semicolon i i' => .spanFrom fun s => .pure _
  · refine .next (fun h => by simp [← h.2, ht]) fun return_ d d' => ?_
    refine .bind ((ih.expressionUnless _ d d').weaken fun h => by omega) fun value e e' => ?_
    exact .expectMark fun semicolon i i' => .spanFrom fun s => .pure _
  · exact (ih.whileStmt c c').weaken fun h => ⟨by omega, by simp [← h.2, ht]⟩
  · refine .next (fun h => by simp [← h.2, ht]) fun break_ d d' => ?_
    exact .expectMark fun semicolon e e' => .spanFrom fun s => .pure _
  · refine .next (fun h => by simp [← h.2, ht]) fun left d d' => ?_
    refine .bind ((ih.blockBody d d').weaken fun h => by omega) fun body e e' => ?_
    exact .spanFrom fun s => .pure _
  · exact (ih.exprStmt c c').weaken fun h => by omega

private theorem expressionUnless_succ (mark : Mark) :
    Trails extra (32 * c'.left.length + 17 ≤ fuel' + 1)
      (Parser.expressionUnless (fuel + 1) mark)
        (Parser.expressionUnless (fuel' + 1) mark) c c' := by
  rw [Parser.expressionUnless, Parser.expressionUnless]
  refine .peek fun kind => ?_
  split
  · exact .pure none
  · exact .map ((ih.expression c c').weaken fun h => by omega)

private theorem exprStmt_succ : Trails extra (32 * c'.left.length + 17 ≤ fuel' + 1)
    (Parser.exprStmt (fuel + 1)) (Parser.exprStmt (fuel' + 1)) c c' := by
  rw [Parser.exprStmt, Parser.exprStmt]
  refine .current fun t => ?_
  refine .bind ((ih.expression c c').weaken fun h => by omega) fun value d d' => ?_
  exact .expectMark fun semicolon e e' => .spanFrom fun s => .pure _

private theorem forStmt_succ :
    Trails extra (32 * c'.left.length + 1 ≤ fuel' + 1 ∧ c'.current.kind ≠ .eof)
      (Parser.forStmt (fuel + 1)) (Parser.forStmt (fuel' + 1)) c c' := by
  rw [Parser.forStmt, Parser.forStmt]
  refine .next (fun h => h.2) fun start d d' => .expectMark fun paren e e' => ?_
  refine .bind ((ih.forInit e e').weaken fun h => by omega) fun init i i' => ?_
  refine .bind ((ih.expressionUnless _ i i').weaken fun h => by omega) fun condition j j' => ?_
  refine .expectMark fun semicolon k k' => ?_
  refine .bind ((ih.expressionUnless _ k k').weaken fun h => by omega) fun step l l' => ?_
  refine .expectMark fun right m m' => ?_
  refine .bind ((ih.statement m m').weaken fun h => by omega) fun body n n' => ?_
  exact .spanFrom fun s => .pure _

private theorem forInit_succ : Trails extra (32 * c'.left.length + 18 ≤ fuel' + 1)
    (Parser.forInit (fuel + 1)) (Parser.forInit (fuel' + 1)) c c' := by
  rw [Parser.forInit, Parser.forInit]
  refine .peek fun kind => ?_
  split
  · exact .next (fun h => by simp [← h.2]) fun semicolon d d' => .pure none
  · exact .map ((ih.varDecl c c').weaken fun h => ⟨by omega, by simp [← h.2]⟩)
  · exact .map ((ih.exprStmt c c').weaken fun h => by omega)

private theorem ifStmt_succ :
    Trails extra (32 * c'.left.length + 1 ≤ fuel' + 1 ∧ c'.current.kind ≠ .eof)
      (Parser.ifStmt (fuel + 1)) (Parser.ifStmt (fuel' + 1)) c c' := by
  rw [Parser.ifStmt, Parser.ifStmt]
  refine .next (fun h => h.2) fun start d d' => .expectMark fun paren e e' => ?_
  refine .bind ((ih.expression e e').weaken fun h => by omega) fun condition i i' => ?_
  refine .expectMark fun right j j' => ?_
  refine .bind ((ih.statement j j').weaken fun h => by omega) fun yes k k' => ?_
  refine .accept (by decide) (fun l l' => ?_) (.spanFrom fun s => .pure _)
  refine .bind ((ih.statement l l').weaken fun h => by omega) fun no m m' => ?_
  exact .spanFrom fun s => .pure _

private theorem whileStmt_succ :
    Trails extra (32 * c'.left.length + 1 ≤ fuel' + 1 ∧ c'.current.kind ≠ .eof)
      (Parser.whileStmt (fuel + 1)) (Parser.whileStmt (fuel' + 1)) c c' := by
  rw [Parser.whileStmt, Parser.whileStmt]
  refine .next (fun h => h.2) fun start d d' => .expectMark fun paren e e' => ?_
  refine .bind ((ih.expression e e').weaken fun h => by omega) fun condition i i' => ?_
  refine .expectMark fun right j j' => ?_
  refine .bind ((ih.statement j j').weaken fun h => by omega) fun body k k' => ?_
  exact .spanFrom fun s => .pure _

omit c c' in
private theorem succ (hfuel : fuel = 32 * extra + fuel') :
    TrailsAt extra (fuel + 1) (fuel' + 1) where
  expression c c' := ih.expression_succ c c' hfuel
  conditional c c' := ih.conditional_succ c c'
  chain tier c c' := ih.chain_succ c c' tier
  chainAfter tier left c c' := ih.chainAfter_succ c c' tier left
  operand tier c c' := ih.operand_succ c c' tier
  unary c c' := ih.unary_succ c c'
  callAfter head c c' := ih.callAfter_succ c c' head
  arguments c c' := ih.arguments_succ c c'
  argumentsFrom count c c' := ih.argumentsFrom_succ c c' count
  primary c c' := ih.primary_succ c c' hfuel
  blockBody c c' := ih.blockBody_succ c c'
  declarations closing c c' := ih.declarations_succ c c' hfuel closing
  declaration c c' := ih.declaration_succ c c'
  classDecl c c' := ih.classDecl_succ c c'
  members c c' := ih.members_succ c c' hfuel
  funDecl start role c c' := ih.funDecl_succ c c' hfuel start role
  varDecl c c' := ih.varDecl_succ c c'
  initializer c c' := ih.initializer_succ c c'
  statement c c' := ih.statement_succ c c'
  expressionUnless mark c c' := ih.expressionUnless_succ c c' mark
  exprStmt c c' := ih.exprStmt_succ c c'
  forStmt c c' := ih.forStmt_succ c c'
  forInit c c' := ih.forInit_succ c c'
  ifStmt c c' := ih.ifStmt_succ c c'
  whileStmt c c' := ih.whileStmt_succ c c'

end TrailsAt

theorem trailsAt (extra fuel : Nat) : TrailsAt extra (32 * extra + fuel) fuel := by
  induction fuel with
  | zero => exact trailsAt_zero extra (32 * extra)
  | succ fuel ih => exact ih.succ rfl

end Lox.Parser
