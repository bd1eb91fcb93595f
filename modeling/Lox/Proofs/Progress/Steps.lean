import Lox.Proofs.Progress.Rounds

/-!
What one round does. If the pieces that begin before a piece are read to the same end by two
families of readers, no earlier than they begin and past a token if they have one, then so is the
piece itself by a round over each of them.
-/

set_option autoImplicit false
set_option relaxedAutoImplicit false

namespace Lox.Parser

/-- Two families of readers read alike below a piece: what begins before it do they read to the same
end, no earlier than it begins, and past a token where it has one. -/
structure Below {β : Type} (ts : List Token) (r r' : Readers) (q : Piece β) (pos : Nat) : Prop where
  closed : Closed ts
  reads : ∀ {α : Type} (p : Piece α) {start : Nat} {c : Cursor}, c.At ts start →
    p.Before start q pos →
    Abreast ts start (fun _ stop => p.takes = true → start < stop) (r p) (r' p) c

def Alike {α : Type} (ts : List Token) (r r' : Readers) (p : Piece α) (pos : Nat) (c : Cursor) :
    Prop :=
  Abreast ts pos (fun _ stop => p.takes = true → pos < stop) (p.round r) (p.round r') c

variable {ts : List Token} {pos : Nat} {c : Cursor} {r r' : Readers}

private theorem superclassUse_abreast (hts : Closed ts) (hat : c.At ts pos) :
    Abreast ts pos (fun _ _ => True) superclassUse superclassUse c := by
  refine .bind (.accept hat hts (by simp)) (Nat.le_refl pos) fun b c₁ pos₁ hat₁ hle₁ _ => ?_
  split
  · exact .bind (.expectName hat₁ hts _) hle₁ fun _ _ _ hat₂ _ _ => .pure hat₂ (by omega) trivial
  · exact .pure hat₁ hle₁ trivial

namespace Below

variable (hat : c.At ts pos)
include hat

/-! ### Expressions -/

private theorem expression (h : Below ts r r' .expression pos) :
    Alike ts r r' .expression pos c := by
  refine .bind (h.reads .conditional hat (.inr ⟨rfl, by decide⟩)) (Nat.le_refl pos)
    fun left c₁ pos₁ hat₁ _ hlt₁ => .peek ?_
  have hlt₁ := hlt₁ rfl
  split
  · refine .bind (.next hat₁ h.closed) (by omega) fun equals c₂ pos₂ hat₂ hle₂ _ => ?_
    refine .bind (h.reads .expression hat₂ (.inl (by omega))) (by omega)
      fun value c₃ pos₃ hat₃ hle₃ _ => ?_
    split
    · exact .pure hat₃ (by omega) fun _ => by omega
    · exact .pure hat₃ (by omega) fun _ => by omega
    · exact .bind (.note hat₃ _ _) (by omega) fun _ _ _ hat₄ _ _ =>
        .pure hat₄ (by omega) fun _ => by omega
  · exact .pure hat₁ (by omega) fun _ => hlt₁

private theorem conditional (h : Below ts r r' .conditional pos) :
    Alike ts r r' .conditional pos c := by
  refine .bind (h.reads (.chain .or) hat (.inr ⟨rfl, by decide⟩)) (Nat.le_refl pos)
    fun condition c₁ pos₁ hat₁ _ hlt₁ => ?_
  have hlt₁ := hlt₁ rfl
  refine .bind (.accept hat₁ h.closed (by simp)) (by omega) fun b c₂ pos₂ hat₂ hle₂ _ => ?_
  split
  · refine .bind (h.reads .expression hat₂ (.inl (by omega))) (by omega)
      fun yes c₃ pos₃ hat₃ hle₃ _ => ?_
    refine .bind (.expectMark hat₃ h.closed _ _) (by omega) fun _ c₄ pos₄ hat₄ hle₄ _ => ?_
    exact .bind (h.reads .conditional hat₄ (.inl (by omega))) (by omega)
      fun no c₅ pos₅ hat₅ hle₅ _ => .pure hat₅ (by omega) fun _ => by omega
  · exact .pure hat₂ (by omega) fun _ => by omega

private theorem chain (tier : Tier) (h : Below ts r r' (.chain tier) pos) :
    Alike ts r r' (.chain tier) pos c := by
  have hrank : (Piece.operand tier).rank < (Piece.chain tier).rank := by cases tier <;> decide
  refine .bind (h.reads (.operand tier) hat (.inr ⟨rfl, hrank⟩)) (Nat.le_refl pos)
    fun left c₁ pos₁ hat₁ _ hlt₁ => ?_
  have hlt₁ := hlt₁ rfl
  exact (h.reads (.chainAfter tier left) hat₁ (.inl hlt₁)).weaken (by omega)
    fun _ _ _ _ _ => by omega

private theorem chainAfter (tier : Tier) (left : Expr)
    (h : Below ts r r' (.chainAfter tier left) pos) :
    Alike ts r r' (.chainAfter tier left) pos c := by
  refine .peek ?_
  cases hop : tier.operator? c.current.kind with
  | none => exact .pure hat (Nat.le_refl pos) (by simp [Piece.takes])
  | some op =>
    have hk : c.current.kind ≠ .eof := fun hk => by
      rw [hk] at hop
      cases tier <;> cases hop
    refine .bind (.next hat h.closed) (Nat.le_refl pos) fun _ c₁ pos₁ hat₁ _ hlt₁ => ?_
    have hlt₁ := hlt₁ hk
    refine .bind (h.reads (.operand tier) hat₁ (.inl hlt₁)) (by omega)
      fun right c₂ pos₂ hat₂ hle₂ _ => ?_
    have hafter := h.reads (.chainAfter tier (op.apply left right)) hat₂ (.inl (by omega))
    exact hafter.weaken (by omega) (by simp [Piece.takes])

private theorem operand (tier : Tier) (h : Below ts r r' (.operand tier) pos) :
    Alike ts r r' (.operand tier) pos c := by
  cases tier with
  | factor => exact h.reads .unary hat (.inr ⟨rfl, by decide⟩)
  | or => exact h.reads (.chain .and) hat (.inr ⟨rfl, by decide⟩)
  | and => exact h.reads (.chain .equality) hat (.inr ⟨rfl, by decide⟩)
  | equality => exact h.reads (.chain .comparison) hat (.inr ⟨rfl, by decide⟩)
  | comparison => exact h.reads (.chain .term) hat (.inr ⟨rfl, by decide⟩)
  | term => exact h.reads (.chain .factor) hat (.inr ⟨rfl, by decide⟩)

private theorem unary (h : Below ts r r' .unary pos) : Alike ts r r' .unary pos c := by
  have operator : c.current.kind ≠ .eof → ∀ k : Expr → Expr,
      Abreast ts pos (fun _ stop => Piece.unary.takes = true → pos < stop)
        (do let _ ← next; let inner ← r .unary; return k inner)
        (do let _ ← next; let inner ← r' .unary; return k inner) c := by
    intro hk k
    refine .bind (.next hat h.closed) (Nat.le_refl pos) fun _ c₁ pos₁ hat₁ _ hlt₁ => ?_
    have hlt₁ := hlt₁ hk
    exact .bind (h.reads .unary hat₁ (.inl hlt₁)) (by omega)
      fun inner c₂ pos₂ hat₂ hle₂ _ => .pure hat₂ (by omega) fun _ => by omega
  refine .current ?_
  split
  · rename_i hk
    exact operator (by simp [hk]) _
  · rename_i hk
    exact operator (by simp [hk]) _
  · refine .bind (h.reads .primary hat (.inr ⟨rfl, by decide⟩)) (Nat.le_refl pos)
      fun head c₁ pos₁ hat₁ _ hlt₁ => ?_
    have hlt₁ := hlt₁ rfl
    exact (h.reads (.callAfter head) hat₁ (.inl hlt₁)).weaken (by omega) fun _ _ _ _ _ => by omega

private theorem callAfter (head : Expr) (h : Below ts r r' (.callAfter head) pos) :
    Alike ts r r' (.callAfter head) pos c := by
  refine .peek ?_
  split
  · rename_i hk
    refine .bind (.next hat h.closed) (Nat.le_refl pos) fun _ c₁ pos₁ hat₁ _ hlt₁ => ?_
    have hlt₁ := hlt₁ (by simp [hk])
    refine .bind (h.reads .arguments hat₁ (.inl hlt₁)) (by omega) fun q c₂ pos₂ hat₂ hle₂ _ => ?_
    obtain ⟨args, stop⟩ := q
    exact (h.reads (.callAfter _) hat₂ (.inl (by omega))).weaken (by omega) (by simp [Piece.takes])
  · refine .bind (.next hat h.closed) (Nat.le_refl pos) fun _ c₁ pos₁ hat₁ hle₁ _ => ?_
    refine .bind (.expectName hat₁ h.closed _) (by omega) fun t c₂ pos₂ hat₂ _ hlt₂ => ?_
    exact (h.reads (.callAfter _) hat₂ (.inl (by omega))).weaken (by omega) (by simp [Piece.takes])
  · exact .pure hat (Nat.le_refl pos) (by simp [Piece.takes])

private theorem arguments (h : Below ts r r' .arguments pos) : Alike ts r r' .arguments pos c := by
  refine .peek ?_
  split
  · rename_i hk
    refine .bind (.next hat h.closed) (Nat.le_refl pos) fun _ c₁ pos₁ hat₁ hle₁ hlt₁ => ?_
    exact .pure hat₁ hle₁ fun _ => hlt₁ (by simp [hk])
  · exact h.reads (.argumentsFrom 0) hat (.inr ⟨rfl, by decide⟩)

private theorem argumentsFrom (count : Nat) (h : Below ts r r' (.argumentsFrom count) pos) :
    Alike ts r r' (.argumentsFrom count) pos c := by
  simp only [Alike, Piece.round]
  refine .noteIf hat fun c₁ hat₁ => ?_
  refine .bind (h.reads .expression hat₁ (.inr ⟨rfl, Nat.lt_succ_self 16⟩)) (Nat.le_refl pos)
    fun arg c₂ pos₂ hat₂ _ hlt₂ => ?_
  have hlt₂ := hlt₂ rfl
  refine .bind (.accept hat₂ h.closed (by simp)) (by omega) fun b c₃ pos₃ hat₃ hle₃ _ => ?_
  split
  · refine .bind (h.reads (.argumentsFrom (count + 1)) hat₃ (.inl (by omega))) (by omega)
      fun q c₄ pos₄ hat₄ hle₄ _ => ?_
    obtain ⟨args, stop⟩ := q
    exact .pure hat₄ (by omega) fun _ => by omega
  · exact .bind (.expectMark hat₃ h.closed _ _) (by omega)
      fun stop c₄ pos₄ hat₄ hle₄ _ => .pure hat₄ (by omega) fun _ => by omega

/-! ### Parameters and functions -/

private theorem paramsFrom (count : Nat) (h : Below ts r r' (.paramsFrom count) pos) :
    Alike ts r r' (.paramsFrom count) pos c := by
  simp only [Alike, Piece.round]
  refine .noteIf hat fun c₁ hat₁ => ?_
  refine .bind (.expectName hat₁ h.closed _) (Nat.le_refl pos) fun t c₂ pos₂ hat₂ _ hlt₂ => ?_
  refine .bind (.accept hat₂ h.closed (by simp)) (by omega) fun b c₃ pos₃ hat₃ hle₃ _ => ?_
  split
  · exact .bind (h.reads (.paramsFrom (count + 1)) hat₃ (.inl (by omega))) (by omega)
      fun ps c₄ pos₄ hat₄ hle₄ _ => .pure hat₄ (by omega) fun _ => by omega
  · exact .bind (.expectMark hat₃ h.closed _ _) (by omega)
      fun stop c₄ pos₄ hat₄ hle₄ _ => .pure hat₄ (by omega) fun _ => by omega

private theorem params {β : Type} {q : Piece β} {low : Nat}
    (h : Below ts r r' q low) (hlow : low < pos) :
    Abreast ts pos (fun _ stop => pos < stop) (paramsBy r) (paramsBy r') c := by
  refine .bind (.accept hat h.closed (by simp)) (Nat.le_refl pos) fun b c₁ pos₁ hat₁ hle₁ hb => ?_
  split
  · exact .pure hat₁ hle₁ (hb ‹_›)
  · exact (h.reads (.paramsFrom 0) hat₁ (.inl (by omega))).weaken hle₁ fun _ _ _ hlt => by
      have hlt := hlt rfl
      omega

private theorem function {α β : Type} {q : Piece β} {low : Nat} (h : Below ts r r' q low)
    (hlow : low < pos) (what what' : Wanted) (start : Span)
    (k : Span → List Param → List Stmt → α) :
    Abreast ts pos (fun _ stop => pos < stop)
      (do
        let _ ← Parser.expectMark .leftParen what
        let ps ← paramsBy r
        let _ ← Parser.expectMark .leftBrace what'
        let body ← r .blockBody
        return k (← Parser.spanFrom start) ps body)
      (do
        let _ ← Parser.expectMark .leftParen what
        let ps ← paramsBy r'
        let _ ← Parser.expectMark .leftBrace what'
        let body ← r' .blockBody
        return k (← Parser.spanFrom start) ps body) c := by
  refine .bind (.expectMark hat h.closed _ _) (Nat.le_refl pos) fun _ c₁ pos₁ hat₁ _ hlt₁ => ?_
  refine .bind (params hat₁ h (by omega)) (by omega) fun ps c₂ pos₂ hat₂ _ hlt₂ => ?_
  refine .bind (.expectMark hat₂ h.closed _ _) (by omega) fun _ c₃ pos₃ hat₃ hle₃ _ => ?_
  exact .bind (h.reads .blockBody hat₃ (.inl (by omega))) (by omega)
    fun body c₄ pos₄ hat₄ hle₄ _ => .spanFrom (.pure hat₄ (by omega) (by omega))

private theorem funDecl (start : Span) (role : FunRole)
    (h : Below ts r r' (.funDecl start role) pos) :
    Alike ts r r' (.funDecl start role) pos c := by
  refine .bind (.expectName hat h.closed _) (Nat.le_refl pos) fun name c₁ pos₁ hat₁ _ hlt₁ => ?_
  exact (function hat₁ h hlt₁ _ _ start fun span ps body =>
    FunDecl.mk span name.text ps body).weaken
    (by omega) fun _ _ _ _ _ => by omega

private theorem primary (h : Below ts r r' .primary pos) : Alike ts r r' .primary pos c := by
  -- A token that is an expression by itself.
  have single : c.current.kind ≠ .eof → ∀ e : Expr,
      Abreast ts pos (fun _ stop => Piece.primary.takes = true → pos < stop)
        (do let _ ← Parser.next; return e) (do let _ ← Parser.next; return e) c := fun hk e =>
    .bind (.next hat h.closed) (Nat.le_refl pos)
      fun _ c₁ pos₁ hat₁ hle₁ hlt₁ => .pure hat₁ hle₁ fun _ => hlt₁ hk
  refine .current ?_
  split
  · rename_i hk
    exact single (by simp [hk]) _
  · rename_i hk
    exact single (by simp [hk]) _
  · rename_i hk
    exact single (by simp [hk]) _
  · rename_i hk
    refine .bind (.next hat h.closed) (Nat.le_refl pos) fun _ c₁ pos₁ hat₁ hle₁ hlt₁ => ?_
    have hlt₁ := hlt₁ (by simp [hk])
    split
    · exact .pure hat₁ hle₁ fun _ => hlt₁
    · exact .bind (.note hat₁ _ _) hle₁ fun _ _ _ hat₂ _ _ => .fail hat₂ (by omega)
  · rename_i hk
    exact single (by simp [hk]) _
  · rename_i hk
    exact single (by simp [hk]) _
  · refine .bind (.next hat h.closed) (Nat.le_refl pos) fun _ c₁ pos₁ hat₁ hle₁ _ => ?_
    refine .bind (.expectMark hat₁ h.closed _ _) hle₁ fun _ c₂ pos₂ hat₂ _ hlt₂ => ?_
    exact .bind (.expectName hat₂ h.closed _) (by omega)
      fun method c₃ pos₃ hat₃ hle₃ _ => .pure hat₃ (by omega) fun _ => by omega
  · rename_i hk
    exact single (by simp [hk]) _
  · rename_i hk
    refine .bind (.next hat h.closed) (Nat.le_refl pos) fun _ c₁ pos₁ hat₁ _ hlt₁ => ?_
    have hlt₁ := hlt₁ (by simp [hk])
    exact (function hat₁ h hlt₁ _ _ c.current.span Expr.lambda).weaken (by omega)
      fun _ _ _ _ _ => by omega
  · rename_i hk
    refine .bind (.next hat h.closed) (Nat.le_refl pos) fun _ c₁ pos₁ hat₁ _ hlt₁ => ?_
    have hlt₁ := hlt₁ (by simp [hk])
    refine .bind (h.reads .expression hat₁ (.inl hlt₁)) (by omega)
      fun inner c₂ pos₂ hat₂ hle₂ _ => ?_
    exact .bind (.expectMark hat₂ h.closed _ _) (by omega)
      fun _ c₃ pos₃ hat₃ hle₃ _ => .spanFrom (.pure hat₃ (by omega) fun _ => by omega)
  · exact .bind (.note hat _ _) (Nat.le_refl pos) fun _ _ _ hat₁ hle₁ _ => .fail hat₁ hle₁

/-! ### Declarations -/

private theorem blockBody (h : Below ts r r' .blockBody pos) : Alike ts r r' .blockBody pos c := by
  refine .bind (h.reads (.declarations (some .rightBrace)) hat (.inr ⟨rfl, Nat.lt_succ_self 20⟩))
    (Nat.le_refl pos) fun body c₁ pos₁ hat₁ hle₁ _ => ?_
  exact .bind (.expectMark hat₁ h.closed _ _) hle₁
    fun _ c₂ pos₂ hat₂ hle₂ _ => .pure hat₂ (by omega) fun _ => by omega

private theorem declarations (closing : Option Mark)
    (h : Below ts r r' (.declarations closing) pos) :
    Alike ts r r' (.declarations closing) pos c := by
  refine .atListEnd ?_
  split
  · exact .pure hat (Nat.le_refl pos) (by simp [Piece.takes])
  · rename_i hmore
    have hk : c.current.kind ≠ .eof := fun hk => hmore (by simp [Cursor.atEnd, hk])
    have hfirst := h.reads .declaration hat (.inr ⟨rfl, Nat.lt_succ_self 19⟩)
    refine .bind (.recover hat h.closed hk
      (hfirst.weaken (Nat.le_refl pos) fun _ _ _ hlt => hlt rfl))
      (Nat.le_refl pos) fun first c₁ pos₁ hat₁ _ hlt₁ => ?_
    exact .bind (h.reads (.declarations closing) hat₁ (.inl hlt₁)) (by omega)
      fun others c₂ pos₂ hat₂ hle₂ _ => .pure hat₂ (by omega) (by simp [Piece.takes])

private theorem declaration (h : Below ts r r' .declaration pos) :
    Alike ts r r' .declaration pos c := by
  refine .peek ?_
  split
  · exact h.reads .classDecl hat (.inr ⟨rfl, by decide⟩)
  · rename_i hk
    refine .peekSecond ?_
    split
    · refine .bind (.next hat h.closed) (Nat.le_refl pos) fun start c₁ pos₁ hat₁ _ hlt₁ => ?_
      have hlt₁ := hlt₁ (by simp [hk])
      exact .bind (h.reads (.funDecl start.span .function) hat₁ (.inl hlt₁)) (by omega)
        fun f c₂ pos₂ hat₂ hle₂ _ => .pure hat₂ (by omega) fun _ => by omega
    · exact h.reads .statement hat (.inr ⟨rfl, by decide⟩)
  · exact h.reads .varDecl hat (.inr ⟨rfl, by decide⟩)
  · exact h.reads .statement hat (.inr ⟨rfl, by decide⟩)

private theorem classDecl (h : Below ts r r' .classDecl pos) : Alike ts r r' .classDecl pos c := by
  refine .bind (.next hat h.closed) (Nat.le_refl pos) fun start c₁ pos₁ hat₁ hle₁ _ => ?_
  refine .bind (.expectName hat₁ h.closed _) hle₁ fun name c₂ pos₂ hat₂ _ hlt₂ => ?_
  refine .bind (superclassUse_abreast h.closed hat₂) (by omega)
    fun superclass c₃ pos₃ hat₃ hle₃ _ => ?_
  refine .bind (.expectMark hat₃ h.closed _ _) (by omega) fun _ c₄ pos₄ hat₄ hle₄ _ => ?_
  refine .bind (h.reads .members hat₄ (.inl (by omega))) (by omega)
    fun q c₅ pos₅ hat₅ hle₅ _ => ?_
  obtain ⟨methods, statics⟩ := q
  exact .bind (.expectMark hat₅ h.closed _ _) (by omega)
    fun _ c₆ pos₆ hat₆ hle₆ _ => .spanFrom (.pure hat₆ (by omega) fun _ => by omega)

private theorem members (h : Below ts r r' .members pos) : Alike ts r r' .members pos c := by
  refine .atListEnd ?_
  split
  · exact .pure hat (Nat.le_refl pos) (by simp [Piece.takes])
  · refine .current ?_
    split
    · rename_i hk
      refine .bind (.next hat h.closed) (Nat.le_refl pos) fun _ c₁ pos₁ hat₁ _ hlt₁ => ?_
      have hlt₁ := hlt₁ (by simp [hk])
      refine .bind (h.reads (.funDecl _ _) hat₁ (.inl hlt₁)) (by omega)
        fun static c₂ pos₂ hat₂ hle₂ _ => ?_
      refine .bind (h.reads .members hat₂ (.inl (by omega))) (by omega)
        fun q c₃ pos₃ hat₃ hle₃ _ => ?_
      obtain ⟨methods, statics⟩ := q
      exact .pure hat₃ (by omega) (by simp [Piece.takes])
    · refine .bind (h.reads (.funDecl _ _) hat (.inr ⟨rfl, Nat.lt_succ_self 1⟩)) (Nat.le_refl pos)
        fun method c₁ pos₁ hat₁ _ hlt₁ => ?_
      have hlt₁ := hlt₁ rfl
      refine .bind (h.reads .members hat₁ (.inl hlt₁)) (by omega) fun q c₂ pos₂ hat₂ hle₂ _ => ?_
      obtain ⟨methods, statics⟩ := q
      exact .pure hat₂ (by omega) (by simp [Piece.takes])

private theorem varDecl (h : Below ts r r' .varDecl pos) : Alike ts r r' .varDecl pos c := by
  refine .bind (.next hat h.closed) (Nat.le_refl pos) fun start c₁ pos₁ hat₁ hle₁ _ => ?_
  refine .bind (.expectName hat₁ h.closed _) hle₁ fun name c₂ pos₂ hat₂ _ hlt₂ => ?_
  refine .bind (h.reads .initializer hat₂ (.inl (by omega))) (by omega)
    fun init c₃ pos₃ hat₃ hle₃ _ => ?_
  exact .bind (.expectMark hat₃ h.closed _ _) (by omega)
    fun _ c₄ pos₄ hat₄ hle₄ _ => .spanFrom (.pure hat₄ (by omega) fun _ => by omega)

private theorem initializer (h : Below ts r r' .initializer pos) :
    Alike ts r r' .initializer pos c := by
  refine .bind (.accept hat h.closed (by simp)) (Nat.le_refl pos) fun b c₁ pos₁ hat₁ hle₁ hb => ?_
  split
  · exact .bind (h.reads .expression hat₁ (.inl (hb ‹_›))) hle₁
      fun e c₂ pos₂ hat₂ hle₂ _ => .pure hat₂ (by omega) (by simp [Piece.takes])
  · exact .pure hat₁ hle₁ (by simp [Piece.takes])

/-! ### Statements -/

private theorem expressionUnless (mark : Mark) (h : Below ts r r' (.expressionUnless mark) pos) :
    Alike ts r r' (.expressionUnless mark) pos c := by
  refine .peek ?_
  split
  · exact .pure hat (Nat.le_refl pos) (by simp [Piece.takes])
  · exact .bind (h.reads .expression hat (.inr ⟨rfl, Nat.lt_succ_self 16⟩)) (Nat.le_refl pos)
      fun e c₁ pos₁ hat₁ hle₁ _ => .pure hat₁ hle₁ (by simp [Piece.takes])

private theorem ended {α β γ : Type} {q : Piece β} {low : Nat}
    (h : Below ts r r' q low) (p : Piece γ)
    (hp : p.Before pos q low) (start : Span) (what : Wanted) (k : Span → γ → α) :
    Abreast ts pos (fun _ stop => pos < stop)
      (do
        let x ← r p
        let _ ← Parser.expectMark .semicolon what
        return k (← Parser.spanFrom start) x)
      (do
        let x ← r' p
        let _ ← Parser.expectMark .semicolon what
        return k (← Parser.spanFrom start) x) c := by
  refine .bind (h.reads p hat hp) (Nat.le_refl pos) fun x c₁ pos₁ hat₁ hle₁ _ => ?_
  exact .bind (.expectMark hat₁ h.closed _ _) hle₁
    fun _ c₂ pos₂ hat₂ hle₂ _ => .spanFrom (.pure hat₂ (by omega) (by omega))

private theorem statement (h : Below ts r r' .statement pos) : Alike ts r r' .statement pos c := by
  refine .current ?_
  split
  · exact h.reads .forStmt hat (.inr ⟨rfl, by decide⟩)
  · exact h.reads .ifStmt hat (.inr ⟨rfl, by decide⟩)
  · rename_i hk
    refine .bind (.next hat h.closed) (Nat.le_refl pos) fun _ c₁ pos₁ hat₁ _ hlt₁ => ?_
    have hlt₁ := hlt₁ (by simp [hk])
    exact (ended hat₁ h .expression (.inl hlt₁) c.current.span .printEnd Stmt.printStmt).weaken
      (by omega) fun _ _ _ _ _ => by omega
  · rename_i hk
    refine .bind (.next hat h.closed) (Nat.le_refl pos) fun _ c₁ pos₁ hat₁ _ hlt₁ => ?_
    have hlt₁ := hlt₁ (by simp [hk])
    exact (ended hat₁ h (.expressionUnless .semicolon) (.inl hlt₁) c.current.span .returnEnd
      Stmt.returnStmt).weaken (by omega) fun _ _ _ _ _ => by omega
  · exact h.reads .whileStmt hat (.inr ⟨rfl, by decide⟩)
  · refine .bind (.next hat h.closed) (Nat.le_refl pos) fun _ c₁ pos₁ hat₁ hle₁ _ => ?_
    exact .bind (.expectMark hat₁ h.closed _ _) hle₁
      fun _ c₂ pos₂ hat₂ hle₂ _ => .spanFrom (.pure hat₂ (by omega) fun _ => by omega)
  · rename_i hk
    refine .bind (.next hat h.closed) (Nat.le_refl pos) fun _ c₁ pos₁ hat₁ _ hlt₁ => ?_
    have hlt₁ := hlt₁ (by simp [hk])
    exact .bind (h.reads .blockBody hat₁ (.inl hlt₁)) (by omega)
      fun body c₂ pos₂ hat₂ hle₂ _ => .spanFrom (.pure hat₂ (by omega) fun _ => by omega)
  · exact h.reads .exprStmt hat (.inr ⟨rfl, by decide⟩)

private theorem exprStmt (h : Below ts r r' .exprStmt pos) : Alike ts r r' .exprStmt pos c :=
  .current ((ended hat h .expression (.inr ⟨rfl, by decide⟩) c.current.span .statementEnd
    Stmt.exprStmt).weaken (Nat.le_refl pos) fun _ _ _ hlt _ => hlt)

private theorem forInit (h : Below ts r r' .forInit pos) : Alike ts r r' .forInit pos c := by
  refine .peek ?_
  split
  · rename_i hk
    exact .bind (.next hat h.closed) (Nat.le_refl pos)
      fun _ c₁ pos₁ hat₁ hle₁ hlt₁ => .pure hat₁ hle₁ fun _ => hlt₁ (by simp [hk])
  · exact .bind (h.reads .varDecl hat (.inr ⟨rfl, by decide⟩)) (Nat.le_refl pos)
      fun s c₁ pos₁ hat₁ hle₁ hlt₁ => .pure hat₁ hle₁ hlt₁
  · exact .bind (h.reads .exprStmt hat (.inr ⟨rfl, by decide⟩)) (Nat.le_refl pos)
      fun s c₁ pos₁ hat₁ hle₁ hlt₁ => .pure hat₁ hle₁ hlt₁

private theorem head {α β : Type} {q : Piece β} {k k' : Token → Expr → Parser α}
    (h : Below ts r r' q pos) (what what' : Wanted)
    (hk : ∀ start e c₁ pos₁, c₁.At ts pos₁ → pos < pos₁ →
      Abreast ts pos (fun _ stop => pos < stop) (k start e) (k' start e) c₁) :
    Abreast ts pos (fun _ stop => pos < stop)
      (do
        let start ← Parser.next
        let _ ← Parser.expectMark .leftParen what
        let condition ← r .expression
        let _ ← Parser.expectMark .rightParen what'
        k start condition)
      (do
        let start ← Parser.next
        let _ ← Parser.expectMark .leftParen what
        let condition ← r' .expression
        let _ ← Parser.expectMark .rightParen what'
        k' start condition) c := by
  refine .bind (.next hat h.closed) (Nat.le_refl pos) fun start c₁ pos₁ hat₁ hle₁ _ => ?_
  refine .bind (.expectMark hat₁ h.closed _ _) hle₁ fun _ c₂ pos₂ hat₂ _ hlt₂ => ?_
  refine .bind (h.reads .expression hat₂ (.inl (by omega))) (by omega)
    fun condition c₃ pos₃ hat₃ hle₃ _ => ?_
  exact .bind (.expectMark hat₃ h.closed _ _) (by omega)
    fun _ c₄ pos₄ hat₄ hle₄ _ => hk start condition c₄ pos₄ hat₄ (by omega)

private theorem ifStmt (h : Below ts r r' .ifStmt pos) : Alike ts r r' .ifStmt pos c := by
  refine (head hat h .ifHead .ifEnd fun start condition c₁ pos₁ hat₁ hlt₁ => ?_).weaken
    (Nat.le_refl pos) fun _ _ _ hlt _ => hlt
  refine .bind (h.reads .statement hat₁ (.inl hlt₁)) (by omega) fun yes c₂ pos₂ hat₂ hle₂ _ => ?_
  refine .bind (.accept hat₂ h.closed (by simp)) (by omega) fun b c₃ pos₃ hat₃ hle₃ _ => ?_
  split
  · exact .bind (h.reads .statement hat₃ (.inl (by omega))) (by omega)
      fun no c₄ pos₄ hat₄ hle₄ _ => .spanFrom (.pure hat₄ (by omega) (by omega))
  · exact .spanFrom (.pure hat₃ (by omega) (by omega))

private theorem whileStmt (h : Below ts r r' .whileStmt pos) : Alike ts r r' .whileStmt pos c := by
  refine (head hat h .whileHead .whileEnd fun start condition c₁ pos₁ hat₁ hlt₁ => ?_).weaken
    (Nat.le_refl pos) fun _ _ _ hlt _ => hlt
  exact .bind (h.reads .statement hat₁ (.inl hlt₁)) (by omega)
    fun body c₂ pos₂ hat₂ hle₂ _ => .spanFrom (.pure hat₂ (by omega) (by omega))

private theorem forStmt (h : Below ts r r' .forStmt pos) : Alike ts r r' .forStmt pos c := by
  refine .bind (.next hat h.closed) (Nat.le_refl pos) fun start c₁ pos₁ hat₁ hle₁ _ => ?_
  refine .bind (.expectMark hat₁ h.closed _ _) hle₁ fun _ c₂ pos₂ hat₂ _ hlt₂ => ?_
  refine .bind (h.reads .forInit hat₂ (.inl (by omega))) (by omega)
    fun init c₃ pos₃ hat₃ hle₃ _ => ?_
  refine .bind (h.reads (.expressionUnless .semicolon) hat₃ (.inl (by omega))) (by omega)
    fun condition c₄ pos₄ hat₄ hle₄ _ => ?_
  refine .bind (.expectMark hat₄ h.closed _ _) (by omega) fun _ c₅ pos₅ hat₅ hle₅ _ => ?_
  refine .bind (h.reads (.expressionUnless .rightParen) hat₅ (.inl (by omega))) (by omega)
    fun step c₆ pos₆ hat₆ hle₆ _ => ?_
  refine .bind (.expectMark hat₆ h.closed _ _) (by omega) fun _ c₇ pos₇ hat₇ hle₇ _ => ?_
  exact .bind (h.reads .statement hat₇ (.inl (by omega))) (by omega)
    fun body c₈ pos₈ hat₈ hle₈ _ => .spanFrom (.pure hat₈ (by omega) fun _ => by omega)

/-! ### All pieces -/

theorem alike {α : Type} {p : Piece α} (h : Below ts r r' p pos) : Alike ts r r' p pos c := by
  cases p with
  | paramsFrom count => exact paramsFrom hat count h
  | expression => exact expression hat h
  | conditional => exact conditional hat h
  | chain tier => exact chain hat tier h
  | chainAfter tier left => exact chainAfter hat tier left h
  | operand tier => exact operand hat tier h
  | unary => exact unary hat h
  | callAfter head => exact callAfter hat head h
  | arguments => exact arguments hat h
  | argumentsFrom count => exact argumentsFrom hat count h
  | primary => exact primary hat h
  | blockBody => exact blockBody hat h
  | declarations closing => exact declarations hat closing h
  | declaration => exact declaration hat h
  | classDecl => exact classDecl hat h
  | members => exact members hat h
  | funDecl start role => exact funDecl hat start role h
  | varDecl => exact varDecl hat h
  | initializer => exact initializer hat h
  | statement => exact statement hat h
  | expressionUnless mark => exact expressionUnless hat mark h
  | exprStmt => exact exprStmt hat h
  | forStmt => exact forStmt hat h
  | forInit => exact forInit hat h
  | ifStmt => exact ifStmt hat h
  | whileStmt => exact whileStmt hat h

end Below
end Lox.Parser
