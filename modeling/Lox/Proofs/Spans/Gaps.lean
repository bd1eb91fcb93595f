import Lox.Proofs.Layout.Shows
import Lox.Proofs.Parse
import Lox.Proofs.Spans.Natural

set_option autoImplicit false
set_option relaxedAutoImplicit false

namespace Lox

open Text (lit)

namespace Token

/-- The gaps that can stand before anything: blanks, comments up to a line feed, and closed block
comments, whose bytes may be any that do not end them. -/
inductive IsFiller : Text → Prop
  | nil : IsFiller []
  | blank {b : UInt8} {g : Text} : isBlank b = true → IsFiller g → IsFiller (b :: g)
  | line {body g : Text} :
      Byte.lineFeed ∉ body → IsFiller g →
      IsFiller (Byte.slash :: Byte.slash :: (body ++ Byte.lineFeed :: g))
  | block {body g : Text} :
      ¬ [Byte.star, Byte.slash] <:+: body ++ [Byte.star] → IsFiller g →
      IsFiller (Byte.slash :: Byte.star :: (body ++ Byte.star :: Byte.slash :: g))

private theorem IsFiller.isGap {g : Text} (h : IsFiller g) (rest : Text) : IsGap rest g := by
  induction h with
  | nil => exact .nil
  | blank hb _ ih => exact .blank hb ih
  | line hbody _ ih => exact .line hbody (.inr ⟨_, rfl⟩) (.blank (by decide) ih)
  | block hbody _ ih => exact .block hbody ih

def written (t : Token) : Text :=
  if t.kind = .string then Byte.quote :: t.text ++ [Byte.quote] else t.text

private theorem IsLexeme.eq_written {t : Token} {bytes : Text} (h : IsLexeme t.kind t.text bytes) :
    t.written = bytes := by
  obtain ⟨kind, text, span⟩ := t
  cases h <;> rfl

/-- The lexemes of some tokens, with a gap after each. -/
def spread : List Token → List Text → Text
  | t :: ts, g :: gs => t.written ++ g ++ spread ts gs
  | _, _ => []

/-- Gaps for a list of tokens: one before all of them and one after each. Those after a token begin
with a blank, but the first and the last gap may be empty. -/
structure Spaces (ts : List Token) (before : Text) (after : List Text) : Prop where
  length : after.length = ts.length
  filler : ∀ g ∈ before :: after, IsFiller g
  blank : ∀ g ∈ after, g.head?.all isBlank = true
  inner : ∀ g ∈ after.dropLast, g ≠ []

/-- The kind and the text of a token, which are all of it but for its place. -/
def valued (t : Token) : Kind × Text := (t.kind, t.text)

private theorem Apart.blank {b : UInt8} (hb : isBlank b = true) (r : Text) : Apart (b :: r) := by
  simp only [isBlank, Bool.or_eq_true, beq_iff_eq] at hb
  rcases hb with ((rfl | rfl) | rfl) | rfl <;> exact .cons r (by decide)

namespace Spaces

variable {t : Token} {ts : List Token} {before g : Text} {gs : List Text}

private theorem tail (h : Spaces (t :: ts) before (g :: gs)) : Spaces ts g gs := by
  refine ⟨Nat.succ.inj h.length, fun g' hg' => h.filler g' (List.mem_cons_of_mem before hg'),
    fun g' hg' => h.blank g' (List.mem_cons_of_mem g hg'), fun g' hg' => ?_⟩
  cases gs with
  | nil => cases hg'
  | cons g₁ gs => exact h.inner g' (List.mem_cons_of_mem g hg')

private theorem apart (h : Spaces (t :: ts) before (g :: gs)) : Apart (g ++ spread ts gs) := by
  have hblank := h.blank g List.mem_cons_self
  cases g with
  | nil =>
    cases gs with
    | nil =>
      obtain rfl := List.length_eq_zero_iff.1 (Nat.succ.inj h.length).symm
      exact .nil
    | cons g₁ gs => exact absurd rfl (h.inner [] List.mem_cons_self)
  | cons b r => exact .blank hblank _

end Spaces

private theorem Reads.lexeme {file placed g bytes rest tail : Text} {kind : Kind} {text : Text}
    {ts : List Token} (hg : IsFiller g) (h : IsLexeme kind text bytes) (hrest : Apart rest)
    (hreads : Reads file (placed ++ g ++ bytes) rest ts tail) :
    Reads file placed (g ++ (bytes ++ rest))
      (tokenAt file (placed ++ g) { kind, text, bytes } :: ts)
      tail := by
  refine .token (hg.isGap _) (h.endsGap fun _ r => ⟨fun heq => ?_, fun heq => ?_⟩)
    ⟨h, rfl, h.longest hrest⟩ hreads
  · exact (hrest _ r heq).2.2.1 rfl
  · exact (hrest _ r heq).2.2.2.1 rfl

private theorem reads_spread (file : Text) {ts : List Token}
    (hts : ∀ t ∈ ts, ∃ bytes, IsLexeme t.kind t.text bytes) (placed before : Text)
    {after : List Text} (hspaces : Spaces ts before after) :
    ∃ us g, Reads file placed (before ++ spread ts after) us g ∧ IsGap [] g ∧
      us.map valued = ts.map valued := by
  induction ts generalizing placed before after with
  | nil =>
    refine ⟨[], before, ?_, (hspaces.filler before List.mem_cons_self).isGap [], rfl⟩
    have hnone : before ++ spread [] after = before := by simp [spread]
    rw [hnone]
    exact .done placed before
  | cons t ts ih =>
    obtain ⟨⟨bytes, hlexeme⟩, hts⟩ := List.forall_mem_cons.1 hts
    cases after with
    | nil => cases hspaces.length
    | cons g gs =>
      obtain ⟨us, last, hreads, hlast, hsame⟩ := ih hts (placed ++ before ++ bytes) g hspaces.tail
      refine ⟨tokenAt file (placed ++ before) { kind := t.kind, text := t.text, bytes } :: us, last,
        ?_, hlast, ?_⟩
      · rw [spread, hlexeme.eq_written, List.append_assoc]
        exact .lexeme (hspaces.filler before List.mem_cons_self) hlexeme hspaces.apart hreads
      · rw [List.map_cons, List.map_cons, hsame]
        rfl

private theorem scan_spread {file source before : Text} (file' : Text) {after : List Text}
    {tokens : List Token} (h : scan file source = .ok tokens)
    (hspaces : Spaces tokens.dropLast before after) :
    ∃ tokens', scan file' (before ++ spread tokens.dropLast after) = .ok tokens' ∧
      tokens'.map valued = tokens.map valued := by
  obtain ⟨ts, rfl, -, -, hlexemes⟩ := Program.ended_of_scan h
  rw [List.dropLast_concat] at hspaces ⊢
  obtain ⟨us, g, hreads, hlast, hsame⟩ := reads_spread file' hlexemes [] before hspaces
  refine ⟨_, Spells.scan_eq ⟨us, g, hreads, hlast, rfl⟩, ?_⟩
  rw [List.map_append, List.map_append, hsame]
  rfl

end Token

namespace Diagnostic

/-- What a diagnostic says, which is all of it but for its place. -/
def said (d : Diagnostic) : Code × Text × Text := (d.code, d.message, d.hint)

end Diagnostic

namespace Program

open Token

/-- Two readings of the same program, or two refusals that say the same. -/
def SameReading (x y : Except (List Diagnostic) Program) : Prop :=
  (∃ p q, x = .ok p ∧ y = .ok q ∧ q.bare = p.bare) ∨
    ∃ ds es, x = .error ds ∧ y = .error es ∧ es.map Diagnostic.said = ds.map Diagnostic.said

private theorem sameReading_of_readMoved {x y : Except (List Diagnostic) Program}
    (h : readMoved (fun _ => .blank) x = readMoved (fun _ => .blank) y) : SameReading x y := by
  cases x with
  | ok p =>
    cases y with
    | ok q =>
      refine .inl ⟨p, q, rfl, rfl, ?_⟩
      rw [← moved_blank, ← moved_blank]
      exact (Except.ok.inj h).symm
    | error es => cases h
  | error ds =>
    cases y with
    | ok q => cases h
    | error es =>
      refine .inr ⟨ds, es, rfl, rfl, ?_⟩
      have hsaid := congrArg (List.map Diagnostic.said) (Except.error.inj h)
      simp only [List.map_map] at hsaid
      exact hsaid.symm

private theorem ofTokens_of_valued {file file' : Text} {ts us : List Token} (hts : Parser.Ended ts)
    (hus : Parser.Ended us) (h : us.map valued = ts.map valued) :
    SameReading (ofTokens file ts) (ofTokens file' us) := by
  have hbare : us.map (Token.moved fun _ => .blank) = ts.map (Token.moved fun _ => .blank) := by
    have hmade := congrArg (List.map fun v : Kind × Text => (⟨v.1, v.2, .blank⟩ : Token)) h
    simp only [List.map_map] at hmade
    exact hmade
  refine sameReading_of_readMoved ?_
  rw [← ofTokens_moved Span.respects_blank
    [] hts, ← ofTokens_moved Span.respects_blank [] hus, hbare]

/-- Layout and comments never change the program. The lexemes of a source that can be cut into
tokens, written in order with any gaps between, before and after them, have the same kinds and texts
as tokens; they are read as the same program, or they are refused and the same is said. -/
theorem parse_spread {file source before : Text} (file' : Text) {after : List Text}
    {tokens : List Token} (h : scan file source = .ok tokens)
    (hspaces : Spaces tokens.dropLast before after) :
    (∃ tokens', scan file' (before ++ spread tokens.dropLast after) = .ok tokens' ∧
      tokens'.map valued = tokens.map valued) ∧
    SameReading (parse file source) (parse file' (before ++ spread tokens.dropLast after)) := by
  obtain ⟨tokens', hscan', hsame⟩ := scan_spread file' h hspaces
  refine ⟨⟨tokens', hscan', hsame⟩, ?_⟩
  obtain ⟨-, -, hended, -⟩ := ended_of_scan h
  obtain ⟨-, -, hended', -⟩ := ended_of_scan hscan'
  rw [parse, parse, h, hscan']
  exact ofTokens_of_valued hended hended' hsame

/-- A quote, a star, a slash and a byte that is no character stand in comments. -/
theorem parse_spread_remarks :
    let place (kind : Kind) (text : String) (start stop : Int) : Token :=
      { kind, text := lit text, span := { file := [], start := ⟨1, start⟩, stop := ⟨1, stop⟩ } }
    let tokens := [place (.keyword .print_) "print" 1 6, place (.mark .minus) "-" 6 7,
      place .number "1" 7 8, place (.mark .semicolon) ";" 8 9, place .eof "" 9 9]
    let before := lit "/* \"" ++ [255] ++ lit "**/"
    let after := [lit " // '\n", lit "\t", lit " /*/*/", []]
    let text := before ++ lit "print // '\n-\t1 /*/*/;"
    scan [] (lit "print-1;") = .ok tokens ∧ Spaces tokens.dropLast before after ∧
      (∃ tokens', scan [] text = .ok tokens' ∧ tokens'.map valued = tokens.map valued) ∧
      SameReading (parse [] (lit "print-1;")) (parse [] text) := by
  intro place tokens before after text
  have hscan : scan [] (lit "print-1;") = .ok tokens := eq_ok_of_toOption (by decide +kernel)
  have hbefore : before = Byte.slash :: Byte.star ::
      ((lit " \"" ++ [255] ++ lit "*") ++ Byte.star :: Byte.slash :: []) := by decide
  have hafter : after = [Byte.space :: Byte.slash :: Byte.slash :: (lit " '" ++ [Byte.lineFeed]),
      [Byte.tab], Byte.space :: Byte.slash :: Byte.star :: (lit "/" ++ [Byte.star, Byte.slash]),
      []] := by decide
  have hspaces : Spaces tokens.dropLast before after := by
    refine ⟨rfl, ?_, by decide, by decide⟩
    rw [hbefore, hafter]
    simp only [List.forall_mem_cons]
    exact ⟨.block (by decide) .nil, .blank (by decide) (.line (by decide) .nil),
      .blank (by decide) .nil, .blank (by decide) (.block (by decide) .nil), .nil, nofun⟩
  obtain ⟨hexists, hreading⟩ := parse_spread [] hscan hspaces
  have htext : before ++ spread tokens.dropLast after = text := by decide
  rw [htext] at hexists hreading
  exact ⟨hscan, hspaces, hexists, hreading⟩

end Program
end Lox
