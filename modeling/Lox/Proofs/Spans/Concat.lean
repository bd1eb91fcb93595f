import Lox.Proofs.Completion.Writing
import Lox.Proofs.Spans.Exact
import Lox.Proofs.Spans.Natural
import Lox.Proofs.Spans.Unique

set_option autoImplicit false
set_option relaxedAutoImplicit false

namespace Lox

open Text (lit)

/-! ### Places on later lines -/

def Pos.down (n : Int) (p : Pos) : Pos := { p with line := p.line + n }

/-- The same piece some lines further down. -/
def Span.down (n : Int) (s : Span) : Span :=
  { s with start := s.start.down n, stop := s.stop.down n }

private theorem Span.respects_down (n : Int) : Span.Respects (Span.down n) := fun _ _ => rfl

private theorem Pos.down_advance (n : Int) (p : Pos) (b : UInt8) :
    (p.down n).advance b = (p.advance b).down n := by
  unfold Pos.advance Pos.down
  split
  · simp only [Pos.mk.injEq, and_true]
    omega
  · rfl

private theorem Pos.down_after (n : Int) (p : Pos) (t : Text) :
    (p.down n).after t = (p.after t).down n := by
  induction t generalizing p with
  | nil => rfl
  | cons b t ih =>
    have hstep : (p.down n).after (b :: t) = ((p.advance b).down n).after t :=
      congrArg (Pos.after · t) (p.down_advance n b)
    exact hstep.trans (ih _)

def Text.lines (t : Text) : Int := 1 + t.count Byte.lineFeed

private theorem Pos.ofBefore_line (s before : Text) :
    Pos.ofBefore (s ++ [Byte.lineFeed] ++ before) = (Pos.ofBefore before).down s.lines := by
  have hline : Pos.ofBefore (s ++ [Byte.lineFeed]) = (Pos.ofBefore []).down s.lines := by
    simp only [Pos.ofBefore, Pos.down, Text.lines, List.count_append, List.count_singleton_self,
      List.reverse_append, Pos.mk.injEq]
    exact ⟨by simp only [List.count_nil, Int.natCast_add]; omega, rfl⟩
  rw [Pos.ofBefore_append, hline, Pos.down_after, ← Pos.ofBefore_append, List.nil_append]

namespace Token

private theorem tokenAt_line (file s before : Text) (l : Lexeme) :
    tokenAt file (s ++ [Byte.lineFeed] ++ before) l =
      (tokenAt file before l).moved (Span.down s.lines) := by
  simp only [tokenAt, Token.moved, Span.down, List.append_assoc _ before, Pos.ofBefore_line]

private theorem eofAt_line (file s t : Text) :
    eofAt file (s ++ Byte.lineFeed :: t) = (eofAt file t).moved (Span.down s.lines) := by
  rw [List.append_cons]
  simp only [eofAt, Token.moved, Span.down, Pos.ofBefore_line]

private theorem Reads.line {file before t rest : Text} {ts : List Token}
    (h : Reads file before t ts rest) (s : Text) : Reads file (s ++ [Byte.lineFeed] ++ before) t
      (ts.map (Token.moved (Span.down s.lines))) rest := by
  induction h with
  | done => exact .done _ _
  | @token before g t rest tail l ts hgap hends hcuts _ ih =>
    rw [List.map_cons, ← tokenAt_line, ← List.append_assoc]
    refine .token hgap hends hcuts ?_
    simpa only [List.append_assoc] using ih

/-- The tokens of two sources one after another are those of the first and those of the second. -/
theorem scan_concat {file s t : Text} {ts us : List Token}
    (hs : scan file s = .ok (ts ++ [eofAt file s]))
    (ht : scan file t = .ok (us ++ [eofAt file t])) :
    scan file (s ++ Byte.lineFeed :: t) =
      .ok (ts ++ (us ++ [eofAt file t]).map (Token.moved (Span.down s.lines))) := by
  obtain ⟨ts', g, hreads, hgap, heq⟩ := scan_eq_ok_iff.1 hs
  obtain ⟨rfl, -⟩ := List.append_inj' heq rfl
  obtain ⟨us', g', hreads', hgap', heq'⟩ := scan_eq_ok_iff.1 ht
  obtain ⟨rfl, -⟩ := List.append_inj' heq' rfl
  have hline := hreads'.line s
  rw [List.append_nil] at hline
  obtain ⟨last, hboth, hlast⟩ := hreads.add_line hgap hline hgap'
  rw [List.map_append, List.map_singleton, ← eofAt_line, ← List.append_assoc]
  exact Spells.scan_eq ⟨_, last, hboth, hlast, rfl⟩

end Token

namespace Grammar

private theorem Derives.declarations_append {ts us : List Token} {body rest : List Stmt}
    (h : Derives .declarations ts (.stmts body)) (h' : Derives .declarations us (.stmts rest)) :
    Derives .declarations (ts ++ us) (.stmts (body ++ rest)) := by
  induction body generalizing ts with
  | nil =>
    cases h
    exact h'
  | cons first body ih =>
    cases h with
    | moreDeclarations hfirst hbody =>
      rw [List.append_assoc]
      exact .moreDeclarations hfirst (ih hbody)

end Grammar

namespace Program

open Grammar Lox.Parser Token

/-- A list of tokens that is read is derived, and the statements stand at all of it but its end. -/
theorem ofTokens_read {file : Text} {ts : List Token} {eof : Token} {p : Program}
    (hended : Ended (ts ++ [eof])) (h : ofTokens file (ts ++ [eof]) = .ok p) :
    eof.kind = .eof ∧ Derives .declarations ts (.stmts p.body) ∧
      StandAll (Piece.statements p.body) ts := by
  obtain ⟨us, eof', heq, hstand, -⟩ := ofTokens_stands hended h
  obtain rfl := (List.append_inj' heq rfl).1
  obtain ⟨q, hq, us, eof', heq', heof, hderives⟩ | ⟨ds, hds, -⟩ := ofTokens_sound file hended
  · cases hq.symm.trans h
    obtain ⟨rfl, hlast⟩ := List.append_inj' heq' rfl
    obtain rfl := List.singleton_inj.1 hlast
    exact ⟨heof, hderives, hstand⟩
  · cases hds.symm.trans h

/-- Tokens that are read, with other tokens that are read in the place of their end, are read as the
statements of both. -/
theorem ofTokens_append {file : Text} {ts us : List Token} {eof : Token} {p q : Program}
    (hts : Ended (ts ++ [eof])) (hp : ofTokens file (ts ++ [eof]) = .ok p) (hus : Ended us)
    (hended : Ended (ts ++ us)) (hq : ofTokens file us = .ok q) :
    ∃ r, ofTokens file (ts ++ us) = .ok r ∧ r.body = p.body ++ q.body := by
  obtain ⟨-, hfirst, hstand⟩ := ofTokens_read hts hp
  obtain ⟨vs, last, rfl, -, -⟩ := ofTokens_stands hus hq
  obtain ⟨hlast, hsecond, hstand'⟩ := ofTokens_read hus hq
  rw [← List.append_assoc] at hended ⊢
  have hprogram : IsProgram (ts ++ vs ++ [last]) (p.body ++ q.body) :=
    ⟨_, last, rfl, hlast, hfirst.declarations_append hsecond⟩
  obtain ⟨r, hr, hbare⟩ := ofTokens_complete file hended hprogram
  obtain ⟨-, -, hstand''⟩ := ofTokens_read hended hr
  refine ⟨r, hr, statements_unique hstand'' ?_ hbare⟩
  rw [Piece.statements, List.map_append]
  exact hstand.append hstand'

private theorem parse_eq_ok {file source : Text} {p : Program} (h : parse file source = .ok p) :
    ∃ ts, scan file source = .ok (ts ++ [eofAt file source]) ∧ Ended (ts ++ [eofAt file source]) ∧
      ofTokens file (ts ++ [eofAt file source]) = .ok p := by
  unfold parse at h
  split at h
  · rename_i tokens hscan
    obtain ⟨ts, rfl, hended, -, -⟩ := ended_of_scan hscan
    exact ⟨ts, hscan, hended, h⟩
  · cases h

/-- Reading is a homomorphism for complete sources one after another: two sources that are read, the
second on a new line, are read together, as the statements of the first and those of the second,
whose spans are as many lines further down as the first source takes. -/
theorem parse_concat {file s t : Text} {p q : Program} (hp : parse file s = .ok p)
    (hq : parse file t = .ok q) :
    ∃ r, parse file (s ++ Byte.lineFeed :: t) = .ok r ∧
      r.body = p.body ++ Stmt.movedAll (Span.down (1 + s.count Byte.lineFeed)) q.body := by
  obtain ⟨ts, hs, hts, hp⟩ := parse_eq_ok hp
  obtain ⟨us, ht, hus, hq⟩ := parse_eq_ok hq
  have hscan := scan_concat hs ht
  obtain ⟨-, -, hended, -⟩ := ended_of_scan hscan
  have hmoved : ofTokens file ((us ++ [eofAt file t]).map (Token.moved (Span.down s.lines))) =
      .ok (q.moved (Span.down s.lines)) := by
    rw [ofTokens_moved (Span.respects_down s.lines) file hus, hq]
    rfl
  obtain ⟨r, hr, hbody⟩ := ofTokens_append hts hp (hus.moved _) hended hmoved
  refine ⟨r, ?_, hbody⟩
  rw [parse, hscan]
  exact hr

/-- A branch without an `else` before a line that ends with a comment, and a source after it. -/
theorem parse_concat_openLine :
    let s := lit "if (a)\n  b; // the else"
    let t := lit "c;\n d;"
    let place (line start stop : Int) : Span :=
      { file := [], start := ⟨line, start⟩, stop := ⟨line, stop⟩ }
    ∃ p q r, parse [] s = .ok p ∧ parse [] t = .ok q ∧
      q.body.map Stmt.span = [place 1 1 3, place 2 2 4] ∧
      parse [] (s ++ Byte.lineFeed :: t) = .ok r ∧
      r.body = p.body ++ Stmt.movedAll (Span.down 2) q.body ∧
      (Stmt.movedAll (Span.down 2) q.body).map Stmt.span = [place 3 1 3, place 4 2 4] := by
  intro s t place
  have hs : (parse [] s).toOption.isSome = true := by decide +kernel
  have ht : (parse [] t).toOption.map (fun q => (q.body.map Stmt.span,
      (Stmt.movedAll (Span.down 2) q.body).map Stmt.span)) =
      some ([place 1 1 3, place 2 2 4], [place 3 1 3, place 4 2 4]) := by decide +kernel
  have hlines : (1 + s.count Byte.lineFeed : Int) = 2 := by decide
  cases hp : parse [] s with
  | error ds =>
    rw [hp] at hs
    cases hs
  | ok p =>
    cases hq : parse [] t with
    | error ds =>
      rw [hq] at ht
      cases ht
    | ok q =>
      rw [hq] at ht
      obtain ⟨hspans, hmoved⟩ := Prod.mk.inj (Option.some.inj ht)
      obtain ⟨r, hr, hbody⟩ := parse_concat hp hq
      rw [hlines] at hbody
      exact ⟨p, q, r, rfl, rfl, hspans, hr, hbody, hmoved⟩

end Program
end Lox
