import Lox.Proofs.Grammar.Exact
import Lox.Proofs.Lexing

set_option autoImplicit false
set_option relaxedAutoImplicit false

namespace Lox

open Text (lit)
open Grammar

theorem eq_ok_of_toOption {ε α : Type} {x : Except ε α} {a : α} (h : x.toOption = some a) :
    x = .ok a := by
  cases x with
  | error e => cases h
  | ok b => exact congrArg _ (Option.some.inj h)

namespace Token

theorem Reads.lexemes {file before t rest : Text} {ts : List Token}
    (h : Reads file before t ts rest) : ∀ token ∈ ts, ∃ bytes,
    IsLexeme token.kind token.text bytes := by
  induction h with
  | done => exact List.forall_mem_nil _
  | @token _ _ _ _ _ l _ _ _ hcut _ ih =>
    intro token htoken
    rcases List.mem_cons.1 htoken with rfl | htoken
    · exact ⟨l.bytes, hcut.lexeme⟩
    · exact ih token htoken

theorem IsLexeme.ne_eof {kind : Kind} {text bytes : Text} (h : IsLexeme kind text bytes) :
    kind ≠ .eof := by
  cases h <;> simp

theorem IsLexeme.ne_keyword {text bytes : Text} (h : IsLexeme .name text bytes) (k : Keyword) :
    text ≠ k.spelling := by
  cases h with
  | name _ _ hk => exact (hk k).symm

theorem text_ne_keyword {t : Token} (h : ∃ bytes, IsLexeme t.kind t.text bytes)
    (hkind : t.kind = .name) (k : Keyword) : t.text ≠ k.spelling := by
  obtain ⟨bytes, hlexeme⟩ := h
  rw [hkind] at hlexeme
  exact hlexeme.ne_keyword k

end Token

namespace Program

open Token

theorem ended_of_scan {file source : Text} {tokens : List Token}
    (h : Token.scan file source = .ok tokens) : ∃ ts, tokens = ts ++ [eofAt file source] ∧
      Parser.Ended tokens ∧ Spells file source tokens ∧
      ∀ t ∈ ts, ∃ bytes, IsLexeme t.kind t.text bytes := by
  obtain ⟨ts, g, hreads, hgap, rfl⟩ := scan_eq_ok_iff.1 h
  have hlexemes := hreads.lexemes
  refine ⟨ts, rfl, Parser.ended_of_eof rfl fun t ht => ?_, ⟨ts, g, hreads, hgap, rfl⟩, hlexemes⟩
  obtain ⟨bytes, hlexeme⟩ := hlexemes t ht
  exact hlexeme.ne_eof

theorem parse_derives {file source : Text} {p : Program} (h : parse file source = .ok p) :
    ∃ ts, Spells file source (ts ++ [eofAt file source]) ∧
      (∀ t ∈ ts, ∃ bytes, IsLexeme t.kind t.text bytes) ∧
      Derives .declarations ts (.stmts p.body) := by
  unfold parse at h
  split at h
  · rename_i tokens hscan
    obtain ⟨ts, rfl, hended, hspells, hlexemes⟩ := ended_of_scan hscan
    obtain ⟨q, hq, hprogram⟩ | ⟨ds, hds, -⟩ := ofTokens_sound file hended
    · cases hq.symm.trans h
      obtain ⟨us, eof, heq, -, hderives⟩ := hprogram
      obtain ⟨rfl, -⟩ := List.append_inj' heq rfl
      exact ⟨ts, hspells, hlexemes, hderives⟩
    · cases hds.symm.trans h
  · cases h

theorem parse_error_ne_nil {file source : Text} {ds : List Diagnostic}
    (h : parse file source = .error ds) : ds ≠ [] := by
  unfold parse at h
  split at h
  · rename_i tokens hscan
    obtain ⟨ts, rfl, hended, -, -⟩ := ended_of_scan hscan
    obtain ⟨q, hq, -⟩ | ⟨ds', hds', hne⟩ := ofTokens_sound file hended
    · cases hq.symm.trans h
    · cases hds'.symm.trans h
      exact hne
  · cases h
    nofun

end Program
end Lox
