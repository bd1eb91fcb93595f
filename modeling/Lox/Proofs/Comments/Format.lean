import Lox.Console.Task
import Lox.Proofs.Comments.Scan
import Lox.Proofs.Grammar.Worded

set_option autoImplicit false
set_option relaxedAutoImplicit false

namespace Lox

open Text (lit)
open Token

/-! ### Canonical forms -/

namespace Layout

namespace Quiet

variable {t u v : Text} {depth : Nat}

private theorem name (h : IsLexeme .name t t) : Quiet t := by
  refine h.quiet ?_
  rintro rfl
  cases h with
  | name hb _ _ => exact absurd hb (by decide)

private theorem infix_ (ht : Quiet t) (hu : Quiet (lit " " ++ u ++ lit " ")) (hv : Quiet v) :
    Quiet (t ++ lit " " ++ u ++ lit " " ++ v) := by
  have hall := (ht.append hu).append hv
  simpa only [List.append_assoc] using hall

private theorem wrapped (inner outer : Int) (side : Side) (h : Quiet t) :
    Quiet (wrapped inner outer side t) := by
  unfold Layout.wrapped
  split
  · exact .append (.append (fun _ => rfl) h) fun _ => rfl
  · exact h

private theorem join {sep : Text} {ts : List Text} (hsep : Quiet sep) (h : ∀ t ∈ ts, Quiet t) :
    Quiet (Text.join sep ts) := by
  unfold Text.join
  induction ts with
  | nil => exact nil
  | cons t ts ih =>
    rw [List.forall_mem_cons] at h
    cases ts with
    | nil => simpa using h.1
    | cons u ts =>
      rw [List.intercalate_cons_cons]
      exact (h.1.append hsep).append (ih h.2)

private theorem indentation (depth : Nat) : Quiet (indentation depth) := by
  refine of_plain fun b hb => ?_
  rw [(List.mem_replicate.1 hb).2]
  decide

private theorem braced {ts : List Text} (depth : Nat) (h : ∀ t ∈ ts, Quiet t) :
    Quiet (braced depth ts) := by
  unfold Layout.braced
  split
  · exact fun _ => rfl
  · exact .append (.append (.append (.append (fun _ => rfl) (join (fun _ => rfl) h)) fun _ => rfl)
      (indentation depth)) fun _ => rfl

private theorem attached (sameLine : Bool) {layout : Nat → Text} (h : ∀ d, Quiet (layout d)) :
    Quiet (attached sameLine depth layout) := by
  unfold Layout.attached
  split
  · exact .append (fun _ => rfl) (h depth)
  · exact .append (.append (fun _ => rfl) (indentation _)) (h _)

private theorem listSource {ps : List Param} (h : ∀ p ∈ ps, IsLexeme .name p.name p.name) :
    Quiet (Param.listSource ps) :=
  .append (.append (fun _ => rfl) (join (fun _ => rfl)
    (List.forall_mem_map.2 fun p hp => name (h p hp)))) fun _ => rfl

private theorem literal {v : Literal} (h : v.Writable) : Quiet v.source := by
  match v, h with
  | .nil, _ => exact fun _ => rfl
  | .bool true, _ | .bool false, _ => exact fun _ => rfl
  | .string t, h => exact string h.2
  | .number x, ⟨m, q, hx⟩ =>
    obtain ⟨hlexeme, -⟩ := Decimal.read?_literal hx
    refine hlexeme.quiet fun hslash => ?_
    have hmark : IsLexeme .number (Decimal.literal x) [Byte.slash] := by
      rwa [← hslash]
    obtain ⟨-, ⟨hkind, -⟩ | ⟨_, hnone, -⟩⟩ := hmark.of_mark (m := .slash) rfl
    · cases hkind
    · cases hnone

private theorem binaryOp {op : BinaryOp} (h : ∀ t, op ≠ .other t) :
    Quiet (lit " " ++ op.spelling ++ lit " ") := by
  cases op with
  | other t => exact absurd rfl (h t)
  | div => exact fun _ => rfl
  | _ => exact fun _ => rfl

private theorem logicalOp {op : LogicalOp} (h : ∀ t, op ≠ .other t) :
    Quiet (lit " " ++ op.spelling ++ lit " ") := by
  cases op with
  | other t => exact absurd rfl (h t)
  | _ => exact fun _ => rfl

private theorem unaryOp {op : UnaryOp} (h : ∀ t, op ≠ .other t) : Quiet op.spelling := by
  cases op with
  | other t => exact absurd rfl (h t)
  | _ => exact fun _ => rfl

end Quiet

mutual

theorem quiet_expr (depth : Nat) (e : Expr) (h : e.Worded) : Quiet (expr depth e) := by
  cases e with
  | literal _ v => exact .literal h
  | grouping _ e => exact .append (.append (fun _ => rfl) (quiet_expr depth e h)) fun _ => rfl
  | name use => exact .name h.1
  | assign target e =>
    exact .append (.append (.name h.1.1) fun _ => rfl) (quiet_expr depth e h.2)
  | unary _ op e => exact .append (.unaryOp h.1) (.wrapped _ _ _ (quiet_expr depth e h.2))
  | binary _ op a b =>
    exact .infix_ (.wrapped _ _ _ (quiet_expr depth a h.2.1)) (.binaryOp h.1)
      (.wrapped _ _ _ (quiet_expr depth b h.2.2))
  | logical _ op a b =>
    exact .infix_ (.wrapped _ _ _ (quiet_expr depth a h.2.1)) (.logicalOp h.1)
      (.wrapped _ _ _ (quiet_expr depth b h.2.2))
  | conditional _ c a b =>
    exact .append (.append (.append (.append (.wrapped _ _ _ (quiet_expr depth c h.1)) fun _ => rfl)
      (quiet_expr depth a h.2.1)) fun _ => rfl) (.wrapped _ _ _ (quiet_expr depth b h.2.2))
  | call _ f args =>
    exact .append (.append (.append (.wrapped _ _ _ (quiet_expr depth f h.1)) fun _ => rfl)
      (.join (fun _ => rfl) (quiet_exprs depth args h.2))) fun _ => rfl
  | get _ o n =>
    exact .append (.append (.wrapped _ _ _ (quiet_expr depth o h.1)) fun _ => rfl) (.name h.2)
  | set _ o n e =>
    exact .append (.append (.append (.append (.wrapped _ _ _ (quiet_expr depth o h.1)) fun _ => rfl)
      (.name h.2.1)) fun _ => rfl) (quiet_expr depth e h.2.2)
  | this _ hops => exact fun _ => rfl
  | super _ m hops => exact .append (fun _ => rfl) (.name h.1)
  | lambda _ ps body =>
    exact .append (.append (.append (fun _ => rfl) (.listSource h.1)) fun _ => rfl)
      (.braced depth (quiet_lines (depth + 1) body h.2))

theorem quiet_exprs (depth : Nat) (es : List Expr) (h : Expr.WordedAll es) :
    ∀ t ∈ exprs depth es, Quiet t := by
  cases es with
  | nil => nofun
  | cons e es => exact List.forall_mem_cons.2 ⟨quiet_expr depth e h.1, quiet_exprs depth es h.2⟩

theorem quiet_stmt (depth : Nat) (s : Stmt) (h : s.Worded) : Quiet (stmt depth s) := by
  cases s with
  | exprStmt _ e => exact .append (quiet_expr depth e h) fun _ => rfl
  | printStmt _ e => exact .append (.append (fun _ => rfl) (quiet_expr depth e h)) fun _ => rfl
  | varDecl _ n init =>
    have hhead : Quiet (lit "var " ++ n) := .append (fun _ => rfl) (.name h.1)
    cases init with
    | none => exact hhead.append fun _ => rfl
    | some e =>
      exact .append (.append (hhead.append fun _ => rfl) (quiet_expr depth e h.2)) fun _ => rfl
  | block _ body => exact .braced depth (quiet_lines (depth + 1) body h)
  | ifStmt _ c a b =>
    have hhead : Quiet (lit "if (" ++ expr depth c ++ lit ")" ++
        attached a.isBlock depth fun d => stmt d a) :=
      .append (.append (.append (fun _ => rfl) (quiet_expr depth c h.1)) fun _ => rfl)
        (.attached _ fun d => quiet_stmt d a h.2.1)
    cases b with
    | none => exact hhead
    | some b =>
      refine .append (hhead.append ?_) (.attached _ fun d => quiet_stmt d b h.2.2)
      split
      · exact fun _ => rfl
      · exact .append (.append (fun _ => rfl) (.indentation depth)) fun _ => rfl
  | whileStmt _ c b =>
    exact .append (.append (.append (fun _ => rfl) (quiet_expr depth c h.1)) fun _ => rfl)
      (.attached _ fun d => quiet_stmt d b h.2)
  | forStmt _ init c step b =>
    obtain ⟨hinit, hc, hstep, hb⟩ := h
    have hbody : Quiet (attached b.isBlock depth fun d => stmt d b) :=
      .attached _ fun d => quiet_stmt d b hb
    cases init with
    | none =>
      exact .append (.append (.append (.append (fun _ => rfl) (quiet_condition depth c hc))
        (quiet_step depth step hstep)) fun _ => rfl) hbody
    | some init =>
      exact .append
        (.append (.append (.append (.append (fun _ => rfl) (quiet_stmt depth init hinit))
        (quiet_condition depth c hc)) (quiet_step depth step hstep)) fun _ => rfl) hbody
  | breakStmt _ => exact fun _ => rfl
  | returnStmt _ e =>
    cases e with
    | none => exact fun _ => rfl
    | some e => exact .append (.append (fun _ => rfl) (quiet_expr depth e h)) fun _ => rfl
  | funDecl d => exact .append (fun _ => rfl) (quiet_funDecl depth d h)
  | classDecl _ n sup methods statics =>
    obtain ⟨hn, hsup, hmethods, hstatics⟩ := h
    have hhead : Quiet (lit "class " ++ n) := .append (fun _ => rfl) (.name hn)
    have hbody : Quiet (braced depth (funLines (depth + 1) (lit "class ") statics ++
        funLines (depth + 1) [] methods)) :=
      .braced depth (List.forall_mem_append.2
        ⟨quiet_funLines (depth + 1) (fun _ => rfl) statics hstatics,
          quiet_funLines (depth + 1) .nil methods hmethods⟩)
    cases sup with
    | none => exact .append (hhead.append fun _ => rfl) hbody
    | some sup =>
      exact .append (.append (.append (hhead.append fun _ => rfl) (.name (hsup sup rfl).1))
        fun _ => rfl) hbody

theorem quiet_condition (depth : Nat) (c : Option Expr) (h : Expr.WordedOption c) :
    Quiet (condition depth c) := by
  cases c with
  | none => exact fun _ => rfl
  | some e => exact .append (.append (fun _ => rfl) (quiet_expr depth e h)) fun _ => rfl

theorem quiet_step (depth : Nat) (i : Option Expr) (h : Expr.WordedOption i) :
    Quiet (step depth i) := by
  cases i with
  | none => exact .nil
  | some e => exact .append (fun _ => rfl) (quiet_expr depth e h)

private theorem quiet_lines (depth : Nat) (ss : List Stmt) (h : Stmt.WordedAll ss) :
    ∀ t ∈ lines depth ss, Quiet t := by
  cases ss with
  | nil => nofun
  | cons s ss =>
    exact List.forall_mem_cons.2 ⟨.append (.indentation depth) (quiet_stmt depth s h.1),
      quiet_lines depth ss h.2⟩

theorem quiet_funDecl (depth : Nat) (d : FunDecl) (h : d.Worded) : Quiet (funDecl depth d) := by
  cases d with
  | mk _ n ps body =>
    exact .append (.append (.append (.name h.1) (.listSource h.2.1)) fun _ => rfl)
      (.braced depth (quiet_lines (depth + 1) body h.2.2))

theorem quiet_funLines (depth : Nat) {head : Text} (hhead : Quiet head) (ds : List FunDecl)
    (h : FunDecl.WordedAll ds) : ∀ t ∈ funLines depth head ds, Quiet t := by
  cases ds with
  | nil => nofun
  | cons d ds =>
    exact List.forall_mem_cons.2
      ⟨.append ((Quiet.indentation depth).append hhead) (quiet_funDecl depth d h.1),
        quiet_funLines depth hhead ds h.2⟩

end

end Layout

private theorem Program.hasComments_layout {file source : Text} {p : Program}
    (h : parse file source = .ok p) :
    Layout.hasComments false p.layout = false := by
  have hlines := Layout.quiet_lines 0 p.body (worded_of_parse h)
  unfold layout
  split
  · rfl
  · exact ((Layout.Quiet.join (fun _ => rfl) hlines).append fun _ => rfl).hasComments_eq

private theorem Program.spellsPast_layout {file source : Text} {p : Program}
    (h : parse file source = .ok p)
    (file' : Text) : ∃ tokens, SpellsPast file' p.layout tokens [] := by
  obtain ⟨q, hq, -, -⟩ := parse_layout file file' source p h
  obtain ⟨ts, hspells, -, -⟩ := parse_derives hq
  obtain ⟨comments, hpast⟩ := scan_eq_ok_iff_spellsPast.1 hspells.scan_eq
  have hnone : comments = [] := by
    by_contra hsome
    have hfound := hpast.hasComments_iff.2 hsome
    rw [hasComments_layout h] at hfound
    cases hfound
  exact ⟨_, hnone ▸ hpast⟩

/-! ### Formatting -/

namespace Task

/-- Hands out the canonical form of a source: writes it back or prints it. -/
def deliver (file : Text) (rewrites : Bool) (text : Text) : Task :=
  if rewrites then
    writeFile file text fun
      | none => finish 0
      | some reason => warn (lit "error writing file: " ++ reason ++ lit "\n") (finish failure)
  else say text

/-- The warning that comments get lost. -/
def commentsLost : Text := lit "warning: comments are not preserved by the formatter\n"

end Task

/-- A name leads to a source, and leaves the surroundings as told: the name of a file that can be
read, or a hyphen for the input, which is then used up. -/
inductive Desk.Provides (d : Desk) : Text → Text → Text → Desk → Prop
  | input : d.Provides (lit "-") (lit "<stdin>") d.input { d with input := [] }
  | file {path source : Text} :
      path ≠ lit "-" → d.files.read d.here path = .text source → d.Provides path path source d

namespace Task

private theorem perform_readSource {d d' : Desk} {file name source : Text}
    (h : d.Provides file name source d') (pretty : Bool) (next : Text → Text → Task) :
    (readSource file pretty next).perform d = (next name source).perform d' := by
  cases h with
  | input => rfl
  | file hpath hread =>
    rw [readSource, if_neg hpath, perform, hread]

/-- The command that formats a source warns if the formatter finds a comment in it, before it hands
out the canonical form. -/
theorem perform_format {d d' : Desk} {file name source text : Text}
    (h : d.Provides file name source d') (rewrites : Bool)
    (htext : Session.format name source = .ok text) :
    (format file rewrites).perform d = (deliver file rewrites text).perform
      (if Layout.hasComments false source then { d' with err :=
        d'.err ++ commentsLost } else d') := by
  rw [format, perform_readSource h]
  simp only [htext]
  split <;> rfl

private theorem perform_format_error {d d' : Desk} {file name source : Text} {e : RunError}
    (h : d.Provides file name source d') (rewrites : Bool)
    (herror : Session.format name source = .error e) :
    (format file rewrites).perform d = (stopWith 2 false e.diagnostics).perform d' := by
  rw [format, perform_readSource h]
  simp only [herror]

end Task

private theorem Session.parse_of_format {file source text : Text}
    (h : Session.format file source = .ok text) :
    ∃ p, Program.parse file source = .ok p ∧ p.layout = text := by
  unfold Session.format at h
  split at h
  · cases h
  · rename_i p hp
    exact ⟨p, hp, Except.ok.inj h⟩

/-- Comments are found where the scanner passes over them. A source that the scanner accepts is
gaps and longest lexemes in turn, and the formatter finds a comment in it exactly if one of the gaps
has a comment. A source that can be formatted is accepted, its canonical form has no comment, and
the command warns exactly if the source has one; a source that cannot be formatted is only
reported. -/
theorem comments_exact :
    (∀ (file source : Text) (tokens : List Token), scan file source = .ok tokens →
      (∃ comments, SpellsPast file source tokens comments) ∧
      ∀ comments, SpellsPast file source tokens comments →
        (Layout.hasComments false source = true ↔ comments ≠ [])) ∧
    ∀ (d d' : Desk) (file name source : Text) (rewrites : Bool), d.Provides file name source d' →
      (∀ text, Session.format name source = .ok text →
        (∀ file', ∃ tokens, SpellsPast file' text tokens []) ∧
        ∃ tokens comments, scan name source = .ok tokens ∧ SpellsPast name source tokens comments ∧
          (Task.format file rewrites).perform d = (Task.deliver file rewrites text).perform
            (if comments = [] then d' else { d' with err := d'.err ++ Task.commentsLost })) ∧
      ∀ e, Session.format name source = .error e →
        (Task.format file rewrites).perform d =
          (Task.stopWith 2 false e.diagnostics).perform d' := by
  refine ⟨fun file source tokens h => ⟨scan_eq_ok_iff_spellsPast.1 h, fun _ hpast =>
    hpast.hasComments_iff⟩, ?_⟩
  intro d d' file name source rewrites hprovides
  refine ⟨fun text htext => ?_, fun e => Task.perform_format_error hprovides rewrites⟩
  obtain ⟨p, hp, rfl⟩ := Session.parse_of_format htext
  obtain ⟨ts, hspells, -, -⟩ := Program.parse_derives hp
  obtain ⟨comments, hpast⟩ := scan_eq_ok_iff_spellsPast.1 hspells.scan_eq
  refine ⟨Program.spellsPast_layout hp, _, comments, hspells.scan_eq, hpast, ?_⟩
  rw [Task.perform_format hprovides rewrites htext]
  congr 1
  by_cases hnone : comments = []
  · rw [if_pos hnone, if_neg]
    exact fun hfound => hpast.hasComments_iff.1 hfound hnone
  · rw [if_neg hnone, if_pos (hpast.hasComments_iff.2 hnone)]

/-- Two slashes in a string, a slash between numbers, and a comment at the end of a file. -/
theorem comments_exact_slashes :
    let source := lit "print \"//\" + 4 / 2; // two"
    let d : Desk := { files := ⟨[[]], [([lit "a.lox"], source)]⟩, here := [], input := [] }
    ∃ tokens comments, SpellsPast (lit "a.lox") source tokens comments ∧ comments ≠ [] ∧
      (Task.format (lit "a.lox") false).perform d =
        (0, { d with out := lit "print \"//\" + 4 / 2;\n", err := Task.commentsLost }) := by
  intro source d
  have hread : d.files.read d.here (lit "a.lox") = .text source := by decide +kernel
  have htext : Session.format (lit "a.lox") source = .ok (lit "print \"//\" + 4 / 2;\n") :=
    eq_ok_of_toOption (by decide +kernel)
  have hfound : Layout.hasComments false source = true := by decide +kernel
  obtain ⟨-, tokens, comments, hscan, hpast, hperform⟩ :=
    (comments_exact.2 d _ _ _ _ false (.file (by decide) hread)).1 _ htext
  have hsome : comments ≠ [] := ((comments_exact.1 _ _ _ hscan).2 comments hpast).1 hfound
  rw [if_neg hsome] at hperform
  exact ⟨tokens, comments, hpast, hsome, hperform⟩

end Lox
