import Lox.Proofs.Parse
import Lox.Proofs.Scope.Agreement

set_option autoImplicit false
set_option relaxedAutoImplicit false

namespace Lox

open Text (lit)
open Around (funs surroundings Quiet Sealed)

/-- What was found on the way over some places is what is wrong there, and where nothing was found
all are located afterwards. -/
structure Tells (bound : List Text) (found : List Diagnostic) (before after : List Place) :
    Prop where
  reported : found = before.filterMap (Place.diagnostic? bound)
  located : found = [] → after = before.map Place.located

namespace Tells

variable {bound : List Text}

private theorem nil : Tells bound [] [] [] := ⟨rfl, fun _ => rfl⟩

private theorem append {found found' : List Diagnostic} {ps ps' qs qs' : List Place}
    (h : Tells bound found ps qs) (h' : Tells bound found' ps' qs') :
    Tells bound (found ++ found') (ps ++ ps') (qs ++ qs') := by
  constructor
  · rw [List.filterMap_append, h.reported, h'.reported]
  · intro hnone
    obtain ⟨hfound, hfound'⟩ := List.append_eq_nil_iff.1 hnone
    rw [List.map_append, h.located hfound, h'.located hfound']

private theorem cleared {found : List Diagnostic} {ps qs : List Place}
    (h : Tells bound found ps qs) :
    Tells bound (found ++ []) ps qs := by rwa [List.append_nil]

private theorem one {found : List Diagnostic} {place after : Place}
    (hfound : found = (place.diagnostic? bound).toList)
    (hafter : found = [] → after = place.located) :
    Tells bound found [place] [after] := by
  constructor
  · rw [hfound, List.filterMap_cons]
    cases place.diagnostic? bound <;> rfl
  · intro hnone
    rw [hafter hnone]
    rfl

private theorem check {found : List Diagnostic} {place : Place}
    (hfound : found = (place.diagnostic? bound).toList) (hsame : place.located = place) :
    Tells bound found [place] [place] := one hfound fun _ => hsame.symm

end Tells

namespace Resolve

private theorem tells_parameters (bound : List Text) (around : List Around) (seen : List Text)
    (ps : List Param) : Tells bound (parameters seen ps).found (Param.places around seen ps)
      (Param.places around seen ps) := by
  induction ps generalizing seen with
  | nil => exact .nil
  | cons p ps ih =>
    have hfirst :
      Tells bound (Checked.reportIf (seen.contains p.name) (.dupParam p.name) p.span).found
        [⟨around, .param seen p⟩] [⟨around, .param seen p⟩] := by
      refine .check ?_ rfl
      by_cases hseen : p.name ∈ seen <;>
        simp [Checked.reportIf, Place.diagnostic?, Place.violation?, hseen]
    exact hfirst.append (ih (p.name :: seen))

variable {bound : List Text} {around : List Around} {env : Scopes}

private theorem tells_use (h : Agrees bound around env) (hsealed : Sealed around) (use : NameUse) :
    Tells bound (nameUse (surroundings around) env use).found [⟨around, .read use⟩]
      [⟨around, .read (nameUse (surroundings around) env use).value⟩] := by
  have hfound : (nameUse (surroundings around) env use).found =
      (occurrence (surroundings around) env use.name use.span true).found ++ [] := rfl
  refine .one ?_ fun _ => ?_
  · rw [hfound, h.occurrence_found hsealed rfl]
    by_cases hbefore : Around.beforeValue around bound use.name = true <;>
      simp [Place.diagnostic?, Place.violation?, hbefore]
  · simp [nameUse, h.occurrence_value, Place.located, Site.withHops, Place.scopes]

private theorem tells_target (h : Agrees bound around env) (target : NameUse) :
    Tells bound (occurrence (surroundings around) env target.name target.span false).found
      [⟨around, .assign target⟩]
      [⟨around, .assign { target with hops :=
        (occurrence (surroundings around) env target.name target.span false).value }⟩] := by
  refine .one ?_ fun _ => ?_
  · rw [occurrence_eq]
    rfl
  · simp [h.occurrence_value, Place.located, Site.withHops, Place.scopes]

private theorem beforeValue_of_sealed (hsealed : Sealed around) {name : Text}
    (hname : name = lit "this" ∨ name = lit "super") :
    Around.beforeValue around bound name = false := by
  cases around with
  | nil => rfl
  | cons a r =>
    have hinitial : a.initial ≠ some name := fun heq => by
      obtain ⟨hthis, hsuper⟩ := hsealed.1 name heq
      rcases hname with rfl | rfl
      · exact hthis rfl
      · exact hsuper rfl
    simp [Around.beforeValue, hinitial]

private theorem inClass_surroundings (around : List Around) :
    (surroundings around).inClass =
      match Around.nearestClass around with
      | none => .none
      | some false => .plain
      | some true => .derived := rfl

private theorem tells_this (h : Agrees bound around env) (hsealed : Sealed around) (span : Span)
    (hops : Option Int) : Tells bound (expr (surroundings around) env (.this span hops)).found
      [⟨around, .this span hops⟩]
      ((expr (surroundings around) env (.this span hops)).value.places around) := by
  have hready : (occurrence (surroundings around) env (lit "this") span true).found = [] := by
    rw [h.occurrence_found hsealed rfl, beforeValue_of_sealed hsealed (.inl rfl)]
    rfl
  have hhops := h.occurrence_value (surroundings around) (lit "this") span true
  cases hclass : Around.nearestClass around with
  | none =>
    have hout : (surroundings around).inClass = .none := by rw [inClass_surroundings, hclass]
    rw [expr, hout]
    refine .one ?_ nofun
    simp [Checked.reportIf, Place.diagnostic?, Place.violation?, hclass]
  | some derived =>
    have hin : (surroundings around).inClass ≠ .none := by
      rw [inClass_surroundings, hclass]
      cases derived <;> simp
    have hexpr : expr (surroundings around) env (.this span hops) =
        { value := .this span (occurrence (surroundings around) env (lit "this") span true).value
          found := (occurrence (surroundings around) env (lit "this") span true).found ++ [] } := by
      rw [expr]
      split
      · rename_i hout
        exact absurd hout hin
      · rfl
    rw [hexpr, hready]
    refine .one ?_ fun _ => ?_
    · simp [Place.diagnostic?, Place.violation?, hclass]
    · rw [hhops]
      rfl

private theorem tells_super (h : Agrees bound around env) (hsealed : Sealed around) (span : Span)
    (method : Text) (hops : Option Int) :
    Tells bound (expr (surroundings around) env (.super span method hops)).found
      [⟨around, .super span hops⟩]
      ((expr (surroundings around) env (.super span method hops)).value.places around) := by
  have hready : (occurrence (surroundings around) env (lit "super") span true).found = [] := by
    rw [h.occurrence_found hsealed rfl, beforeValue_of_sealed hsealed (.inr rfl)]
    rfl
  have hhops := h.occurrence_value (surroundings around) (lit "super") span true
  rw [expr, inClass_surroundings]
  cases hclass : Around.nearestClass around with
  | none =>
    refine .one ?_ fun h => by cases h
    simp [Checked.reportIf, Place.diagnostic?, Place.violation?, hclass]
  | some derived =>
    cases derived with
    | false =>
      refine .one ?_ fun h => by cases h
      simp [Checked.reportIf, Place.diagnostic?, Place.violation?, hclass]
    | true =>
      refine .one ?_ fun _ => ?_
      · simp [hready, Place.diagnostic?, Place.violation?, hclass]
      · show Place.mk around (.super span
          (occurrence (surroundings around) env (lit "super") span true).value) = _
        rw [hhops]
        rfl

/-! ### Pieces of a program -/

/-- What is found in a statement is what its text tells, and the scopes after it agree with the text
after it. -/
def StmtTells (s : Stmt) : Prop :=
  ∀ (bound : List Text) (a : Around) (r : List Around) (env : Scopes), Agrees bound (a :: r) env →
    Quiet (a :: r) → (s.isDeclaration = true → a.Declares) →
    Tells bound (stmt (surroundings (a :: r)) env s).found (s.places a r)
      ((stmt (surroundings (a :: r)) env s).value.1.places a r) ∧
    Agrees bound (a.declaring s.declared :: r) (stmt (surroundings (a :: r)) env s).value.2

def MethodsTell (ds : List FunDecl) : Prop :=
  ∀ (bound : List Text) (around : List Around) (env : Scopes) (ofInstances : Bool),
    Agrees bound around env →
    Tells bound (methods (surroundings around) env ofInstances ds).found
      (FunDecl.placesAll ofInstances around ds)
      (FunDecl.placesAll ofInstances around
        (methods (surroundings around) env ofInstances ds).value)

def bodyOf (isInitializer : Bool) : Body := if isInitializer then .initializer else .function

def NodeTells : Grammar.Node → Prop
  | .expr e =>
    ∀ (bound : List Text) (around : List Around) (env : Scopes), Agrees bound around env →
      Sealed around → Tells bound (expr (surroundings around) env e).found (e.places around)
        ((expr (surroundings around) env e).value.places around)
  | .exprs es => ∀ (bound : List Text) (around : List Around) (env : Scopes),
      Agrees bound around env → Sealed around →
      Tells bound (exprs (surroundings around) env es).found (Expr.placesAll around es)
        (Expr.placesAll around (exprs (surroundings around) env es).value)
  | .clause e => ∀ (bound : List Text) (around : List Around) (env : Scopes),
      Agrees bound around env → Sealed around →
      Tells bound (clause (surroundings around) env e).found (Expr.placesOption around e)
        (Expr.placesOption around (clause (surroundings around) env e).value)
  | .stmt s => StmtTells s
  | .stmts ss => ∀ (bound : List Text) (a : Around) (r : List Around) (env : Scopes),
      Agrees bound (a :: r) env → Quiet (a :: r) → a.Declares →
      Tells bound (stmts (surroundings (a :: r)) env ss).found (Stmt.placesAll a r ss)
        (Stmt.placesAll a r (stmts (surroundings (a :: r)) env ss).value.1)
  | .function d =>
    ∀ (bound : List Text) (around : List Around) (env : Scopes) (isInitializer : Bool),
      Agrees bound around env →
      Tells bound (funDecl (surroundings around) env (bodyOf isInitializer) d).found
        (d.places isInitializer around)
        ((funDecl (surroundings around) env (bodyOf isInitializer) d).value.places isInitializer
          around)
  | .members ms ss => MethodsTell ms ∧ MethodsTell ss
  | .init none => True
  | .init (some s) => StmtTells s

private theorem tells_body {body : List Stmt} (hbody : NodeTells (.stmts body)) (ps : List Param)
    (h : Agrees bound around env) (isInitializer : Bool) :
    Tells bound ((parameters [] ps).found ++
        ((stmts ((surroundings around).enter (bodyOf isInitializer))
          (inside env (funs around + 1) ps) body).found ++ []))
      (Param.places around [] ps ++ Stmt.placesAll (.ofFunction isInitializer ps) around body)
      (Param.places around [] ps ++ Stmt.placesAll (.ofFunction isInitializer ps) around
        (stmts ((surroundings around).enter (bodyOf isInitializer))
          (inside env (funs around + 1) ps) body).value.1) := by
  have henter : (surroundings around).enter (bodyOf isInitializer) =
      surroundings (.ofFunction isInitializer ps :: around) := by cases isInitializer <;> rfl
  rw [henter]
  exact (tells_parameters bound around [] ps).append
    (hbody bound _ around _ (h.inside isInitializer ps)
      (Around.quiet_ofFunction isInitializer ps around) (.inr rfl)).cleared

private theorem tells_clause {e : Expr} (h : NodeTells (.expr e)) : NodeTells (.clause (some e)) :=
  fun bound around env hagrees hsealed => (h bound around env hagrees hsealed).cleared

private theorem tells_methods {d : FunDecl} {ds : List FunDecl} (hd : NodeTells (.function d))
    (hds : MethodsTell ds) : MethodsTell (d :: ds) := by
  intro bound around env ofInstances hagrees
  have hfirst := hd bound around env (ofInstances && d.name == lit "init") hagrees
  have hname := fun kind => name_funDecl (surroundings around) env kind d
  simpa only [methods, Checked.found_bind, Checked.value_bind,
    Checked.found_pure, Checked.value_pure,
    List.append_nil, FunDecl.placesAll, hname, bodyOf] using
      hfirst.append (hds bound around env ofInstances hagrees)

section Expressions

variable {s : Span} {e a b : Expr}

private theorem tells_set {name : Text} (ha : NodeTells (.expr a)) (h : NodeTells (.expr e)) :
    NodeTells (.expr (.set s a name e)) := fun bound around env hagrees hsealed =>
  (h bound around env hagrees hsealed).append (ha bound around env hagrees hsealed).cleared

private theorem tells_conditional (h : NodeTells (.expr e)) (ha : NodeTells (.expr a))
    (hb : NodeTells (.expr b)) : NodeTells (.expr (.conditional s e a b)) := by
  intro bound around env hagrees hsealed
  have hall := ((h bound around env hagrees hsealed).append
    (ha bound around env hagrees hsealed)).append
    (hb bound around env hagrees hsealed).cleared
  rw [List.append_assoc] at hall
  exact hall

private theorem tells_combine (op : Parser.Operator) (ha : NodeTells (.expr a))
    (hb : NodeTells (.expr b)) :
    NodeTells (.expr (Grammar.combine s a b op)) := by
  cases op <;> exact fun bound around env hagrees hsealed =>
    (ha bound around env hagrees hsealed).append (hb bound around env hagrees hsealed).cleared

private theorem tells_call {es : List Expr} (h : NodeTells (.expr e)) (hs : NodeTells (.exprs es)) :
    NodeTells (.expr (.call s e es)) := fun bound around env hagrees hsealed =>
  (h bound around env hagrees hsealed).append (hs bound around env hagrees hsealed).cleared

private theorem tells_cons {es : List Expr} (h : NodeTells (.expr e)) (hs : NodeTells (.exprs es)) :
    NodeTells (.exprs (e :: es)) := fun bound around env hagrees hsealed =>
  (h bound around env hagrees hsealed).append (hs bound around env hagrees hsealed).cleared

end Expressions

section Statements

variable {s : Span} {n : Text} {e : Expr} {b : Stmt}

private theorem declared_stmt (at_ : Surroundings) (env : Scopes) (s : Stmt) :
    (stmt at_ env s).value.1.declared = s.declared := by
  cases s with
  | ifStmt s c a b =>
    cases b with
    | none => exact declared_stmt at_ env a
    | some b =>
      show (stmt at_ env a).value.1.declared ++ (stmt at_ _ b).value.1.declared = _
      rw [declared_stmt at_ env a, declared_stmt at_ _ b]
      rfl
  | whileStmt s c b => exact declared_stmt _ env b
  | forStmt s init c i b => cases init <;> rfl
  | returnStmt s e => cases e <;> rfl
  | classDecl s n sup ms ss => cases sup <;> rfl
  | funDecl d => exact congrArg (fun n => [n]) (name_funDecl at_ _ .function d)
  | exprStmt _ _ | printStmt _ _ | varDecl _ _ _ | block _ _ | breakStmt _ => rfl

private theorem agrees_same {a : Around} {r : List Around} (h : Agrees bound (a :: r) env) :
    Agrees bound (a.declaring [] :: r) env := by rwa [Around.status_declaring_nil]

private theorem tells_stmts {ss : List Stmt} (h : StmtTells b) (hs : NodeTells (.stmts ss)) :
    NodeTells (.stmts (b :: ss)) := by
  intro bound a r env hagrees hquiet hdeclares
  obtain ⟨hfirst, hafter⟩ := h bound a r env hagrees hquiet fun _ => hdeclares
  have hrest := hs bound _ _ _ hafter (hquiet.declaring b.declared) hdeclares
  have hsame := declared_stmt (surroundings (a :: r)) env b
  have hplaces : ∀ {s : Stmt} (ss : List Stmt), s.declared = b.declared →
      Stmt.placesAll a r (s :: ss) = s.places a r ++ Stmt.placesAll (a.declaring b.declared) r ss :=
    fun ss hs => by rw [Stmt.placesAll, hs]
  exact (congrArg (Tells bound _ _) (hplaces _ hsame)).mpr (hfirst.append hrest.cleared)

private theorem tells_exprStmt (h : NodeTells (.expr e)) : StmtTells (.exprStmt s e) :=
  fun bound _ _ _ hagrees hquiet _ =>
    ⟨(h bound _ _ hagrees hquiet.sealed).cleared, agrees_same hagrees⟩

private theorem tells_print (h : NodeTells (.expr e)) : StmtTells (.printStmt s e) :=
  fun bound _ _ _ hagrees hquiet _ =>
    ⟨(h bound _ _ hagrees hquiet.sealed).cleared, agrees_same hagrees⟩

private theorem tells_var {init : Option Expr} (hthis : n ≠ lit "this") (hsuper : n ≠ lit "super")
    (h : NodeTells (.clause init)) : StmtTells (.varDecl s n init) := by
  intro bound a r env hagrees hquiet ha
  have hinitial := hagrees.inInitial (ha rfl) hquiet.1 n
  exact ⟨(h bound _ _ hinitial (hquiet.inInitial hthis hsuper)).cleared,
    hinitial.define (ha rfl) hquiet.1⟩

private theorem tells_block {body : List Stmt} (h : NodeTells (.stmts body)) :
    StmtTells (.block s body) := by
  intro bound a r env hagrees hquiet _
  have hbody := h bound _ _ _ (hagrees.empty .block (.inl rfl))
    (hquiet.inside .block []) (.inr rfl)
  exact ⟨hbody.cleared, agrees_same hagrees⟩

private theorem tells_funDecl {d : FunDecl} (h : NodeTells (.function d)) :
    StmtTells (.funDecl d) := by
  intro bound a r env hagrees hquiet ha
  have hdeclared := hagrees.declare (ha rfl) hquiet.1 d.name
  have hname :=
    name_funDecl (surroundings (a :: r)) ((env.declare d.name).define d.name) .function d
  have hbody := h bound _ _ false hdeclared
  refine ⟨?_, hdeclared⟩
  show Tells bound (_ ++ []) _
    (FunDecl.places false (a.declaring [(funDecl _ _ _ d).value.name] :: r) _)
  rw [hname]
  exact hbody.cleared

private theorem tells_class {ms ss : List FunDecl} (hms : MethodsTell ms) (hss : MethodsTell ss) :
    StmtTells (.classDecl s n none ms ss) := by
  intro bound a r env hagrees hquiet ha
  have hdeclared := hagrees.declare (ha rfl) hquiet.1 n
  have hinside := hdeclared.classBody false
  exact ⟨(hms bound _ _ true hinside).append (hss bound _ _ false hinside).cleared, hdeclared⟩

private theorem tells_superclass {a : Around} {r : List Around} (h : Agrees bound (a :: r) env)
    (hquiet : Quiet (a :: r)) (n : Text) (sup : NameUse) :
    Tells bound ((Checked.reportIf (sup.name == n) .inheritSelf sup.span).found ++
        (nameUse { surroundings (a :: r) with inClass := .derived } env sup).found)
      [⟨a :: r, .superclass n sup⟩]
      [⟨a :: r, .superclass n
        (nameUse { surroundings (a :: r) with inClass := .derived } env sup).value⟩] := by
  have hready :
      (nameUse { surroundings (a :: r) with inClass := .derived } env sup).found = [] := by
    show (occurrence _ env sup.name sup.span true).found ++ [] = []
    rw [h.occurrence_found hquiet.sealed rfl]
    simp [Around.beforeValue, hquiet.1]
  rw [hready, List.append_nil]
  refine .one ?_ fun _ => ?_
  · by_cases hself : sup.name = n <;>
      simp [Checked.reportIf, Place.diagnostic?, Place.violation?, hself]
  · simp [nameUse, h.occurrence_value, Place.located, Site.withHops, Place.scopes]

private theorem tells_subclass {sup : NameUse} {ms ss : List FunDecl} (hms : MethodsTell ms)
    (hss : MethodsTell ss) : StmtTells (.classDecl s n (some sup) ms ss) := by
  intro bound a r env hagrees hquiet ha
  have hdeclared := hagrees.declare (ha rfl) hquiet.1 n
  have hinside := hdeclared.classBody true
  have hmethods := (hms bound _ _ true hinside).append (hss bound _ _ false hinside).cleared
  have hall := (tells_superclass hdeclared (hquiet.declaring [n]) n sup).append hmethods
  rw [List.append_assoc] at hall
  exact ⟨hall, hdeclared⟩

private theorem tells_break (s : Span) : StmtTells (.breakStmt s) := by
  intro bound a r env hagrees _ _
  refine ⟨.check ?_ rfl, agrees_same hagrees⟩
  show (Checked.reportIf (!(surroundings (a :: r)).inLoop) .breakOutsideLoop s).found ++ [] = _
  have hloop : (surroundings (a :: r)).inLoop = Around.inLoop (a :: r) := rfl
  rw [hloop, List.append_nil]
  by_cases hinside : Around.inLoop (a :: r) = true <;>
    simp [Checked.reportIf, Place.diagnostic?, Place.violation?, hinside]

private theorem tells_returns (a : Around) (r : List Around) (s : Span) (hasValue : Bool) :
    Tells bound
      ((Checked.reportIf ((surroundings (a :: r)).body == .script) .returnTopLevel s).found ++
        (Checked.reportIf (hasValue && (surroundings (a :: r)).body == .initializer)
          .returnInit s).found)
      [⟨a :: r, .returns s hasValue⟩] [⟨a :: r, .returns s hasValue⟩] := by
  refine .check ?_ rfl
  have hbody : (surroundings (a :: r)).body =
      match Around.nearestFunction (a :: r) with
      | none => .script
      | some false => .function
      | some true => .initializer := rfl
  rw [hbody]
  rcases hnearest : Around.nearestFunction (a :: r) with _ | _ | _ <;> cases hasValue <;>
    simp [Checked.reportIf, Place.diagnostic?, Place.violation?, hnearest]

private theorem tells_return {value : Option Expr} (h : NodeTells (.clause value)) :
    StmtTells (.returnStmt s value) := by
  intro bound a r env hagrees hquiet _
  cases value with
  | none => exact ⟨tells_returns a r s false, agrees_same hagrees⟩
  | some e =>
    have hall := (tells_returns a r s true).append (h bound _ _ hagrees hquiet.sealed)
    rw [List.append_assoc] at hall
    exact ⟨hall, agrees_same hagrees⟩

private theorem StmtTells.branch (at_ : Surroundings) {a : Around}
    {r : List Around} (h : StmtTells b)
    (hb : b.declared = []) (hdecl : b.isDeclaration = false) (hat : at_ = surroundings (a :: r))
    (hagrees : Agrees bound (a :: r) env) (hquiet : Quiet (a :: r)) :
    Tells bound (stmt at_ env b).found (b.places a r) ((stmt at_ env b).value.1.places a r) ∧
      Agrees bound (a :: r) (stmt at_ env b).value.2 := by
  subst hat
  obtain ⟨htells, hafter⟩ := h bound a r env hagrees hquiet fun hd => by rw [hdecl] at hd; cases hd
  rw [hb, Around.status_declaring_nil] at hafter
  exact ⟨htells, hafter⟩

private theorem tells_while (hc : NodeTells (.expr e)) (hb : StmtTells b) (hnone : b.declared = [])
    (hdecl : b.isDeclaration = false) : StmtTells (.whileStmt s e b) := by
  intro bound a r env hagrees hquiet _
  have hcond := hc bound _ _ hagrees hquiet.sealed
  obtain ⟨hbody, hafter⟩ := hb.branch { surroundings (a :: r) with inLoop := true } hnone hdecl rfl
    (.whileBody hagrees) (hquiet.inside .whileBody [])
  have hsame : (Stmt.whileStmt s e b).declared = [] := hnone
  rw [hsame]
  exact ⟨hcond.append hbody.cleared, agrees_same hafter.of_whileBody⟩

private theorem tells_if (hc : NodeTells (.expr e)) (hb : StmtTells b) (hnone : b.declared = [])
    (hdecl : b.isDeclaration = false) : StmtTells (.ifStmt s e b none) := by
  intro bound a r env hagrees hquiet _
  have hcond := hc bound _ _ hagrees hquiet.sealed
  obtain ⟨hbody, hafter⟩ := hb.branch _ hnone hdecl rfl hagrees hquiet
  have hsame : (Stmt.ifStmt s e b none).declared = [] := hnone
  have hall := (hcond.append hbody).append .nil
  rw [List.append_assoc] at hall
  rw [hsame]
  exact ⟨hall, agrees_same hafter⟩

private theorem tells_ifElse {b' : Stmt} (hc : NodeTells (.expr e)) (hb : StmtTells b)
    (hnone : b.declared = []) (hdecl : b.isDeclaration = false) (hb' : StmtTells b')
    (hnone' : b'.declared = []) (hdecl' : b'.isDeclaration = false) :
    StmtTells (.ifStmt s e b (some b')) := by
  intro bound a r env hagrees hquiet _
  have hcond := hc bound _ _ hagrees hquiet.sealed
  obtain ⟨hyes, hafter⟩ := hb.branch _ hnone hdecl rfl hagrees hquiet
  obtain ⟨hno, hafter'⟩ := hb'.branch _ hnone' hdecl' rfl hafter hquiet
  have hsame : (Stmt.ifStmt s e b (some b')).declared = [] := by
    rw [Stmt.declared, hnone, hnone']
    rfl
  have hall := (hcond.append hyes).append hno.cleared
  rw [List.append_assoc] at hall
  rw [hsame]
  exact ⟨hall, agrees_same hafter'⟩

private theorem tells_round {c i : Option Expr} (hc : NodeTells (.clause c))
    (hi : NodeTells (.clause i))
    (hb : StmtTells b) (hnone : b.declared = []) (hdecl : b.isDeclaration = false)
    {at_ : Surroundings} {around : List Around} (hat : at_ = surroundings around)
    (hagrees : Agrees bound around env) (hquiet : Quiet around) :
    let round : Surroundings := { at_ with inLoop := true }
    let body := stmt round (env.push (.empty at_.funs)) b
    Tells bound ((clause at_ env c).found ++
      (body.found ++ ((clause round body.value.2 i).found ++ [])))
      (Expr.placesOption around c ++ b.places { construct := .round } around ++
        Expr.placesOption ({ construct := .round } :: around) i)
      (Expr.placesOption around (clause at_ env c).value ++
        body.value.1.places { construct := .round } around ++
        Expr.placesOption ({ construct := .round } :: around)
          (clause round body.value.2 i).value) := by
  intro round body
  subst hat
  have hcond := hc bound _ _ hagrees hquiet.sealed
  have hinside := hquiet.inside .round []
  obtain ⟨hbody, hafter⟩ := hb.branch round hnone hdecl rfl
    (hagrees.empty .round (.inr (.inr rfl))) hinside
  have hstep := hi bound _ _ hafter hinside.sealed
  have hall := (hcond.append hbody).append hstep.cleared
  rw [List.append_assoc] at hall
  exact hall

private theorem places_for {a : Around} {r : List Around} {init : Stmt}
    {c i : Option Expr} {names : List Text} (h : init.declared = names) :
    (Stmt.forStmt s (some init) c i b).places a r =
      let first : Around := { construct := .firstClause }
      let outer := first.declaring names :: a :: r
      init.places first (a :: r) ++ (Expr.placesOption outer c ++
        b.places { construct := .round } outer ++
        Expr.placesOption ({ construct := .round } :: outer) i) := by
  subst h
  simp [Stmt.places]

private theorem tells_for {init : Option Stmt} {c i : Option Expr} (hinit : NodeTells (.init init))
    (hc : NodeTells (.clause c)) (hi : NodeTells (.clause i)) (hb : StmtTells b)
    (hnone : b.declared = []) (hdecl : b.isDeclaration = false) :
    StmtTells (.forStmt s init c i b) := by
  intro bound a r env hagrees hquiet _
  cases init with
  | none =>
    have hround := tells_round hc hi hb hnone hdecl rfl hagrees hquiet
    exact ⟨hround, agrees_same hagrees⟩
  | some init =>
    have hfirst := hagrees.empty .firstClause (.inr (.inl rfl))
    have hquiet' := hquiet.inside .firstClause []
    obtain ⟨hstart, hafter⟩ := hinit bound _ _ _ hfirst hquiet' fun _ => .inr rfl
    have hround := tells_round hc hi hb hnone hdecl rfl hafter (hquiet'.declaring init.declared)
    have hall := hstart.append hround
    have hsame := declared_stmt (surroundings (a :: r)) (env.push (.empty (funs (a :: r)))) init
    refine ⟨?_, agrees_same hagrees⟩
    rw [places_for rfl]
    exact (congrArg (Tells bound _ _) (places_for hsame)).mpr hall

end Statements

end Resolve

namespace Grammar

open Resolve

private theorem Derives.tells {sym : Sym} {ts : List Token} {n : Node} (h : Derives sym ts n)
    (hts : ∀ t ∈ ts, t.kind = .name → t.text ≠ lit "this" ∧ t.text ≠ lit "super") :
    NodeTells n := by
  induction h with try simp only [List.forall_mem_append, List.forall_mem_cons] at hts
  | simple _ ih | plain _ ih | operand _ ih | called _ ih | head _ ih | someArguments _ ih
  | varDecl _ ih | statement _ ih | varInit _ ih => exact ih hts
  | assignName _ _ _ ih =>
    exact fun bound around env hagrees hsealed =>
      (ih hts.2.2 bound around env hagrees hsealed).append (tells_target hagrees _).cleared
  | assignField _ _ _ _ _ iho ihv => exact tells_set (iho hts.1) (ihv hts.2.2.2.2)
  | choice _ _ _ _ _ ihc iha ihb =>
    exact tells_conditional (ihc hts.1) (iha hts.2.2.1) (ihb hts.2.2.2.2)
  | chain _ _ _ iha ihb => exact tells_combine _ (iha hts.1) (ihb hts.2.2)
  | not _ _ ih | negate _ _ ih =>
    exact fun bound around env hagrees hsealed =>
      (ih hts.2 bound around env hagrees hsealed).cleared
  | apply _ _ _ _ ihf ihargs => exact tells_call (ihf hts.1) (ihargs hts.2.2)
  | get _ _ _ ih =>
    exact fun bound around env hagrees hsealed =>
      (ih hts.1 bound around env hagrees hsealed).cleared
  | noArguments _ | false_ _ | true_ _ | nil_ _ | number _ _ | string _ | noClause =>
    exact fun _ _ _ _ _ => .nil
  | lastArgument _ _ ih => exact tells_cons (ih hts.1) fun _ _ _ _ _ => .nil
  | moreArguments _ _ _ ih ihs => exact tells_cons (ih hts.1) (ihs hts.2.2)
  | this _ => exact fun _ _ _ hagrees hsealed => tells_this hagrees hsealed _ _
  | super _ _ _ => exact fun _ _ _ hagrees hsealed => tells_super hagrees hsealed _ _ _
  | name _ => exact fun _ _ _ hagrees hsealed => (tells_use hagrees hsealed _).cleared
  | lambda _ _ _ ih => exact fun _ _ _ hagrees _ => tells_body (ih hts.2.2) _ hagrees false
  | group _ _ _ ih =>
    exact fun bound around env hagrees hsealed =>
      (ih hts.2.1 bound around env hagrees hsealed).cleared
  | block _ _ _ ih => exact ih hts.2.1
  | noDeclarations => exact fun _ _ _ _ _ _ _ => .nil
  | moreDeclarations _ _ ih ihs => exact tells_stmts (ih hts.1) (ihs hts.2)
  | @classDecl _ _ _ _ _ _ sup _ _ _ _ _ _ _ _ _ ih =>
    obtain ⟨hms, hss⟩ := ih hts.2.2.2.2.1
    cases sup with
    | none => exact tells_class hms hss
    | some sup => exact tells_subclass hms hss
  | funDecl _ _ ih => exact tells_funDecl (ih hts.2)
  | noValue _ hn _ => exact tells_var (hts.2.1 hn).1 (hts.2.1 hn).2 fun _ _ _ _ _ => .nil
  | value _ hn _ _ _ ih =>
    exact tells_var (hts.2.1 hn).1 (hts.2.1 hn).2 (tells_clause (ih hts.2.2.2.1))
  | function _ _ _ ih => exact fun _ _ _ isInit hagrees => tells_body (ih hts.2.2) _ hagrees isInit
  | noMembers => exact ⟨fun _ _ _ _ _ => .nil, fun _ _ _ _ _ => .nil⟩
  | method _ _ ihd ih => exact ⟨tells_methods (ihd hts.1) (ih hts.2).1, (ih hts.2).2⟩
  | static _ _ _ ihd ih => exact ⟨(ih hts.2.2).1, tells_methods (ihd hts.2.1) (ih hts.2.2).2⟩
  | exprStmt _ _ ih | exprInit _ _ ih => exact tells_exprStmt (ih hts.1)
  | print _ _ _ ih => exact tells_print (ih hts.2.1)
  | return_ _ _ _ ih => exact tells_return (ih hts.2.1)
  | break_ _ _ => exact tells_break _
  | inBlock _ ih => exact tells_block (ih hts)
  | while_ _ _ _ _ hd ihc ihb =>
    exact tells_while (ihc hts.2.2.1) (ihb hts.2.2.2.2)
      (hd.declared_nil rfl _ rfl) hd.not_declaration
  | if_ _ _ _ _ hd ihc ihy =>
    exact tells_if (ihc hts.2.2.1) (ihy hts.2.2.2.2) (hd.declared_nil rfl _ rfl) hd.not_declaration
  | ifElse _ _ _ _ hd _ _ hd' ihc ihy ihn =>
    exact tells_ifElse (ihc hts.2.2.1) (ihy hts.2.2.2.2.1) (hd.declared_nil rfl _ rfl)
      hd.not_declaration (ihn hts.2.2.2.2.2.2) (hd'.declared_nil rfl _ rfl) hd'.not_declaration
  | for_ _ _ _ _ _ _ _ hd ihi ihc ihs ihb =>
    exact tells_for (ihi hts.2.2.1.1) (ihc hts.2.2.1.2) (ihs hts.2.2.2.2.1) (ihb hts.2.2.2.2.2.2)
      (hd.declared_nil rfl _ rfl) hd.not_declaration
  | noInit _ => trivial
  | someClause _ ih => exact tells_clause (ih hts)

end Grammar

namespace Program

private theorem parse_tells {file source : Text} {p : Program}
    (h : parse file source = .ok p) (bound : List Text) :
    Tells bound (Resolve.stmts {} (.top bound) p.body).found p.places
      (Stmt.placesAll { construct := .script } []
        (Resolve.stmts {} (.top bound) p.body).value.1) := by
  obtain ⟨ts, -, hlexemes, hderives⟩ := parse_derives h
  refine hderives.tells (fun t ht hkind => ?_) bound _ [] _ (Agrees.top bound) ⟨rfl, .inr trivial⟩
    (.inl rfl)
  have hne := Token.text_ne_keyword (hlexemes t ht) hkind
  exact ⟨hne .this_, hne .super_⟩

private theorem places_resolve {file source : Text} {p q : Program} {bound : List Text}
    (hparse : parse file source = .ok p) (hresolve : p.resolve bound = .ok q) :
    q.places = p.places.map Place.located := by
  obtain ⟨hfound, rfl⟩ := resolve_eq_ok.1 hresolve
  exact (parse_tells hparse bound).located hfound

/-- The hops of an accepted program are its lexical scope. An occurrence of a name has hops if and
only if some local scope around it declares the name before it, and then they are the number of
scopes inside the innermost such scope. -/
theorem resolve_lexical {file source : Text} {p q : Program} {bound : List Text}
    (hparse : parse file source = .ok p) (hresolve : p.resolve bound = .ok q) :
    q.places.map Place.unlocated = p.places.map Place.unlocated ∧
      ∀ place ∈ q.places, ∀ name hops, place.site.occurrence = some (name, hops) →
        (hops.isSome = true ↔ ∃ scope ∈ place.scopes, name ∈ scope) ∧
        ∀ d, hops = some d → ∃ (n : Nat) (scope : List Text), d = n ∧
          place.scopes[n]? = some scope ∧ name ∈ scope ∧
            ∀ inner ∈ place.scopes.take n, name ∉ inner := by
  rw [places_resolve hparse hresolve]
  refine ⟨?_, fun place hplace name hops hoccurs => ?_⟩
  · rw [List.map_map]
    exact List.map_congr_left fun place _ => place.unlocated_located
  · obtain ⟨before, -, rfl⟩ := List.mem_map.1 hplace
    have hscopes : before.located.scopes = before.scopes := rfl
    have hhops : hops = (before.scopes.findIdx? (·.contains name)).map Nat.cast := by
      rw [Place.located, Site.occurrence_withHops] at hoccurs
      obtain ⟨_, -, heq⟩ := Option.map_eq_some_iff.1 hoccurs
      obtain ⟨rfl, rfl⟩ := Prod.mk.inj heq
      rfl
    rw [hscopes, hhops]
    constructor
    · simp [List.findIdx?_isSome]
    · intro d hd
      obtain ⟨n, hn, rfl⟩ := Option.map_eq_some_iff.1 hd
      obtain ⟨hlt, hmem, hinner⟩ := List.findIdx?_eq_some_iff_getElem.1 hn
      refine ⟨n, before.scopes[n], rfl, List.getElem?_eq_getElem hlt, by simpa using hmem,
        fun inner htake => ?_⟩
      obtain ⟨j, hj, rfl⟩ := List.mem_take_iff_getElem.1 htake
      simpa using hinner j (by omega)

def classInLoop : Text := lit "class A \x7b\x7d
for (var i = 0; i < 2; i = i + 1) \x7b
  class B < A \x7b
    m(a) \x7b
      var j = i + a;
      return fun () \x7b i = super.m(this); return j; \x7d;
    \x7d
  \x7d
\x7d
"

set_option maxRecDepth 4000 in
theorem resolve_lexical_classInLoop :
    ∃ p q, parse [] classInLoop = .ok p ∧ p.resolve [] = .ok q ∧
      q.places.filterMap (·.site.occurrence) =
        [(lit "i", some 0), (lit "A", none), (lit "i", some 5), (lit "a", some 0),
          (lit "super", some 3), (lit "this", some 2), (lit "i", some 6), (lit "j", some 1),
          (lit "i", some 1), (lit "i", some 1)] ∧
      ∀ place ∈ q.places, ∀ name, place.site.occurrence = some (name, none) →
        ∀ scope ∈ place.scopes, name ∉ scope := by
  have hruns : ((parse [] classInLoop).toOption.bind fun p => (p.resolve []).toOption.map fun q =>
      q.places.filterMap (·.site.occurrence)) =
        some [(lit "i", some 0), (lit "A", none), (lit "i", some 5), (lit "a", some 0),
          (lit "super", some 3), (lit "this", some 2), (lit "i", some 6), (lit "j", some 1),
          (lit "i", some 1), (lit "i", some 1)] := by
    rw [show classInLoop = Text.encoded _ from Text.lit_ofList _]
    decide +kernel
  obtain ⟨p, hp, hq⟩ := Option.bind_eq_some_iff.1 hruns
  obtain ⟨q, hq, hoccurrences⟩ := Option.map_eq_some_iff.1 hq
  have hparse := eq_ok_of_toOption hp
  have hresolve := eq_ok_of_toOption hq
  obtain ⟨-, hscopes⟩ := resolve_lexical hparse hresolve
  refine ⟨p, q, hparse, hresolve, hoccurrences,
    fun place hplace name hnone scope hscope hname => ?_⟩
  exact absurd ((hscopes place hplace name none hnone).1.2 ⟨scope, hscope, hname⟩) (by simp)

/-- The diagnostics of a program that was read are exactly its violations, one for each place where
something is not allowed, in order. A program without any is accepted, and one with any has no
resolved form. -/
theorem resolve_exact {file source : Text} {p : Program} (hparse : parse file source = .ok p)
    (bound : List Text) :
    (p.violations bound = [] → ∃ q, p.resolve bound = .ok q) ∧
      (p.violations bound ≠ [] → p.resolve bound = .error (p.violations bound)) := by
  have hfound : (Resolve.stmts {} (.top bound) p.body).found = p.violations bound :=
    (parse_tells hparse bound).reported
  constructor
  · intro hnone
    exact ⟨_, resolve_eq_ok.2 ⟨hfound.trans hnone, rfl⟩⟩
  · intro hsome
    unfold resolve
    dsimp only
    rw [hfound, if_neg (by simpa using hsome)]

def violating : Text := lit "class A < A \x7b
  init(a, a) \x7b while (true) return fun () \x7b break; return a; \x7d; \x7d
\x7d
class B \x7b m() \x7b return super.m(this); \x7d \x7d
var x = x + f(fun () \x7b return x; \x7d, b);
var b = b;
\x7b var b = b; var b = b; \x7d
print this; print super.m; return x;
"

set_option maxRecDepth 4000 in
theorem resolve_exact_violating :
    ∃ p ds, parse [] violating = .ok p ∧ p.resolve [lit "b"] = .error ds ∧
      ds.map (fun d => (d.code, d.span.map Span.start)) =
        [(.inheritSelf, some ⟨1, 11⟩), (.dupParam, some ⟨2, 11⟩), (.returnInit, some ⟨2, 29⟩),
          (.breakOutsideLoop, some ⟨2, 45⟩), (.superNoSuperclass, some ⟨4, 24⟩),
          (.selfInit, some ⟨5, 9⟩), (.selfInit, some ⟨7, 11⟩), (.thisOutsideClass, some ⟨8, 7⟩),
          (.superOutsideClass, some ⟨8, 19⟩), (.returnTopLevel, some ⟨8, 28⟩)] := by
  have hfinds : ((parse [] violating).toOption.map fun p =>
      (p.violations [lit "b"]).map fun d => (d.code, d.span.map Span.start)) =
        some [(.inheritSelf, some ⟨1, 11⟩), (.dupParam, some ⟨2, 11⟩), (.returnInit, some ⟨2, 29⟩),
          (.breakOutsideLoop, some ⟨2, 45⟩), (.superNoSuperclass, some ⟨4, 24⟩),
          (.selfInit, some ⟨5, 9⟩), (.selfInit, some ⟨7, 11⟩), (.thisOutsideClass, some ⟨8, 7⟩),
          (.superOutsideClass, some ⟨8, 19⟩), (.returnTopLevel, some ⟨8, 28⟩)] := by
    rw [show violating = Text.encoded _ from Text.lit_ofList _]
    decide +kernel
  obtain ⟨p, hp, hviolations⟩ := Option.map_eq_some_iff.1 hfinds
  have hparse := eq_ok_of_toOption hp
  have hsome : p.violations [lit "b"] ≠ [] :=
    fun hnone => by rw [hnone] at hviolations; cases hviolations
  exact ⟨p, _, hparse, (resolve_exact hparse [lit "b"]).2 hsome, hviolations⟩

end Program
end Lox
