import Lox.Proofs.Scope.Globals
import Lox.Proofs.Scope.Places

set_option autoImplicit false
set_option relaxedAutoImplicit false

namespace Lox

open Text (lit)

namespace Construct

def ownsNames : Construct → Bool
  | block | function _ | firstClause | round => true
  | script | whileBody | classBody _ => false

end Construct

namespace Around

def Declares (a : Around) : Prop := a.construct = .script ∨ a.construct.ownsNames = true

def funs (around : List Around) : Nat :=
  ((around.map Around.construct).filter Construct.isFunction).length

def surroundings (around : List Around) : Surroundings where
  body :=
    match nearestFunction around with
    | none => .script
    | some false => .function
    | some true => .initializer
  inClass :=
    match nearestClass around with
    | none => .none
    | some false => .plain
    | some true => .derived
  inLoop := inLoop around
  funs := funs around

/-- No place up to the nearest function is in the initial value of a variable. -/
def Quiet : List Around → Prop
  | [] => True
  | a :: r => a.initial = none ∧ (a.construct.isFunction = true ∨ Quiet r)

/-- A place is in the initial value of at most one variable up to the nearest function, and of none
that is named as only the language names things. -/
def Sealed : List Around → Prop
  | [] => True
  | a :: r => (∀ n, a.initial = some n → n ≠ lit "this" ∧ n ≠ lit "super") ∧
      (a.construct.isFunction = true ∨ Quiet r)

theorem Quiet.sealed {around : List Around} (h : Quiet around) : Sealed around := by
  cases around with
  | nil => trivial
  | cons a r =>
    refine ⟨fun n hn => ?_, h.2⟩
    rw [h.1] at hn
    cases hn

theorem Quiet.inside {around : List Around} (h : Quiet around) (construct : Construct)
    (names : List Text) : Quiet ({ construct, names } :: around) := ⟨rfl, .inr h⟩

theorem Quiet.declaring {a : Around} {r : List Around} (h : Quiet (a :: r)) (names : List Text) :
    Quiet (a.declaring names :: r) := h

theorem Quiet.inInitial {a : Around} {r : List Around} (h : Quiet (a :: r)) {name : Text}
    (hthis : name ≠ lit "this") (hsuper : name ≠ lit "super") :
    Sealed (a.inInitial name :: r) := by
  refine ⟨fun n hn => ?_, h.2⟩
  cases hn
  exact ⟨hthis, hsuper⟩

theorem quiet_ofFunction (isInitializer : Bool) (ps : List Param) (around : List Around) :
    Quiet (ofFunction isInitializer ps :: around) := ⟨rfl, .inl rfl⟩

private theorem isSome_status {a : Around} {name : Text} :
    (a.status name).isSome = (a.names ++ a.initial.toList).contains name := by
  unfold status
  by_cases h : name ∈ a.names
  · simp [h]
  · by_cases hi : a.initial = some name
    · simp [h, hi]
    · simp [h, hi]

private theorem status_of_quiet {a : Around} (h : a.initial = none) (name : Text) :
    a.status name ≠ some false := by
  unfold status
  rw [h]
  split
  · simp
  · simp

theorem status_declaring_nil (a : Around) : a.declaring [] = a := by
  simp [declaring]

end Around

namespace Scope

theorem ready?_params (ps : List Param) (s : Scope) (n : Text) :
    (ps.foldl (fun s p => (s.declare p.name).define p.name) s).ready? n =
      if n ∈ ps.map Param.name then some true else s.ready? n := by
  induction ps generalizing s with
  | nil => simp
  | cons p ps ih =>
    rw [List.foldl_cons, ih, ready?_define, ready?_declare]
    by_cases hn : n = p.name <;> simp [hn]

theorem funs_declare (s : Scope) (name : Text) : (s.declare name).funs = s.funs := by
  unfold declare
  split <;> rfl

private theorem funs_params (ps : List Param) (s : Scope) :
    (ps.foldl (fun s p => (s.declare p.name).define p.name) s).funs = s.funs := by
  induction ps generalizing s with
  | nil => rfl
  | cons p ps ih =>
    rw [List.foldl_cons, ih]
    exact s.funs_declare p.name

end Scope

open Around (funs surroundings Quiet Sealed)

inductive Agrees (bound : List Text) : List Around → Scopes → Prop
  | script {a : Around} {globals : Scope} :
      a.construct = .script →
      (∀ n, globals.ready? n = if n ∈ bound then some true else a.status n) →
      Agrees bound [a] { globals, locals := [] }
  | whileBody {around : List Around} {env : Scopes} :
      Agrees bound around env → Agrees bound ({ construct := .whileBody } :: around) env
  | classBody {around : List Around} {env : Scopes} (derived : Bool) :
      Agrees bound around env →
      Agrees bound ({ construct := .classBody derived } :: around)
        (Resolve.aroundMethods env (funs around) derived)
  | scope {a : Around} {s : Scope} {around : List Around} {env : Scopes} :
      a.construct.ownsNames = true → (∀ n, s.ready? n = a.status n) → s.funs = funs (a :: around) →
      Agrees bound around env → Agrees bound (a :: around) (env.push s)

namespace Agrees

variable {bound : List Text} {a : Around} {r around : List Around} {env : Scopes}

theorem top (bound : List Text) : Agrees bound [{ construct := .script }] (.top bound) :=
  .script rfl fun n => Scopes.ready?_top bound n

theorem of_whileBody (h : Agrees bound ({ construct := .whileBody } :: around) env) :
    Agrees bound around env := by
  cases h with
  | script hscript _ => cases hscript
  | whileBody h => exact h
  | scope howns _ _ _ => cases howns

theorem empty (h : Agrees bound around env) (construct : Construct)
    (hconstruct : construct = .block ∨ construct = .firstClause ∨ construct = .round) :
    Agrees bound ({ construct } :: around) (env.push (.empty (funs around))) := by
  have howns : construct.ownsNames = true := by rcases hconstruct with rfl | rfl | rfl <;> rfl
  refine .scope howns (fun n => rfl) ?_ h
  rcases hconstruct with rfl | rfl | rfl <;> rfl

theorem inside (h : Agrees bound around env) (isInitializer : Bool) (ps : List Param) :
    Agrees bound (.ofFunction isInitializer ps :: around)
      (Resolve.inside env (funs around + 1) ps) :=
  .scope rfl (fun n => Scope.ready?_params ps _ n) (Scope.funs_params ps _) h

theorem inInitial (h : Agrees bound (a :: r) env) (ha : a.Declares) (hinitial : a.initial = none)
    (name : Text) : Agrees bound (a.inInitial name :: r) (env.declare name) := by
  have hstatus : ∀ n, (a.inInitial name).status n =
      if n = name ∧ a.status name ≠ some true then some false else a.status n := by
    intro n
    unfold Around.status Around.inInitial
    rw [hinitial]
    by_cases hn : n = name
    · by_cases hname : name ∈ a.names <;> simp [hn, hname]
    · simp [hn, Ne.symm hn]
  cases h with
  | script hscript hglobals =>
    refine .script hscript fun n => ?_
    rw [Scope.ready?_declare, hglobals, hglobals, hstatus]
    by_cases hn : n = name
    · by_cases hname : name ∈ bound <;> simp [hn, hname]
    · simp [hn]
  | whileBody _ | classBody _ _ => rcases ha with ha | ha <;> cases ha
  | @scope _ s _ env howns hready hfuns h =>
    show Agrees bound (a.inInitial name :: r) (env.push (s.declare name))
    refine .scope howns (fun n => ?_) ((s.funs_declare name).trans hfuns) h
    rw [Scope.ready?_declare, hready, hready, hstatus]

theorem define {name : Text} (h : Agrees bound (a.inInitial name :: r) env) (ha : a.Declares)
    (hinitial : a.initial = none) : Agrees bound (a.declaring [name] :: r) (env.define name) := by
  have hstatus : ∀ n, (a.declaring [name]).status n =
      if n = name then some true else (a.inInitial name).status n := by
    intro n
    unfold Around.status Around.inInitial Around.declaring
    rw [hinitial]
    by_cases hn : n = name
    · simp [hn]
    · by_cases hname : n ∈ a.names <;> simp [hn, hname, Ne.symm hn]
  generalize hb : a.inInitial name = b at h
  have hconstruct : b.construct = a.construct := hb ▸ rfl
  cases h with
  | script hscript hglobals =>
    refine .script (hconstruct.symm.trans hscript) fun n => ?_
    rw [Scope.ready?_define, hglobals, hstatus, hb]
    by_cases hn : n = name <;> simp [hn]
  | whileBody _ | classBody _ _ => rcases ha with ha | ha <;> rw [← hconstruct] at ha <;> cases ha
  | @scope _ s _ env howns hready hfuns h =>
    subst hb
    show Agrees bound (a.declaring [name] :: r) (env.push (s.define name))
    refine .scope howns (fun n => ?_) hfuns h
    rw [Scope.ready?_define, hready, hstatus]

theorem declare (h : Agrees bound (a :: r) env) (ha : a.Declares) (hinitial : a.initial = none)
    (name : Text) : Agrees bound (a.declaring [name] :: r) ((env.declare name).define name) :=
  (h.inInitial ha hinitial name).define ha hinitial

private theorem locate (h : Agrees bound around env) (name : Text) :
    (Scopes.locate name env.locals).map Prod.fst =
      (around.flatMap Around.scopes).findIdx? (·.contains name) := by
  induction h with
  | @script a _ hscript _ =>
    have hscopes : a.scopes = [] := by
      unfold Around.scopes
      rw [hscript]
    rw [List.flatMap_singleton, hscopes]
    rfl
  | whileBody _ ih => exact ih
  | @classBody around env derived _ ih =>
    have hsingle : ∀ (n : Text) (l : List Scope),
        (Scopes.locate name (Resolve.single (funs around) n :: l)).map Prod.fst =
          if name = n then some 0 else ((Scopes.locate name l).map Prod.fst).map (· + 1) := by
      intro n l
      rw [Scopes.locate, Resolve.single, Scope.ready?_define]
      by_cases hn : name = n
      · simp [hn]
      · simp only [hn, if_false]
        rw [show (Scope.empty (funs around)).ready? name = none from rfl]
        simp [Function.comp_def]
    cases derived with
    | false =>
      rw [Resolve.aroundMethods, Scopes.push, hsingle, List.flatMap_cons]
      simp [Around.scopes, List.findIdx?_cons, ih]
    | true =>
      rw [Resolve.aroundMethods, Scopes.push, hsingle, if_pos rfl, Scopes.push, hsingle,
        List.flatMap_cons]
      simp [Around.scopes, List.findIdx?_cons, ih]
  | @scope a s around env howns hready _ _ ih =>
    have hscopes : a.scopes = [a.names ++ a.initial.toList] := by
      unfold Around.scopes
      split <;> rename_i hconstruct <;> rw [hconstruct] at howns <;> cases howns
    rw [Scopes.push, Scopes.locate, hready, List.flatMap_cons, hscopes]
    simp only [List.singleton_append, List.findIdx?_cons, ← Around.isSome_status, ← ih]
    cases a.status name with
    | none => simp [Function.comp_def]
    | some ready => simp

end Agrees

namespace Resolve

/-- Whether a name is found without its value in a scope with so many functions around it. -/
def lacksValue (env : Scopes) (name : Text) (funs : Nat) : Bool :=
  match Scopes.locate name env.locals with
  | some (_, ready, found) => !ready && found == funs
  | none => env.globals.ready? name == some false && funs == 0

theorem occurrence_eq (at_ : Surroundings) (env : Scopes) (name : Text)
    (span : Span) (isRead : Bool) :
    occurrence at_ env name span isRead =
      { value := ((Scopes.locate name env.locals).map Prod.fst).map Nat.cast
        found := (Checked.reportIf (isRead && lacksValue env name at_.funs)
          (.selfInit name) span).found
      } := by
  unfold occurrence lacksValue
  cases Scopes.locate name env.locals with
  | none =>
    show Checked.mk _ (_ ++ []) = _
    rw [List.append_nil, Bool.and_assoc]
    rfl
  | some found =>
    obtain ⟨hops, ready, found⟩ := found
    show Checked.mk _ (_ ++ []) = _
    rw [List.append_nil, Bool.and_assoc]
    rfl

private theorem lacksValue_push (env : Scopes) (s : Scope) (name : Text) (k : Nat) :
    lacksValue (env.push s) name k =
      match s.ready? name with
      | some ready => !ready && s.funs == k
      | none => lacksValue env name k := by
  unfold lacksValue Scopes.push
  rw [Scopes.locate]
  cases s.ready? name with
  | some ready => rfl
  | none =>
    cases Scopes.locate name env.locals with
    | none => rfl
    | some found => rfl

private theorem lacksValue_single (env : Scopes) (funs : Nat) (n name : Text) (k : Nat) :
    lacksValue (env.push (single funs n)) name k = true → lacksValue env name k = true := by
  intro h
  rw [lacksValue_push, single, Scope.ready?_define] at h
  by_cases hn : name = n
  · simp [hn] at h
  · simpa [hn, Scope.ready?, Scope.empty] using h

private theorem lacksValue_aroundMethods {env : Scopes} {funs : Nat}
    {derived : Bool} {name : Text} {k : Nat}
    (h : lacksValue (aroundMethods env funs derived) name k = true) :
    lacksValue env name k = true := by
  unfold aroundMethods at h
  have hthis := lacksValue_single _ _ _ _ _ h
  cases derived with
  | false => exact hthis
  | true => exact lacksValue_single _ _ _ _ _ hthis

end Resolve

namespace Agrees

open Resolve (lacksValue lacksValue_push)

variable {bound : List Text} {a : Around} {r around : List Around} {env : Scopes}

private theorem lacksValue_le (h : Agrees bound around env) {name : Text} {k : Nat}
    (hlacks : lacksValue env name k = true) : k ≤ funs around := by
  induction h with
  | script _ _ =>
    simp only [lacksValue, Scopes.locate, Bool.and_eq_true, beq_iff_eq] at hlacks
    exact hlacks.2 ▸ Nat.zero_le _
  | whileBody _ ih => exact ih hlacks
  | classBody derived _ ih => exact ih (Resolve.lacksValue_aroundMethods hlacks)
  | @scope a s around env _ _ hfuns _ ih =>
    rw [lacksValue_push] at hlacks
    split at hlacks
    · simp only [Bool.and_eq_true, beq_iff_eq] at hlacks
      omega
    · have hle := ih hlacks
      have hsub := (((List.sublist_cons_self a around).map Around.construct).filter
        Construct.isFunction).length_le
      exact Nat.le_trans hle hsub

/-- A name that is not found in the innermost scope, where no place around that scope matters. -/
theorem quiet_around (h : Agrees bound around env)
    (hquiet : a.construct.isFunction = true ∨ Quiet around) {name : Text}
    (ih : Quiet around → lacksValue env name (funs around) = false) :
    lacksValue env name (funs (a :: around)) = false := by
  by_cases hfunction : a.construct.isFunction = true
  · refine Bool.eq_false_iff.2 fun hlacks => ?_
    have hle := h.lacksValue_le hlacks
    have hmore : funs (a :: around) = funs around + 1 := by simp [Around.funs, hfunction]
    omega
  · have hsame : funs (a :: around) = funs around := by simp [Around.funs, hfunction]
    rw [hsame]
    exact ih (hquiet.resolve_left hfunction)

/-- Where no place up to the nearest function is in an initial value, every name has its value. -/
theorem quiet (h : Agrees bound around env) (hquiet : Quiet around) (name : Text) :
    lacksValue env name (funs around) = false := by
  induction h with
  | @script a globals _ hglobals =>
    have hready : globals.ready? name ≠ some false := by
      rw [hglobals]
      split
      · simp
      · exact Around.status_of_quiet hquiet.1 name
    simp [lacksValue, Scopes.locate, hready]
  | whileBody _ ih => exact ih (hquiet.2.resolve_left (by decide))
  | classBody derived _ ih =>
    have hfalse := ih (hquiet.2.resolve_left Bool.false_ne_true)
    exact Bool.eq_false_iff.2 fun h =>
      Bool.eq_false_iff.1 hfalse (Resolve.lacksValue_aroundMethods h)
  | scope _ hready _ h ih =>
    rw [lacksValue_push, hready]
    split
    · rename_i ready heq
      cases ready with
      | true => rfl
      | false => exact absurd heq (Around.status_of_quiet hquiet.1 name)
    · exact h.quiet_around hquiet.2 ih

private theorem lacksValue_eq (h : Agrees bound around env)
    (hsealed : Sealed around) (name : Text) :
    lacksValue env name (funs around) = Around.beforeValue around bound name := by
  cases h with
  | @script a globals hscript hglobals =>
    have hfuns : funs [a] = 0 := by simp [Around.funs, hscript, Construct.isFunction]
    simp only [lacksValue, Scopes.locate, hfuns, hglobals,
      Around.beforeValue, hscript, Around.status]
    by_cases hbound : name ∈ bound
    · simp [hbound]
    · by_cases hname : name ∈ a.names
      · simp [hbound, hname]
      · by_cases hinitial : a.initial = some name <;> simp [hbound, hname, hinitial]
  | whileBody h => exact h.quiet (hsealed.2.resolve_left Bool.false_ne_true) name
  | classBody derived h =>
    have hfalse := h.quiet (hsealed.2.resolve_left Bool.false_ne_true) name
    exact Bool.eq_false_iff.2 fun h =>
      Bool.eq_false_iff.1 hfalse (Resolve.lacksValue_aroundMethods h)
  | @scope a s around env howns hready hfuns h =>
    have hscript : a.construct ≠ .script := fun heq => by rw [heq] at howns; cases howns
    rw [lacksValue_push, hready, hfuns]
    simp only [Around.beforeValue, Around.status]
    by_cases hname : name ∈ a.names
    · simp [hname]
    · by_cases hinitial : a.initial = some name
      · simp [hname, hinitial, hscript]
      · simp [hname, hinitial, h.quiet_around hsealed.2 (h.quiet · name)]

theorem occurrence_value (h : Agrees bound around env) (at_ : Surroundings)
    (name : Text) (span : Span)
    (isRead : Bool) : (Resolve.occurrence at_ env name span isRead).value =
      ((around.flatMap Around.scopes).findIdx? (·.contains name)).map Nat.cast := by
  rw [Resolve.occurrence_eq, ← h.locate]

theorem occurrence_found (h : Agrees bound around env)
    (hsealed : Sealed around) {at_ : Surroundings}
    (hfuns : at_.funs = funs around) (name : Text) (span : Span) :
    (Resolve.occurrence at_ env name span true).found =
      if Around.beforeValue around bound name then [(Violation.selfInit name).diagnostic span]
      else [] := by
  rw [Resolve.occurrence_eq, hfuns, h.lacksValue_eq hsealed]
  rfl

end Agrees
end Lox
