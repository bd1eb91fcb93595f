import Lox.Proofs.Rename.Relation
import Lox.Proofs.Scope.Globals

set_option autoImplicit false
set_option relaxedAutoImplicit false

namespace Lox

open Text (lit)

namespace Checked

variable {α β : Type}

theorem eq_clean {x : Checked α} (h : x.found = []) : x = clean x.value := by
  show x = Checked.mk x.value []
  rw [← h]

theorem bind_eq_clean {x : Checked α} {f : α → Checked β} {b : β} :
    (x >>= f) = clean b ↔ ∃ a, x = clean a ∧ f a = clean b := by
  constructor
  · intro h
    have hvalue : (f x.value).value = b := congrArg Checked.value h
    obtain ⟨hx, hf⟩ := List.append_eq_nil_iff.1 (congrArg Checked.found h)
    refine ⟨x.value, ?_, ?_⟩
    · show Checked.mk _ _ = Checked.mk _ _
      rw [hx]
    · show Checked.mk _ _ = Checked.mk _ _
      rw [hvalue, hf]
  · rintro ⟨a, rfl, hf⟩
    exact hf

theorem pure_eq_clean {a b : α} : (pure a : Checked α) = clean b ↔ a = b :=
  ⟨fun h => congrArg Checked.value h, fun h => h ▸ rfl⟩

theorem reportIf_eq_clean {bad : Bool} {v : Violation} {span : Span} {u : Unit} :
    reportIf bad v span = clean u ↔ bad = false := by
  cases bad with
  | true => exact ⟨fun h => (List.cons_ne_nil _ _ (congrArg Checked.found h)).elim, nofun⟩
  | false => exact ⟨fun _ => rfl, fun _ => rfl⟩

end Checked

namespace Renaming

open Checked

variable {r : Renaming}

def scopeOf (r : Renaming) (here : Bool) (s : Scope) : Scope :=
  { s with names := s.names.map fun b => (r.apply here b.1, b.2) }

def scopesOf (r : Renaming) (marks : List Bool) (env : Scopes) : Scopes :=
  { env with locals := List.zipWith r.scopeOf marks env.locals }

private theorem ready?_scopeOf {here : Bool} {s : Scope} {n : Text}
    (hs : here = true → s.ready? r.new = none) (hn : here = true → n ≠ r.new) :
    (r.scopeOf here s).ready? (r.apply here n) = s.ready? n := by
  obtain ⟨names, funs⟩ := s
  unfold scopeOf Scope.ready?
  unfold Scope.ready? at hs
  dsimp only at hs ⊢
  induction names with
  | nil => rfl
  | cons b names ih =>
    obtain ⟨m, ready⟩ := b
    have hm : here = true → m ≠ r.new := by
      rintro hhere rfl
      have hnone := hs hhere
      rw [List.lookup_cons_self] at hnone
      cases hnone
    have hrest : here = true → names.lookup r.new = none := by
      intro hhere
      have hnone := hs hhere
      rwa [List.lookup_cons, beq_false_of_ne (hm hhere).symm] at hnone
    rw [List.map_cons, List.lookup_cons, List.lookup_cons, ih hrest]
    by_cases h : n = m
    · rw [h, beq_self_eq_true, beq_self_eq_true]
    · have happly : r.apply here n ≠ r.apply here m := fun heq => h ((apply_inj hn hm).1 heq)
      rw [beq_false_of_ne h, beq_false_of_ne happly]

private theorem ready?_scopeOf_old {s : Scope} (h : r.old ≠ r.new) :
    (r.scopeOf true s).ready? r.old = none := by
  obtain ⟨names, funs⟩ := s
  unfold scopeOf Scope.ready?
  dsimp only
  induction names with
  | nil => rfl
  | cons b names ih =>
    have hb : r.old ≠ r.apply true b.1 := by
      unfold apply
      split
      · exact h
      · rename_i hb
        exact fun heq => hb ⟨rfl, heq.symm⟩
    rw [List.map_cons, List.lookup_cons, ih, beq_false_of_ne hb]

private theorem scopeOf_define {here : Bool} {s : Scope} (n : Text) :
    r.scopeOf here (s.define n) = (r.scopeOf here s).define (r.apply here n) := rfl

private theorem scopeOf_declare {here : Bool} {s : Scope} {n : Text}
    (hs : here = true → s.ready? r.new = none) (hn : here = true → n ≠ r.new) :
    r.scopeOf here (s.declare n) = (r.scopeOf here s).declare (r.apply here n) := by
  unfold Scope.declare
  rw [ready?_scopeOf hs hn]
  split <;> rfl

private theorem scopeOf_false (s : Scope) : r.scopeOf false s = s := by
  obtain ⟨names, funs⟩ := s
  simp [scopeOf, apply_false]

/-- A name that is not in a scope is not in the renamed one either, whether the name is changed or
not. -/
theorem ready?_scopeOf_none {b c : Bool} {s : Scope} {n : Text}
    (hs : b = true ∨ c = true → s.ready? r.new = none) (hn : b = true ∨ c = true → n ≠ r.new)
    (h : s.ready? n = none) : (r.scopeOf b s).ready? (r.apply c n) = none := by
  by_cases hold : n = r.old
  · subst hold
    cases b with
    | false =>
      rw [scopeOf_false]
      unfold apply
      split
      · rename_i hc
        exact hs (.inr hc.1)
      · exact h
    | true =>
      cases c with
      | false => rw [apply_false, ready?_scopeOf_old (hn (.inl rfl))]
      | true => rw [ready?_scopeOf (fun _ => hs (.inl rfl)) (fun _ => hn (.inl rfl)), h]
  · have hb := apply_of_ne (r := r) (fun (_ : b = true) => hold)
    have hc := apply_of_ne (r := r) (fun (_ : c = true) => hold)
    rw [hc, ← hb, ready?_scopeOf (fun hb => hs (.inl hb)) (fun hb => hn (.inl hb)), h]

/-- Marks for scopes such that the new name occurs in no renamed scope and in none inside one. -/
def Clear (r : Renaming) : List Bool → List Scope → Prop
  | [], [] => True
  | b :: marks, s :: locals => (true ∈ b :: marks → s.ready? r.new = none) ∧ r.Clear marks locals
  | _, _ => False

def found (marks : List Bool) (name : Text) (locals : List Scope) : Bool :=
  reaches marks ((Scopes.locate name locals).map fun place => (place.1 : Int))

private theorem locate_scopesOf {marks : List Bool} {locals : List Scope} {n : Text}
    (hclear : r.Clear marks locals) (hn : r.Allows marks n) :
    Scopes.locate (r.apply (found marks n locals) n) (List.zipWith r.scopeOf marks locals) =
      Scopes.locate n locals := by
  induction locals generalizing marks with
  | nil =>
    cases marks with
    | nil => rfl
    | cons b marks => exact hclear.elim
  | cons s locals ih =>
    cases marks with
    | nil => exact hclear.elim
    | cons b marks =>
      obtain ⟨hs, hrest⟩ := hclear
      have hfirst : b = true → true ∈ b :: marks := by
        rintro rfl
        exact .head _
      rw [List.zipWith_cons_cons, Scopes.locate]
      cases hready : s.ready? n with
      | some ready =>
        have hfound : found (b :: marks) n (s :: locals) = b := by
          unfold found Scopes.locate
          rw [hready]
          rfl
        rw [hfound, ready?_scopeOf (fun hb => hs (hfirst hb)) fun hb => hn (hfirst hb), hready]
        simp only [Scopes.locate, hready]
        rfl
      | none =>
        have hfound : found (b :: marks) n (s :: locals) = found marks n locals := by
          unfold found
          rw [Scopes.locate, hready]
          cases Scopes.locate n locals <;> rfl
        have hmem : b = true ∨ found marks n locals = true → true ∈ b :: marks := by
          rintro (hb | hlater)
          · exact hfirst hb
          · exact .tail _ (mem_of_reaches hlater)
        rw [hfound, ready?_scopeOf_none (fun h => hs (hmem h)) (fun h => hn (hmem h)) hready]
        simp only [Scopes.locate, hready]
        rw [ih hrest fun h => hn (.tail _ h)]

namespace Clear

variable {marks : List Bool} {env : Scopes}

private theorem push (h : r.Clear marks env.locals) {b : Bool} {s : Scope}
    (hs : true ∈ b :: marks → s.ready? r.new = none) : r.Clear (b :: marks) (env.push s).locals :=
  ⟨hs, h⟩

private theorem update (h : r.Clear marks env.locals) {f g : Scope → Scope}
    (hfresh : ∀ s : Scope, true ∈ marks → s.ready? r.new = none → (f s).ready? r.new = none)
    (hcommutes : ∀ s : Scope, (here marks = true → s.ready? r.new = none) →
      r.scopeOf (here marks) (f s) = g (r.scopeOf (here marks) s)) :
    r.Clear marks (env.update f).locals ∧
      r.scopesOf marks (env.update f) = (r.scopesOf marks env).update g := by
  obtain ⟨globals, locals⟩ := env
  cases marks with
  | nil =>
    cases locals with
    | nil =>
      have hglobals := hcommutes globals nofun
      rw [show here [] = false from rfl, scopeOf_false, scopeOf_false] at hglobals
      exact ⟨h, congrArg (Scopes.mk · []) hglobals⟩
    | cons s locals => exact h.elim
  | cons b marks =>
    cases locals with
    | nil => exact h.elim
    | cons s locals =>
      refine ⟨⟨fun hmem => hfresh s hmem (h.1 hmem), h.2⟩, ?_⟩
      have hscope := hcommutes s fun hb => h.1 (mem_of_here hb)
      exact congrArg (fun s => Scopes.mk globals (s :: List.zipWith r.scopeOf marks locals)) hscope

theorem declare (h : r.Clear marks env.locals) {n : Text} (hn : r.Allows marks n) :
    r.Clear marks (env.declare n).locals ∧
      r.scopesOf marks (env.declare n) =
        (r.scopesOf marks env).declare (r.apply (here marks) n) := by
  refine h.update (fun s hmem hs => ?_) fun s hs =>
    scopeOf_declare hs fun hhere => hn (mem_of_here hhere)
  rw [Scope.ready?_declare, if_neg fun heq => hn hmem heq.1.symm]
  exact hs

theorem define (h : r.Clear marks env.locals) {n : Text} (hn : r.Allows marks n) :
    r.Clear marks (env.define n).locals ∧
      r.scopesOf marks (env.define n) = (r.scopesOf marks env).define (r.apply (here marks) n) := by
  refine h.update (fun s hmem hs => ?_) fun s _ => scopeOf_define n
  rw [Scope.ready?_define, if_neg (hn hmem).symm]
  exact hs

theorem introduce (h : r.Clear marks env.locals) {n : Text} (hn : r.Allows marks n) :
    r.Clear marks ((env.declare n).define n).locals ∧
      r.scopesOf marks ((env.declare n).define n) =
        ((r.scopesOf marks env).declare (r.apply (here marks) n)).define
          (r.apply (here marks) n) := by
  obtain ⟨hdeclared, heq⟩ := h.declare hn
  obtain ⟨hdefined, heq'⟩ := hdeclared.define hn
  exact ⟨hdefined, heq'.trans (by rw [heq])⟩

end Clear

section

variable {at_ : Surroundings} {env : Scopes} {marks : List Bool}

theorem resolve_occurrence (hclear : r.Clear marks env.locals) {n : Text} (hn : r.Allows marks n)
    {span : Span} {isRead : Bool} {hops : Option Int}
    (h : Resolve.occurrence at_ env n span isRead = clean hops) :
    Resolve.occurrence at_ (r.scopesOf marks env) (r.apply (reaches marks hops) n) span isRead =
      clean hops := by
  have hlocate := locate_scopesOf hclear hn
  unfold found at hlocate
  unfold Resolve.occurrence at h ⊢
  unfold scopesOf
  cases hplace : Scopes.locate n env.locals with
  | none =>
    rw [hplace] at h hlocate
    simp only [bind_eq_clean, pure_eq_clean] at h
    obtain ⟨u, hreport, rfl⟩ := h
    have hsame : r.apply (reaches marks none) n = n := apply_false n
    rw [hsame]
    rw [show Option.map _ none = none from rfl, hsame] at hlocate
    rw [hlocate]
    simp only [hreport]
    rfl
  | some place =>
    obtain ⟨d, ready, funs⟩ := place
    rw [hplace] at h hlocate
    simp only [bind_eq_clean, pure_eq_clean, reportIf_eq_clean] at h
    obtain ⟨u, hreport, rfl⟩ := h
    rw [show reaches marks (Option.map _ (some (d, ready, funs))) = reaches marks (some (d : Int))
      from rfl] at hlocate
    rw [hlocate]
    simp only [hreport]
    rfl

theorem resolve_use (hclear : r.Clear marks env.locals) {u u₁ : NameUse}
    (h : Resolve.nameUse at_ env u = clean u₁) (hn : r.Allows marks u₁.name) :
    Resolve.nameUse at_ (r.scopesOf marks env) (r.use marks u₁) = clean (r.use marks u₁) := by
  unfold Resolve.nameUse at h ⊢
  simp only [bind_eq_clean, pure_eq_clean] at h
  obtain ⟨hops, hoccurrence, rfl⟩ := h
  rw [bind_eq_clean]
  exact ⟨hops, resolve_occurrence hclear hn hoccurrence, rfl⟩

theorem resolve_use_name {u u₁ : NameUse} (h : Resolve.nameUse at_ env u = clean u₁) :
    u₁.name = u.name := by
  simp only [Resolve.nameUse, bind_eq_clean, pure_eq_clean] at h
  obtain ⟨_, _, rfl⟩ := h
  rfl

theorem resolve_keyword (hclear : r.Clear marks env.locals) (k : Keyword) {span : Span}
    {hops : Option Int} (h : Resolve.occurrence at_ env k.spelling span true = clean hops) :
    Resolve.occurrence at_ (r.scopesOf marks env) k.spelling span true = clean hops := by
  have hoccurrence := resolve_occurrence hclear (allows_keyword marks k) h
  rwa [apply_keyword] at hoccurrence

theorem resolve_parameters {b : Bool} {ps : List Param} (hps : b = true → ∀ p ∈ ps, p.name ≠ r.new)
    {seen : List Text} (hseen : b = true → r.new ∉ seen) {u : Unit}
    (h : Resolve.parameters seen ps = clean u) :
    Resolve.parameters (seen.map (r.apply b)) (ps.map (r.param b)) = clean u := by
  induction ps generalizing seen with
  | nil => exact h
  | cons p ps ih =>
    rw [Resolve.parameters, bind_eq_clean] at h
    obtain ⟨_, hreport, hrest⟩ := h
    have hp : b = true → p.name ≠ r.new := fun hb => hps hb p (.head _)
    rw [List.map_cons, Resolve.parameters, bind_eq_clean]
    refine ⟨(), ?_, ih (fun hb q hq => hps hb q (.tail _ hq)) (fun hb hmem => ?_) hrest⟩
    · rw [reportIf_eq_clean, Bool.eq_false_iff, ne_eq, List.contains_iff_mem] at hreport ⊢
      exact fun hmem => hreport ((mem_map_apply hp hseen).1 hmem)
    · rcases List.mem_cons.1 hmem with heq | hmem
      · exact hp hb heq.symm
      · exact hseen hb hmem

theorem clear_inside (hclear : r.Clear marks env.locals) {b : Bool} {ps : List Param}
    (hps : ∀ p ∈ ps, r.Allows (b :: marks) p.name) (funs : Nat) :
    r.Clear (b :: marks) (Resolve.inside env funs ps).locals ∧
      r.scopesOf (b :: marks) (Resolve.inside env funs ps) =
        Resolve.inside (r.scopesOf marks env) funs (ps.map (r.param b)) := by
  have hfold : ∀ s : Scope, (true ∈ b :: marks → s.ready? r.new = none) →
      (true ∈ b :: marks →
        (ps.foldl (fun s p => (s.declare p.name).define p.name) s).ready? r.new = none) ∧
      r.scopeOf b (ps.foldl (fun s p => (s.declare p.name).define p.name) s) =
        (ps.map (r.param b)).foldl
          (fun s p => (s.declare p.name).define p.name) (r.scopeOf b s) := by
    induction ps with
    | nil => exact fun s hs => ⟨hs, rfl⟩
    | cons p ps ih =>
      intro s hs
      have hp := hps p (.head _)
      have hfirst : b = true → true ∈ b :: marks := by
        rintro rfl
        exact .head _
      have hstep := scopeOf_declare (fun hb => hs (hfirst hb)) fun hb => hp (hfirst hb)
      rw [List.foldl_cons, List.map_cons, List.foldl_cons]
      have hrest :=
          ih (fun q hq => hps q (.tail _ hq)) ((s.declare p.name).define p.name) fun hmem => by
        rw [Scope.ready?_define, if_neg (hp hmem).symm, Scope.ready?_declare,
          if_neg fun heq => hp hmem heq.1.symm]
        exact hs hmem
      rw [scopeOf_define, hstep] at hrest
      exact hrest
  obtain ⟨hready, hscope⟩ := hfold (.empty funs) fun _ => rfl
  exact ⟨hclear.push hready, congrArg (Scopes.push (r.scopesOf marks env)) hscope⟩

theorem clear_block (hclear : r.Clear marks env.locals) (b : Bool) (funs : Nat) :
    r.Clear (b :: marks) (env.push (.empty funs)).locals := hclear.push fun _ => rfl

private theorem clear_single (hclear : r.Clear marks env.locals) (funs : Nat) (k : Keyword) :
    r.Clear (false :: marks) (env.push (Resolve.single funs k.spelling)).locals ∧
      r.scopesOf (false :: marks) (env.push (Resolve.single funs k.spelling)) =
        (r.scopesOf marks env).push (Resolve.single funs k.spelling) := by
  refine ⟨hclear.push fun _ => ?_, ?_⟩
  · unfold Resolve.single
    rw [Scope.ready?_define, if_neg (r.ne_keyword k).2]
    rfl
  · exact congrArg (Scopes.push (r.scopesOf marks env)) (scopeOf_false _)

end

theorem clear_aroundMethods {env : Scopes} {marks : List Bool} (hclear : r.Clear marks env.locals)
    (funs : Nat) :
    (r.Clear (false :: marks) (Resolve.aroundMethods env funs false).locals ∧
      r.scopesOf (false :: marks) (Resolve.aroundMethods env funs false) =
        Resolve.aroundMethods (r.scopesOf marks env) funs false) ∧
    (r.Clear (false :: false :: marks) (Resolve.aroundMethods env funs true).locals ∧
      r.scopesOf (false :: false :: marks) (Resolve.aroundMethods env funs true) =
        Resolve.aroundMethods (r.scopesOf marks env) funs true) := by
  refine ⟨clear_single hclear funs .this_, ?_⟩
  obtain ⟨hsuper, heq⟩ := clear_single hclear funs .super_
  obtain ⟨hthis, heq'⟩ := clear_single hsuper funs .this_
  refine ⟨hthis, heq'.trans ?_⟩
  rw [heq]
  rfl

end Renaming
end Lox
