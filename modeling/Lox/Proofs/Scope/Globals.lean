import Lox.Proofs.Scope.Readier

set_option autoImplicit false
set_option relaxedAutoImplicit false

namespace Lox

/-- Scopes with the same local scopes, whose globals are kept in different ways. -/
structure Scopes.Alike (env env' : Scopes) : Prop where
  locals : env.locals = env'.locals
  globals (n : Text) : env.globals.ready? n = env'.globals.ready? n

namespace Scopes.Alike

variable {env env' : Scopes}

private theorem symm (h : env.Alike env') : env'.Alike env :=
  ⟨h.locals.symm, fun n => (h.globals n).symm⟩

private theorem readier (h : env.Alike env') : env.Readier env' :=
  ⟨h.locals, fun n => .inl (h.globals n).symm⟩

private theorem of_readier (h : env.Readier env') (h' : env'.Readier env) : env.Alike env' := by
  refine ⟨h.locals, fun n => ?_⟩
  obtain hsame | hready := h.globals n
  · exact hsame.symm
  · obtain hsame | hready' := h'.globals n
    · exact hsame
    · rw [hready, hready']

private theorem top {bound bound' : List Text} (h : ∀ n, n ∈ bound ↔ n ∈ bound') :
    (Scopes.top bound).Alike (.top bound') :=
  ⟨rfl, fun n => by simp only [ready?_top, h]⟩

end Scopes.Alike

/-- Checks that find the same and give the same, up to how globals are kept. -/
structure Checked.Alike {α : Type} (x y : Checked (α × Scopes)) : Prop where
  found : x.found = y.found
  value : x.value.1 = y.value.1
  scopes : x.value.2.Alike y.value.2

private theorem Diagnostic.Spares.antisymm {ds ds' : List Diagnostic}
    (h : Spares ds ds') (h' : Spares ds' ds) :
    ds = ds' :=
  h'.sublist.eq_of_length_le h.sublist.length_le

private theorem Resolve.stmts_alike (at_ : Surroundings) {env env' : Scopes} (h : env.Alike env')
    (ss : List Stmt) : (stmts at_ env ss).Alike (stmts at_ env' ss) := by
  have hthere := stmts_eases at_ h.readier ss
  have hback := stmts_eases at_ h.symm.readier ss
  exact ⟨hthere.found.antisymm hback.found, hthere.value.1,
    .of_readier hthere.value.2 hback.value.2⟩

namespace Resolve

structure Adds (env env' : Scopes) (names : List Text) : Prop where
  locals : env'.locals = []
  globals (n : Text) : env'.globals.ready? n = if n ∈ names then some true else env.globals.ready? n

private theorem Adds.none {env : Scopes} (h : env.locals = []) : Adds env env [] :=
  ⟨h, fun n => by simp⟩

private theorem Adds.append {env env₁ env₂ : Scopes} {names names' : List Text}
    (h : Adds env env₁ names) (h' : Adds env₁ env₂ names') : Adds env env₂ (names ++ names') := by
  refine ⟨h'.locals, fun n => ?_⟩
  rw [h'.globals, h.globals]
  by_cases hn : n ∈ names <;> by_cases hn' : n ∈ names' <;> simp [hn, hn']

private theorem Adds.declare {env : Scopes} (h : env.locals = []) (name : Text) :
    Adds env ((env.declare name).define name) [name] := by
  have hdeclare : env.declare name = { env with globals := env.globals.declare name } := by
    unfold Scopes.declare Scopes.update
    rw [h]
  have hdefine : (env.declare name).define name =
      { env with globals := (env.globals.declare name).define name } := by
    rw [hdeclare]
    unfold Scopes.define Scopes.update
    rw [h]
  rw [hdefine]
  refine ⟨h, fun n => ?_⟩
  by_cases hn : n = name <;> simp [Scope.ready?_define, Scope.ready?_declare, hn]

/-- A statement at the top adds what it declares, and declares the same when it is resolved. -/
theorem stmt_adds (at_ : Surroundings) {env : Scopes} (h : env.locals = []) (s : Stmt) :
    Adds env (stmt at_ env s).value.2 s.declared ∧
      (stmt at_ env s).value.1.declared = s.declared := by
  cases s with
  | varDecl s n init => exact ⟨.declare h n, rfl⟩
  | funDecl d => exact ⟨.declare h d.name, congrArg (fun n => [n]) (name_funDecl at_ _ .function d)⟩
  | classDecl s n sup ms ss => cases sup <;> exact ⟨.declare h n, rfl⟩
  | ifStmt s c a b =>
    obtain ⟨hadds, hsame⟩ := stmt_adds at_ h a
    cases b with
    | none => exact ⟨hadds, hsame⟩
    | some b =>
      obtain ⟨hadds', hsame'⟩ := stmt_adds at_ hadds.locals b
      refine ⟨hadds.append hadds', ?_⟩
      show (stmt at_ env a).value.1.declared ++ (stmt at_ _ b).value.1.declared = _
      rw [hsame, hsame']
      rfl
  | whileStmt s c b => exact stmt_adds { at_ with inLoop := true } h b
  | forStmt s init c i b => cases init <;> exact ⟨.none h, rfl⟩
  | returnStmt s e => cases e <;> exact ⟨.none h, rfl⟩
  | exprStmt _ _ | printStmt _ _ | block _ _ | breakStmt _ => exact ⟨.none h, rfl⟩

private theorem stmts_adds (at_ : Surroundings) {env : Scopes}
    (h : env.locals = []) (ss : List Stmt) :
    Adds env (stmts at_ env ss).value.2 (ss.flatMap Stmt.declared) ∧
      (stmts at_ env ss).value.1.flatMap Stmt.declared = ss.flatMap Stmt.declared := by
  induction ss generalizing env with
  | nil => exact ⟨.none h, rfl⟩
  | cons s r ih =>
    obtain ⟨hadds, hsame⟩ := stmt_adds at_ h s
    obtain ⟨hadds', hsame'⟩ := ih hadds.locals
    refine ⟨hadds.append hadds', ?_⟩
    show (stmt at_ env s).value.1.declared ++ (stmts at_ _ r).value.1.flatMap Stmt.declared = _
    rw [hsame, hsame']
    rfl

private theorem declaresAlways_stmts (at_ : Surroundings) {env : Scopes}
    (h : env.locals = []) {ss : List Stmt}
    (hss : ∀ s ∈ ss, s.DeclaresAlways) : ∀ s ∈ (stmts at_ env ss).value.1, s.DeclaresAlways := by
  induction ss generalizing env with
  | nil => nofun
  | cons s r ih =>
    obtain ⟨hs, hr⟩ := List.forall_mem_cons.1 hss
    obtain ⟨hadds, hsame⟩ := stmt_adds at_ h s
    refine List.forall_mem_cons.2 ⟨?_, ih hadds.locals hr⟩
    unfold Stmt.DeclaresAlways at hs ⊢
    rwa [isDeclaration_stmt, hsame]

private theorem stmts_append (at_ : Surroundings) (env : Scopes) (a b : List Stmt) :
    (stmts at_ env (a ++ b)).found =
        (stmts at_ env a).found ++ (stmts at_ (stmts at_ env a).value.2 b).found ∧
      (stmts at_ env (a ++ b)).value.1 =
        (stmts at_ env a).value.1 ++ (stmts at_ (stmts at_ env a).value.2 b).value.1 := by
  induction a generalizing env with
  | nil => exact ⟨rfl, rfl⟩
  | cons s r ih =>
    obtain ⟨hfound, hvalue⟩ := ih (stmt at_ env s).value.2
    constructor
    · show (stmt at_ env s).found ++ ((stmts at_ _ (r ++ b)).found ++ []) = _
      rw [hfound]
      simp [stmts]
    · show (stmt at_ env s).value.1 :: (stmts at_ _ (r ++ b)).value.1 = _
      rw [hvalue]
      rfl

end Resolve

namespace Grammar

theorem Derives.declared_nil {ts : List Token} {n : Node} {sym : Sym} (h : Derives sym ts n) :
    sym = .statement → ∀ s, n = .stmt s → s.declared = [] := by
  induction h with
  | while_ _ _ _ _ _ _ ih =>
    rintro - _ ⟨⟩
    have hbody := ih rfl _ rfl
    exact hbody
  | if_ _ _ _ _ _ _ ih =>
    rintro - _ ⟨⟩
    have hyes := ih rfl _ rfl
    exact hyes
  | ifElse _ _ _ _ _ _ _ _ _ ihyes ihno =>
    rintro - _ ⟨⟩
    show _ ++ _ = _
    rw [ihyes rfl _ rfl, ihno rfl _ rfl]
    rfl
  | for_ | exprStmt | print | return_ | break_ | inBlock =>
    rintro - _ ⟨⟩
    rfl
  | _ => rintro ⟨⟩

theorem Derives.declarations {ts : List Token} {body : List Stmt}
    (h : Derives .declarations ts (.stmts body)) :
    ∀ s ∈ body, s.DeclaresAlways := by
  induction body generalizing ts with
  | nil => nofun
  | cons first others ih =>
    cases h with
    | moreDeclarations hfirst hothers =>
      refine List.forall_mem_cons.2 ⟨?_, ih hothers⟩
      cases hfirst with
      | classDecl => exact .inl rfl
      | funDecl => exact .inl rfl
      | varDecl hvar => cases hvar <;> exact .inl rfl
      | statement hstmt => exact .inr (hstmt.declared_nil rfl _ rfl)

end Grammar

namespace Program

theorem resolve_alike (p : Program) {bound bound' : List Text} (h : ∀ n, n ∈ bound ↔ n ∈ bound') :
    p.resolve bound = p.resolve bound' := by
  obtain ⟨hfound, hbody, -⟩ := Resolve.stmts_alike {} (Scopes.Alike.top h) p.body
  unfold resolve
  dsimp only
  rw [hfound, hbody]

/-- What is accepted as a whole is accepted in two parts, the second with the globals that the first
declares as well. -/
theorem resolve_append {p p' : Program} {a b : List Stmt} {bound : List Text}
    (h : p.resolve bound = .ok p') (hp : p.body = a ++ b) (spanA spanB : Span) :
    ∃ a' b', resolve ⟨spanA, a⟩ bound = .ok ⟨spanA, a'⟩ ∧ p'.body = a' ++ b' ∧
      a'.flatMap Stmt.declared = a.flatMap Stmt.declared ∧
      ((∀ s ∈ a, s.DeclaresAlways) → ∀ s ∈ a', s.DeclaresAlways) ∧
      ∀ bound', (∀ n, n ∈ bound' ↔ n ∈ bound ∨ n ∈ a.flatMap Stmt.declared) →
        resolve ⟨spanB, b⟩ bound' = .ok ⟨spanB, b'⟩ := by
  obtain ⟨hfound, rfl⟩ := resolve_eq_ok.1 h
  obtain ⟨hfound', hbody⟩ := Resolve.stmts_append {} (.top bound) a b
  rw [hp, hfound', List.append_eq_nil_iff] at hfound
  rw [← hp] at hbody
  obtain ⟨hadds, hsame⟩ := Resolve.stmts_adds {} (rfl : (Scopes.top bound).locals = []) a
  refine ⟨_, _, resolve_eq_ok.2 ⟨hfound.1, rfl⟩, hbody, hsame, Resolve.declaresAlways_stmts {} rfl,
    fun bound' hbound' => ?_⟩
  have halike : (Resolve.stmts {} (.top bound) a).value.2.Alike (.top bound') := by
    refine ⟨hadds.locals, fun n => ?_⟩
    rw [hadds.globals, Scopes.ready?_top, Scopes.ready?_top]
    by_cases hn : n ∈ a.flatMap Stmt.declared <;> simp [hn, hbound']
  obtain ⟨hsameFound, hsameBody, -⟩ := Resolve.stmts_alike {} halike b
  exact resolve_eq_ok.2 ⟨hsameFound ▸ hfound.2, by rw [hsameBody]⟩

end Program
end Lox
