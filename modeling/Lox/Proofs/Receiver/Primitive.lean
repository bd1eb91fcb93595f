import Lox.Proofs.Receiver.Upholds

set_option autoImplicit false
set_option relaxedAutoImplicit false

namespace Lox

open Text (lit)

def Signal.Rooted (ρ : Origins) (h : Heap) : Signal → Prop
  | .leaveFunction v => v.Rooted ρ h
  | _ => True

theorem Value.rooted_ofLiteral (ρ : Origins) (h : Heap) (v : Literal) :
    (ofLiteral v).Rooted ρ h := by
  cases v <;> trivial

namespace Upholds

variable {ρ : Record} {m : Machine} {α : Type} {Q : α → Origins → Heap → Prop}

private theorem congr_run {x y : Run α} (h : x m = y m) (hy : Upholds (.quiet y) ρ m Q) :
    Upholds (.quiet x) ρ m Q := by
  have hrun : Noted.quiet x ρ m = Noted.quiet y ρ m := Prod.ext h rfl
  exact ⟨hrun ▸ hy.later, hrun ▸ hy.upheld, hrun ▸ hy.done⟩

end Upholds

namespace Eval

open Upholds

variable {ρ : Record} {m : Machine} {env : FrameId} {r : Option Reach} {a : Option Activation}

/-! ### Operators and names -/

theorem upholds_unary {span : Span} {op : UnaryOp} {v : Value} (hu : Upheld ρ m.heap) :
    Upholds (.quiet (unary span op v)) ρ m fun v o h => v.Rooted o h := by
  unfold unary
  split
  · split
    · exact .give hu trivial
    · exact .error hu
  · exact .give hu trivial
  · exact .broken hu

private theorem upholds_add {span : Span} {v w : Value} (hu : Upheld ρ m.heap) :
    Upholds (.quiet (add span v w)) ρ m fun v o h => v.Rooted o h := by
  unfold add
  split
  case h_5 => exact .error hu
  all_goals exact .give hu trivial

private theorem upholds_arithmetic {span : Span} {op : BinaryOp} {x y : Float}
    (hu : Upheld ρ m.heap) :
    Upholds (.quiet (arithmetic span op x y)) ρ m fun v o h => v.Rooted o h := by
  cases op with
  | div =>
    show Upholds (.quiet (if (y == 0) = true then _ else _)) ρ m _
    split
    · exact .error hu
    · exact .give hu trivial
  | add | equal | notEqual | other => exact .broken hu
  | _ => exact .give hu trivial

theorem upholds_binary {span : Span} {op : BinaryOp} {v w : Value} (hu : Upheld ρ m.heap) :
    Upholds (.quiet (binary span op v w)) ρ m fun v o h => v.Rooted o h := by
  unfold binary
  split
  · exact .give hu trivial
  · exact .give hu trivial
  · exact upholds_add hu
  · split
    · exact upholds_arithmetic hu
    · exact .error hu

theorem upholds_readName {name : Text} {span : Span} {hops : Option Int} (hu : Upheld ρ m.heap) :
    Upholds (.quiet (readName name span hops env)) ρ m fun v o h => v.Rooted o h := by
  unfold readName
  cases hops with
  | none =>
    refine .look ?_
    split
    · rename_i v hv
      exact .give hu (hu.rooted.bindings hv)
    · exact .error hu
  | some d =>
    refine .look ?_
    split
    · rename_i v hv
      exact .give hu (hu.rooted.getAt hv)
    · exact .broken hu

theorem upholds_assignName {target : NameUse} {v : Value} (hu : Upheld ρ m.heap)
    (hname : Ordinary target.name) (hv : v.Rooted ρ.origins m.heap) :
    Upholds (.quiet (assignName target v env)) ρ m fun _ _ _ => True := by
  unfold assignName
  cases target.hops with
  | none =>
    refine .look ?_
    split
    · exact .define hu hname hv
    · exact .error hu
  | some d =>
    refine .look ?_
    split
    · exact .define hu hname hv
    · exact .broken hu

theorem upholds_property {v : Value} {name : Text} {span : Span} (hu : Upheld ρ m.heap)
    (hv : v.Rooted ρ.origins m.heap) :
    Upholds (.quiet (property v name span)) ρ m fun v o h => v.Rooted o h := by
  unfold property
  split
  · rename_i i c
    refine .look ?_
    split
    · rename_i w hw
      exact .give hu (hu.rooted.field hw)
    · split
      · rename_i f hf
        exact .bound hu (Class.Every.find hv false hf) hv
      · exact .error hu
  · rename_i c
    split
    · rename_i f hf
      exact .bound hu (Class.Every.find hv true hf) hv
    · exact .error hu
  · exact .error hu

/-! ### The receiver and the superclass -/

private theorem readName_of_getAt? {name : Text} {span : Span} {d : Int} {v : Value}
    (h : m.heap.getAt? env d name = some v) : readName name span (some d) env m = .done v m := by
  simp only [readName, Run.look_bind, h]
  rfl

theorem right_this {span : Span} {hops : Option Int} (hosts : m.heap.Hosts env r a)
    (hhosted : (Expr.this span hops).Hosted r) :
    (Sighting.this a m (readName (lit "this") span hops env m)).Right := by
  obtain ⟨x, rfl, rfl⟩ := hhosted
  obtain ⟨act, hact, hbears⟩ := hosts x rfl
  refine ⟨act, hact, ?_⟩
  exact readName_of_getAt? hbears.this

private theorem superMethod_eq {span : Span} {name : Text} {hops : Option Int}
    (hosts : m.heap.Hosts env r a) (hhosted : (Expr.super span name hops).Hosted r) :
    ∃ act sup d, a = some act ∧ act.owner.superclass = some sup ∧
      m.heap.getAt? env (d + 1) (lit "super") = some (.cls sup) ∧
      m.heap.getAt? env d (lit "this") = some act.receiver ∧
      superMethod span name hops env m =
        (match sup.find act.receiver.isClass name with
          | some f => Run.bound f act.receiver
          | none => Run.error (.undefinedProperty name) span : Run Value) m := by
  obtain ⟨x, rfl, hderived, rfl⟩ := hhosted
  obtain ⟨act, hact, hbears⟩ := hosts x rfl
  have hsome : act.owner.superclass.isSome = true := hbears.derived.symm.trans hderived
  obtain ⟨sup, hsup⟩ := Option.isSome_iff_exists.1 hsome
  have hsuper := hbears.super sup hsup
  refine ⟨act, sup, x.hops, hact, hsup, hsuper, hbears.this, ?_⟩
  have hbelow : (x.hops : Int) + 1 - 1 = x.hops := by omega
  simp only [superMethod, Run.look_bind, hsuper, hbelow, hbears.this]
  rfl

theorem right_super {span : Span} {name : Text} {hops : Option Int} (hosts : m.heap.Hosts env r a)
    (hhosted : (Expr.super span name hops).Hosted r) :
    (Sighting.super a name span m (superMethod span name hops env m)).Right := by
  obtain ⟨act, sup, d, hact, hsup, -, -, hrun⟩ := superMethod_eq hosts hhosted
  refine ⟨act, sup, hact, hsup, ?_⟩
  rw [hrun]
  cases hfind : sup.find act.receiver.isClass name with
  | some f => exact .inl ⟨f, m.heap.fresh, _, Class.find_eq_some_iff.1 hfind, rfl⟩
  | none =>
    refine .inr ⟨fun f hf => ?_, rfl⟩
    rw [Class.find_eq_some_iff.2 hf] at hfind
    cases hfind

theorem upholds_superMethod {span : Span} {name : Text} {hops : Option Int} (hu : Upheld ρ m.heap)
    (hosts : m.heap.Hosts env r a) (hhosted : (Expr.super span name hops).Hosted r) :
    Upholds (.quiet (superMethod span name hops env)) ρ m fun v o h => v.Rooted o h := by
  obtain ⟨act, sup, d, -, -, hsuper, hthis, hrun⟩ := superMethod_eq hosts hhosted
  refine .congr_run hrun ?_
  have hsup : (Value.cls sup).Rooted ρ.origins m.heap := hu.rooted.getAt hsuper
  cases hfind : sup.find act.receiver.isClass name with
  | some f =>
    exact .bound hu (Class.Every.find hsup _ hfind) (hu.rooted.getAt hthis)
  | none => exact .error hu

theorem upholds_result {f : Function} {closure : FrameId} {signal : Signal} (hu : Upheld ρ m.heap)
    (hsignal : signal.Rooted ρ.origins m.heap) :
    Upholds (.quiet (result f closure signal)) ρ m fun v o h => v.Rooted o h ∧
      (f.isInit = true → ∀ w, m.heap.getAt? closure 0 (lit "this") = some w → v = w) := by
  unfold result
  split
  · exact .fail hu
  · split
    · refine .look ?_
      split
      · rename_i receiver hreceiver
        refine .give hu ⟨hu.rooted.bindings hreceiver, fun _ w hw => ?_⟩
        exact Option.some.inj (hreceiver.symm.trans hw)
      · exact .fail hu
    · rename_i hinit
      split
      · exact .give hu ⟨hsignal, fun h => absurd h hinit⟩
      · exact .give hu ⟨trivial, fun h => absurd h hinit⟩

theorem rooted_parameterBindings {o : Origins} {h : Heap} (params : List Param) {args : List Value}
    (hargs : ∀ v ∈ args, v.Rooted o h) :
    ∀ n v, (parameterBindings params args).lookup n = some v → v.Rooted o h :=
  Bindings.foldl_all (fun (q : Param × Value) => q.1.name) Prod.snd (fun _ _ => rfl)
    (fun q hq => hargs q.2 (List.of_mem_zip hq).2) Bindings.all_nil

/-! ### Classes -/

structure Member (closure : FrameId) (derived ofInstances : Bool) (low high : Nat) (name : Text)
    (f : Function) : Prop where
  low : low ≤ f.id
  high : f.id < high
  closure : f.closure = closure
  isInit : f.isInit = (ofInstances && name == lit "init")
  body : Stmt.HostedAll (some (Reach.members derived).deeper) f.body

private theorem Member.declaredBy {closure : FrameId} {ofInstances : Bool}
    {low high : Nat} {name : Text} {f : Function} {c : Class} {h : Heap}
    (hf : Member closure c.superclass.isSome ofInstances low high name f)
    (hown : ∃ ofClass name, (name, f) ∈ c.own ofClass)
    (hsuper : ∀ sup, c.superclass = some sup → h.getAt? closure 0 (lit "super") = some (.cls sup))
    (hinit : (lit "init", f) ∈ c.own false → f.isInit = true) : f.DeclaredBy h c := by
  refine ⟨hown, fun sup hsup => ?_, hinit, hf.body⟩
  rw [hf.closure]
  exact hsuper sup hsup

private theorem methodTable_members (closure : FrameId) (ofInstances : Bool)
    {derived : Bool} {low : Nat}
    {table : List (Text × Function)} {decls : List FunDecl} {m : Machine}
    (hdecls : FunDecl.HostedAll (some (.members derived)) decls) (hlow : low ≤ m.heap.fresh)
    (htable : ∀ e ∈ table, Member closure derived ofInstances low m.heap.fresh e.1 e.2) :
    ∃ table' n, m.heap.fresh ≤ n ∧ methodTable closure ofInstances table decls m =
        .done table' { m with heap := { m.heap with fresh := n } } ∧
      ∀ e ∈ table', Member closure derived ofInstances low n e.1 e.2 := by
  induction decls generalizing table m with
  | nil => exact ⟨table, m.heap.fresh, Nat.le_refl _, rfl, htable⟩
  | cons d r ih =>
    obtain ⟨span, name, params, body⟩ := d
    obtain ⟨hbody, hrest⟩ := hdecls
    let f : Function := { id := m.heap.fresh, name, params, body, closure,
                          isInit := ofInstances && name == lit "init" }
    have hnew : ∀ e ∈ (name, f) :: table,
        Member closure derived ofInstances low (m.heap.fresh + 1) e.1 e.2 := by
      intro e he
      rcases List.mem_cons.1 he with rfl | he
      · exact ⟨hlow, Nat.lt_succ_self _, rfl, rfl, hbody⟩
      · obtain ⟨hl, hh, hc, hi, hb⟩ := htable e he
        exact ⟨hl, Nat.lt_succ_of_lt hh, hc, hi, hb⟩
    obtain ⟨table', n, hle, hrun, hmembers⟩ := ih (m := { m with heap := m.heap.freshId.2 }) hrest
      (Nat.le_succ_of_le hlow) hnew
    exact ⟨table', n, Nat.le_of_succ_le hle, hrun, hmembers⟩

private theorem newClass_members (ρ : Record) (m : Machine) (name : Text)
    {superclass : Option Class} {methods statics : List FunDecl} (closure env : FrameId)
    (hmethods : FunDecl.HostedAll (some (.members superclass.isSome)) methods)
    (hstatics : FunDecl.HostedAll (some (.members superclass.isSome)) statics) :
    ∃ ms ss n, m.heap.fresh ≤ n ∧
      (∀ e ∈ ms, Member closure superclass.isSome true m.heap.fresh n e.1 e.2) ∧
      (∀ e ∈ ss, Member closure superclass.isSome false m.heap.fresh n e.1 e.2) ∧
      observing.newClass name superclass methods statics closure env ρ m =
        (.done () { m with
            heap := { m.heap with fresh := n + 1 }.define env name
              (.cls (.mk n name superclass ms ss)) },
          [.declared (ms ++ ss) (.mk n name superclass ms ss)]) := by
  obtain ⟨ms, n, hn, hrunms, hms⟩ :=
    methodTable_members closure true hmethods (Nat.le_refl m.heap.fresh) (List.forall_mem_nil _)
  obtain ⟨ss, n', hn', hrunss, hss⟩ :=
    methodTable_members (m := { m with heap := { m.heap with fresh := n } })
      closure false hstatics hn
      (List.forall_mem_nil _)
  have hle : n ≤ n' := hn'
  refine ⟨ms, ss, n', Nat.le_trans hn hle, fun e he => ?_, hss, ?_⟩
  · obtain ⟨hlow, hhigh, hclosure, hinit, hbody⟩ := hms e he
    exact ⟨hlow, Nat.lt_of_lt_of_le hhigh hle, hclosure, hinit, hbody⟩
  · unfold Scribe.newClass
    simp only [Observing.step]
    rw [Noted.bind_done (Noted.quiet_of_done hrunms ρ),
      Noted.bind_done (Noted.quiet_of_done hrunss _)]
    rfl

end Eval

open Eval in
theorem Upholds.newClass {ρ : Record} {m : Machine} {name : Text} {superclass : Option Class}
    {methods statics : List FunDecl} {closure env : FrameId} (hu : Upheld ρ m.heap)
    (hname : Ordinary name)
    (hsup : ∀ sup, superclass = some sup → (Value.cls sup).Rooted ρ.origins m.heap ∧
      m.heap.getAt? closure 0 (lit "super") = some (.cls sup))
    (hmethods : FunDecl.HostedAll (some (.members superclass.isSome)) methods)
    (hstatics : FunDecl.HostedAll (some (.members superclass.isSome)) statics) :
    Upholds (observing.newClass name superclass methods statics closure env) ρ m
      fun _ _ _ => True := by
  obtain ⟨ms, ss, n, hn, hms, hss, hrun⟩ := newClass_members ρ m name closure env hmethods hstatics
  let c : Class := .mk n name superclass ms ss
  let heap : Heap := { m.heap with fresh := n + 1 }
  let o : Origins := ρ.origins.declare (ms ++ ss) c
  have hids : ∀ e ∈ ms ++ ss, m.heap.fresh ≤ e.2.id ∧ e.2.id < n := by
    intro e he
    rcases List.mem_append.1 he with he | he
    · exact ⟨(hms e he).low, (hms e he).high⟩
    · exact ⟨(hss e he).low, (hss e he).high⟩
  have hlater : Later ρ.origins m.heap o heap := by
    refine ⟨.of_frames rfl, Nat.le_succ_of_le hn, fun _ _ => rfl, fun i hi => ?_⟩
    refine Origins.lookup_declare_of_ne (fun e he heq => ?_) c
    exact absurd (heq ▸ (hids e he).1) (Nat.not_le_of_lt hi)
  have hsuper : ∀ sup, c.superclass = some sup →
      heap.getAt? closure 0 (lit "super") = some (.cls sup) := fun sup h => (hsup sup h).2
  have hinit : ∀ f, (lit "init", f) ∈ c.own false → f.isInit = true := fun f hf => by
    simpa using (hms _ hf).isInit
  have hbelongs : ∀ e ∈ ms ++ ss, e.2.Belongs o heap := by
    intro e he
    refine ⟨Nat.lt_succ_of_lt (hids e he).2, c, Origins.lookup_declare he c, ?_⟩
    rcases List.mem_append.1 he with he | he
    · exact (hms e he).declaredBy ⟨false, e.1, he⟩ hsuper (hinit e.2)
    · exact (hss e he).declaredBy ⟨true, e.1, he⟩ hsuper (hinit e.2)
  have hms' := fun e he => hbelongs e (List.mem_append_left ss he)
  have hss' := fun e he => hbelongs e (List.mem_append_right ms he)
  have hc : (Value.cls c).Rooted o heap := by
    cases superclass with
    | none => exact ⟨hms', hss'⟩
    | some sup => exact ⟨Value.Rooted.mono hlater (hsup sup rfl).1, hms', hss'⟩
  have hdefined : Later o heap o (heap.define env name (.cls c)) :=
    .of_heap (.define heap env hname _) (Nat.le_refl _)
  have hsame : heap.All (Value.Rooted ρ.origins m.heap) := ⟨hu.rooted.bindings, hu.rooted.field⟩
  have hall : heap.All (Value.Rooted o heap) := hsame.imp fun _ hv => hv.mono hlater
  refine of_run hrun ?_ ⟨?_, ?_⟩ fun _ _ _ => trivial
  · rw [Record.origins_declared]
    exact hlater.trans hdefined
  · rw [Record.origins_declared]
    exact (hall.define env name hc).imp fun _ hv => hv.mono hdefined
  · rw [Record.seen_declared]
    exact hu.right

end Lox
