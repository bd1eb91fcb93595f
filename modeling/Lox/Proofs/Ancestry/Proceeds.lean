import Lox.Proofs.Ancestry.Scenes

set_option autoImplicit false
set_option relaxedAutoImplicit false

namespace Lox

open Text (lit)

def Machine.scene (m : Machine) (classes : List Class) : Scene := { heap := m.heap, classes }

theorem Machine.scene_congr {m m' : Machine} (hheap : m'.heap = m.heap) (classes : List Class) :
    m'.scene classes = m.scene classes := congrArg (Scene.mk · classes) hheap

/-- A computation goes on by steps of scenes, and a value that it gives is as told. -/
def Proceeds {α : Type} (x : Run α) (cs : List Class) (m : Machine) (Q : α → Scene → Prop) : Prop :=
  ∃ cs', (m.scene cs).Onward ((x m).machine.scene cs') ∧
    ∀ a m', x m = .done a m' → Q a (m'.scene cs')

def Scene.HasSignal (S : Scene) : Signal → Prop
  | .leaveFunction v => S.Has v
  | _ => True

theorem Scene.has_ofLiteral (S : Scene) (v : Literal) : S.Has (.ofLiteral v) := by
  cases v <;> trivial

namespace Proceeds

variable {α β : Type} {x : Run α} {cs : List Class} {m : Machine} {Q : α → Scene → Prop}
  {R : β → Scene → Prop}

private theorem of_run {o : Outcome α} (cs' : List Class) (hrun : x m = o)
    (hon : (m.scene cs).Onward (o.machine.scene cs'))
    (hdone : ∀ a m', o = .done a m' → Q a (m'.scene cs')) : Proceeds x cs m Q :=
  ⟨cs', hrun ▸ hon, hrun ▸ hdone⟩

private theorem congr {y : Run α} (h : x m = y m) (hy : Proceeds y cs m Q) : Proceeds x cs m Q := by
  obtain ⟨cs', hon, hdone⟩ := hy
  exact ⟨cs', h ▸ hon, h ▸ hdone⟩

/-! ### One computation after another -/

theorem settle {k : Except Failure α → Run β} (hx : Proceeds x cs m Q)
    (hok : ∀ a cs' m', (m.scene cs).Onward (m'.scene cs') → Q a (m'.scene cs') →
      Proceeds (k (.ok a)) cs' m' R)
    (herror : ∀ f cs' m', (m.scene cs).Onward (m'.scene cs') → Proceeds (k (.error f)) cs' m' R) :
    Proceeds (x.settle k) cs m R := by
  obtain ⟨cs', hon, hdone⟩ := hx
  have hafter : ∀ r m', x m = .ofResult r m' → (m.scene cs).Onward (m'.scene cs') →
      Proceeds (k r) cs' m' R → Proceeds (x.settle k) cs m R := by
    rintro r m' hrun hfirst ⟨cs'', hon', hdone'⟩
    have hsettle := Run.settle_ofResult (k := k) hrun
    exact ⟨cs'', hsettle ▸ hfirst.trans hon', hsettle ▸ hdone'⟩
  cases hrun : x m with
  | done a m' =>
    rw [hrun] at hon
    exact hafter (.ok a) m' hrun hon (hok a cs' m' hon (hdone a m' hrun))
  | failed f m' =>
    rw [hrun] at hon
    exact hafter (.error f) m' hrun hon (herror f cs' m' hon)
  | exhausted m' =>
    rw [hrun] at hon
    exact of_run cs' (Run.settle_exhausted hrun) hon nofun

/-! ### Steps that leave the heap alone -/

private theorem same (hheap : (x m).machine.heap = m.heap)
    (hdone : ∀ a m', x m = .done a m' → Q a (m.scene cs)) : Proceeds x cs m Q := by
  have hscene := Machine.scene_congr hheap cs
  refine ⟨cs, hscene ▸ .refl, fun a m' hrun => ?_⟩
  rw [hrun] at hscene
  have hsame : m'.scene cs = m.scene cs := hscene
  exact hsame ▸ hdone a m' hrun

theorem give {a : α} (hQ : Q a (m.scene cs)) : Proceeds (Run.give a) cs m Q := by
  refine same rfl ?_
  rintro _ _ ⟨⟩
  exact hQ

theorem exhaust : Proceeds Run.exhaust cs m Q := same rfl nofun

theorem fail {f : Failure} : Proceeds (Run.fail f) cs m Q := same rfl nofun

theorem error {e : RuntimeError} {span : Span} : Proceeds (Run.error e span) cs m Q := fail

theorem broken {e : InternalError} {span : Span} : Proceeds (Run.broken e span) cs m Q := fail

theorem write {st : Settings} {line : Text} :
    Proceeds (Run.write st line) cs m fun _ _ => True := by
  refine same ?_ fun _ _ _ => trivial
  unfold Run.write
  split <;> rfl

theorem checkCanceled {span : Span} : Proceeds (Run.checkCanceled span) cs m fun _ _ => True := by
  refine same ?_ fun _ _ _ => trivial
  unfold Run.checkCanceled
  split <;> rfl

theorem bind {k : α → Run β} (hx : Proceeds x cs m Q)
    (hk : ∀ a cs' m', (m.scene cs).Onward (m'.scene cs') → Q a (m'.scene cs') →
      Proceeds (k a) cs' m' R) : Proceeds (x >>= k) cs m R := by
  rw [Run.bind_eq_settle]
  exact settle hx hk fun _ _ _ _ => fail

private theorem look {f : Heap → α} {k : α → Run β} (hk : Proceeds (k (f m.heap)) cs m R) :
    Proceeds (Run.look f >>= k) cs m R := hk

/-! ### Steps that change the heap -/

private theorem step {a : α} {m' : Machine} {cs' : List Class} (hrun : x m = .done a m')
    (hstep : (m.scene cs).Step (m'.scene cs')) (hQ : Q a (m'.scene cs')) : Proceeds x cs m Q := by
  refine of_run cs' hrun (.single hstep) ?_
  rintro _ _ ⟨⟩
  exact hQ

theorem define {e : FrameId} {name : Text} {v : Value} (hv : (m.scene cs).Has v) :
    Proceeds (Run.change (·.define e name v)) cs m fun _ _ => True :=
  step rfl (.define e name hv) trivial

theorem declare {e : FrameId} {name : Text} :
    Proceeds (Run.change (·.declare e name)) cs m fun _ _ => True := by
  by_cases hbound : ((m.heap.bindings e).lookup name).isSome = true
  · exact same (if_pos hbound) fun _ _ _ => trivial
  · refine .congr (y := Run.change (·.define e name .nil)) ?_ (define trivial)
    have hdeclare : m.heap.declare e name = m.heap.define e name .nil := if_neg hbound
    rw [Run.change, Run.change, hdeclare]

theorem setField {i : Nat} {name : Text} {v : Value} (hv : (m.scene cs).Has v) :
    Proceeds (Run.change (·.setField i name v)) cs m fun _ _ => True :=
  step rfl (.setField i name hv) trivial

theorem newFrame {p : FrameId} {bs : Bindings} (hp : p < m.heap.frames.size)
    (hbs : ∀ n v, bs.lookup n = some v → (m.scene cs).Has v) :
    Proceeds (Run.newFrame p bs) cs m fun e S => e < S.heap.frames.size :=
  step rfl (.frame hp hbs) (by simp [Machine.scene])

theorem newSingle {p : FrameId} {name : Text} {v : Value} (hp : p < m.heap.frames.size)
    (hv : (m.scene cs).Has v) :
    Proceeds (Run.newFrame p [(name, v)]) cs m fun e S => e < S.heap.frames.size := by
  refine newFrame hp fun n w hw => ?_
  rw [List.lookup_cons] at hw
  split at hw
  · cases hw
    exact hv
  · cases hw

private theorem freshId : Proceeds Run.freshId cs m fun _ _ => True := step rfl .number trivial

theorem newObject {c : Class} (hc : c ∈ cs) :
    Proceeds (Run.newObject c) cs m fun v S => S.Has v := step rfl .object hc

private theorem bound {f : Function} {receiver : Value} (hf : f.closure < m.heap.frames.size)
    (hreceiver : (m.scene cs).Has receiver) :
    Proceeds (Run.bound f receiver) cs m fun v S => S.Has v :=
  .bind freshId fun _ _ _ h _ => give ⟨h.lt hf, h.has hreceiver⟩

theorem counted {st : Settings} {callee : Value} {span : Span} {y : Run Value}
    {Q : Value → Scene → Prop} (hy : ∀ m' : Machine, m'.heap = m.heap → Proceeds y cs m' Q) :
    Proceeds (Eval.counted st callee span y) cs m Q := by
  by_cases hcanceled : m.canceled = true
  · exact of_run cs (Eval.counted_of_canceled hcanceled) .refl nofun
  · have hrunning := eq_false_of_ne_true hcanceled
    by_cases hlimit : st.limit ≤ m.depth
    · exact of_run cs (Eval.counted_of_overflow hrunning hlimit) .refl nofun
    · have hheap : (Eval.entry st callee span m).heap = m.heap := Eval.heap_entry ..
      obtain ⟨cs', hon, hdone⟩ := hy _ hheap
      have hroom : Eval.counted st callee span y m =
          Eval.afterBody st callee span (y (Eval.entry st callee span m)) :=
        Eval.counted_of_room hrunning (Nat.lt_of_not_le hlimit)
      refine of_run cs' hroom ?_ fun v m' hend => ?_
      · rw [Machine.scene_congr (Eval.heap_afterBody ..), ← Machine.scene_congr hheap]
        exact hon
      · obtain ⟨m'', hrun, hleft⟩ := Eval.done_of_afterBody hend
        rw [Machine.scene_congr hleft]
        exact hdone v m'' hrun

end Proceeds

namespace Eval

open Proceeds

variable {cs : List Class} {m : Machine} {env : FrameId}

/-! ### Operators and names -/

theorem proceeds_unary {span : Span} {op : UnaryOp} {v : Value} :
    Proceeds (unary span op v) cs m fun v S => S.Has v := by
  unfold unary
  split
  · split
    · exact give trivial
    · exact error
  · exact give trivial
  · exact broken

private theorem proceeds_add {span : Span} {v w : Value} :
    Proceeds (add span v w) cs m fun v S => S.Has v := by
  unfold add
  split
  case h_5 => exact error
  all_goals exact give trivial

private theorem proceeds_arithmetic {span : Span} {op : BinaryOp} {x y : Float} :
    Proceeds (arithmetic span op x y) cs m fun v S => S.Has v := by
  cases op with
  | div =>
    show Proceeds (if (y == 0) = true then _ else _) cs m _
    split
    · exact error
    · exact give trivial
  | add | equal | notEqual | other => exact broken
  | _ => exact give trivial

theorem proceeds_binary {span : Span} {op : BinaryOp} {v w : Value} :
    Proceeds (binary span op v w) cs m fun v S => S.Has v := by
  unfold binary
  split
  · exact give trivial
  · exact give trivial
  · exact proceeds_add
  · split
    · exact proceeds_arithmetic
    · exact error

theorem proceeds_readName {name : Text} {span : Span} {hops : Option Int}
    (hS : (m.scene cs).Founded) :
    Proceeds (readName name span hops env) cs m fun v S => S.Has v := by
  unfold readName
  cases hops with
  | none =>
    refine look ?_
    split
    · rename_i v hv
      exact give (hS.held.bindings hv)
    · exact error
  | some d =>
    refine look ?_
    split
    · rename_i v hv
      exact give (hS.held.getAt hv)
    · exact broken

theorem proceeds_assignName {target : NameUse} {v : Value} (hv : (m.scene cs).Has v) :
    Proceeds (assignName target v env) cs m fun _ _ => True := by
  unfold assignName
  cases target.hops with
  | none =>
    refine look ?_
    split
    · exact define hv
    · exact error
  | some d =>
    refine look ?_
    split
    · exact define hv
    · exact broken

/-! ### Methods -/

theorem proceeds_property {v : Value} {name : Text} {span : Span} (hS : (m.scene cs).Founded)
    (hv : (m.scene cs).Has v) : Proceeds (property v name span) cs m fun v S => S.Has v := by
  unfold property
  split
  · rename_i i c
    refine look ?_
    split
    · rename_i w hw
      exact give (hS.held.field hw)
    · split
      · rename_i f hf
        exact bound (hS.closure_lt false hv hf) hv
      · exact error
  · rename_i c
    split
    · rename_i f hf
      exact bound (hS.closure_lt true hv hf) hv
    · exact error
  · exact error

theorem proceeds_superMethod {span : Span} {name : Text} {hops : Option Int}
    (hS : (m.scene cs).Founded) :
    Proceeds (superMethod span name hops env) cs m fun v S => S.Has v := by
  unfold superMethod
  cases hops with
  | none => exact broken
  | some d =>
    refine look ?_
    split
    · rename_i sup hsup
      have hmade : sup ∈ cs := hS.held.getAt hsup
      refine look ?_
      split
      · rename_i receiver hreceiver
        split
        · rename_i f hf
          exact bound (hS.closure_lt receiver.isClass hmade hf) (hS.held.getAt hreceiver)
        · exact error
      · exact broken
    · exact broken

/-! ### Functions and classes -/

theorem proceeds_newFunction {name : Text} {params : List Param}
    {body : List Stmt} {isInit : Bool} :
    Proceeds (newFunction name params body env isInit) cs m fun f _ => f.closure = env :=
  .bind freshId fun _ _ _ _ _ => give rfl

private theorem proceeds_methodTable {ofInstances : Bool} {table : List (Text × Function)}
    {decls : List FunDecl} (htable : ∀ q ∈ table, q.2.closure = env) :
    Proceeds (methodTable env ofInstances table decls) cs m
      fun table _ => ∀ q ∈ table, q.2.closure = env := by
  induction decls generalizing table cs m with
  | nil => exact give htable
  | cons d r ih =>
    obtain ⟨span, name, params, body⟩ := d
    exact .bind proceeds_newFunction fun f cs' m' _ hf => ih (List.forall_mem_cons.2 ⟨hf, htable⟩)

theorem proceeds_newClass {name : Text} {superclass : Option Class} {methods statics : List FunDecl}
    {closure : FrameId} (hclosure : closure < m.heap.frames.size)
    (hsup : ∀ sup, superclass = some sup → sup ∈ cs) :
    Proceeds (newClass name superclass methods statics closure env) cs m fun _ _ => True := by
  refine .bind (proceeds_methodTable (List.forall_mem_nil _)) fun ms cs₁ m₁ h₁ hms => ?_
  refine .bind (proceeds_methodTable (List.forall_mem_nil _)) fun ss cs₂ m₂ h₂ hss => ?_
  have hon := h₁.trans h₂
  let c : Class := .mk m₂.heap.fresh name superclass ms ss
  have habove : ∀ sup, c.superclass = some sup → sup ∈ cs₂ := fun sup h =>
    Scene.Onward.has (v := .cls sup) hon (hsup sup h)
  have hmembers : ∀ ofClass, ∀ q ∈ c.own ofClass, q.2.closure < m₂.heap.frames.size := by
    intro ofClass q hq
    have hdeclared : q.2.closure = closure := by
      cases ofClass
      · exact hms q hq
      · exact hss q hq
    exact hdeclared ▸ Scene.Onward.lt hon hclosure
  have hstep : (m₂.scene cs₂).Step ({ m₂ with heap := m₂.heap.freshId.2 }.scene (c :: cs₂)) :=
    .newClass rfl habove hmembers
  have hmade : Proceeds Run.freshId cs₂ m₂ fun i S => i = c.id ∧ c ∈ S.classes :=
    step rfl hstep ⟨rfl, List.mem_cons_self⟩
  refine .bind hmade ?_
  rintro _ cs₃ m₃ h₃ ⟨rfl, hc⟩
  exact define (v := .cls c) hc

/-! ### Calls -/

theorem proceeds_result {f : Function} {closure : FrameId} {signal : Signal}
    (hS : (m.scene cs).Founded) (hsignal : (m.scene cs).HasSignal signal) :
    Proceeds (result f closure signal) cs m fun v S => S.Has v := by
  unfold result
  split
  · exact fail
  · split
    · refine look ?_
      split
      · rename_i receiver hreceiver
        exact give (hS.held.bindings hreceiver)
      · exact fail
    · split
      · exact give hsignal
      · exact give trivial

theorem has_parameterBindings {S : Scene} (params : List Param) {args : List Value}
    (hargs : ∀ v ∈ args, S.Has v) :
    ∀ n v, (parameterBindings params args).lookup n = some v → S.Has v :=
  Bindings.foldl_all (fun (q : Param × Value) => q.1.name) Prod.snd (fun _ _ => rfl)
    (fun q hq => hargs q.2 (List.of_mem_zip hq).2) Bindings.all_nil

end Eval
end Lox
