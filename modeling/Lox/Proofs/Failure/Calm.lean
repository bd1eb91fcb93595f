import Lox.Proofs.Bounds.Brief
import Lox.Proofs.Natives.Evaluation
import Lox.Proofs.Receiver.Rooted
import Lox.Proofs.Spans.Exact

set_option autoImplicit false
set_option relaxedAutoImplicit false

namespace Lox

open Text (lit)
open Grammar (Tree)

/-! ### Code -/

def Function.From (C : Tree → Prop) (f : Function) : Prop := ∀ s ∈ f.body, C (.stmt s)

def Value.From (C : Tree → Prop) : Value → Prop := Value.Every (Function.From C) (Function.From C)

theorem Value.From.imp {C C' : Tree → Prop} (h : ∀ t, C t → C' t) {v : Value} (hv : v.From C) :
    v.From C' :=
  Value.Every.imp (fun _ hf s hs => h _ (hf s hs)) (fun _ hf s hs => h _ (hf s hs)) hv

theorem Value.from_ofLiteral (C : Tree → Prop) (v : Literal) : (ofLiteral v).From C := by
  cases v <;> trivial

def Signal.From (C : Tree → Prop) : Signal → Prop
  | .leaveFunction v => v.From C
  | _ => True

def Grammar.Spanned (C : Tree → Prop) (span : Span) : Prop := ∃ t, C t ∧ t.span = span

/-- A failure of the program itself: an error with a code of running programs at a place of the
code, or a broken agreement. -/
def Failure.At (C : Tree → Prop) : Failure → Prop
  | .runtime e span =>
    e.code.isRuntime = true ∧ ∃ place, span = some place ∧ Grammar.Spanned C place
  | .internal _ _ => True
  | .plain _ => False

theorem Failure.At.placed {C : Tree → Prop} {f : Failure} (h : f.At C) : f.Placed := by
  cases f with
  | runtime e span =>
    obtain ⟨-, place, rfl, -⟩ := h
    trivial
  | internal e span => trivial
  | plain message => exact h.elim

/-! ### Steps that run no code -/

inductive Outcome.Calm (C : Tree → Prop) (m : Machine) {α : Type} (Q : α → Prop) : Outcome α → Prop
  | done {a : α} {heap : Heap} : heap.All (Value.From C) → Q a →
      Outcome.Calm C m Q (.done a { m with heap })
  | failed {f : Failure} {heap : Heap} : heap.All (Value.From C) → f.At C →
      Outcome.Calm C m Q (.failed f { m with heap })
  | exhausted {heap : Heap} : heap.All (Value.From C) →
      Outcome.Calm C m Q (.exhausted { m with heap })

/-- A step that is calm wherever the values have their code from some trees. -/
def Run.Calm (C : Tree → Prop) {α : Type} (x : Run α) (Q : α → Prop) : Prop :=
  ∀ m, m.heap.All (Value.From C) → Outcome.Calm C m Q (x m)

namespace Run.Calm

variable {C : Tree → Prop} {α β : Type} {Q : α → Prop} {R : β → Prop}

theorem give {a : α} (ha : Q a) : (Run.give a).Calm C Q := fun _ hm => .done hm ha

theorem exhaust : (Run.exhaust : Run α).Calm C Q := fun _ hm => .exhausted hm

theorem fail {f : Failure} (hf : f.At C) : (Run.fail f : Run α).Calm C Q :=
  fun _ hm => .failed hm hf

theorem error {e : RuntimeError} {span : Span} (he : e.code.isRuntime = true)
    (hspan : Grammar.Spanned C span) : (Run.error e span : Run α).Calm C Q :=
  fail ⟨he, span, rfl, hspan⟩

theorem broken (e : InternalError) (span : Span) : (Run.broken e span : Run α).Calm C Q :=
  fail trivial

private theorem bind {x : Run α} {k : α → Run β} (hx : x.Calm C Q)
    (hk : ∀ a, Q a → (k a).Calm C R) :
    (x >>= k).Calm C R := by
  intro m hm
  have hfirst := hx m hm
  change Outcome.Calm C m R (x.andThen k m)
  unfold Run.andThen
  generalize x m = o at hfirst
  cases hfirst with
  | @done a heap hheap ha =>
    have hsecond := hk a ha { m with heap } hheap
    dsimp only
    generalize k a { m with heap } = o at hsecond
    cases hsecond with
    | done hheap' hb => exact .done hheap' hb
    | failed hheap' hf => exact .failed hheap' hf
    | exhausted hheap' => exact .exhausted hheap'
  | failed hheap hf => exact .failed hheap hf
  | exhausted hheap => exact .exhausted hheap

private theorem look {f : Heap → α} (hf : ∀ h : Heap, h.All (Value.From C) → Q (f h)) :
    (Run.look f).Calm C Q :=
  fun m hm => .done hm (hf m.heap hm)

theorem change {f : Heap → Heap}
    (hf : ∀ h : Heap, h.All (Value.From C) → (f h).All (Value.From C)) :
    (Run.change f).Calm C fun _ => True :=
  fun m hm => .done (hf m.heap hm) trivial

theorem define (env : FrameId) (name : Text) {v : Value} (hv : v.From C) :
    (Run.change (·.define env name v)).Calm C fun _ => True :=
  change fun _ hh => hh.define env name hv

theorem newFrame (parent : FrameId) {bs : Bindings} (hbs : ∀ n v, bs.lookup n = some v → v.From C) :
    (Run.newFrame parent bs).Calm C fun _ => True :=
  fun _ hm => .done (hm.child parent hbs) trivial

theorem newBlock (parent : FrameId) : (Run.newFrame parent []).Calm C fun _ => True :=
  newFrame parent Bindings.all_nil

theorem newSingle (parent : FrameId) (name : Text) {v : Value} (hv : v.From C) :
    (Run.newFrame parent [(name, v)]).Calm C fun _ => True := by
  refine newFrame parent fun n w hw => ?_
  rw [List.lookup_cons] at hw
  split at hw
  · cases hw
    exact hv
  · cases hw

private theorem freshId : Run.freshId.Calm C fun _ => True := fun _ hm => .done hm.freshId trivial

theorem newObject {c : Class} (hc : (Value.cls c).From C) :
    (Run.newObject c).Calm C (Value.From C) :=
  fun _ hm => .done hm.newObject hc

private theorem bound {f : Function} (hf : f.From C) {receiver : Value} (hr : receiver.From C) :
    (Run.bound f receiver).Calm C (Value.From C) :=
  bind freshId fun _ _ => give ⟨hf, hr⟩

theorem checkCanceled {span : Span} (hspan : Grammar.Spanned C span) :
    (Run.checkCanceled span).Calm C fun _ => True := by
  intro m hm
  unfold Run.checkCanceled
  split
  · exact .failed hm ⟨rfl, span, rfl, hspan⟩
  · exact .done hm trivial

end Run.Calm

namespace Eval

open Run Grammar

variable {C : Tree → Prop} {span : Span}

theorem calm_unary (hspan : Spanned C span) (op : UnaryOp) (v : Value) :
    (unary span op v).Calm C (Value.From C) := by
  unfold unary
  split
  · split
    · exact .give trivial
    · exact .error rfl hspan
  · exact .give trivial
  · exact .broken _ _

theorem calm_binary (hspan : Spanned C span) (op : BinaryOp) (v w : Value) :
    (binary span op v w).Calm C (Value.From C) := by
  have hadd : (add span v w).Calm C (Value.From C) := by
    unfold add
    split
    case h_5 => exact .error rfl hspan
    all_goals exact .give trivial
  have harithmetic : ∀ x y, (arithmetic span op x y).Calm C (Value.From C) := by
    intro x y
    unfold arithmetic
    split
    case h_3 =>
      split
      · exact .error rfl hspan
      · exact .give trivial
    all_goals first | exact .give trivial | exact .broken _ _
  unfold binary
  split
  · exact .give trivial
  · exact .give trivial
  · exact hadd
  · split
    · exact harithmetic _ _
    · exact .error rfl hspan

private theorem calm_lookUp {f : Heap → Option Value}
    (hf : ∀ h : Heap, h.All (Value.From C) → ∀ v, f h = some v → v.From C) :
    (look f).Calm C fun r => ∀ v, r = some v → v.From C :=
  .look hf

theorem calm_readName (hspan : Spanned C span) (name : Text) (hops : Option Int) (env : FrameId) :
    (readName name span hops env).Calm C (Value.From C) := by
  unfold readName
  cases hops with
  | some d =>
    refine .bind (calm_lookUp fun h hh v hv => hh.getAt hv) fun r hr => ?_
    split
    · exact .give (hr _ rfl)
    · exact .broken _ _
  | none =>
    refine .bind (calm_lookUp fun h hh v hv => hh.bindings hv) fun r hr => ?_
    split
    · exact .give (hr _ rfl)
    · exact .error rfl hspan

theorem calm_assignName {target : NameUse} (hspan : Spanned C target.span)
    {v : Value} (hv : v.From C)
    (env : FrameId) : (assignName target v env).Calm C fun _ => True := by
  unfold assignName
  split
  · refine .bind (.look (Q := fun _ => True) fun _ _ => trivial) fun holder _ => ?_
    split
    · exact .define _ _ hv
    · exact .broken _ _
  · refine .bind (.look (Q := fun _ => True) fun _ _ => trivial) fun holder _ => ?_
    split
    · exact .define _ _ hv
    · exact .error rfl hspan

theorem calm_property (hspan : Spanned C span) {v : Value} (hv : v.From C) (name : Text) :
    (property v name span).Calm C (Value.From C) := by
  unfold property
  split
  · refine .bind (calm_lookUp fun h hh v hv => hh.field hv) fun r hr => ?_
    split
    · exact .give (hr _ rfl)
    · split
      · rename_i f hf
        exact .bound (Class.Every.find hv false hf) hv
      · exact .error rfl hspan
  · split
    · rename_i f hf
      exact .bound (Class.Every.find hv true hf) hv
    · exact .error rfl hspan
  · exact .error rfl hspan

theorem calm_superMethod (hspan : Spanned C span) (name : Text)
    (hops : Option Int) (env : FrameId) :
    (superMethod span name hops env).Calm C (Value.From C) := by
  unfold superMethod
  split
  · exact .broken _ _
  · refine .bind (calm_lookUp fun h hh v hv => hh.getAt hv) fun sup hsup => ?_
    split
    · rename_i c
      refine .bind (calm_lookUp fun h hh v hv => hh.getAt hv) fun receiver hreceiver => ?_
      split
      · rename_i receiver
        split
        · rename_i f hf
          exact .bound (Class.Every.find (hsup _ rfl) receiver.isClass hf) (hreceiver _ rfl)
        · exact .error rfl hspan
      · exact .broken _ _
    · exact .broken _ _

theorem calm_newFunction (name : Text) (params : List Param) {body : List Stmt}
    (hbody : ∀ s ∈ body, C (.stmt s)) (closure : FrameId) (isInit : Bool) :
    (newFunction name params body closure isInit).Calm C (Function.From C) :=
  .bind .freshId fun _ _ => .give hbody

private theorem calm_methodTable (closure : FrameId) (ofInstances : Bool)
    {table : List (Text × Function)} (htable : ∀ m ∈ table, m.2.From C) {decls : List FunDecl}
    (hdecls : ∀ d ∈ decls, ∀ s ∈ d.body, C (.stmt s)) :
    (methodTable closure ofInstances table decls).Calm C fun ms => ∀ m ∈ ms, m.2.From C := by
  induction decls generalizing table with
  | nil => exact .give htable
  | cons d r ih =>
    obtain ⟨hd, hr⟩ := List.forall_mem_cons.1 hdecls
    obtain ⟨span, name, params, body⟩ := d
    exact .bind (calm_newFunction _ _ hd _ _) fun f hf =>
      ih (List.forall_mem_cons.2 ⟨hf, htable⟩) hr

theorem calm_newClass (name : Text) {superclass : Option Class}
    (hsup : ∀ c, superclass = some c → (Value.cls c).From C) {methods statics : List FunDecl}
    (hmethods : ∀ d ∈ methods, ∀ s ∈ d.body, C (.stmt s))
    (hstatics : ∀ d ∈ statics, ∀ s ∈ d.body, C (.stmt s)) (closure env : FrameId) :
    (newClass name superclass methods statics closure env).Calm C fun _ => True := by
  refine .bind (calm_methodTable closure true (List.forall_mem_nil _) hmethods) fun ms hms => ?_
  refine .bind (calm_methodTable closure false (List.forall_mem_nil _) hstatics) fun ss hss => ?_
  refine .bind .freshId fun i _ => .define _ _ ?_
  cases superclass with
  | none => exact ⟨hms, hss⟩
  | some c => exact ⟨hsup c rfl, hms, hss⟩

theorem calm_result (f : Function) (closure : FrameId) {signal : Signal} (hs : signal.From C) :
    (result f closure signal).Calm C (Value.From C) := by
  unfold result
  split
  · exact .fail trivial
  · split
    · refine .bind (calm_lookUp fun h hh v hv => hh.bindings hv) fun receiver hreceiver => ?_
      split
      · exact .give (hreceiver _ rfl)
      · exact .fail trivial
    · split
      · exact .give hs
      · exact .give trivial

theorem from_parameterBindings (params : List Param) {args : List Value}
    (hargs : ∀ v ∈ args, v.From C) :
    ∀ n v, (parameterBindings params args).lookup n = some v → v.From C :=
  Bindings.foldl_all (fun (q : Param × Value) => q.1.name) Prod.snd (fun _ _ => rfl)
    (fun q hq => hargs q.2 (List.of_mem_zip hq).2) Bindings.all_nil

end Eval

end Lox
