import Lox.Proofs.Simulation.Follows

set_option autoImplicit false
set_option relaxedAutoImplicit false

namespace Lox

open Text (lit)

inductive Signal.Matches (L : Latitude) : Signal → Signal → Prop
  | normal : Signal.Matches L .normal .normal
  | leaveLoop : Signal.Matches L .leaveLoop .leaveLoop
  | leaveFunction {v v' : Value} :
      v.Matches L v' → Signal.Matches L (.leaveFunction v) (.leaveFunction v')

namespace Eval

variable {L : Latitude} {v v' w w' : Value} {env : FrameId}

theorem follows_unary (span : Span) (op : UnaryOp) (hv : v.Matches L v') :
    Follows L (unary span op v) (unary span op v') (Value.Matches L) := by
  cases op with
  | negate =>
    cases hv with
    | number x => exact .give (.number _)
    | _ => exact .error _ _
  | not =>
    unfold unary
    dsimp only
    rw [hv.truthy]
    exact .give (.bool _)
  | other t => exact .broken _ _

private theorem follows_add (span : Span) (hv : v.Matches L v') (hw : w.Matches L w') :
    Follows L (add span v w) (add span v' w') (Value.Matches L) := by
  cases hv with
  | number x =>
    cases hw with
    | number y => exact .give (.number _)
    | string t => exact .give (.string _)
    | _ => exact .error _ _
  | string t =>
    cases hw with
    | number y => exact .give (.string _)
    | string u => exact .give (.string _)
    | _ => exact .error _ _
  | _ => exact .error _ _

private theorem follows_arithmetic (span : Span) (op : BinaryOp) (x y : Float) :
    Follows L (arithmetic span op x y) (arithmetic span op x y) (Value.Matches L) := by
  cases op with
  | div =>
    unfold arithmetic
    dsimp only
    split
    · exact .error _ _
    · exact .give (.number _)
  | sub | mul => exact .give (.number _)
  | greater | greaterEqual | less | lessEqual => exact .give (.bool _)
  | _ => exact .broken _ _

theorem follows_binary (span : Span) (op : BinaryOp) (hv : v.Matches L v') (hw : w.Matches L w') :
    Follows L (binary span op v w) (binary span op v' w') (Value.Matches L) := by
  have hnumbers := fun x y => follows_arithmetic (L := L) span op x y
  cases op with
  | equal | notEqual =>
    unfold binary
    dsimp only
    rw [hv.equal hw]
    exact .give (.bool _)
  | add => exact follows_add span hv hw
  | _ =>
    cases hv with
    | number x =>
      cases hw with
      | number y => exact hnumbers x y
      | _ => exact .error _ _
    | _ => exact .error _ _

theorem decides_matches (hv : v.Matches L v') (op : LogicalOp) : decides op v = decides op v' := by
  unfold decides
  rw [hv.truthy]

theorem follows_readName (name : Text) (span : Span) (hops : Option Int) :
    Follows L (readName name span hops env) (readName name span hops env) (Value.Matches L) := by
  unfold readName
  cases hops with
  | none =>
    exact .lookRel (fun h h' hh => (hh.bindings Heap.globals).lookup name)
      (.error _ _) fun v v' hv =>
      .give hv
  | some d =>
    exact .lookRel (fun h h' hh => hh.getAt env d name) (.broken _ _) fun v v' hv => .give hv

theorem follows_assignName (target : NameUse) (hv : v.Matches L v') {k k' : Unit → Run Value}
    (hk : Follows L (k ()) (k' ()) (Value.Matches L)) :
    Follows L (assignName target v env >>= k)
      (assignName target v' env >>= k') (Value.Matches L) := by
  have hdefine : ∀ a, Follows L (Run.change (·.define a target.name v) >>= k)
      (Run.change (·.define a target.name v') >>= k') (Value.Matches L) :=
    fun a => .change (fun h h' hh => hh.define a target.name hv) hk
  unfold assignName
  cases target.hops with
  | none =>
    dsimp only
    rw [Run.bind_assoc, Run.bind_assoc]
    refine .look fun h h' hh => ?_
    rw [hh.holderAt]
    cases h.holderAt? Heap.globals 0 target.name with
    | none => exact .error _ _
    | some a => exact hdefine a
  | some d =>
    dsimp only
    rw [Run.bind_assoc, Run.bind_assoc]
    refine .look fun h h' hh => ?_
    rw [hh.holderAt]
    cases h.holderAt? env d target.name with
    | none => exact .broken _ _
    | some a => exact hdefine a

private theorem follows_member {f f' : Option Function} (hf : Option.Rel (Function.Matches L) f f')
    (hv : v.Matches L v') (e : RuntimeError) (span : Span) :
    Follows L
      (match f with
        | some f => Run.bound f v
        | none => Run.error e span)
      (match f' with
        | some f => Run.bound f v'
        | none => Run.error e span) (Value.Matches L) := by
  cases hf with
  | none => exact .error _ _
  | some hf => exact .bound hf hv

theorem follows_property (name : Text) (span : Span) (hv : v.Matches L v') :
    Follows L (property v name span) (property v' name span) (Value.Matches L) := by
  cases hv with
  | object i hc =>
    refine .lookRel (fun h h' hh => hh.field i name) ?_ fun w w' hw => .give hw
    exact follows_member (hc.findMethod name) (.object i hc) _ _
  | cls hc => exact follows_member (hc.findStatic name) (.cls hc) _ _
  | _ => exact .error _ _

theorem follows_superMethod (span : Span) (name : Text) (hops : Option Int) :
    Follows L (superMethod span name hops env)
      (superMethod span name hops env) (Value.Matches L) := by
  unfold superMethod
  cases hops with
  | none => exact .broken _ _
  | some d =>
    refine .lookRel (fun h h' hh => hh.getAt env d (lit "super")) (.broken _ _) fun v v' hv => ?_
    cases hv with
    | @cls c c' hc =>
      refine .lookRel (fun h h' hh => hh.getAt env (d - 1) (lit "this"))
        (.broken _ _) fun w w' hw => ?_
      dsimp only
      rw [hw.isClass]
      refine follows_member ?_ hw _ _
      split
      · exact hc.findStatic name
      · exact hc.findMethod name
    | _ => exact .broken _ _

/-! ### Functions and classes -/

theorem follows_newFunction (name : Text) (ps : List Param) {body body' : List Stmt}
    (hbody : Stmt.MatchesAll L body body') (isInit : Bool) {α : Type} {R : α → α → Prop}
    {k k' : Function → Run α} (hk : ∀ f f', f.Matches L f' → Follows L (k f) (k' f') R) :
    Follows L (newFunction name ps body env isInit >>= k)
      (newFunction name ps body' env isInit >>= k')
      R := by
  unfold newFunction
  rw [Run.bind_assoc, Run.bind_assoc]
  exact .freshId fun i => hk _ _ ⟨rfl, rfl, rfl, rfl, rfl, hbody⟩

private theorem follows_methodTable (ofInstances : Bool) {ds ds' : List FunDecl}
    (hds : FunDecl.MatchesAll L ds ds') {table table' : List (Text × Function)}
    (htable : L.likeness.Tables table table') {α : Type} {R : α → α → Prop}
    {k k' : List (Text × Function) → Run α}
    (hk : ∀ t t', L.likeness.Tables t t' → Follows L (k t) (k' t') R) :
    Follows L (methodTable env ofInstances table ds >>= k)
      (methodTable env ofInstances table' ds' >>= k')
      R := by
  induction ds generalizing ds' table table' with
  | nil =>
    cases hds
    exact hk _ _ htable
  | cons d ds ih =>
    cases hds with
    | cons hd hds =>
      obtain ⟨s, n, ps, hbody⟩ := hd
      rw [methodTable, methodTable, Run.bind_assoc, Run.bind_assoc]
      exact follows_newFunction _ ps hbody _ fun f f' hf => ih hds (.cons ⟨rfl, hf⟩ htable)

theorem follows_newClass (name : Text) {sup sup' : Option Class}
    (hsup : Option.Rel (Class.Alike L.likeness) sup sup') {ms ms' ss ss' : List FunDecl}
    (hms : FunDecl.MatchesAll L ms ms') (hss : FunDecl.MatchesAll L ss ss') (closure : FrameId)
    {α : Type} {R : α → α → Prop} {k k' : Unit → Run α} (hk : Follows L (k ()) (k' ()) R) :
    Follows L (newClass name sup ms ss closure env >>= k)
      (newClass name sup' ms' ss' closure env >>= k')
      R := by
  unfold newClass
  simp only [Run.bind_assoc]
  refine follows_methodTable true hms .nil fun t t' ht => ?_
  refine follows_methodTable false hss .nil fun u u' hu => .freshId fun i => ?_
  have hclass : Value.Matches L (.cls (.mk i name sup t u)) (.cls (.mk i name sup' t' u')) := by
    cases hsup with
    | none => exact .cls (.base ht hu)
    | some hsup => exact .cls (.derived hsup ht hu)
  exact .change (fun h h' hh => hh.define env name hclass) hk

private theorem follows_receiver (closure : FrameId) :
    Follows L
      (Run.look (fun h => (h.bindings closure).lookup (lit "this")) >>=
        fun receiver => match receiver with
        | some receiver => Run.give receiver
        | none => Run.fail (.internal .noReceiver none))
      (Run.look (fun h => (h.bindings closure).lookup (lit "this")) >>=
        fun receiver => match receiver with
        | some receiver => Run.give receiver
        | none => Run.fail (.internal .noReceiver none)) (Value.Matches L) :=
  .lookRel (fun _ _ hh => (hh.bindings closure).lookup (lit "this"))
    (.fail _) fun _ _ hv => .give hv

/-- A function whose body has run to its end has matching results, also if a signal got out of it.
-/
theorem follows_result {f f' : Function} (hf : f.Matches L f') (closure : FrameId)
    {signal signal' : Signal} (hsignal : signal.Matches L signal') :
    Follows L (result f closure signal) (result f' closure signal') (Value.Matches L) := by
  have hspan : firstSpan f'.body = firstSpan f.body := by
    have hbody := hf.body
    generalize f.body = ss, f'.body = ss' at hbody
    cases hbody with
    | nil => rfl
    | cons hs _ => exact congrArg some hs.span
  unfold result
  cases hsignal with
  | leaveLoop =>
    dsimp only
    rw [hf.outline.print, hspan]
    exact .fail _
  | normal =>
    dsimp only
    rw [hf.isInit]
    split
    · exact follows_receiver closure
    · exact .give .nil
  | leaveFunction hv =>
    dsimp only
    rw [hf.isInit]
    split
    · exact follows_receiver closure
    · exact .give hv

theorem parameterBindings_matches (ps : List Param) {args args' : List Value}
    (hargs : List.Forall₂ (Value.Matches L) args args') :
    Bindings.Matches L (parameterBindings ps args) (parameterBindings ps args') := by
  have hfold : ∀ bs bs' : Bindings, bs.Matches L bs' → Bindings.Matches L
      ((ps.zip args).foldl (fun bs q => Bindings.bind bs q.1.name q.2) bs)
      ((ps.zip args').foldl (fun bs q => Bindings.bind bs q.1.name q.2) bs') := by
    induction ps generalizing args args' with
    | nil => exact fun _ _ => id
    | cons p ps ih =>
      intro bs bs' hbs
      cases hargs with
      | nil => exact hbs
      | cons hv hargs => exact ih hargs _ _ (hbs.bind p.name hv)
  exact hfold [] [] .nil

end Eval
end Lox
