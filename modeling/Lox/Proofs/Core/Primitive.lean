import Lox.Proofs.Core.Alike
import Lox.Proofs.Core.Leads

set_option autoImplicit false
set_option relaxedAutoImplicit false

namespace Lox

open Text (lit)

/-- Functions that are the same but for their code, which is alike, and the places of their
parameters. -/
structure Function.SameCore (f g : Function) : Prop where
  id : f.id = g.id
  name : f.name = g.name
  params : f.params.map Param.name = g.params.map Param.name
  closure : f.closure = g.closure
  isInit : f.isInit = g.isInit
  body : Stmt.AlikeAll f.body g.body

theorem Function.SameCore.outline {f g : Function} (h : f.SameCore g) : f.SameOutline g where
  id := h.id
  name := h.name
  arity := by
    have hlength := congrArg List.length h.params
    rwa [List.length_map, List.length_map] at hlength
  closure := h.closure
  isInit := h.isInit

/-- Functions are alike if their code is. -/
def Likeness.ofCore : Likeness where
  plain := Function.SameCore
  member := Function.SameCore
  plain_outline := Function.SameCore.outline
  member_outline := Function.SameCore.outline

theorem Likeness.reflexive_ofCore : Likeness.ofCore.Reflexive where
  plain _ := ⟨rfl, rfl, rfl, rfl, rfl, .refl _⟩
  member _ := ⟨rfl, rfl, rfl, rfl, rfl, .refl _⟩

namespace Eval

section

variable {L : Likeness} {v v' w w' : Value} {env : FrameId} (s s' : Span)

theorem parallel_unary (op : UnaryOp) (hv : v.Alike L v') :
    Run.Parallel L (unary s op v) (unary s' op v') (Value.Alike L) := by
  cases op with
  | negate =>
    cases hv with
    | number x => exact .give (.number _)
    | _ => exact .error _ _ _
  | not =>
    unfold unary
    dsimp only
    rw [hv.truthy]
    exact .give (.bool _)
  | other t => exact .broken _ _ _

private theorem parallel_add (hv : v.Alike L v') (hw : w.Alike L w') :
    Run.Parallel L (add s v w) (add s' v' w') (Value.Alike L) := by
  cases hv with
  | number x =>
    cases hw with
    | number y => exact .give (.number _)
    | string t => exact .give (.string _)
    | _ => exact .error _ _ _
  | string t =>
    cases hw with
    | number y => exact .give (.string _)
    | string u => exact .give (.string _)
    | _ => exact .error _ _ _
  | _ => exact .error _ _ _

private theorem parallel_arithmetic (op : BinaryOp) (x y : Float) :
    Run.Parallel L (arithmetic s op x y) (arithmetic s' op x y) (Value.Alike L) := by
  cases op with
  | div =>
    unfold arithmetic
    dsimp only
    split
    · exact .error _ _ _
    · exact .give (.number _)
  | sub | mul => exact .give (.number _)
  | greater | greaterEqual | less | lessEqual => exact .give (.bool _)
  | _ => exact .broken _ _ _

theorem parallel_binary (op : BinaryOp) (hv : v.Alike L v') (hw : w.Alike L w') :
    Run.Parallel L (binary s op v w) (binary s' op v' w') (Value.Alike L) := by
  have hnumbers := fun x y => parallel_arithmetic (L := L) s s' op x y
  cases op with
  | equal | notEqual =>
    unfold binary
    dsimp only
    rw [hv.equal hw]
    exact .give (.bool _)
  | add => exact parallel_add s s' hv hw
  | _ =>
    cases hv with
    | number x =>
      cases hw with
      | number y => exact hnumbers x y
      | _ => exact .error _ _ _
    | _ => exact .error _ _ _

theorem decides_alike (hv : v.Alike L v') (op : LogicalOp) : decides op v = decides op v' := by
  unfold decides
  rw [hv.truthy]

theorem parallel_readName (name : Text) (hops : Option Int) :
    Run.Parallel L (readName name s hops env) (readName name s' hops env) (Value.Alike L) := by
  unfold readName
  cases hops with
  | none =>
    refine .bind (.look fun h h' hh => (hh.bindings Heap.globals).lookup name) fun a b hab => ?_
    cases hab with
    | none => exact .error _ _ _
    | some hv => exact .give hv
  | some d =>
    refine .bind (.look fun h h' hh => hh.getAt env d name) fun a b hab => ?_
    cases hab with
    | none => exact .broken _ _ _
    | some hv => exact .give hv

theorem parallel_assignName {target target' : NameUse} (htarget : target.bare = target'.bare)
    (hv : v.Alike L v') :
    Run.Parallel L (assignName target v env) (assignName target' v' env) fun _ _ => True := by
  obtain ⟨hname, hhops⟩ := NameUse.eq_of_bare htarget
  unfold assignName
  rw [hname, hhops]
  cases target'.hops with
  | none =>
    refine .bind (.look fun h h' hh => (hh.holderAt Heap.globals 0 target'.name).symm) ?_
    rintro a _ rfl
    cases a with
    | none => exact .error _ _ _
    | some a => exact .define a target'.name hv
  | some d =>
    refine .bind (.look fun h h' hh => (hh.holderAt env d target'.name).symm) ?_
    rintro a _ rfl
    cases a with
    | none => exact .broken _ _ _
    | some a => exact .define a target'.name hv

private theorem parallel_member {f f' : Option Function}
    (hf : Option.Rel L.member f f') (hv : v.Alike L v') (e : RuntimeError) :
    Run.Parallel L
      (match f with
        | some f => Run.bound f v
        | none => Run.error e s)
      (match f' with
        | some f => Run.bound f v'
        | none => Run.error e s') (Value.Alike L) := by
  cases hf with
  | none => exact .error _ _ _
  | some hf => exact .bound hf hv

theorem parallel_property (name : Text) (hv : v.Alike L v') :
    Run.Parallel L (property v name s) (property v' name s') (Value.Alike L) := by
  cases hv with
  | object i hc =>
    refine .bind (.look fun h h' hh => hh.field i name) fun a b hab => ?_
    cases hab with
    | none => exact parallel_member s s' (hc.findMethod name) (.object i hc) _
    | some hw => exact .give hw
  | cls hc => exact parallel_member s s' (hc.findStatic name) (.cls hc) _
  | _ => exact .error _ _ _

theorem parallel_superMethod (name : Text) (hops : Option Int) :
    Run.Parallel L (superMethod s name hops env)
      (superMethod s' name hops env) (Value.Alike L) := by
  unfold superMethod
  cases hops with
  | none => exact .broken _ _ _
  | some d =>
    refine .bind (.look fun h h' hh => hh.getAt env d (lit "super")) fun a b hab => ?_
    cases hab with
    | none => exact .broken _ _ _
    | some hsup =>
      cases hsup with
      | cls hc =>
        refine .bind (.look fun h h' hh => hh.getAt env (d - 1) (lit "this")) fun a b hab => ?_
        cases hab with
        | none => exact .broken _ _ _
        | some hw =>
          dsimp only
          rw [hw.isClass]
          refine parallel_member s s' ?_ hw _
          split
          · exact hc.findStatic name
          · exact hc.findMethod name
      | _ => exact .broken _ _ _

end

/-! ### Functions and classes -/

section

variable {env : FrameId}

theorem parallel_newFunction (name : Text) {ps ps' : List Param} {body body' : List Stmt}
    (hps : ps.map Param.name = ps'.map Param.name)
    (hbody : Stmt.AlikeAll body body') (isInit : Bool) :
    Run.Parallel .ofCore (newFunction name ps body env isInit)
      (newFunction name ps' body' env isInit)
      Function.SameCore := by
  refine .bind .freshId ?_
  rintro i _ rfl
  exact .give ⟨rfl, rfl, hps, rfl, rfl, hbody⟩

private theorem parallel_methodTable (ofInstances : Bool) {ds ds' : List FunDecl}
    (hds : FunDecl.AlikeAll ds ds')
    {table table' : List (Text × Function)} (htable : Likeness.ofCore.Tables table table') :
    Run.Parallel .ofCore (methodTable env ofInstances table ds)
      (methodTable env ofInstances table' ds')
      Likeness.ofCore.Tables := by
  induction ds generalizing ds' table table' with
  | nil =>
    cases hds
    exact .give htable
  | cons d ds ih =>
    cases hds with
    | cons hd hds =>
      obtain ⟨s, s', n, hps, hbody⟩ := hd
      rw [methodTable, methodTable]
      exact .bind (parallel_newFunction n hps hbody _) fun f f' hf =>
        ih hds (.cons ⟨rfl, hf⟩ htable)

theorem parallel_newClass (name : Text) {sup sup' : Option Class}
    (hsup : Option.Rel (Class.Alike .ofCore) sup sup') {ms ms' ss ss' : List FunDecl}
    (hms : FunDecl.AlikeAll ms ms') (hss : FunDecl.AlikeAll ss ss') (closure : FrameId) :
    Run.Parallel .ofCore (newClass name sup ms ss closure env)
      (newClass name sup' ms' ss' closure env)
      fun _ _ => True := by
  unfold newClass
  refine .bind (parallel_methodTable true hms .nil) fun t t' ht => ?_
  refine .bind (parallel_methodTable false hss .nil) fun u u' hu => .bind .freshId ?_
  rintro i _ rfl
  have hclass : Value.Alike .ofCore (.cls (.mk i name sup t u)) (.cls (.mk i name sup' t' u')) := by
    cases hsup with
    | none => exact .cls (.base ht hu)
    | some hsup => exact .cls (.derived hsup ht hu)
  exact .define env name hclass

private theorem parallel_receiver (closure : FrameId) :
    Run.Parallel .ofCore
      (Run.look (fun h => (h.bindings closure).lookup (lit "this")) >>=
        fun receiver => match receiver with
        | some receiver => Run.give receiver
        | none => Run.fail (.internal .noReceiver none))
      (Run.look (fun h => (h.bindings closure).lookup (lit "this")) >>=
        fun receiver => match receiver with
        | some receiver => Run.give receiver
        | none => Run.fail (.internal .noReceiver none)) (Value.Alike .ofCore) := by
  refine .bind (.look fun h h' hh => (hh.bindings closure).lookup (lit "this")) fun a b hab => ?_
  cases hab with
  | none => exact .fail rfl
  | some hv => exact .give hv

/-- A function whose body has run to its end has alike results, also if a signal got out of it. -/
theorem parallel_result {f f' : Function} (hf : f.SameCore f') (closure : FrameId)
    {signal signal' : Signal} (hsignal : signal.Alike .ofCore signal') :
    Run.Parallel .ofCore (result f closure signal) (result f' closure signal')
      (Value.Alike .ofCore) := by
  unfold result
  cases hsignal with
  | leaveLoop =>
    dsimp only
    rw [hf.outline.print]
    refine .fail ?_
    -- Both bodies have a first statement, or neither has.
    have hbody := hf.body
    generalize f.body = ss, f'.body = ss' at hbody
    cases hbody <;> rfl
  | normal =>
    dsimp only
    rw [hf.isInit]
    split
    · exact parallel_receiver closure
    · exact .give .nil
  | leaveFunction hv =>
    dsimp only
    rw [hf.isInit]
    split
    · exact parallel_receiver closure
    · exact .give hv

end

end Eval
end Lox
