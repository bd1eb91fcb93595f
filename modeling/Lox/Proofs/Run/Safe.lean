import Lox.Proofs.Natives.Conduct
import Lox.Proofs.Run.Heap
import Lox.Run.Eval

/-!
Safe computations: from a sound heap they come to a larger sound heap, whether they end with a
value, with a failure or when their steps are used up, and no failure is a broken agreement. The
steps of evaluation that run no code of the program are safe.
-/

set_option autoImplicit false
set_option relaxedAutoImplicit false

namespace Lox

open Text (lit)
open Layers

private theorem Failure.isInternal_attach {f : Failure} (h : f.isInternal = false) (span : Span) :
    (f.attach span).isInternal = false := by
  cases f with
  | runtime e s => cases s <;> rfl
  | internal e s => cases h
  | plain t => rfl

theorem Known.sound {given : List Value} {v : Value} (hv : Known given v) {h : Heap}
    (hgiven : ∀ w ∈ given, w.Sound h) : v.Sound h := by
  induction hv with
  | given hmem => exact hgiven _ hmem
  | nil | absent | bool | number | string | native => trivial
  | classOf _ ih => exact ih
  | superclass _ ih => exact ih.1
  | receiver _ ih => exact ih.2
  | object _ _ ih => exact ih
  | method _ _ hf _ ihc ihv => exact ⟨Class.Sound.findMethod ihc hf, ihv⟩
  | static _ _ hf _ ihc ihv => exact ⟨Class.Sound.findStatic ihc hf, ihv⟩

/-- A computation is safe from a machine, and a value that it gives is as told in the heap that it
leaves. -/
structure Safe {α : Type} (x : Run α) (m : Machine) (Q : α → Heap → Prop) : Prop where
  grows : m.heap.Grows (x m).machine.heap
  done : ∀ a m', x m = .done a m' → Q a m'.heap
  failed : ∀ f m', x m = .failed f m' → f.isInternal = false

namespace Safe

variable {α β : Type} {m : Machine} {Q : α → Heap → Prop} {R : β → Heap → Prop}

private theorem of_done {x : Run α} {a : α} {m' : Machine} (hrun : x m = .done a m')
    (hgrows : m.heap.Grows m'.heap) (hQ : Q a m'.heap) : Safe x m Q where
  grows := by rw [hrun]; exact hgrows
  done := by
    rw [hrun]
    intro _ _ heq
    cases heq
    exact hQ
  failed := by
    rw [hrun]
    intro _ _ heq
    cases heq

private theorem of_failed {x : Run α} {f : Failure} {m' : Machine} (hrun : x m = .failed f m')
    (hgrows : m.heap.Grows m'.heap) (hf : f.isInternal = false) : Safe x m Q where
  grows := by rw [hrun]; exact hgrows
  done := by
    rw [hrun]
    intro _ _ heq
    cases heq
  failed := by
    rw [hrun]
    intro _ _ heq
    cases heq
    exact hf

private theorem of_exhausted {x : Run α} {m' : Machine} (hrun : x m = .exhausted m')
    (hgrows : m.heap.Grows m'.heap) : Safe x m Q where
  grows := by rw [hrun]; exact hgrows
  done := by
    rw [hrun]
    intro _ _ heq
    cases heq
  failed := by
    rw [hrun]
    intro _ _ heq
    cases heq

theorem congr {x y : Run α} (h : x m = y m) (hy : Safe y m Q) : Safe x m Q :=
  ⟨h ▸ hy.grows, h ▸ hy.done, h ▸ hy.failed⟩

theorem give {a : α} (hs : m.heap.Sound) (hQ : Q a m.heap) : Safe (Run.give a) m Q :=
  of_done rfl (.refl hs) hQ

theorem exhaust (hs : m.heap.Sound) : Safe (Run.exhaust : Run α) m Q :=
  of_exhausted rfl (.refl hs)

theorem fail {f : Failure} (hs : m.heap.Sound) (hf : f.isInternal = false) :
    Safe (Run.fail f : Run α) m Q :=
  of_failed rfl (.refl hs) hf

theorem error {e : RuntimeError} {span : Span} (hs : m.heap.Sound) :
    Safe (Run.error e span : Run α) m Q :=
  fail hs rfl

theorem imp {x : Run α} {Q' : α → Heap → Prop} (hx : Safe x m Q)
    (h : ∀ (a : α) (m' : Machine), m.heap.Grows m'.heap → Q a m'.heap → Q' a m'.heap) :
    Safe x m Q' where
  grows := hx.grows
  done := by
    intro a m' hrun
    have hgrows := hx.grows
    rw [hrun] at hgrows
    exact h a m' hgrows (hx.done a m' hrun)
  failed := hx.failed

theorem bind {x : Run α} {k : α → Run β} (hx : Safe x m Q)
    (hk : ∀ a m', m.heap.Grows m'.heap → Q a m'.heap → Safe (k a) m' R) : Safe (x >>= k) m R := by
  have hgrows := hx.grows
  have hbind : (x >>= k) m = x.andThen k m := rfl
  unfold Run.andThen at hbind
  cases hrun : x m with
  | done a m' =>
    rw [hrun] at hbind hgrows
    have hafter := hk a m' hgrows (hx.done a m' hrun)
    exact ⟨hbind ▸ hgrows.trans hafter.grows, hbind ▸ hafter.done, hbind ▸ hafter.failed⟩
  | failed f m' =>
    rw [hrun] at hbind hgrows
    exact of_failed hbind hgrows (hx.failed f m' hrun)
  | exhausted m' =>
    rw [hrun] at hbind hgrows
    exact of_exhausted hbind hgrows

private theorem look {f : Heap → α} {k : α → Run β} (hk : Safe (k (f m.heap)) m R) :
    Safe (Run.look f >>= k) m R :=
  ⟨hk.grows, hk.done, hk.failed⟩

theorem change {f : Heap → Heap} (hgrows : m.heap.Grows (f m.heap)) :
    Safe (Run.change f) m fun _ h => h = f m.heap :=
  of_done rfl hgrows rfl

theorem newFrame {p : FrameId} {bs : Bindings} {ls : Layers} {l : Layer} (hs : m.heap.Sound)
    (hp : m.heap.Fits p ls) (hbs : ∀ n v, bs.lookup n = some v → v.Sound m.heap)
    (hl : l.HeldBy bs) : Safe (Run.newFrame p bs) m fun e h => h.Fits e (l :: ls) :=
  of_done rfl (hs.child p hbs) (hp.child hl)

theorem newBlock {p : FrameId} {ls : Layers} (hs : m.heap.Sound) (hp : m.heap.Fits p ls) :
    Safe (Run.newFrame p []) m fun e h => h.Fits e (.empty :: ls) :=
  newFrame hs hp nofun ⟨nofun, nofun⟩

theorem newSingle {p : FrameId} {ls : Layers} {name : Text} {v : Value} (hs : m.heap.Sound)
    (hp : m.heap.Fits p ls) (hv : v.Sound m.heap)
    (hsuper : name = lit "super" → ∃ c, v = .cls c) :
    Safe (Run.newFrame p [(name, v)]) m fun e h => h.Fits e (.single name :: ls) := by
  refine newFrame hs hp (fun n w hw => ?_) (Layer.heldBy_single hsuper)
  rw [List.lookup_cons] at hw
  split at hw
  · cases hw
    exact hv
  · cases hw

private theorem freshId (hs : m.heap.Sound) : Safe Run.freshId m fun _ _ => True :=
  of_done rfl hs.freshId trivial

theorem newObject {c : Class} (hs : m.heap.Sound) (hc : c.Sound m.heap) :
    Safe (Run.newObject c) m fun v h => v.Sound h := by
  have hgrows := hs.newObject
  exact of_done rfl hgrows (Class.Sound.mono hgrows.larger hc)

private theorem bound {f : Function} {receiver : Value} (hs : m.heap.Sound)
    (hf : f.Fits m.heap receiverLayers) (hr : receiver.Sound m.heap) :
    Safe (Run.bound f receiver) m fun v h => v.Sound h := by
  refine .bind (.freshId hs) fun i m' hgrows _ => .give hgrows.sound ?_
  exact ⟨hf.mono hgrows.larger, hr.mono hgrows.larger⟩

theorem write {st : Settings} {line : Text} (hs : m.heap.Sound) :
    Safe (Run.write st line) m fun _ _ => True := by
  unfold Run.write
  split
  · exact of_done rfl (.refl hs) trivial
  · exact of_done rfl (.refl hs) trivial

theorem checkCanceled {span : Span} (hs : m.heap.Sound) :
    Safe (Run.checkCanceled span) m fun _ _ => True := by
  by_cases hc : m.canceled = true
  · exact of_failed (if_pos hc) (.refl hs) rfl
  · exact of_done (if_neg hc) (.refl hs) trivial

theorem settle {x : Run α} {y : Run β} {k : Except Failure α → Run β} (hx : Safe x m Q)
    (hdone : ∀ a m', x m = .done a m' → y m = k (.ok a) m')
    (hfailed : ∀ f m', x m = .failed f m' → y m = k (.error f) m')
    (hexhausted : ∀ m', x m = .exhausted m' → y m = .exhausted m')
    (hok : ∀ a m', m.heap.Grows m'.heap → Q a m'.heap → Safe (k (.ok a)) m' R)
    (herror : ∀ f m', m.heap.Grows m'.heap → f.isInternal = false → Safe (k (.error f)) m' R) :
    Safe y m R := by
  have hgrows := hx.grows
  cases hrun : x m with
  | done a m' =>
    rw [hrun] at hgrows
    have hy := hdone a m' hrun
    have hafter := hok a m' hgrows (hx.done a m' hrun)
    exact ⟨hy ▸ hgrows.trans hafter.grows, hy ▸ hafter.done, hy ▸ hafter.failed⟩
  | failed f m' =>
    rw [hrun] at hgrows
    have hy := hfailed f m' hrun
    have hafter := herror f m' hgrows (hx.failed f m' hrun)
    exact ⟨hy ▸ hgrows.trans hafter.grows, hy ▸ hafter.done, hy ▸ hafter.failed⟩
  | exhausted m' =>
    rw [hrun] at hgrows
    exact of_exhausted (hexhausted m' hrun) hgrows

theorem around {x y : Run α} {m₁ : Machine} {leave : Machine → Machine}
    {onFailure : Failure → Failure} (henter : m₁.heap = m.heap)
    (hleave : ∀ m, (leave m).heap = m.heap)
    (hfailure : ∀ f, f.isInternal = false → (onFailure f).isInternal = false)
    (hx : Safe x m₁ Q)
    (hy : y m = match x m₁ with
      | .done a m => .done a (leave m)
      | .failed f m => .failed (onFailure f) (leave m)
      | .exhausted m => .exhausted m) : Safe y m Q := by
  have hgrows := hx.grows
  rw [henter] at hgrows
  cases hrun : x m₁ with
  | done a m' =>
    rw [hrun] at hy hgrows
    refine of_done hy ?_ ?_
    · rw [hleave]
      exact hgrows
    · rw [hleave]
      exact hx.done a m' hrun
  | failed f m' =>
    rw [hrun] at hy hgrows
    refine of_failed hy ?_ (hfailure f (hx.failed f m' hrun))
    rw [hleave]
    exact hgrows
  | exhausted m' =>
    rw [hrun] at hy hgrows
    exact of_exhausted hy hgrows

end Safe

theorem Run.heap_emit (st : Settings) (kind : EventKind) (span : Span) (name : Text) (m : Machine) :
    (Run.emit st kind span name m).machine.heap = m.heap := by
  unfold Run.emit
  split <;> rfl

namespace Eval

variable {m : Machine} {ls : Layers} {env : FrameId}

theorem safe_unary {span : Span} {op : UnaryOp} {v : Value} (hs : m.heap.Sound)
    (hop : ∀ t, op ≠ .other t) : Safe (unary span op v) m fun v h => v.Sound h := by
  unfold unary
  split
  · split
    · exact .give hs trivial
    · exact .error hs
  · exact .give hs trivial
  · rename_i t
    exact absurd rfl (hop t)

private theorem safe_add {span : Span} {v w : Value} (hs : m.heap.Sound) :
    Safe (add span v w) m fun v h => v.Sound h := by
  unfold add
  split
  case h_5 => exact .error hs
  all_goals exact .give hs trivial

private theorem safe_arithmetic {span : Span} {op : BinaryOp} {x y : Float} (hs : m.heap.Sound)
    (hop : ∀ t, op ≠ .other t) (hequal : op ≠ .equal) (hnotEqual : op ≠ .notEqual)
    (hadd : op ≠ .add) : Safe (arithmetic span op x y) m fun v h => v.Sound h := by
  cases op with
  | other t => exact absurd rfl (hop t)
  | equal => exact absurd rfl hequal
  | notEqual => exact absurd rfl hnotEqual
  | add => exact absurd rfl hadd
  | div =>
    show Safe (if (y == 0) = true then _ else _) m _
    split
    · exact .error hs
    · exact .give hs trivial
  | _ => exact .give hs trivial

theorem safe_binary {span : Span} {op : BinaryOp} {v w : Value} (hs : m.heap.Sound)
    (hop : ∀ t, op ≠ .other t) : Safe (binary span op v w) m fun v h => v.Sound h := by
  unfold binary
  split
  · exact .give hs trivial
  · exact .give hs trivial
  · exact safe_add hs
  · rename_i hequal hnotEqual hadd
    split
    · exact safe_arithmetic hs hop hequal hnotEqual hadd
    · exact .error hs

theorem safe_readName {name : Text} {span : Span} {hops : Option Int} (hs : m.heap.Sound)
    (henv : m.heap.Fits env ls) (hops_ok : Reaches ls hops name) :
    Safe (readName name span hops env) m fun v h => v.Sound h := by
  unfold readName
  cases hops with
  | none =>
    refine .look ?_
    split
    · rename_i v hv
      exact .give hs (hs.bindings hv)
    · exact .error hs
  | some d =>
    obtain ⟨n, rfl, l, hl, hname⟩ := hops_ok d rfl
    obtain ⟨a, ha, hheld⟩ := henv.ancestor hl
    obtain ⟨v, hv⟩ := Option.isSome_iff_exists.1 (hheld.1 name hname)
    have hget : m.heap.getAt? env n name = some v := by
      simp only [Heap.getAt?, Int.toNat_natCast, ha, hv]
    refine .look ?_
    rw [hget]
    exact .give hs (hs.bindings hv)

theorem safe_assignName {target : NameUse} {v : Value} (hs : m.heap.Sound) (hv : v.Sound m.heap)
    (henv : m.heap.Fits env ls) (hops : Reaches ls target.hops target.name)
    (hname : target.name ≠ lit "super") :
    Safe (assignName target v env) m fun _ h => h.Sound := by
  unfold assignName
  have hdefine : ∀ a, Safe (Run.change (·.define a target.name v)) m fun _ h => h.Sound := by
    intro a
    refine (Safe.change (hs.define a hname hv)).imp fun _ m' hgrows _ => hgrows.sound
  cases ht : target.hops with
  | none =>
    refine .look ?_
    split
    · exact hdefine _
    · exact .error hs
  | some d =>
    obtain ⟨n, rfl, l, hl, hbound⟩ := hops d ht
    obtain ⟨a, ha, hheld⟩ := henv.ancestor hl
    have hholder : m.heap.holderAt? env n target.name = some a := by
      simp only [Heap.holderAt?, Int.toNat_natCast, ha, hheld.1 _ hbound, if_true]
    refine .look ?_
    rw [hholder]
    exact hdefine a

theorem safe_property {v : Value} {name : Text} {span : Span} (hs : m.heap.Sound)
    (hv : v.Sound m.heap) : Safe (property v name span) m fun v h => v.Sound h := by
  unfold property
  split
  · rename_i i c
    refine .look ?_
    split
    · rename_i w hw
      exact .give hs (hs.field hw)
    · split
      · rename_i f hf
        exact .bound hs (Class.Sound.findMethod hv hf) hv
      · exact .error hs
  · rename_i c
    split
    · rename_i f hf
      exact .bound hs (Class.Sound.findStatic hv hf) hv
    · exact .error hs
  · exact .error hs

theorem safe_superMethod {span : Span} {name : Text} {hops : Option Int} (hs : m.heap.Sound)
    (henv : m.heap.Fits env ls) (hscoped : (Expr.super span name hops).Scoped ls) :
    Safe (superMethod span name hops env) m fun v h => v.Sound h := by
  obtain ⟨d, rfl, ⟨outer, houter, hsuper⟩, inner, hinner, hthis⟩ := hscoped
  obtain ⟨a, ha, hheld⟩ := henv.ancestor houter
  obtain ⟨b, hb, hheld'⟩ := henv.ancestor hinner
  obtain ⟨c, hc⟩ := hheld.2 hsuper
  obtain ⟨receiver, hreceiver⟩ := Option.isSome_iff_exists.1 (hheld'.1 _ hthis)
  have hclass : m.heap.getAt? env ((d : Int) + 1) (lit "super") = some (.cls c) := by
    have hnat : ((d : Int) + 1).toNat = d + 1 := by omega
    simp only [Heap.getAt?, hnat, ha, hc]
  have hbelow : m.heap.getAt? env ((d : Int) + 1 - 1) (lit "this") = some receiver := by
    have hnat : ((d : Int) + 1 - 1).toNat = d := by omega
    simp only [Heap.getAt?, hnat, hb, hreceiver]
  have hsound : c.Sound m.heap := hs.bindings hc
  unfold superMethod
  refine .look ?_
  rw [hclass]
  refine .look ?_
  rw [hbelow]
  dsimp only
  split
  · rename_i f hf
    refine .bound hs ?_ (hs.bindings hreceiver)
    split at hf
    · exact hsound.findStatic hf
    · exact hsound.findMethod hf
  · exact .error hs

theorem safe_newFunction {name : Text} {params : List Param} {body : List Stmt} {isInit : Bool}
    (hs : m.heap.Sound) :
    Safe (newFunction name params body env isInit) m fun f _ =>
      f.closure = env ∧ f.params = params ∧ f.body = body ∧ f.isInit = isInit :=
  .bind (.freshId hs) fun _ _ hgrows _ => .give hgrows.sound ⟨rfl, rfl, rfl, rfl⟩

theorem safe_newFunction_fits {name : Text} {params : List Param} {body : List Stmt} {isInit : Bool}
    (own : Layers) (hs : m.heap.Sound) (henv : m.heap.Fits env ls)
    (hparams : ∀ p ∈ params, p.name ≠ lit "super")
    (hbody : Stmt.ScopedAll (.ofParams params :: (own ++ ls)) .inFunction body) :
    Safe (newFunction name params body env isInit) m fun f h =>
      f.isInit = isInit ∧ f.Fits h own := by
  refine (safe_newFunction hs).imp fun f m' hgrows hf => ?_
  obtain ⟨rfl, rfl, rfl, rfl⟩ := hf
  exact ⟨rfl, ls, henv.mono hgrows.larger, hparams, hbody⟩

private theorem safe_methodTable {ofInstances : Bool} {table : List (Text × Function)}
    {decls : List FunDecl} (hs : m.heap.Sound) (henv : m.heap.Fits env ls)
    (htable : ∀ e ∈ table, e.2.Fits m.heap receiverLayers)
    (hdecls : FunDecl.ScopedAll (receiverLayers ++ ls) decls) :
    Safe (methodTable env ofInstances table decls) m fun t h =>
      ∀ e ∈ t, e.2.Fits h receiverLayers := by
  induction decls generalizing table m with
  | nil => exact .give hs htable
  | cons d r ih =>
    obtain ⟨i, name, params, body⟩ := d
    obtain ⟨⟨hparams, hbody⟩, hrest⟩ := hdecls
    refine .bind (safe_newFunction_fits receiverLayers hs henv hparams hbody)
      fun f m' hgrows hf => ?_
    refine ih hgrows.sound (henv.mono hgrows.larger) ?_ hrest
    intro e he
    rcases List.mem_cons.1 he with rfl | he
    · exact hf.2
    · exact (htable e he).mono hgrows.larger

theorem safe_newClass {name : Text} {superclass : Option Class} {methods statics : List FunDecl}
    {closure : FrameId} {inside : Layers} (hs : m.heap.Sound)
    (hclosure : m.heap.Fits closure inside) (henv : m.heap.Fits env ls) (hname : name ≠ lit "super")
    (hsuper : ∀ c, superclass = some c → c.Sound m.heap)
    (hmethods : FunDecl.ScopedAll (receiverLayers ++ inside) methods)
    (hstatics : FunDecl.ScopedAll (receiverLayers ++ inside) statics) :
    Safe (newClass name superclass methods statics closure env) m fun _ h =>
      h.Fits env (declare name ls) := by
  refine .bind (safe_methodTable hs hclosure nofun hmethods) fun ms m₁ h₁ hms => ?_
  refine .bind (safe_methodTable h₁.sound (hclosure.mono h₁.larger) nofun hstatics)
    fun ss m₂ h₂ hss => ?_
  refine .bind (.freshId h₂.sound) fun i m₃ h₃ _ => ?_
  have h₁₃ := h₂.larger.trans h₃.larger
  have hms₃ := fun e he => (hms e he).mono h₁₃
  have hss₃ := fun e he => (hss e he).mono h₃.larger
  have hc : (Value.cls (.mk i name superclass ms ss)).Sound m₃.heap := by
    cases superclass with
    | none => exact ⟨hms₃, hss₃⟩
    | some c => exact ⟨(hsuper c rfl).mono (h₁.larger.trans h₁₃), hms₃, hss₃⟩
  refine (Safe.change (h₃.sound.define env hname hc)).imp fun _ m₄ _ heq => ?_
  rw [heq]
  exact (henv.mono (h₁.larger.trans h₁₃)).define hname _

theorem safe_result {f : Function} {closure : FrameId} {signal : Signal} (hs : m.heap.Sound)
    (hinit : f.isInit = true → ((m.heap.bindings closure).lookup (lit "this")).isSome = true)
    (hbreak : signal ≠ .leaveLoop) (hreturn : ∀ v, signal = .leaveFunction v → v.Sound m.heap) :
    Safe (result f closure signal) m fun v h => v.Sound h := by
  unfold result
  split
  · exact absurd rfl hbreak
  · split
    · rename_i hf
      obtain ⟨receiver, hreceiver⟩ := Option.isSome_iff_exists.1 (hinit hf)
      refine .look ?_
      rw [hreceiver]
      exact .give hs (hs.bindings hreceiver)
    · split
      · exact .give hs (hreturn _ rfl)
      · exact .give hs trivial

theorem parameterBindings_sound {h : Heap} {params : List Param} {args : List Value}
    (hargs : ∀ v ∈ args, v.Sound h) :
    ∀ n v, (parameterBindings params args).lookup n = some v → v.Sound h := by
  have hempty : ∀ n v, List.lookup n ([] : Bindings) = some v → v.Sound h := nofun
  exact Bindings.foldl_all (fun (q : Param × Value) => q.1.name) Prod.snd (fun _ _ => rfl)
    (fun q hq => hargs q.2 (List.of_mem_zip hq).2) hempty

private theorem foldl_bind_isSome {pairs : List (Param × Value)} {bs : Bindings} {n : Text}
    (hn : (bs.lookup n).isSome = true ∨ ∃ q ∈ pairs, q.1.name = n) :
    ((pairs.foldl (fun bs (p, v) => Bindings.bind bs p.name v) bs).lookup n).isSome = true := by
  induction pairs generalizing bs with
  | nil =>
    rcases hn with hn | ⟨q, hq, -⟩
    · exact hn
    · cases hq
  | cons q r ih =>
    refine ih ?_
    rcases hn with hn | ⟨q', hq', hname⟩
    · exact .inl (Bindings.lookup_bind_isSome hn _ _)
    · rcases List.mem_cons.1 hq' with rfl | hq'
      · refine .inl ?_
        rw [Bindings.lookup_bind, if_pos hname.symm]
        rfl
      · exact .inr ⟨q', hq', hname⟩

theorem heldBy_parameterBindings {params : List Param} {args : List Value}
    (hlength : args.length = params.length) (hsuper : ∀ p ∈ params, p.name ≠ lit "super") :
    (Layer.ofParams params).HeldBy (parameterBindings params args) := by
  refine ⟨?_, ?_⟩
  · rintro n ⟨p, hp, hname⟩
    obtain ⟨i, hi, hget⟩ := List.mem_iff_getElem.1 hp
    have hargs : i < args.length := by omega
    refine foldl_bind_isSome (.inr ⟨(p, args[i]), ?_, hname⟩)
    refine List.mem_iff_getElem.2 ⟨i, ?_, ?_⟩
    · rw [List.length_zip]
      omega
    · rw [List.getElem_zip, hget]
  · rintro ⟨p, hp, hname⟩
    exact absurd hname (hsuper p hp)

theorem safe_counted {st : Settings} {callee : Value} {span : Span} {body : Run Value}
    {Q : Value → Heap → Prop} (hs : m.heap.Sound)
    (hbody : ∀ m', m'.heap = m.heap → Safe body m' Q) :
    Safe (counted st callee span body) m Q := by
  have hcheck : Safe (Run.checkCanceled span) m fun _ h => h = m.heap := by
    by_cases hc : m.canceled = true
    · exact .of_failed (if_pos hc) (.refl hs) rfl
    · exact .of_done (if_neg hc) (.refl hs) rfl
  refine .bind hcheck fun _ m' hgrows heap => ?_
  by_cases hlimit : st.limit ≤ m'.depth
  · exact .of_failed (if_pos hlimit) (.refl hgrows.sound) rfl
  · have henter : ∀ name, (Run.emit st .callStart span name m'.enter).machine.heap = m.heap := by
      intro name
      rw [Run.heap_emit]
      exact heap
    have hleave : ∀ (name : Text) (m : Machine),
        (Run.emit st .callEnd span name m).machine.leave.heap = m.heap :=
      fun name m => Run.heap_emit st .callEnd span name m
    refine .around ((henter (if st.traced then callee.print else [])).trans heap.symm)
      (hleave (if st.traced then callee.print else []))
      (fun f hf => Failure.isInternal_attach hf span) (hbody _ (henter _)) ?_
    rw [if_neg hlimit]
    dsimp only
    cases body (Run.emit st .callStart span _ m'.enter).machine <;> rfl

end Eval
end Lox
