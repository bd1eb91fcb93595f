import Lox.Proofs.Rename.Heap
import Lox.Proofs.Run.Keeps

/-!
Computations in lockstep: from the state of a run and that of the renamed run they end in the same
way, with a value, with the same failure or when their steps are used up, and leave two such states
again. The two machines differ in their heaps alone. The steps of evaluation that run no code of the
program are in lockstep.
-/

set_option autoImplicit false
set_option relaxedAutoImplicit false

namespace Lox

open Text (lit)
open Layers

/-- The world of a machine, when it is told which frames are instances of renamed scopes. -/
abbrev Machine.world (m : Machine) (c : List Bool) : World := ⟨c, m.heap⟩

def Machine.withHeap (m : Machine) (h : Heap) : Machine := { m with heap := h }

/-- Two computations have ended in the same way, after what is known before of their world. -/
inductive Outcome.Alike (r : Renaming) (W : World) {α β : Type} (Q : World → α → β → Prop) :
    Outcome α → Outcome β → Prop
  | done {a : α} {b : β} {m : Machine} {h : Heap} {c : List Bool} :
      W.Grows (m.world c) → (m.world c).Twin r h → Q (m.world c) a b →
      Outcome.Alike r W Q (.done a m) (.done b (m.withHeap h))
  | failed (f : Failure) {m : Machine} {h : Heap} {c : List Bool} :
      W.Grows (m.world c) → (m.world c).Twin r h →
      Outcome.Alike r W Q (.failed f m) (.failed f (m.withHeap h))
  | exhausted {m : Machine} {h : Heap} {c : List Bool} :
      W.Grows (m.world c) → (m.world c).Twin r h →
      Outcome.Alike r W Q (.exhausted m) (.exhausted (m.withHeap h))

/-- Two computations are in lockstep from a machine and from the one with the other heap. -/
def Lockstep (r : Renaming) {α β : Type} (x : Run α) (y : Run β) (c : List Bool)
    (m : Machine) (h : Heap) (Q : World → α → β → Prop) : Prop :=
  Outcome.Alike r (m.world c) Q (x m) (y (m.withHeap h))

private theorem Outcome.Alike.earlier {r : Renaming} {W W' : World} (hW : W.Grows W') {α β : Type}
    {Q : World → α → β → Prop} {o : Outcome α} {o' : Outcome β} (ho : Outcome.Alike r W' Q o o') :
    Outcome.Alike r W Q o o' := by
  cases ho with
  | done hgrows ht hQ => exact .done (hW.trans hgrows) ht hQ
  | failed f hgrows ht => exact .failed f (hW.trans hgrows) ht
  | exhausted hgrows ht => exact .exhausted (hW.trans hgrows) ht

namespace Lockstep

variable {r : Renaming} {α β γ δ : Type} {c : List Bool} {m : Machine} {h : Heap}
  {Q : World → α → β → Prop} {R : World → γ → δ → Prop}

theorem give {a : α} {b : β} (ht : (m.world c).Twin r h) (hQ : Q (m.world c) a b) :
    Lockstep r (Run.give a) (Run.give b) c m h Q :=
  .done (.refl _) ht hQ

theorem exhaust (ht : (m.world c).Twin r h) :
    Lockstep r (Run.exhaust : Run α) (Run.exhaust : Run β) c m h Q :=
  .exhausted (.refl _) ht

theorem fail (f : Failure) (ht : (m.world c).Twin r h) :
    Lockstep r (Run.fail f : Run α) (Run.fail f : Run β) c m h Q :=
  .failed f (.refl _) ht

theorem error (e : RuntimeError) (span : Span) (ht : (m.world c).Twin r h) :
    Lockstep r (Run.error e span : Run α) (Run.error e span : Run β) c m h Q :=
  fail _ ht

theorem broken (e : InternalError) (span : Span) (ht : (m.world c).Twin r h) :
    Lockstep r (Run.broken e span : Run α) (Run.broken e span : Run β) c m h Q :=
  fail _ ht

theorem imp {x : Run α} {y : Run β} {Q' : World → α → β → Prop} (hxy : Lockstep r x y c m h Q)
    (hQ : ∀ W a b, (m.world c).Grows W → Q W a b → Q' W a b) : Lockstep r x y c m h Q' := by
  unfold Lockstep at hxy ⊢
  generalize x m = o, y (m.withHeap h) = o' at hxy ⊢
  cases hxy with
  | done hgrows ht hq => exact .done hgrows ht (hQ _ _ _ hgrows hq)
  | failed f hgrows ht => exact .failed f hgrows ht
  | exhausted hgrows ht => exact .exhausted hgrows ht

theorem settle {x : Run α} {y : Run β} {k : Except Failure α → Run γ} {l : Except Failure β → Run δ}
    (hxy : Lockstep r x y c m h Q)
    (hok : ∀ a b c₁ m₁ h₁, (m.world c).Grows (m₁.world c₁) → (m₁.world c₁).Twin r h₁ →
      Q (m₁.world c₁) a b → Lockstep r (k (.ok a)) (l (.ok b)) c₁ m₁ h₁ R)
    (herror : ∀ f c₁ m₁ h₁, (m.world c).Grows (m₁.world c₁) → (m₁.world c₁).Twin r h₁ →
      Lockstep r (k (.error f)) (l (.error f)) c₁ m₁ h₁ R) :
    Lockstep r (x.settle k) (y.settle l) c m h R := by
  unfold Lockstep Run.settle
  unfold Lockstep at hxy
  generalize x m = o, y (m.withHeap h) = o' at hxy
  cases hxy with
  | done hgrows ht hQ => exact (hok _ _ _ _ _ hgrows ht hQ).earlier hgrows
  | failed f hgrows ht => exact (herror f _ _ _ hgrows ht).earlier hgrows
  | exhausted hgrows ht => exact .exhausted hgrows ht

theorem bind {x : Run α} {y : Run β} {k : α → Run γ} {l : β → Run δ} (hxy : Lockstep r x y c m h Q)
    (hkl : ∀ a b c₁ m₁ h₁, (m.world c).Grows (m₁.world c₁) → (m₁.world c₁).Twin r h₁ →
      Q (m₁.world c₁) a b → Lockstep r (k a) (l b) c₁ m₁ h₁ R) :
    Lockstep r (x >>= k) (y >>= l) c m h R := by
  rw [Run.bind_eq_settle, Run.bind_eq_settle]
  exact hxy.settle hkl fun f _ _ _ _ ht => fail f ht

private theorem look {f : Heap → α} {g : Heap → β} {k : α → Run γ} {l : β → Run δ}
    (hkl : Lockstep r (k (f m.heap)) (l (g h)) c m h R) :
    Lockstep r (Run.look f >>= k) (Run.look g >>= l) c m h R := hkl

private theorem lookRel {A B : Type} {S : A → B → Prop} {f : Heap → Option A} {g : Heap → Option B}
    {k : Option A → Run γ} {l : Option B → Run δ} (hfg : Option.Rel S (f m.heap) (g h))
    (hnone : Lockstep r (k none) (l none) c m h R)
    (hsome : ∀ a b, S a b → Lockstep r (k (some a)) (l (some b)) c m h R) :
    Lockstep r (Run.look f >>= k) (Run.look g >>= l) c m h R := by
  refine look ?_
  generalize f m.heap = a, g h = b at hfg ⊢
  cases hfg with
  | none => exact hnone
  | some hab => exact hsome _ _ hab

theorem change {f g : Heap → Heap} {Q : World → Unit → Unit → Prop}
    (hgrows : (m.world c).Grows ⟨c, f m.heap⟩) (ht : World.Twin r ⟨c, f m.heap⟩ (g h))
    (hQ : Q ⟨c, f m.heap⟩ () ()) : Lockstep r (Run.change f) (Run.change g) c m h Q :=
  show Outcome.Alike r _ Q (.done () { m with heap := f m.heap }) _ from .done hgrows ht hQ

section

variable {e : FrameId} {ls : Layers} {marks : List Bool}

theorem define {b : Bool} (ht : (m.world c).Twin r h) (hb : (m.world c).instances[e]? = some b)
    {name : Text} (hsuper : name ≠ lit "super") (hname : b = true → name ≠ r.new) {v v' : Value}
    (hv : Value.Alike (World.likeness ⟨c, m.heap.define e name v⟩ r) v v') :
    Lockstep r (Run.change (·.define e name v)) (Run.change (·.define e (r.apply b name) v')) c m h
      fun W _ _ => W = ⟨c, m.heap.define e name v⟩ :=
  .change (World.Twin.defines _ e hsuper v) (ht.define hb hsuper hname hv) rfl

theorem newFrame {l : Layer} {b : Bool} {bs bs' : Bindings} (ht : (m.world c).Twin r h)
    (hat : (m.world c).At e ls marks) (hl : l.HeldBy bs)
    (hbs : Bindings.Renamed r ((m.world c).likeness r) b bs bs') :
    Lockstep r (Run.newFrame e bs) (Run.newFrame e bs') c m h
      fun W i i' => i' = i ∧ W.At i (l :: ls) (b :: marks) := by
  obtain ⟨hid, hchild⟩ := ht.child e hbs
  exact show Outcome.Alike r _ _ (.done _ { m with heap := (m.heap.child e bs).2 }) _ from
    .done (World.Twin.extends_child _ e bs b) hchild ⟨hid, hat.child ht hl b⟩

theorem newBlock (here : Bool) (ht : (m.world c).Twin r h) (hat : (m.world c).At e ls marks) :
    Lockstep r (Run.newFrame e []) (Run.newFrame e []) c m h
      fun W i i' => i' = i ∧ W.At i (.empty :: ls) (here :: marks) :=
  newFrame ht hat ⟨nofun, nofun⟩ .nil

/-- A frame with one name, which is `this` or `super` bound to a class, and is never renamed. -/
theorem newSingle {name : Text} {v v' : Value} (ht : (m.world c).Twin r h)
    (hat : (m.world c).At e ls marks) (hv : Value.Alike ((m.world c).likeness r) v v')
    (hsuper : name = lit "super" → ∃ k, v = .cls k) :
    Lockstep r (Run.newFrame e [(name, v)]) (Run.newFrame e [(name, v')]) c m h
      fun W i i' => i' = i ∧ W.At i (.single name :: ls) (false :: marks) :=
  newFrame ht hat (Layer.heldBy_single hsuper) (.single hv)

end

private theorem freshId (ht : (m.world c).Twin r h) :
    Lockstep r Run.freshId Run.freshId c m h fun _ i i' => i' = i := by
  obtain ⟨hid, hfresh⟩ := ht.freshId
  exact show Outcome.Alike r _ _ (.done _ { m with heap := m.heap.freshId.2 }) _ from
    .done (World.Twin.keepsFrames _ rfl) hfresh hid

theorem newObject {k k' : Class} (ht : (m.world c).Twin r h)
    (hk : Class.Alike ((m.world c).likeness r) k k') :
    Lockstep r (Run.newObject k) (Run.newObject k') c m h fun W => Value.Alike (W.likeness r) := by
  obtain ⟨hid, hnew⟩ := ht.newObject
  have hgrows := World.Twin.keepsFrames (m.world c) (rfl : m.heap.newObject.2.frames = _)
  refine show Outcome.Alike r _ _ (.done _ { m with heap := m.heap.newObject.2 }) _ from
    .done hgrows hnew ?_
  have hsame : h.objects.size = m.heap.objects.size := hid
  show Value.Alike _ (.object m.heap.objects.size k) (.object h.objects.size k')
  rw [hsame]
  exact .object _ (hk.mono hgrows.within)

private theorem bound {f f' : Function} {v v' : Value} (ht : (m.world c).Twin r h)
    (hf : ((m.world c).likeness r).member f f') (hv : Value.Alike ((m.world c).likeness r) v v') :
    Lockstep r (Run.bound f v) (Run.bound f' v') c m h fun W => Value.Alike (W.likeness r) := by
  refine (freshId ht).bind fun i i' c₁ m₁ h₁ hgrows ht₁ hid => ?_
  cases hid
  exact .give ht₁ (.method i (hgrows.within.member hf) (hv.mono hgrows.within))

theorem write (st : Settings) (line : Text) (ht : (m.world c).Twin r h) :
    Lockstep r (Run.write st line) (Run.write st line) c m h
      fun W fault fault' => W = m.world c ∧ fault' = fault := by
  unfold Lockstep Run.write
  cases st.outputFault with
  | none =>
    exact show Outcome.Alike r _ _
      (.done _ { m with output := (line ++ [Byte.lineFeed]) :: m.output }) _
      from .done (.refl _) ht ⟨rfl, rfl⟩
  | some reason => exact .done (.refl _) ht ⟨rfl, rfl⟩

theorem checkCanceled (span : Span) (ht : (m.world c).Twin r h) :
    Lockstep r (Run.checkCanceled span) (Run.checkCanceled span) c m h fun _ _ _ => True := by
  by_cases hc : m.canceled = true
  · rw [Lockstep, Run.checkCanceled, Run.checkCanceled, if_pos hc,
      if_pos (show (m.withHeap h).canceled = true from hc)]
    exact .failed _ (.refl _) ht
  · rw [Lockstep, Run.checkCanceled, Run.checkCanceled, if_neg hc,
      if_neg (show ¬ (m.withHeap h).canceled = true from hc)]
    exact .done (.refl _) ht trivial

theorem cancel {x : Run α} {y : Run β} (hxy : Lockstep r x y c { m with canceled := true } h Q) :
    Lockstep r (fun m => x { m with canceled := true }) (fun m => y { m with canceled := true })
      c m h Q :=
  hxy

theorem world_eq {g : Machine → Machine}
    (hg : ∀ m h, g (m.withHeap h) = (g m).withHeap h) (m : Machine)
    (c : List Bool) : (g m).world c = m.world c := by
  have hheap : (g (m.withHeap m.heap)).heap = m.heap := by
    rw [hg]
    rfl
  exact congrArg (World.mk c) hheap

theorem around (enter leave : Machine → Machine) (onFailure : Failure → Failure)
    (henter : ∀ m h, enter (m.withHeap h) = (enter m).withHeap h)
    (hleave : ∀ m h, leave (m.withHeap h) = (leave m).withHeap h)
    {x : Run α} {y : Run β} {o : Outcome α} {o' : Outcome β}
    (hxy : Lockstep r x y c (enter m) h Q)
    (ho : o = match x (enter m) with
      | .done a m => .done a (leave m)
      | .failed f m => .failed (onFailure f) (leave m)
      | .exhausted m => .exhausted m)
    (ho' : o' = match y (enter (m.withHeap h)) with
      | .done a m => .done a (leave m)
      | .failed f m => .failed (onFailure f) (leave m)
      | .exhausted m => .exhausted m) : Outcome.Alike r (m.world c) Q o o' := by
  unfold Lockstep at hxy
  rw [world_eq henter] at hxy
  rw [henter] at ho'
  generalize x (enter m) = p, y ((enter m).withHeap h) = p' at hxy ho ho'
  have hworld := fun m c => (world_eq hleave m c).symm
  cases hxy with
  | @done a b m₁ h₁ c₁ hgrows ht hQ =>
    rw [ho, ho']
    dsimp only
    rw [hleave]
    rw [hworld m₁] at hgrows ht hQ
    exact .done hgrows ht hQ
  | @failed f m₁ h₁ c₁ hgrows ht =>
    rw [ho, ho']
    dsimp only
    rw [hleave]
    rw [hworld m₁] at hgrows ht
    exact .failed _ hgrows ht
  | exhausted hgrows ht =>
    rw [ho, ho']
    exact .exhausted hgrows ht

theorem emit_withHeap (st : Settings) (kind : EventKind) (span : Span) (name : Text) (m : Machine)
    (h : Heap) : (Run.emit st kind span name (m.withHeap h)).machine =
      (Run.emit st kind span name m).machine.withHeap h := by
  unfold Run.emit
  cases st.traced <;> rfl

theorem counted {st : Settings} {callee callee' : Value} (span : Span) {x y : Run Value}
    {Q : World → Value → Value → Prop} (hcallee : callee.print = callee'.print)
    (hxy : ∀ c₁ m₁ h₁, (m.world c).Grows (m₁.world c₁) → (m₁.world c₁).Twin r h₁ →
      Lockstep r x y c₁ m₁ h₁ Q) (ht : (m.world c).Twin r h) :
    Lockstep r (Eval.counted st callee span x) (Eval.counted st callee' span y) c m h Q := by
  refine (checkCanceled span ht).bind fun _ _ c₁ m₁ h₁ hgrows ht₁ _ => ?_
  unfold Lockstep
  rw [hcallee]
  dsimp only
  by_cases hlimit : st.limit ≤ m₁.depth
  · rw [if_pos hlimit, if_pos (show st.limit ≤ (m₁.withHeap h₁).depth from hlimit)]
    exact .failed _ (.refl _) ht₁
  · rw [if_neg hlimit, if_neg (show ¬ st.limit ≤ (m₁.withHeap h₁).depth from hlimit)]
    generalize (if st.traced then callee'.print else []) = name
    let enter := fun m => (Run.emit st .callStart span name (Machine.enter m)).machine
    let leave := fun m => (Run.emit st .callEnd span name m).machine.leave
    have henter : ∀ m h, enter (m.withHeap h) = (enter m).withHeap h :=
      fun m h => emit_withHeap st _ span name m.enter h
    have hleave : ∀ m h, leave (m.withHeap h) = (leave m).withHeap h :=
      fun m h => congrArg Machine.leave (emit_withHeap st _ span name m h)
    have hbody := hxy c₁ (enter m₁) h₁
    rw [world_eq henter] at hbody
    refine around enter leave (Failure.attach span) henter hleave (hbody hgrows ht₁) ?_ ?_
    · cases x (Run.emit st .callStart span name m₁.enter).machine <;> rfl
    · cases y (Run.emit st .callStart span name (m₁.withHeap h₁).enter).machine <;> rfl

end Lockstep
inductive Signal.Alike (L : Likeness) : Signal → Signal → Prop
  | normal : Signal.Alike L .normal .normal
  | leaveLoop : Signal.Alike L .leaveLoop .leaveLoop
  | leaveFunction {v v' : Value} :
      Value.Alike L v v' → Signal.Alike L (.leaveFunction v) (.leaveFunction v')

namespace Eval

variable {r : Renaming} {c : List Bool} {m : Machine} {h : Heap} {env : FrameId} {ls : Layers}
  {marks : List Bool} {v v' w w' : Value}

theorem lockstep_unary (span : Span) (op : UnaryOp) (ht : (m.world c).Twin r h)
    (hv : Value.Alike ((m.world c).likeness r) v v') :
    Lockstep r (unary span op v) (unary span op v') c m h fun W => Value.Alike (W.likeness r) := by
  cases op with
  | negate =>
    cases hv with
    | number x => exact .give ht (.number _)
    | _ => exact .error _ _ ht
  | not =>
    unfold unary
    dsimp only
    rw [hv.truthy]
    exact .give ht (.bool _)
  | other t => exact .broken _ _ ht

private theorem lockstep_add (span : Span) (ht : (m.world c).Twin r h)
    (hv : Value.Alike ((m.world c).likeness r) v v')
    (hw : Value.Alike ((m.world c).likeness r) w w') :
    Lockstep r (add span v w) (add span v' w') c m h fun W => Value.Alike (W.likeness r) := by
  cases hv with
  | number x =>
    cases hw with
    | number y => exact .give ht (.number _)
    | string t => exact .give ht (.string _)
    | _ => exact .error _ _ ht
  | string t =>
    cases hw with
    | number y => exact .give ht (.string _)
    | string u => exact .give ht (.string _)
    | _ => exact .error _ _ ht
  | _ => exact .error _ _ ht

private theorem lockstep_arithmetic (span : Span) (op : BinaryOp) (x y : Float)
    (ht : (m.world c).Twin r h) :
    Lockstep r (arithmetic span op x y) (arithmetic span op x y) c m h
      fun W => Value.Alike (W.likeness r) := by
  cases op with
  | div =>
    unfold arithmetic
    dsimp only
    split
    · exact .error _ _ ht
    · exact .give ht (.number _)
  | sub | mul => exact .give ht (.number _)
  | greater | greaterEqual | less | lessEqual => exact .give ht (.bool _)
  | _ => exact .broken _ _ ht

theorem lockstep_binary (span : Span) (op : BinaryOp) (ht : (m.world c).Twin r h)
    (hv : Value.Alike ((m.world c).likeness r) v v')
    (hw : Value.Alike ((m.world c).likeness r) w w') :
    Lockstep r (binary span op v w) (binary span op v' w') c m h fun W =>
      Value.Alike (W.likeness r) := by
  have hnumbers := fun x y => lockstep_arithmetic span op x y ht
  cases op with
  | equal =>
    unfold binary
    dsimp only
    rw [hv.equal hw]
    exact .give ht (.bool _)
  | notEqual =>
    unfold binary
    dsimp only
    rw [hv.equal hw]
    exact .give ht (.bool _)
  | add => exact lockstep_add span ht hv hw
  | _ =>
    cases hv with
    | number x =>
      cases hw with
      | number y => exact hnumbers x y
      | _ => exact .error _ _ ht
    | _ => exact .error _ _ ht

theorem decides_eq (hv : Value.Alike ((m.world c).likeness r) v v') (op : LogicalOp) :
    decides op v = decides op v' := by
  unfold decides
  rw [hv.truthy]

/-- An occurrence that its hops lead to has a value in both runs; a global has one in both or in
neither. -/
theorem lockstep_readName {name : Text} {hops : Option Int} (span : Span)
    (ht : (m.world c).Twin r h)
    (hat : (m.world c).At env ls marks) (hreaches : Reaches ls hops name)
    (hname : r.Allows marks name) :
    Lockstep r (readName name span hops env)
      (readName (r.apply (Renaming.reaches marks hops) name) span hops env) c m h
      fun W => Value.Alike (W.likeness r) := by
  unfold readName
  cases hops with
  | none =>
    have hvalues := (ht.bindings ht.unmarked).values name nofun
    rw [r.apply_false] at hvalues
    rw [show r.apply (Renaming.reaches marks none) name = name from r.apply_false name]
    exact .lookRel hvalues (.error _ _ ht) fun v v' hv => .give ht hv
  | some d =>
    obtain ⟨n, rfl, hbinds⟩ := hreaches d rfl
    obtain ⟨v, v', hv, hv', halike⟩ := ht.getAt hat hbinds hname
    refine .look ?_
    rw [hv, hv']
    exact .give ht halike

theorem lockstep_assignName {target : NameUse} (ht : (m.world c).Twin r h)
    (hv : Value.Alike ((m.world c).likeness r) v v') (hat : (m.world c).At env ls marks)
    (hreaches : Reaches ls target.hops target.name) (hsuper : target.name ≠ lit "super")
    (hname : r.Allows marks target.name) :
    Lockstep r (assignName target v env) (assignName (r.use marks target) v' env) c m h
      fun _ _ _ => True := by
  obtain ⟨span, name, hops⟩ := target
  have hdefine : ∀ {a : FrameId} {b : Bool}, (m.world c).instances[a]? = some b →
      (b = true → name ≠ r.new) →
      Lockstep r (Run.change (·.define a name v))
        (Run.change (·.define a (r.apply b name) v')) c m h
        fun _ _ _ => True := by
    intro a b hb hallowed
    have hgrows := World.Twin.defines (m.world c) a hsuper v
    exact (Lockstep.define ht hb hsuper hallowed (hv.mono hgrows.within)).imp
      fun _ _ _ _ _ => trivial
  unfold assignName Renaming.use
  cases hops with
  | none =>
    have hvalues := (ht.bindings ht.unmarked).values name nofun
    have hglobal := hdefine ht.unmarked nofun
    rw [r.apply_false] at hvalues hglobal
    dsimp only
    rw [show r.apply (Renaming.reaches marks none) name = name from r.apply_false name]
    have hholder : ∀ h : Heap, h.holderAt? Heap.globals 0 name =
        if ((h.bindings Heap.globals).lookup name).isSome = true then some Heap.globals else none :=
      fun _ => rfl
    refine .look ?_
    rw [hholder, hholder]
    generalize (m.heap.bindings Heap.globals).lookup name = w,
      (h.bindings Heap.globals).lookup name = w' at hvalues ⊢
    cases hvalues with
    | none => exact .error _ _ ht
    | some _ => exact hglobal
  | some d =>
    obtain ⟨n, rfl, hbinds⟩ := hreaches d rfl
    obtain ⟨a, b, w, w', ha, hb, hmark, hallowed, hw, hw', -⟩ := ht.reach hat hbinds hname
    have hholder : m.heap.holderAt? env n name = some a := by
      simp only [Heap.holderAt?, Int.toNat_natCast, ha, hw, Option.isSome_some, if_true]
    have hholder' : h.holderAt? env n (r.apply b name) = some a := by
      simp only [Heap.holderAt?, Int.toNat_natCast, ht.ancestor, ha, hw',
        Option.isSome_some, if_true]
    dsimp only
    rw [hmark]
    refine .look ?_
    rw [hholder, hholder']
    exact hdefine hb hallowed

theorem lockstep_property (name : Text) (span : Span) (ht : (m.world c).Twin r h)
    (hv : Value.Alike ((m.world c).likeness r) v v') :
    Lockstep r (property v name span) (property v' name span) c m h
      fun W => Value.Alike (W.likeness r) := by
  cases hv with
  | @object i k k' hk =>
    have hfield := ht.field i name
    have hmethod := hk.findMethod name
    refine Lockstep.lookRel hfield ?_ fun w w' hw => .give ht hw
    dsimp only
    generalize k.findMethod name = f, k'.findMethod name = f' at hmethod ⊢
    cases hmethod with
    | none => exact .error _ _ ht
    | some hf => exact .bound ht hf (.object i hk)
  | @cls k k' hk =>
    have hmethod := hk.findStatic name
    unfold property
    dsimp only
    generalize k.findStatic name = f, k'.findStatic name = f' at hmethod ⊢
    cases hmethod with
    | none => exact .error _ _ ht
    | some hf => exact .bound ht hf (.cls hk)
  | _ => exact .error _ _ ht

private theorem getAt_keyword (ht : (m.world c).Twin r h)
    (hat : (m.world c).At env ls marks) {d : Nat} (k : Keyword) (hbinds : Binds ls d k.spelling) :
    ∃ v v', m.heap.getAt? env d k.spelling = some v ∧ h.getAt? env d k.spelling = some v' ∧
      Value.Alike ((m.world c).likeness r) v v' := by
  obtain ⟨v, v', hv, hv', halike⟩ := ht.getAt hat hbinds (r.allows_keyword marks k)
  rw [r.apply_keyword] at hv'
  exact ⟨v, v', hv, hv', halike⟩

theorem lockstep_superMethod {span : Span} {name : Text} {hops : Option Int}
    (ht : (m.world c).Twin r h) (hat : (m.world c).At env ls marks)
    (hscoped : (Expr.super span name hops).Scoped ls) :
    Lockstep r (superMethod span name hops env) (superMethod span name hops env) c m h
      fun W => Value.Alike (W.likeness r) := by
  obtain ⟨d, rfl, hsuper, hthis⟩ := hscoped
  have houter : (d : Int) + 1 = (d + 1 : Nat) := by omega
  have hinner : (d : Int) + 1 - 1 = (d : Nat) := by omega
  obtain ⟨w, w', hw, hw', hreceiver⟩ := getAt_keyword ht hat .this_ hthis
  obtain ⟨v, v', hv, hv', hclass⟩ := getAt_keyword ht hat .super_ hsuper
  have hbound : ∃ k, v = .cls k := by
    obtain ⟨l, hl, hln⟩ := hsuper
    obtain ⟨a, ha, hheld⟩ := hat.fits.ancestor hl
    obtain ⟨k, hk⟩ := hheld.2 hln
    rw [Heap.getAt?, Int.toNat_natCast, ha] at hv
    exact ⟨k, Option.some.inj (hv.symm.trans hk)⟩
  obtain ⟨k, rfl⟩ := hbound
  cases hclass with
  | @cls _ k' hk =>
    unfold superMethod
    dsimp only
    rw [hinner, houter]
    refine .look ?_
    rw [show m.heap.getAt? env (d + 1 : Nat) (lit "super") = some (.cls k) from hv,
      show h.getAt? env (d + 1 : Nat) (lit "super") = some (.cls k') from hv']
    refine .look ?_
    rw [show m.heap.getAt? env (d : Nat) (lit "this") = some w from hw,
      show h.getAt? env (d : Nat) (lit "this") = some w' from hw']
    dsimp only
    rw [hreceiver.isClass]
    have hmethod : Option.Rel ((m.world c).likeness r).member
        (if w'.isClass then k.findStatic name else k.findMethod name)
        (if w'.isClass then k'.findStatic name else k'.findMethod name) := by
      split
      · exact hk.findStatic name
      · exact hk.findMethod name
    generalize (if w'.isClass then k.findStatic name else k.findMethod name) = f,
      (if w'.isClass then k'.findStatic name else k'.findMethod name) = f' at hmethod ⊢
    cases hmethod with
    | none => exact .error _ _ ht
    | some hf => exact .bound ht hf hreceiver

/-! ### Functions and classes -/

theorem lockstep_newFunction {name : Text} {ps ps' : List Param}
    {body body' : List Stmt} {isInit : Bool}
    (hcount : ps.length = ps'.length) (ht : (m.world c).Twin r h) :
    Lockstep r (newFunction name ps body env isInit) (newFunction name ps' body' env isInit) c m h
      fun _ f f' => f.SameOutline f' ∧ f.closure = env ∧ f.isInit = isInit ∧
        (f.params = ps ∧ f'.params = ps') ∧ f.body = body ∧ f'.body = body' := by
  refine (Lockstep.freshId ht).bind fun i i' c₁ m₁ h₁ _ ht₁ hid => ?_
  cases hid
  exact .give ht₁ ⟨⟨rfl, rfl, hcount, rfl, rfl⟩, rfl, rfl, ⟨rfl, rfl⟩, rfl, rfl⟩

theorem lockstep_newFunction_renamed {name : Text} {ps : List Param} {body body' : List Stmt}
    {isInit : Bool} (own : Layers) {here : Bool} (ht : (m.world c).Twin r h)
    (hat : (m.world c).At env ls marks) (hparams : ∀ p ∈ ps, p.name ≠ lit "super")
    (hbody : Stmt.ScopedAll (.ofParams ps :: (own ++ ls)) .inFunction body)
    (hallows : ∀ p ∈ ps, r.Allows (here :: (own.map (fun _ => false) ++ marks)) p.name)
    (hrenamed : Stmt.RenamedAll r (here :: (own.map (fun _ => false) ++ marks)) body body') :
    Lockstep r (newFunction name ps body env isInit)
      (newFunction name (ps.map (r.param here)) body' env isInit) c m h
      fun W f f' => f.isInit = isInit ∧ f.Renamed r W own f' := by
  refine (lockstep_newFunction (List.length_map ..).symm ht).imp fun W f f' hgrows hf => ?_
  obtain ⟨houtline, rfl, hinit, ⟨rfl, hps'⟩, rfl, rfl⟩ := hf
  exact ⟨hinit, houtline, ls, marks, here, hat.mono hgrows, hparams, hbody, hallows, hps', hrenamed⟩

private theorem lockstep_methodTable {ofInstances : Bool} {table table' : List (Text × Function)}
    {ds ds' : List FunDecl} (ht : (m.world c).Twin r h) (hat : (m.world c).At env ls marks)
    (htable : ((m.world c).likeness r).Tables table table')
    (hscoped : FunDecl.ScopedAll (receiverLayers ++ ls) ds)
    (hrenamed : FunDecl.RenamedAll r (false :: marks) ds ds') :
    Lockstep r (methodTable env ofInstances table ds) (methodTable env ofInstances table' ds') c m h
      fun W => (W.likeness r).Tables := by
  induction ds generalizing ds' table table' c m h with
  | nil =>
    cases hrenamed
    exact .give ht htable
  | cons d ds ih =>
    obtain ⟨span, name, ps, body⟩ := d
    obtain ⟨⟨hparams, hbody⟩, hrest⟩ := hscoped
    cases hrenamed with
    | cons hd hds =>
      cases hd with
      | mk here hallows hbody' =>
        refine (lockstep_newFunction_renamed receiverLayers ht hat hparams
          hbody hallows hbody').bind
          fun f f' c₁ m₁ h₁ hgrows ht₁ hf => ?_
        exact ih ht₁ (hat.mono hgrows) (.cons ⟨rfl, hf.2⟩ (htable.mono hgrows.within)) hrest hds

theorem lockstep_newClass {name : Text} {sup sup' : Option Class} {ms ms' ss ss' : List FunDecl}
    {closure : FrameId} {inside : Layers} {marks' : List Bool} (ht : (m.world c).Twin r h)
    (hclosure : (m.world c).At closure inside marks') (hat : (m.world c).At env ls marks)
    (hsuper : name ≠ lit "super") (hname : r.Allows marks name)
    (hsame : r.apply (Renaming.here marks) name = name)
    (hsup : Option.Rel (Class.Alike ((m.world c).likeness r)) sup sup')
    (hms : FunDecl.ScopedAll (receiverLayers ++ inside) ms)
    (hss : FunDecl.ScopedAll (receiverLayers ++ inside) ss)
    (hms' : FunDecl.RenamedAll r (false :: marks') ms ms')
    (hss' : FunDecl.RenamedAll r (false :: marks') ss ss') :
    Lockstep r (newClass name sup ms ss closure env) (newClass name sup' ms' ss' closure env) c m h
      fun W _ _ => W.At env (declare name ls) marks := by
  refine (lockstep_methodTable ht hclosure .nil hms hms').bind
    fun t t' c₁ m₁ h₁ hgrows₁ ht₁ htable => ?_
  refine (lockstep_methodTable ht₁ (hclosure.mono hgrows₁) .nil hss hss').bind
    fun u u' c₂ m₂ h₂ hgrows₂ ht₂ hstatics => ?_
  refine (Lockstep.freshId ht₂).bind fun i i' c₃ m₃ h₃ hgrows₃ ht₃ hid => ?_
  cases hid
  have hgrows₁₃ := hgrows₂.trans hgrows₃
  have hat₃ := hat.mono (hgrows₁.trans hgrows₁₃)
  have htable₃ := htable.mono hgrows₁₃.within
  have hstatics₃ := hstatics.mono hgrows₃.within
  have hclass : Value.Alike ((m₃.world c₃).likeness r) (.cls (.mk i name sup t u))
      (.cls (.mk i name sup' t' u')) := by
    cases hsup with
    | none => exact .cls (.base htable₃ hstatics₃)
    | some hsup =>
      exact .cls (.derived (hsup.mono (hgrows₁.trans hgrows₁₃).within) htable₃ hstatics₃)
  have hdefine := Lockstep.define ht₃ (hat₃.instance ht₃) hsuper
    (fun hhere => hname (Renaming.mem_of_here hhere))
    (hclass.mono (World.Twin.defines _ env hsuper _).within)
  rw [hsame] at hdefine
  refine hdefine.imp fun W _ _ _ hW => ?_
  rw [hW]
  exact hat₃.define hsuper _

/-- A function whose body has run to its end has alike results, also if a signal got out of it. -/
theorem lockstep_result {f f' : Function} {closure : FrameId} {signal signal' : Signal}
    (ht : (m.world c).Twin r h) (hat : (m.world c).At closure ls marks)
    (houtline : f.SameOutline f') (hspan : firstSpan f'.body = firstSpan f.body)
    (hsignal : Signal.Alike ((m.world c).likeness r) signal signal') :
    Lockstep r (result f closure signal) (result f' closure signal') c m h
      fun W => Value.Alike (W.likeness r) := by
  have hreceiver := (ht.bindings (hat.instance ht)).keyword .this_
  unfold result
  cases hsignal with
  | leaveLoop =>
    dsimp only
    rw [houtline.print, hspan]
    exact .fail _ ht
  | normal =>
    dsimp only
    rw [houtline.isInit]
    split
    · exact .lookRel hreceiver (.fail _ ht) fun _ _ hv => .give ht hv
    · exact .give ht .nil
  | leaveFunction hv =>
    dsimp only
    rw [houtline.isInit]
    split
    · exact .lookRel hreceiver (.fail _ ht) fun _ _ hv => .give ht hv
    · exact .give ht hv

theorem parameterBindings_renamed {L : Likeness} {here : Bool} {ps : List Param}
    {args args' : List Value}
    (hps : here = true → ∀ p ∈ ps, p.name ≠ r.new)
    (hargs : List.Forall₂ (Value.Alike L) args args') :
    Bindings.Renamed r L here (parameterBindings ps args)
      (parameterBindings (ps.map (r.param here)) args') := by
  have hfold : ∀ bs bs', Bindings.Renamed r L here bs bs' → Bindings.Renamed r L here
      ((ps.zip args).foldl (fun bs q => Bindings.bind bs q.1.name q.2) bs)
      (((ps.map (r.param here)).zip args').foldl
        (fun bs q => Bindings.bind bs q.1.name q.2) bs') := by
    induction ps generalizing args args' with
    | nil => exact fun _ _ => id
    | cons p ps ih =>
      intro bs bs' hbs
      cases hargs with
      | nil => exact hbs
      | cons hv hargs =>
        exact ih (fun hhere q hq => hps hhere q (.tail _ hq)) hargs _ _
          (hbs.bind (fun hhere => hps hhere p (.head _)) hv)
  exact hfold [] [] .nil

end Eval
end Lox
