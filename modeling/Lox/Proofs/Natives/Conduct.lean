import Lox.Run.Native
import Mathlib.Data.List.Forall2

set_option autoImplicit false
set_option relaxedAutoImplicit false

namespace Lox

open Text (lit)

/-! ### One native function -/

/-- What native functions keep to, by what they have had so far: the values that they give and call
with, the failures that they report, and what an answer adds to what they have had. -/
structure Discipline (S : Type) where
  value : S → Value → Prop
  failure : Failure → Prop
  more : Value → S → S

def Action.Obeys {S : Type} (D : Discipline S) : Action → S → Prop
  | .give v, s => D.value s v
  | .fail f, _ => D.failure f
  | .write _ next, s => ∀ fault, (next fault).Obeys D s
  | .clock next, s => ∀ t, (next t).Obeys D s
  | .cancel next, s => next.Obeys D s
  | .invoke callee args next, s =>
    D.value s callee ∧ (∀ v ∈ args, D.value s v) ∧ (next none).Obeys D s ∧
      (∀ v, (next (some (.ok v))).Obeys D (D.more v s)) ∧
      ∀ f, D.failure f → (next (some (.error f))).Obeys D s

theorem Action.Obeys.mono {S : Type} {D : Discipline S} {r : S → S → Prop}
    (hvalue : ∀ {s s'}, r s s' → ∀ v, D.value s v → D.value s' v)
    (hmore : ∀ {s s'}, r s s' → ∀ v, r (D.more v s) (D.more v s')) {a : Action} {s s' : S}
    (h : a.Obeys D s) (hr : r s s') : a.Obeys D s' := by
  induction a generalizing s s' with
  | give v => exact hvalue hr v h
  | fail f => exact h
  | write line next ih => exact fun fault => ih fault (h fault) hr
  | clock next ih => exact fun t => ih t (h t) hr
  | cancel next ih => exact ih h hr
  | invoke callee args next ih =>
    obtain ⟨hcallee, hargs, hnone, hok, herror⟩ := h
    exact ⟨hvalue hr _ hcallee, fun v hv => hvalue hr v (hargs v hv), ih _ hnone hr,
      fun v => ih _ (hok v) (hmore hr v), fun f hf => ih _ (herror f hf) hr⟩

/-! ### Two native functions -/

/-- How native functions are compared: the values and the failures that go together, in a world that
a call may leave for another one. -/
structure Pairing (W : Type) where
  value : W → Value → Value → Prop
  failure : Failure → Failure → Prop
  later : W → W → Prop

/-- Actions that take the same steps with values and failures that go together. -/
inductive Action.Paired {W : Type} (P : Pairing W) : W → Action → Action → Prop
  | give {w : W} {v v' : Value} : P.value w v v' → Action.Paired P w (.give v) (.give v')
  | fail {w : W} {f f' : Failure} : P.failure f f' → Action.Paired P w (.fail f) (.fail f')
  | write {w : W} (line : Text) {next next' : Option Text → Action} :
      (∀ fault, Action.Paired P w (next fault) (next' fault)) →
      Action.Paired P w (.write line next) (.write line next')
  | clock {w : W} {next next' : Float → Action} :
      (∀ t, Action.Paired P w (next t) (next' t)) → Action.Paired P w (.clock next) (.clock next')
  | cancel {w : W} {next next' : Action} :
      Action.Paired P w next next' → Action.Paired P w (.cancel next) (.cancel next')
  | invoke {w : W} {callee callee' : Value} {args args' : List Value}
      {next next' : Option (Except Failure Value) → Action} :
      P.value w callee callee' → List.Forall₂ (P.value w) args args' →
      Action.Paired P w (next none) (next' none) →
      (∀ w', P.later w w' → ∀ v v', P.value w' v v' →
        Action.Paired P w' (next (some (.ok v))) (next' (some (.ok v')))) →
      (∀ w', P.later w w' → ∀ f f', P.failure f f' →
        Action.Paired P w' (next (some (.error f))) (next' (some (.error f')))) →
      Action.Paired P w (.invoke callee args next) (.invoke callee' args' next')

theorem Action.Paired.symm {W : Type} {P : Pairing W}
    (hvalue : ∀ {w v v'}, P.value w v v' → P.value w v' v)
    (hfailure : ∀ {f f'}, P.failure f f' → P.failure f' f) {w : W} {a a' : Action}
    (h : Action.Paired P w a a') : Action.Paired P w a' a := by
  induction h with
  | give hv => exact .give (hvalue hv)
  | fail hf => exact .fail (hfailure hf)
  | write line _ ih => exact .write line ih
  | clock _ ih => exact .clock ih
  | cancel _ ih => exact .cancel ih
  | invoke hcallee hargs _ _ _ ihnone ihok iherror =>
    exact .invoke (hvalue hcallee) (hargs.flip.imp fun _ _ => hvalue) ihnone
      (fun w' hw v v' hv => ihok w' hw v' v (hvalue hv))
      (fun w' hw f f' hf => iherror w' hw f' f (hfailure hf))

def Native.Paired {W : Type} (P : Pairing W) (w : W) (n n' : Native) : Prop :=
  ∀ args args' : List Value, args.length = n.arity → List.Forall₂ (P.value w) args args' →
    Action.Paired P w (n.act args) (n'.act args')

/-! ### Plain native functions -/

inductive Value.IsPlain : Value → Prop
  | nil : IsPlain .nil
  | absent : IsPlain .absent
  | bool (b : Bool) : IsPlain (.bool b)
  | number (x : Float) : IsPlain (.number x)
  | string (t : Text) : IsPlain (.string t)

/-- An action that gives plain data, calls nothing and fails in certain ways only. -/
def Action.Plain (F : Failure → Prop) : Action → Prop
  | .give v => v.IsPlain
  | .fail f => F f
  | .write _ next => ∀ fault, (next fault).Plain F
  | .clock next => ∀ t, (next t).Plain F
  | .cancel next => next.Plain F
  | .invoke .. => False

namespace Action.Plain

variable {F : Failure → Prop} {a : Action}

private theorem mono {F' : Failure → Prop} (hF : ∀ f, F f → F' f) (h : a.Plain F) : a.Plain F' := by
  induction a with
  | give v => exact h
  | fail f => exact hF f h
  | write line next ih => exact fun fault => ih fault (h fault)
  | clock next ih => exact fun t => ih t (h t)
  | cancel next ih => exact ih h
  | invoke callee args next _ => exact h

private theorem obeys {S : Type} {D : Discipline S} (hvalue : ∀ s v, v.IsPlain → D.value s v)
    (h : a.Plain D.failure) (s : S) : a.Obeys D s := by
  induction a with
  | give v => exact hvalue s v h
  | fail f => exact h
  | write line next ih => exact fun fault => ih fault (h fault)
  | clock next ih => exact fun t => ih t (h t)
  | cancel next ih => exact ih h
  | invoke callee args next _ => exact h.elim

private theorem paired {W : Type} {P : Pairing W} (hvalue : ∀ w v, v.IsPlain → P.value w v v)
    (hfailure : ∀ f, F f → P.failure f f) (h : a.Plain F) (w : W) : Action.Paired P w a a := by
  induction a with
  | give v => exact .give (hvalue w v h)
  | fail f => exact .fail (hfailure f h)
  | write line next ih => exact .write line fun fault => ih fault (h fault)
  | clock next ih => exact .clock fun t => ih t (h t)
  | cancel next ih => exact .cancel (ih h)
  | invoke callee args next _ => exact h.elim

end Action.Plain

/-- Whether a failure is a broken agreement between the parts of the interpreter. -/
def Failure.isInternal : Failure → Bool
  | .internal _ _ => true
  | _ => false

def Value.scalar? : Value → Option (Float ⊕ Text)
  | .number x => some (.inl x)
  | .string t => some (.inr t)
  | _ => none

/-- Values that are printed the same, of the same type, and the same number or string if they are
one. -/
structure Value.SameFace (v v' : Value) : Prop where
  print : v.print = v'.print
  typeName : v.typeName = v'.typeName
  scalar : v.scalar? = v'.scalar?

/-- A native function that makes plain data out of what its arguments show, and breaks no agreement.
-/
structure Native.Plain (n : Native) : Prop where
  act : ∀ args, (n.act args).Plain fun f => args.length = n.arity → f.isInternal = false
  face : ∀ args args', args.length = n.arity → List.Forall₂ Value.SameFace args args' →
    n.act args = n.act args'

namespace Native

theorem Plain.obeys {n : Native} (h : n.Plain) {S : Type} {D : Discipline S}
    (hvalue : ∀ s v, v.IsPlain → D.value s v) (hfailure : ∀ f, f.isInternal = false → D.failure f)
    {args : List Value} (hlength : args.length = n.arity) (s : S) : (n.act args).Obeys D s :=
  ((h.act args).mono fun f hf => hfailure f (hf hlength)).obeys hvalue s

theorem Plain.paired {n : Native} (h : n.Plain) {W : Type} {P : Pairing W} {w : W}
    (hface : ∀ v v', P.value w v v' → v.SameFace v') (hvalue : ∀ w v, v.IsPlain → P.value w v v)
    (hfailure : ∀ f, P.failure f f) : n.Paired P w n := by
  intro args args' hlength hargs
  rw [← h.face args args' hlength (hargs.imp hface)]
  exact (h.act args).paired hvalue (fun f _ => hfailure f) w

private theorem plain_unary {name : String} {act : Value → Action}
    (h : ∀ v, (act v).Plain (·.isInternal = false))
    (hface : ∀ v v', v.SameFace v' → act v = act v') :
    (unary name act).Plain where
  act
    | [v] => (h v).mono fun _ hf _ => hf
    | [] => fun hlength => nomatch hlength
    | _ :: _ :: _ => fun hlength => nomatch hlength
  face args args' hlength hargs := by
    obtain ⟨v, rfl⟩ := List.length_eq_one_iff.1 hlength
    cases hargs with
    | cons hv hrest =>
      cases hrest
      exact hface _ _ hv

private theorem plain_clock : clock.Plain := ⟨fun _ t => .number t, fun _ _ _ _ => rfl⟩

theorem plain_out : out.Plain := by
  refine plain_unary (fun v fault => ?_) fun v v' h => by rw [h.print]
  cases fault with
  | none => exact .nil
  | some reason => rfl

theorem plain_str : str.Plain := plain_unary (fun _ => .string _) fun _ _ h => by rw [h.print]

private theorem plain_typeof : typeof.Plain :=
  plain_unary (fun _ => .string _) fun _ _ h => by rw [h.typeName]

private theorem plain_len : len.Plain := by
  refine plain_unary (fun v => ?_) fun v v' h => ?_
  · cases v with
    | string t => exact .number _
    | _ => rfl
  · obtain ⟨-, htype, hscalar⟩ := h
    cases v <;> cases v' <;> simp_all [Value.scalar?]

private theorem plain_num : num.Plain := by
  refine plain_unary (fun v => ?_) fun v v' h => ?_
  · cases v with
    | number x => exact .number x
    | string t =>
      dsimp only
      split
      · exact .number _
      · exact .nil
    | _ => exact .nil
  · have hscalar := h.scalar
    cases v <;> cases v' <;> simp_all [Value.scalar?]

end Native

namespace Registry

theorem forall_register {P : Native → Prop} {r : Registry} {n : Native} (hr : ∀ m ∈ r.natives, P m)
    (hn : P n) : ∀ m ∈ (r.register n).natives, P m := by
  intro m hm
  rcases List.mem_append.1 hm with hm | hm
  · exact hr m (List.mem_filter.1 hm).1
  · rw [List.mem_singleton.1 hm]
    exact hn

theorem plain_standard : ∀ n ∈ standard.natives, n.Plain := by
  have hempty : ∀ n ∈ empty.natives, n.Plain := nofun
  have hwriting := forall_register (forall_register hempty Native.plain_clock) Native.plain_out
  have hshowing := forall_register (forall_register hwriting Native.plain_str) Native.plain_typeof
  exact forall_register (forall_register hshowing Native.plain_len) Native.plain_num

theorem mem_of_mem_select {r : Registry} {allowed : Text → Bool} {n : Native}
    (hn : n ∈ r.select allowed) : n ∈ r.natives :=
  List.mem_mergeSort.1 (List.mem_filter.1 hn).1

end Registry

/-! ### Honest native functions -/

inductive Known (given : List Value) : Value → Prop
  | given {v : Value} : v ∈ given → Known given v
  | nil : Known given .nil
  | absent : Known given .absent
  | bool (b : Bool) : Known given (.bool b)
  | number (x : Float) : Known given (.number x)
  | string (t : Text) : Known given (.string t)
  | native (i : Nat) : Known given (.native i)
  | classOf {i : Nat} {c : Class} : Known given (.object i c) → Known given (.cls c)
  | superclass {i : Nat} {n : Text} {c : Class} {ms ss : List (Text × Function)} :
      Known given (.cls (.mk i n (some c) ms ss)) → Known given (.cls c)
  | receiver {i : Nat} {f : Function} {v : Value} : Known given (.method i f v) → Known given v
  | object {c : Class} (i : Nat) : Known given (.cls c) → Known given (.object i c)
  | method {c : Class} {n : Text} {f : Function} {v : Value} (i : Nat) : Known given (.cls c) →
      c.findMethod n = some f → Known given v → Known given (.method i f v)
  | static {c : Class} {n : Text} {f : Function} {v : Value} (i : Nat) : Known given (.cls c) →
      c.findStatic n = some f → Known given v → Known given (.method i f v)

private theorem Known.plain {given : List Value} {v : Value} (h : v.IsPlain) : Known given v := by
  cases h with
  | nil => exact .nil
  | absent => exact .absent
  | bool b => exact .bool b
  | number x => exact .number x
  | string t => exact .string t

/-- Only values that can be had from the given ones are given and called with. -/
def Discipline.borrowing (F : Failure → Prop) : Discipline (List Value) where
  value := Known
  failure := F
  more := List.cons

/-- An action that was given some values makes up no functions, classes or objects. -/
abbrev Action.Borrows (a : Action) (given : List Value) : Prop :=
  a.Obeys (.borrowing fun _ => True) given

/-- An action that was given some values makes up nothing and breaks no agreement. -/
abbrev Action.Honest (a : Action) (given : List Value) : Prop :=
  a.Obeys (.borrowing fun f => f.isInternal = false) given

/-- A native function that makes up no functions, classes or objects: every value that it gives or
calls is one that it was given, plain data, a native function, or got from such values as a program
gets it. -/
def Native.Borrows (n : Native) : Prop := ∀ args, args.length = n.arity → (n.act args).Borrows args

/-- One that breaks no agreement either. -/
def Native.Honest (n : Native) : Prop := ∀ args, args.length = n.arity → (n.act args).Honest args

private theorem Native.Plain.borrows {n : Native} (h : n.Plain) : n.Borrows :=
  fun args hlength => h.obeys (fun _ _ => Known.plain) (fun _ _ => trivial) hlength args

theorem Native.Plain.honest {n : Native} (h : n.Plain) : n.Honest :=
  fun args hlength => h.obeys (fun _ _ => Known.plain) (fun _ => id) hlength args

theorem Registry.borrows_standard : ∀ n ∈ standard.natives, n.Borrows :=
  fun n hn => (plain_standard n hn).borrows

theorem Registry.honest_standard : ∀ n ∈ standard.natives, n.Honest :=
  fun n hn => (plain_standard n hn).honest

end Lox
