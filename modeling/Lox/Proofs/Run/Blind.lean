import Lox.Proofs.Natives.Conduct
import Lox.Run.Eval

set_option autoImplicit false
set_option relaxedAutoImplicit false

namespace Lox

open Text (lit)

/-- Two functions are the same but for the names of their parameters and their bodies. -/
structure Function.SameOutline (f g : Function) : Prop where
  id : f.id = g.id
  name : f.name = g.name
  arity : f.arity = g.arity
  closure : f.closure = g.closure
  isInit : f.isInit = g.isInit

theorem Function.SameOutline.print {f g : Function} (h : f.SameOutline g) : f.print = g.print := by
  unfold Function.print
  rw [h.name]

/-- What makes functions alike, and what makes methods of classes alike. -/
structure Likeness where
  plain : Function → Function → Prop
  member : Function → Function → Prop
  plain_outline : ∀ {f g : Function}, plain f g → f.SameOutline g
  member_outline : ∀ {f g : Function}, member f g → f.SameOutline g

structure Likeness.Within (L L' : Likeness) : Prop where
  plain : ∀ {f g : Function}, L.plain f g → L'.plain f g
  member : ∀ {f g : Function}, L.member f g → L'.member f g

def Likeness.Tables (L : Likeness) : List (Text × Function) → List (Text × Function) → Prop :=
  List.Forall₂ fun m m' => m.1 = m'.1 ∧ L.member m.2 m'.2

inductive Class.Alike (L : Likeness) : Class → Class → Prop
  | base {i : Nat} {n : Text} {ms ms' ss ss' : List (Text × Function)} :
      L.Tables ms ms' → L.Tables ss ss' → Class.Alike L (.mk i n none ms ss) (.mk i n none ms' ss')
  | derived {i : Nat} {n : Text} {sup sup' : Class} {ms ms' ss ss' : List (Text × Function)} :
      Class.Alike L sup sup' → L.Tables ms ms' → L.Tables ss ss' →
      Class.Alike L (.mk i n (some sup) ms ss) (.mk i n (some sup') ms' ss')

/-- Values that are the same but for functions and classes, which are alike. -/
inductive Value.Alike (L : Likeness) : Value → Value → Prop
  | nil : Value.Alike L .nil .nil
  | absent : Value.Alike L .absent .absent
  | bool (b : Bool) : Value.Alike L (.bool b) (.bool b)
  | number (x : Float) : Value.Alike L (.number x) (.number x)
  | string (t : Text) : Value.Alike L (.string t) (.string t)
  | function {f g : Function} : L.plain f g → Value.Alike L (.function f) (.function g)
  | method (i : Nat) {f g : Function} {v w : Value} :
      L.member f g → Value.Alike L v w → Value.Alike L (.method i f v) (.method i g w)
  | native (i : Nat) : Value.Alike L (.native i) (.native i)
  | cls {c d : Class} : Class.Alike L c d → Value.Alike L (.cls c) (.cls d)
  | object (i : Nat) {c d : Class} : Class.Alike L c d → Value.Alike L (.object i c) (.object i d)

namespace Likeness

variable {L L' : Likeness}

theorem Tables.mono (hL : L.Within L') {t t' : List (Text × Function)} (h : L.Tables t t') :
    L'.Tables t t' :=
  h.imp fun _ _ hm => ⟨hm.1, hL.member hm.2⟩

private theorem Tables.lookup {t t' : List (Text × Function)} (h : L.Tables t t') (name : Text) :
    Option.Rel L.member (t.lookup name) (t'.lookup name) := by
  induction h with
  | nil => exact .none
  | @cons m m' t t' hm ht ih =>
    obtain ⟨n, f⟩ := m
    obtain ⟨n', f'⟩ := m'
    obtain ⟨rfl, hf⟩ := hm
    rw [List.lookup_cons, List.lookup_cons]
    cases name == n with
    | true => exact .some hf
    | false => exact ih

private theorem member_or {f f' g g' : Option Function} (hf : Option.Rel L.member f f')
    (hg : Option.Rel L.member g g') : Option.Rel L.member (f.or g) (f'.or g') := by
  cases hf with
  | none => exact hg
  | some h => exact .some h

end Likeness

namespace Class.Alike

variable {L L' : Likeness} {c d : Class}

theorem mono (hL : L.Within L') (h : Class.Alike L c d) : Class.Alike L' c d := by
  induction h with
  | base hms hss => exact .base (hms.mono hL) (hss.mono hL)
  | derived _ hms hss ih => exact .derived ih (hms.mono hL) (hss.mono hL)

theorem id (h : Class.Alike L c d) : c.id = d.id := by cases h <;> rfl

theorem name (h : Class.Alike L c d) : c.name = d.name := by cases h <;> rfl

theorem findMethod (h : Class.Alike L c d) (n : Text) :
    Option.Rel L.member (c.findMethod n) (d.findMethod n) := by
  induction h with
  | base hms _ => exact hms.lookup n
  | derived _ hms _ ih => exact Likeness.member_or (hms.lookup n) ih

theorem findStatic (h : Class.Alike L c d) (n : Text) :
    Option.Rel L.member (c.findStatic n) (d.findStatic n) := by
  induction h with
  | base _ hss => exact hss.lookup n
  | derived _ _ hss ih => exact Likeness.member_or (hss.lookup n) ih

theorem arity (h : Class.Alike L c d) : c.arity = d.arity := by
  have hinit : Option.Rel L.member c.initializer d.initializer := h.findMethod (lit "init")
  unfold Class.arity
  generalize c.initializer = f, d.initializer = g at hinit
  cases hinit with
  | none => rfl
  | some hf => exact (L.member_outline hf).arity

end Class.Alike

namespace Value.Alike

variable {L L' : Likeness} {v w v' w' : Value}

theorem mono (hL : L.Within L') (h : Value.Alike L v w) : Value.Alike L' v w := by
  induction h with
  | nil => exact .nil
  | absent => exact .absent
  | bool b => exact .bool b
  | number x => exact .number x
  | string t => exact .string t
  | function hf => exact .function (hL.plain hf)
  | method i hf _ ih => exact .method i (hL.member hf) ih
  | native i => exact .native i
  | cls hc => exact .cls (hc.mono hL)
  | object i hc => exact .object i (hc.mono hL)

theorem rel_mono (hL : L.Within L') {a b : Option Value} (h : Option.Rel (Value.Alike L) a b) :
    Option.Rel (Value.Alike L') a b := by
  cases h with
  | none => exact .none
  | some h => exact .some (h.mono hL)

theorem print (h : Value.Alike L v w) : v.print = w.print := by
  cases h with
  | function hf => exact (L.plain_outline hf).print
  | method i hf _ => exact (L.member_outline hf).print
  | cls hc => exact hc.name
  | object i hc => exact congrArg (· ++ lit " instance") hc.name
  | _ => rfl

theorem typeName (h : Value.Alike L v w) : v.typeName = w.typeName := by cases h <;> rfl

theorem truthy (h : Value.Alike L v w) : v.truthy = w.truthy := by cases h <;> rfl

theorem isClass (h : Value.Alike L v w) : v.isClass = w.isClass := by cases h <;> rfl

theorem equal (h : Value.Alike L v w) (h' : Value.Alike L v' w') : v.equal v' = w.equal w' := by
  cases h <;> cases h' <;> try rfl
  · rename_i hf _ _ hg
    exact congrArg₂ (· == ·) (L.plain_outline hf).id (L.plain_outline hg).id
  · rename_i hc _ _ hd
    exact congrArg₂ (· == ·) hc.id hd.id

theorem arity? (h : Value.Alike L v w) (st : Settings) : Eval.arity? st v = Eval.arity? st w := by
  cases h with
  | function hf => exact congrArg some (L.plain_outline hf).arity
  | method i hf _ => exact congrArg some (L.member_outline hf).arity
  | cls hc => exact congrArg some hc.arity
  | _ => rfl

theorem ofLiteral (L : Likeness) (v : Literal) : Value.Alike L (.ofLiteral v) (.ofLiteral v) := by
  cases v with
  | nil => exact .nil
  | bool b => exact .bool b
  | number x => exact .number x
  | string t => exact .string t

end Value.Alike

theorem Value.Alike.sameFace {L : Likeness} {v w : Value} (h : Value.Alike L v w) :
    v.SameFace w where
  print := h.print
  typeName := h.typeName
  scalar := by cases h <;> rfl

theorem Value.Alike.plain (L : Likeness) {v : Value} (h : v.IsPlain) : Value.Alike L v v := by
  cases h with
  | nil => exact .nil
  | absent => exact .absent
  | bool b => exact .bool b
  | number x => exact .number x
  | string t => exact .string t

/-- Alike values go together. A call may make more functions alike, and afterwards two values may be
so that have come into being meanwhile. -/
def Pairing.alike : Pairing Likeness where
  value := Value.Alike
  failure := Eq
  later := Likeness.Within

/-- A native function is blind whenever it is called with as many arguments as it takes. -/
def Native.Blind (n : Native) : Prop := ∀ L : Likeness, n.Paired .alike L n

theorem Native.Plain.blind {n : Native} (h : n.Plain) : n.Blind :=
  fun _ => h.paired (fun _ _ => Value.Alike.sameFace) (fun L _ => Value.Alike.plain L) fun _ => rfl

end Lox
