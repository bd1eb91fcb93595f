import Lox.Proofs.Run.Blind
import Lox.Proofs.Simulation.Code

set_option autoImplicit false
set_option relaxedAutoImplicit false

namespace Lox

open Text (lit)

structure Function.Matches (L : Latitude) (f g : Function) : Prop where
  id : f.id = g.id
  name : f.name = g.name
  params : f.params = g.params
  closure : f.closure = g.closure
  isInit : f.isInit = g.isInit
  body : Stmt.MatchesAll L f.body g.body

namespace Function.Matches

variable {L : Latitude} {f g : Function}

private theorem refl (L : Latitude) (f : Function) : f.Matches L f :=
  ⟨rfl, rfl, rfl, rfl, rfl, L.stmts_refl _⟩

private theorem symm (h : f.Matches L g) : g.Matches L f :=
  ⟨h.id.symm, h.name.symm, h.params.symm, h.closure.symm, h.isInit.symm, h.body.symm⟩

theorem outline (h : f.Matches L g) : f.SameOutline g :=
  ⟨h.id, h.name, congrArg List.length h.params, h.closure, h.isInit⟩

end Function.Matches

/-- Under a latitude functions are alike if they match, whether they are methods or not. -/
def Latitude.likeness (L : Latitude) : Likeness where
  plain := Function.Matches L
  member := Function.Matches L
  plain_outline := Function.Matches.outline
  member_outline := Function.Matches.outline

namespace Latitude

variable {L : Latitude}

private theorem tables_refl (L : Latitude) (t : List (Text × Function)) : L.likeness.Tables t t :=
  List.forall₂_same.2 fun _ _ => ⟨rfl, .refl L _⟩

private theorem tables_symm {t t' : List (Text × Function)} (h : L.likeness.Tables t t') :
    L.likeness.Tables t' t :=
  h.flip.imp fun _ _ hm => ⟨hm.1.symm, hm.2.symm⟩

private theorem class_refl (L : Latitude) (c : Class) : Class.Alike L.likeness c c :=
  match c with
  | .mk _ _ none ms ss => .base (L.tables_refl ms) (L.tables_refl ss)
  | .mk _ _ (some sup) ms ss => .derived (class_refl L sup) (L.tables_refl ms) (L.tables_refl ss)

private theorem class_symm {c d : Class} (h : Class.Alike L.likeness c d) :
    Class.Alike L.likeness d c := by
  induction h with
  | base hms hss => exact .base (tables_symm hms) (tables_symm hss)
  | derived _ hms hss ih => exact .derived ih (tables_symm hms) (tables_symm hss)

end Latitude

/-- Values that are the same but for code, or for how the lack of a value is represented. -/
inductive Value.Matches (L : Latitude) : Value → Value → Prop
  | nil : Value.Matches L .nil .nil
  | absent : Value.Matches L .absent .absent
  | filled : L.blanks → Value.Matches L .absent .nil
  | emptied : L.blanks → Value.Matches L .nil .absent
  | bool (b : Bool) : Value.Matches L (.bool b) (.bool b)
  | number (x : Float) : Value.Matches L (.number x) (.number x)
  | string (t : Text) : Value.Matches L (.string t) (.string t)
  | function {f g : Function} : f.Matches L g → Value.Matches L (.function f) (.function g)
  | method (i : Nat) {f g : Function} {v w : Value} :
      f.Matches L g → Value.Matches L v w → Value.Matches L (.method i f v) (.method i g w)
  | native (i : Nat) : Value.Matches L (.native i) (.native i)
  | cls {c d : Class} : Class.Alike L.likeness c d → Value.Matches L (.cls c) (.cls d)
  | object (i : Nat) {c d : Class} :
      Class.Alike L.likeness c d → Value.Matches L (.object i c) (.object i d)

namespace Value

/-- What the language tells of a value: its type, its truth and its printed form. -/
def look (v : Value) : Text × Bool × Text := (v.typeName, v.truthy, v.print)

namespace Matches

variable {L : Latitude} {v w v' w' : Value}

theorem refl (L : Latitude) (v : Value) : v.Matches L v := by
  induction v with
  | nil => exact .nil
  | absent => exact .absent
  | bool b => exact .bool b
  | number x => exact .number x
  | string t => exact .string t
  | function f => exact .function (.refl L f)
  | method i f v ih => exact .method i (.refl L f) ih
  | native i => exact .native i
  | cls c => exact .cls (L.class_refl c)
  | object i c => exact .object i (L.class_refl c)

theorem symm (h : v.Matches L w) : w.Matches L v := by
  induction h with
  | nil => exact .nil
  | absent => exact .absent
  | filled hL => exact .emptied hL
  | emptied hL => exact .filled hL
  | bool b => exact .bool b
  | number x => exact .number x
  | string t => exact .string t
  | function hf => exact .function hf.symm
  | method i hf _ ih => exact .method i hf.symm ih
  | native i => exact .native i
  | cls hc => exact .cls (Latitude.class_symm hc)
  | object i hc => exact .object i (Latitude.class_symm hc)

theorem print (h : v.Matches L w) : v.print = w.print := by
  cases h with
  | function hf => exact hf.outline.print
  | method i hf _ => exact hf.outline.print
  | cls hc => exact hc.name
  | object i hc => exact congrArg (· ++ lit " instance") hc.name
  | _ => rfl

private theorem typeName (h : v.Matches L w) : v.typeName = w.typeName := by cases h <;> rfl

theorem truthy (h : v.Matches L w) : v.truthy = w.truthy := by cases h <;> rfl

theorem look (h : v.Matches L w) : v.look = w.look := by
  unfold Value.look
  rw [h.typeName, h.truthy, h.print]

theorem isClass (h : v.Matches L w) : v.isClass = w.isClass := by cases h <;> rfl

theorem equal (h : v.Matches L w) (h' : v'.Matches L w') : v.equal v' = w.equal w' := by
  cases h <;> cases h' <;> try rfl
  · rename_i hf _ _ hg
    exact congrArg₂ (· == ·) hf.id hg.id
  · rename_i hc _ _ hd
    exact congrArg₂ (· == ·) hc.id hd.id

theorem ofLiteral (L : Latitude) (v : Literal) : Value.Matches L (.ofLiteral v) (.ofLiteral v) := by
  cases v with
  | nil => exact .nil
  | bool b => exact .bool b
  | number x => exact .number x
  | string t => exact .string t

end Matches

end Value

private theorem Value.Matches.sameFace {L : Latitude} {v w : Value} (h : v.Matches L w) :
    v.SameFace w where
  print := h.print
  typeName := h.typeName
  scalar := by cases h <;> rfl

def Pairing.matching (L : Latitude) : Pairing Unit where
  value _ := Value.Matches L
  failure := Eq
  later _ _ := True

/-- Native functions that do the same whenever they are called with as many arguments as they take.
-/
structure Native.Matches (L : Latitude) (n n' : Native) : Prop where
  name : n'.name = n.name
  arity : n'.arity = n.arity
  act : n.Paired (.matching L) () n'

namespace Native

variable {L : Latitude}

private theorem Matches.symm {n n' : Native} (h : n.Matches L n') : n'.Matches L n where
  name := h.name.symm
  arity := h.arity.symm
  act args args' hlength hargs := by
    have hargs' : List.Forall₂ (Value.Matches L) args' args := hargs.flip.imp fun _ _ hv => hv.symm
    exact (h.act args' args (hargs'.length_eq.trans (hlength.trans h.arity)) hargs').symm
      Value.Matches.symm Eq.symm

theorem Plain.matches {n : Native} (h : n.Plain) (L : Latitude) : n.Matches L n where
  name := rfl
  arity := rfl
  act := h.paired (fun _ _ => Value.Matches.sameFace) (fun _ v _ => .refl L v) fun _ => rfl

end Native

/-- Settings that are the same but for native functions, which match. -/
structure Settings.Matches (L : Latitude) (st st' : Settings) : Prop where
  limit : st'.limit = st.limit
  natives : ∀ i : Nat, Option.Rel (Native.Matches L) st.natives[i]? st'.natives[i]?
  traced : st'.traced = st.traced
  outputFault : st'.outputFault = st.outputFault
  time : st'.time = st.time

theorem rel_refl {α : Type} {r : α → α → Prop} {a : Option α} (hr : ∀ b ∈ a, r b b) :
    Option.Rel r a a := by
  cases a with
  | none => exact .none
  | some b => exact .some (hr b rfl)

theorem rel_symm {α : Type} {r : α → α → Prop} (hr : ∀ a b, r a b → r b a) {a b : Option α}
    (h : Option.Rel r a b) : Option.Rel r b a := by
  cases h with
  | none => exact .none
  | some h => exact .some (hr _ _ h)

theorem Settings.Matches.refl {L : Latitude} {st : Settings} (h : ∀ n ∈ st.natives, n.Matches L n) :
    st.Matches L st :=
  ⟨rfl, fun _ => rel_refl fun _ hn => h _ (Array.mem_of_getElem? hn), rfl, rfl, rfl⟩

theorem Settings.Matches.symm {L : Latitude} {st st' : Settings} (h : st.Matches L st') :
    st'.Matches L st :=
  ⟨h.limit.symm, fun i => rel_symm (fun _ _ hn => hn.symm) (h.natives i), h.traced.symm,
    h.outputFault.symm, h.time.symm⟩

theorem Value.Matches.arity? {L : Latitude} {st st' : Settings}
    (hst : st.Matches L st') {v w : Value}
    (h : v.Matches L w) : Eval.arity? st' w = Eval.arity? st v := by
  cases h with
  | function hf => exact congrArg some hf.outline.arity.symm
  | method i hf _ => exact congrArg some hf.outline.arity.symm
  | cls hc => exact congrArg some hc.arity.symm
  | native i =>
    have hn := hst.natives i
    show (st'.natives[i]?).map Native.arity = (st.natives[i]?).map Native.arity
    generalize st.natives[i]? = n, st'.natives[i]? = n' at hn
    cases hn with
    | none => rfl
    | some hn => exact congrArg some hn.arity
  | _ => rfl

end Lox
