import Lox.Proofs.Grammar.Worded
import Lox.Syntax.Sexpr

set_option autoImplicit false
set_option relaxedAutoImplicit false

namespace Lox

open Text (lit)
open Token (isBlank IsLexeme)

namespace Sexpr

/-! ### Words -/

def depthAfter (b : UInt8) (depth : Nat) : Nat :=
  if b = 40 then depth + 1 else if b = 41 then depth - 1 else depth

/-- The words of a text, where some parentheses and maybe a string have been opened before it. -/
def words : Nat → Bool → Text → List Text
  | _, _, [] => [[]]
  | depth, inString, b :: r =>
    if isBlank b && !inString && depth == 0 then [] :: words 0 false r
    else if b = Byte.quote then (words depth (!inString) r).modifyHead (b :: ·)
    else if inString then (words depth true r).modifyHead (b :: ·)
    else (words (depthAfter b depth) false r).modifyHead (b :: ·)

def Solid (t : Text) : Prop :=
  ∀ depth rest, words depth false (t ++ rest) = (words depth false rest).modifyHead (t ++ ·)

def Enclosed (t : Text) : Prop :=
  ∀ depth rest, words (depth + 1) false (t ++ rest) =
    (words (depth + 1) false rest).modifyHead (t ++ ·)

/-- A byte that does not cut a text, open a string or count as a parenthesis. -/
def isPlain (b : UInt8) : Bool := !isBlank b && b != Byte.quote && b != 40 && b != 41

private theorem modifyHead_append (t u : Text) (ws : List Text) :
    (ws.modifyHead (u ++ ·)).modifyHead (t ++ ·) = ws.modifyHead (t ++ u ++ ·) := by
  rw [List.modifyHead_modifyHead]
  congr 1
  funext w
  exact (List.append_assoc t u w).symm

private theorem modifyHead_nil (ws : List Text) : ws.modifyHead ([] ++ ·) = ws := by
  cases ws <;> rfl

variable {t u : Text}

theorem Enclosed.append (ht : Enclosed t) (hu : Enclosed u) : Enclosed (t ++ u) := by
  intro depth rest
  rw [List.append_assoc, ht, hu, modifyHead_append]

theorem Enclosed.blank : Enclosed (lit " ") := fun _ _ => rfl

namespace Solid

theorem enclosed (h : Solid t) : Enclosed t := fun depth rest => h (depth + 1) rest

theorem nil : Solid [] := fun _ _ => (modifyHead_nil _).symm

theorem append (ht : Solid t) (hu : Solid u) : Solid (t ++ u) := by
  intro depth rest
  rw [List.append_assoc, ht, hu, modifyHead_append]

private theorem words_cons {b : UInt8} (h : isPlain b = true) (depth : Nat) (r : Text) :
    words depth false (b :: r) = (words depth false r).modifyHead (b :: ·) := by
  simp only [isPlain, Bool.and_eq_true, Bool.not_eq_true', bne_iff_ne] at h
  obtain ⟨⟨⟨hblank, hquote⟩, hopen⟩, hclose⟩ := h
  rw [words, hblank, if_neg (by simp), if_neg hquote, if_neg (by simp), depthAfter, if_neg hopen,
    if_neg hclose]

theorem of_plain (h : t.all isPlain = true) : Solid t := by
  induction t with
  | nil => exact nil
  | cons b t ih =>
    rw [List.all_cons, Bool.and_eq_true] at h
    intro depth rest
    rw [List.cons_append, words_cons h.1, ih h.2]
    exact modifyHead_append [b] t _

private theorem words_body {body : Text} (h : Byte.quote ∉ body) (depth : Nat) (r : Text) :
    words depth true (body ++ r) = (words depth true r).modifyHead (body ++ ·) := by
  induction body with
  | nil => exact (modifyHead_nil _).symm
  | cons b body ih =>
    rw [List.mem_cons, not_or] at h
    rw [List.cons_append, words, if_neg (by simp), if_neg (Ne.symm h.1), if_pos rfl, ih h.2]
    exact modifyHead_append [b] body _

theorem string (h : Byte.quote ∉ t) : Solid (Byte.quote :: t ++ [Byte.quote]) := by
  intro depth rest
  have hopen : words depth false (Byte.quote :: (t ++ Byte.quote :: rest)) =
      (words depth true (t ++ Byte.quote :: rest)).modifyHead ([Byte.quote] ++ ·) := rfl
  have hclose : words depth true (Byte.quote :: rest) =
      (words depth false rest).modifyHead ([Byte.quote] ++ ·) := by
    rw [words, if_neg (by simp), if_pos rfl]
    rfl
  have hsplit : Byte.quote :: t ++ [Byte.quote] ++ rest = Byte.quote ::
      (t ++ Byte.quote :: rest) := by
    simp
  rw [hsplit, hopen, words_body h, hclose, modifyHead_append, modifyHead_append, List.append_assoc]
  rfl

theorem parens (h : Enclosed t) : Solid (lit "(" ++ t ++ lit ")") := by
  intro depth rest
  have hopen : words depth false (lit "(" ++ (t ++ (lit ")" ++ rest))) =
      (words (depth + 1) false (t ++ (lit ")" ++ rest))).modifyHead (lit "(" ++ ·) := rfl
  have hclose : words (depth + 1) false (lit ")" ++ rest) =
      (words depth false rest).modifyHead (lit ")" ++ ·) := rfl
  rw [List.append_assoc, List.append_assoc, hopen, h, hclose, modifyHead_append, modifyHead_append]

end Solid

private theorem words_join {w : Text} {ws : List Text} (hw : Solid w) (hws : ∀ w ∈ ws, Solid w) :
    words 0 false (w ++ ws.flatMap (lit " " ++ ·)) = w :: ws := by
  induction ws generalizing w with
  | nil =>
    rw [List.flatMap_nil, hw]
    simp [words]
  | cons v ws ih =>
    rw [List.forall_mem_cons] at hws
    have hblank : words 0 false (lit " " ++ (v ++ ws.flatMap (lit " " ++ ·))) =
        [] :: words 0 false (v ++ ws.flatMap (lit " " ++ ·)) := rfl
    rw [List.flatMap_cons, List.append_assoc, hw, hblank, ih hws.1 hws.2]
    simp

/-! ### Forms -/

/-- The words between the parentheses of a form, or nothing if a text is no form. -/
def parts? : Text → Option (List Text)
  | 40 :: r => some (words 0 false r.dropLast)
  | _ => none

private theorem enclosed_parts {ws : List Text} (h : ∀ w ∈ ws, Solid w) :
    Enclosed (ws.flatMap (lit " " ++ ·)) := by
  induction ws with
  | nil => exact Solid.nil.enclosed
  | cons w ws ih =>
    rw [List.forall_mem_cons] at h
    rw [List.flatMap_cons]
    exact (Enclosed.blank.append h.1.enclosed).append (ih h.2)

theorem solid_form {head : Text} {ws : List Text} (hhead : Solid head) (hws : ∀ w ∈ ws, Solid w) :
    Solid (form head ws) := by
  rw [form, List.append_assoc (lit "(")]
  exact .parens (hhead.enclosed.append (enclosed_parts hws))

theorem form_head (head w : Text) (ws : List Text) :
    form (head ++ lit " " ++ w) ws = form head (w :: ws) := by
  simp only [form, List.flatMap_cons, List.append_assoc]

theorem parts?_form {head : Text} {ws : List Text} (hhead : Solid head) (hws : ∀ w ∈ ws, Solid w) :
    parts? (form head ws) = some (head :: ws) := by
  have htext : form head ws = 40 :: (head ++ ws.flatMap (lit " " ++ ·) ++ [41]) := by
    rw [form, List.append_assoc (lit "(")]
    rfl
  rw [htext, parts?, List.dropLast_concat, words_join hhead hws]

theorem length_lt_form {w : Text} {ws : List Text} (head : Text) (h : w ∈ ws) :
    w.length < (form head ws).length := by
  obtain ⟨before, after, rfl⟩ := List.append_of_mem h
  have hopen : (lit "(").length = 1 := rfl
  simp only [form, List.flatMap_append, List.flatMap_cons, List.length_append]
  omega

end Sexpr
end Lox
