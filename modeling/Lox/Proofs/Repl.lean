import Lox.Repl

set_option autoImplicit false
set_option relaxedAutoImplicit false

namespace Lox.Repl

open Text (lit)

/-! ### Groups of lines -/

/-- Lines with a line feed between neighbours. -/
def joined (ls : List Text) : Text := Text.join [Byte.lineFeed] ls

def Unfinished (t : Text) : Prop :=
  ∃ ds, Program.parse file t = .error ds ∧ Diagnostic.isIncomplete ds = true

/-- Every leading run of lines wants another line: it is no command, and it ended too early. -/
def Wanting (ls : List Text) : Prop :=
  ∀ p q, ls = p ++ q → p ≠ [] → isCommand (joined p) = false ∧ Unfinished (joined p)

/-- Lines that make an input, which no shorter run of them does. -/
structure Group (g : List Text) : Prop where
  lines : g ≠ []
  wanting : Wanting g.dropLast
  complete : isCommand (joined g) = true ∨ ¬ Unfinished (joined g)

/-- The inputs that are taken from lines one after the other. -/
inductive Taken : List Text → List Text → Prop
  | stop {lines : List Text} : takeInput [] lines = none → Taken lines []
  | input {lines rest ts : List Text} {t : Text} : takeInput [] lines = some (t, rest) →
      Taken rest ts → Taken lines (t :: ts)

variable {p q g ls rest : List Text} {l t : Text}

private theorem wantsMore_iff : wantsMore t = true ↔ isCommand t = false ∧ Unfinished t := by
  unfold wantsMore Unfinished
  rw [Bool.and_eq_true, Bool.not_eq_true']
  refine and_congr_right fun _ => ?_
  cases Program.parse file t with
  | error ds => simp
  | ok _ => simp

private theorem joined_singleton (l : Text) : joined [l] = l := by
  rw [joined, Text.join, List.intercalate_singleton]

private theorem joined_append (hp : p ≠ []) (l : Text) :
    joined (p ++ [l]) = joined p ++ Byte.lineFeed :: l := by
  induction p with
  | nil => exact absurd rfl hp
  | cons a p ih =>
    unfold joined Text.join at ih ⊢
    cases p with
    | nil => rw [List.singleton_append, List.intercalate_cons_cons, List.intercalate_singleton,
        List.intercalate_singleton, List.append_assoc, List.singleton_append]
    | cons b p =>
      rw [List.cons_append, List.cons_append, List.intercalate_cons_cons, ← List.cons_append,
        ih (List.cons_ne_nil b p), List.intercalate_cons_cons, ← List.append_assoc]

namespace Wanting

private theorem nil : Wanting [] := by
  intro p q heq hp
  exact absurd (List.append_eq_nil_iff.1 heq.symm).1 hp

private theorem left (h : Wanting (p ++ q)) : Wanting p := fun a b heq ha =>
  h a (b ++ q) (by rw [heq, List.append_assoc]) ha

private theorem wantsMore (h : Wanting p) (hp : p ≠ []) : wantsMore (joined p) = true :=
  wantsMore_iff.2 (h p [] (List.append_nil p).symm hp)

private theorem concat (h : Wanting p) (hl : Repl.wantsMore (joined (p ++ [l])) = true) :
    Wanting (p ++ [l]) := by
  intro a b heq ha
  rcases List.eq_nil_or_concat b with rfl | ⟨b, c, rfl⟩
  · rw [List.append_nil] at heq
    rw [← heq]
    exact wantsMore_iff.1 hl
  · rw [List.concat_eq_append, ← List.append_assoc] at heq
    exact h a b (List.append_inj_left' heq rfl) ha

private theorem joined_ne_nil (h : Wanting p) (hp : p ≠ []) : joined p ≠ [] := by
  intro hnil
  have hmore := h.wantsMore hp
  rw [hnil] at hmore
  exact absurd hmore (by decide)

private theorem extend (h : Wanting p) (l : Text) : extend (joined p) l = joined (p ++ [l]) := by
  by_cases hp : p = []
  · subst hp
    exact (joined_singleton l).symm
  · have hne := List.isEmpty_eq_false_iff.2 (h.joined_ne_nil hp)
    rw [Repl.extend, hne, joined_append hp]
    rfl

end Wanting

private theorem wantsMore_eq_false_iff :
    wantsMore t = false ↔ isCommand t = true ∨ ¬ Unfinished t := by
  rw [← Bool.not_eq_true, wantsMore_iff, ← Bool.not_eq_true, Classical.not_and_iff_not_or_not,
    Classical.not_not]

private theorem Group.of_append (hp : Wanting p) (hl : wantsMore (joined (p ++ [l])) = false) :
    Group (p ++ [l]) where
  lines := by simp
  wanting := by rwa [List.dropLast_concat]
  complete := wantsMore_eq_false_iff.1 hl

private theorem Group.exists_append (hg : Group g) :
    ∃ p l, g = p ++ [l] ∧ Wanting p ∧ wantsMore (joined (p ++ [l])) = false := by
  have heq := List.dropLast_concat_getLast hg.lines
  refine ⟨g.dropLast, g.getLast hg.lines, heq.symm, hg.wanting, ?_⟩
  rw [heq]
  exact wantsMore_eq_false_iff.2 hg.complete

private theorem exists_groups (hp : Wanting p) (lines : List Text) :
    ∃ (groups : List (List Text)) (tail : List Text), p ++ lines = groups.flatten ++ tail ∧
      (∀ g ∈ groups, Group g) ∧ Wanting tail := by
  induction lines generalizing p with
  | nil => exact ⟨[], p, by rw [List.append_nil]; rfl, List.forall_mem_nil _, hp⟩
  | cons l lines ih =>
    cases hl : wantsMore (joined (p ++ [l])) with
    | true =>
      obtain ⟨groups, tail, heq, hgroups, htail⟩ := ih (hp.concat hl)
      exact ⟨groups, tail, by rw [← heq, List.append_assoc]; rfl, hgroups, htail⟩
    | false =>
      obtain ⟨groups, tail, heq, hgroups, htail⟩ := ih .nil
      refine ⟨(p ++ [l]) :: groups, tail, ?_,
        List.forall_mem_cons.2 ⟨.of_append hp hl, hgroups⟩, htail⟩
      rw [List.flatten_cons, List.append_assoc, ← heq, List.append_assoc]
      rfl

/-! ### Taking inputs -/

private theorem takeInput_append (hw : Wanting (p ++ q)) (rest : List Text) :
    takeInput (joined p) (q ++ rest) = takeInput (joined (p ++ q)) rest := by
  induction q generalizing p with
  | nil => rw [List.append_nil]; rfl
  | cons l q ih =>
    rw [List.append_cons] at hw ⊢
    have hp := hw.left
    rw [List.cons_append, takeInput, hp.left.extend, if_pos (hp.wantsMore (by simp)), ih hw]

private theorem Group.takeInput (hg : Group g) (rest : List Text) :
    takeInput [] (g ++ rest) = some (joined g, rest) := by
  obtain ⟨p, l, rfl, hp, hl⟩ := hg.exists_append
  have hlead := takeInput_append (p := []) hp ([l] ++ rest)
  rw [List.append_assoc]
  refine hlead.trans ?_
  rw [List.nil_append, List.singleton_append, Repl.takeInput, hp.extend, hl]
  rfl

private theorem Wanting.takeInput (hw : Wanting q) : takeInput [] q = none := by
  have hlead := takeInput_append (p := []) hw []
  rw [List.append_nil] at hlead
  exact hlead

private theorem taken_iff {groups : List (List Text)} {tail ts : List Text}
    (hgroups : ∀ g ∈ groups, Group g) (htail : Wanting tail) :
    Taken (groups.flatten ++ tail) ts ↔ ts = groups.map joined := by
  induction groups generalizing ts with
  | nil =>
    rw [List.flatten_nil, List.nil_append, List.map_nil]
    constructor
    · intro h
      cases h with
      | stop _ => rfl
      | input ht _ => cases htail.takeInput.symm.trans ht
    · rintro rfl
      exact .stop htail.takeInput
  | cons g groups ih =>
    obtain ⟨hg, hgroups⟩ := List.forall_mem_cons.1 hgroups
    have hfirst := hg.takeInput (groups.flatten ++ tail)
    rw [List.flatten_cons, List.append_assoc, List.map_cons]
    constructor
    · intro h
      cases h with
      | stop hnone => cases hfirst.symm.trans hnone
      | input ht hrest =>
        cases hfirst.symm.trans ht
        rw [(ih hgroups).1 hrest]
    · rintro rfl
      exact .input hfirst ((ih hgroups).2 rfl)

private theorem inputs_eq (pending : Text) (lines : List Text) :
    inputs pending lines =
      match takeInput pending lines with
      | none => []
      | some (t, rest) => t :: inputs [] rest := by
  induction lines generalizing pending with
  | nil => rfl
  | cons l lines ih =>
    rw [inputs, takeInput]
    cases wantsMore (extend pending l) with
    | true => exact ih _
    | false => rfl

private theorem inputs_groups {groups : List (List Text)} {tail : List Text}
    (hgroups : ∀ g ∈ groups, Group g) (htail : Wanting tail) :
    inputs [] (groups.flatten ++ tail) = groups.map joined := by
  induction groups with
  | nil => rw [List.flatten_nil, List.nil_append, inputs_eq, htail.takeInput, List.map_nil]
  | cons g groups ih =>
    obtain ⟨hg, hrest⟩ := List.forall_mem_cons.1 hgroups
    rw [List.flatten_cons, List.append_assoc, inputs_eq, hg.takeInput, List.map_cons, ← ih hrest]

/-! ### Conversations -/

def promptAt (n : Nat) : Text := lit (if n = 0 then "> " else "... ")

def promptsFrom (n count : Nat) : Text := (List.range' n count).flatMap promptAt

def Reply.after (reply : Reply) (out : Text) : Reply := { reply with out := out ++ reply.out }

def Reply.before (reply rest : Reply) : Reply :=
  { rest with out := reply.out ++ rest.out, err := reply.err ++ rest.err }

/-- A conversation over groups of lines, each dealt with as one input, and over a last run that
makes none. -/
def talk (fuel : Nat) (tail : List Text) (r : Repl) : List (List Text) → Reply
  | [] => { repl := { r with pending := joined tail }
            out := promptsFrom 0 (tail.length + 1) ++ [Byte.lineFeed] }
  | g :: groups =>
    let reply := (r.answer fuel (joined g)).after (promptsFrom 0 g.length)
    if reply.quit then reply else reply.before (talk fuel tail reply.repl groups)

variable {r : Repl} {fuel : Nat}

namespace Reply

private theorem after_append (reply : Reply) (a b : Text) :
    reply.after (a ++ b) = (reply.after b).after a := by
  rw [after, after, after, List.append_assoc]

private theorem before_after (reply rest : Reply) (out : Text) :
    (reply.before rest).after out = (reply.after out).before rest := by
  rw [after, before, before, after, List.append_assoc]

private theorem silent_before (r : Repl) (out : Text) (rest : Reply) :
    (({ repl := r } : Reply).after out).before rest = rest.after out := by
  rw [before, after, after, List.append_nil, List.nil_append]

end Reply

private theorem converse_cons (fuel : Nat) (r : Repl) (l : Text) (ls : List Text) :
    converse fuel r (l :: ls) =
      if (r.feed fuel l).quit then (r.feed fuel l).after r.prompt
      else ((r.feed fuel l).after r.prompt).before (converse fuel (r.feed fuel l).repl ls) := rfl

private theorem answer_pending (hr : r.pending = []) (fuel : Nat) (t : Text) :
    (r.answer fuel t).repl.pending = [] := by
  unfold answer
  split
  · exact hr
  · split
    · unfold command
      dsimp only
      split
      · exact hr
      · split
        · exact hr
        · exact hr
    · exact hr

private theorem promptsFrom_concat (n count : Nat) :
    promptsFrom n (count + 1) = promptsFrom n count ++ promptAt (n + count) := by
  rw [promptsFrom, List.range'_1_concat, List.flatMap_append, List.flatMap_singleton]
  rfl

private theorem promptsFrom_succ (n count : Nat) :
    promptsFrom n (count + 1) = promptAt n ++ promptsFrom (n + 1) count := by
  rw [promptsFrom, List.range'_succ, List.flatMap_cons]
  rfl

private theorem Wanting.prompt (hp : Wanting p) :
    ({ r with pending := joined p } : Repl).prompt = promptAt p.length := by
  unfold Repl.prompt promptAt
  by_cases hnil : p = []
  · subst hnil
    rfl
  · have hne := List.isEmpty_eq_false_iff.2 (hp.joined_ne_nil hnil)
    rw [hne, if_neg (mt List.length_eq_zero_iff.1 hnil)]
    rfl

private theorem Wanting.feed (hp : Wanting p) (hpl : Wanting (p ++ [l])) :
    ({ r with pending := joined p } : Repl).feed fuel l =
      { repl := { r with pending := joined (p ++ [l]) } } := by
  rw [Repl.feed, hp.extend, if_pos (hpl.wantsMore (by simp))]

private theorem converse_append (hw : Wanting (p ++ q)) (rest : List Text) :
    converse fuel { r with pending := joined p } (q ++ rest) =
      (converse fuel { r with pending := joined (p ++ q) } rest).after
        (promptsFrom p.length q.length) := by
  induction q generalizing p with
  | nil => rw [List.append_nil]; rfl
  | cons l q ih =>
    rw [List.append_cons] at hw ⊢
    have hpl := hw.left
    rw [List.cons_append, converse_cons, hpl.left.feed hpl, hpl.left.prompt,
      if_neg Bool.false_ne_true,
      Reply.silent_before, ih hw, List.length_cons, promptsFrom_succ, Reply.after_append,
      List.length_append, List.length_singleton]

private theorem Wanting.converse (hw : Wanting p) (hr : r.pending = []) (rest : List Text) :
    converse fuel r (p ++ rest) =
      (converse fuel { r with pending := joined p } rest).after (promptsFrom 0 p.length) := by
  obtain ⟨workspace, conditions, _, history⟩ := r
  cases hr
  exact converse_append (p := []) (r := { workspace, conditions, pending := [], history }) hw rest

private theorem Group.converse (hg : Group g) (hr : r.pending = []) (rest : List Text) :
    converse fuel r (g ++ rest) =
      let reply := (r.answer fuel (joined g)).after (promptsFrom 0 g.length)
      if reply.quit then reply else reply.before (converse fuel reply.repl rest) := by
  obtain ⟨p, l, rfl, hp, hl⟩ := hg.exists_append
  have hlast : ({ r with pending := joined p } : Repl).feed fuel l =
      r.answer fuel (joined (p ++ [l])) := by
    obtain ⟨workspace, conditions, _, history⟩ := r
    cases hr
    rw [Repl.feed, hp.extend, hl]
    rfl
  rw [List.append_assoc, List.singleton_append, hp.converse hr, converse_cons, hlast, hp.prompt,
    List.length_append, List.length_singleton, promptsFrom_concat, Reply.after_append, Nat.zero_add]
  dsimp only [Reply.after]
  split
  · rfl
  · exact Reply.before_after _ _ _

private theorem Wanting.converse_end (hw : Wanting p) (hr : r.pending = []) :
    Repl.converse fuel r p = talk fuel p r [] := by
  have hlead : Repl.converse fuel r (p ++ []) = _ := hw.converse hr []
  rw [List.append_nil] at hlead
  rw [hlead, Repl.converse, hw.prompt, talk, promptsFrom_concat, Nat.zero_add, List.append_assoc]
  rfl

private theorem converse_groups {groups : List (List Text)} {tail : List Text}
    (hgroups : ∀ g ∈ groups, Group g) (htail : Wanting tail) (hr : r.pending = []) :
    converse fuel r (groups.flatten ++ tail) = talk fuel tail r groups := by
  induction groups generalizing r with
  | nil => exact htail.converse_end hr
  | cons g groups ih =>
    obtain ⟨hg, hrest⟩ := List.forall_mem_cons.1 hgroups
    have hnext := ih hrest (answer_pending hr fuel (joined g))
    rw [List.flatten_cons, List.append_assoc, hg.converse hr, talk]
    dsimp only [Reply.after]
    rw [hnext]
    rfl

/-- Lines fall into groups, one after the other; none is lost, and none stands twice. The inputs
that are taken from them are the texts of the groups. Only lines at the end from which nothing is
taken are left over, and these are no command and ended too early. A conversation goes on just as if
the groups were typed in as wholes. -/
theorem lines_grouped (lines : List Text) :
    ∃ (groups : List (List Text)) (tail : List Text),
      lines = groups.flatten ++ tail ∧
      (∀ g ∈ groups, Group g) ∧
      (∀ ts, Taken lines ts ↔ ts = groups.map joined) ∧
      inputs [] lines = groups.map joined ∧
      takeInput [] tail = none ∧
      Wanting tail ∧
      ∀ (fuel : Nat) (r : Repl), converse fuel { r with pending := [] } lines =
        talk fuel tail { r with pending := [] } groups := by
  obtain ⟨groups, tail, heq, hgroups, htail⟩ := exists_groups .nil lines
  rw [List.nil_append] at heq
  subst heq
  exact ⟨groups, tail, rfl, hgroups, fun ts => taken_iff hgroups htail, inputs_groups hgroups htail,
    htail.takeInput, htail, fun fuel r => converse_groups hgroups htail rfl⟩

/-- The lines of a call make one input, and a line that only opens one makes none. -/
example : inputs [] [lit "f(", lit "", lit ");", lit "f();", lit "f("] =
    [lit "f(\n\n);", lit "f();"] := by
  decide +kernel

end Lox.Repl
