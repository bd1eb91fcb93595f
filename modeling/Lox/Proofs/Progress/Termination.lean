import Lox.Proofs.Progress.Steps

set_option autoImplicit false
set_option relaxedAutoImplicit false

namespace Lox.Parser

variable {ts : List Token}

/-- Readers that lead from a token to a token that is no earlier, and past a token where they have
read a piece that has one. -/
def Steady (ts : List Token) (r : Readers) : Prop :=
  ∀ (α : Type) (p : Piece α) (pos : Nat) (c : Cursor), c.At ts pos →
    ∃ stop, (r p c).2.At ts stop ∧ pos ≤ stop ∧
      (p.takes = true → (r p c).1.isSome = true → pos < stop)

private theorem Abreast.steady {α : Type} {p p' : Parser α} {pos : Nat} {c : Cursor} {b : Prop}
    (h : Abreast ts pos (fun _ stop => b → pos < stop) p p' c) :
    ∃ stop, (p c).2.At ts stop ∧ pos ≤ stop ∧ (b → (p c).1.isSome = true → pos < stop) := by
  obtain ⟨-, stop, hat, hle, hlt⟩ := h
  refine ⟨stop, hat, hle, fun hb hsome => ?_⟩
  obtain ⟨a, ha⟩ := Option.isSome_iff_exists.1 hsome
  exact hlt a ha hb

namespace Steady

variable {r r' : Readers}

private theorem abreast (h : Steady ts r) {α : Type} {p : Piece α} {pos : Nat} {c : Cursor}
    (hat : c.At ts pos) (heq : r p c = r' p c) :
    Abreast ts pos (fun _ stop => p.takes = true → pos < stop) (r p) (r' p) c := by
  obtain ⟨stop, hstop, hle, hlt⟩ := h α p pos c hat
  exact ⟨heq, stop, hstop, hle, fun a ha htakes => hlt htakes (by rw [ha]; rfl)⟩

private theorem below (h : Steady ts r) (hts : Closed ts) {α : Type} {p : Piece α} {pos : Nat}
    (heq : ∀ {β : Type} (q : Piece β) (start : Nat) (d : Cursor), d.At ts start →
      q.Before start p pos → r q d = r' q d) : Below ts r r' p pos where
  closed := hts
  reads q _ d hat hbefore := h.abreast hat (heq q _ d hat hbefore)

private theorem round (h : Steady ts r) (hts : Closed ts) : Steady ts (Piece.round r) :=
  fun _ _ _ _ hat => ((h.below hts fun _ _ _ _ _ => rfl).alike hat).steady

private theorem readOver (h : Steady ts r) (hts : Closed ts) (depth : Nat) :
    Steady ts (Piece.readOver r depth) := by
  induction depth with
  | zero => exact h
  | succ depth ih => exact ih.round hts

end Steady

private theorem steady_fail (ts : List Token) : Steady ts fun _ => fail :=
  fun _ _ pos _ hat => ⟨pos, hat, Nat.le_refl pos, fun _ hsome => by cases hsome⟩

private theorem steady_read (hts : Closed ts) (fuel : Nat) : Steady ts (Piece.read fuel) := by
  intro α p pos c hat
  have hover := (steady_fail ts).readOver hts fuel α p pos c hat
  change ∃ stop, (p.read fuel c).2.At ts stop ∧ pos ≤ stop ∧
    (p.takes = true → (p.read fuel c).1.isSome = true → pos < stop)
  rw [p.read_eq_readOver]
  exact hover

/-- With more rounds than there can be one inside the other, nothing is left to the readers below
them. -/
theorem readOver_alike (hts : Closed ts) (base base' : Readers) {depth : Nat} {α : Type}
    {p : Piece α} {pos : Nat} {c : Cursor} (hat : c.At ts pos) (hsize : p.size ts pos < depth) :
    Abreast ts pos (fun _ stop => p.takes = true → pos < stop) (p.readOver base depth)
      (p.readOver base' depth) c := by
  induction depth generalizing α p pos c with
  | zero => exact absurd hsize (Nat.not_lt_zero _)
  | succ depth ih =>
    have hbelow : Below ts (Piece.readOver base depth) (Piece.readOver base' depth) p pos :=
      { closed := hts
        reads := fun q start d hd hbefore => by
          have hlt := hbefore.size_lt hat.lt_length
          exact ih hd (by omega) }
    exact hbelow.alike hat

private theorem recover_eq_some {α : Type} (p : Parser α) (c : Cursor) :
    ∃ a, (recover p c).1 = some a := by
  unfold recover
  split
  · exact ⟨_, rfl⟩
  · exact ⟨_, rfl⟩

/-- The cursor at the first token. -/
def firstOf (file : Text) (ts : List Token) : Cursor :=
  { previous := ts.headD (.endOf file), current := ts.headD (.endOf file), rest := ts.tail,
    faults := [] }

private theorem firstOf_at (file : Text) (hts : Closed ts) : (firstOf file ts).At ts 0 := by
  obtain ⟨t, ht, -⟩ := hts
  cases ts with
  | nil => cases ht
  | cons t ts => exact ⟨rfl, rfl, rfl⟩

private theorem size_lt_depthFor (ts : List Token) (closing : Option Mark) :
    (Piece.declarations closing).size ts 0 < depthFor ts := by
  unfold Piece.size depthFor
  have hrank := (Piece.declarations closing).rank_lt
  omega

/-- What is told of a reading that began at a token. -/
def outcome (first : Token) : Option (List Stmt) × Cursor → Except (List Diagnostic) Program
  | (some body, c) =>
    if c.faults.isEmpty then .ok { span := first.span.cover c.current.span, body }
    else .error c.faults.reverse
  | (none, c) => .error c.faults.reverse

private theorem ofTokens_eq_outcome (file : Text) (tokens : List Token) :
    let ts := Program.closed file tokens
    Program.ofTokens file tokens =
      outcome (firstOf file ts).current (declarations (depthFor ts) none (firstOf file ts)) := rfl

/-- What reading tokens from the first one on keeps to. -/
structure Progresses (ts : List Token) (first : Cursor) : Prop where
  /-- It begins at the first token. -/
  start : first.At ts 0
  /-- The last token is never passed. -/
  advance : ∀ pos (c : Cursor), c.At ts pos → c.advance.At ts (min (pos + 1) (ts.length - 1))
  /-- Every reader leads from a token to a token, never back. -/
  steady : ∀ fuel, Steady ts (Piece.read fuel)
  /-- A declaration that is entered passes a token, whether it can be read or not. -/
  declaration : ∀ fuel pos (c : Cursor), c.At ts pos → c.current.kind ≠ .eof →
    ∃ stop, (recover (declaration fuel) c).2.At ts stop ∧ pos < stop
  /-- Leaving a statement that cannot be read passes a token, but for the last one. -/
  synchronize : ∀ pos (c : Cursor), c.At ts pos →
    ∃ stop, (synchronize c).At ts stop ∧ (pos < stop ∨ pos = stop ∧ pos + 1 = ts.length)
  /-- Readers go on in rounds. -/
  rounds : ∀ fuel {α : Type} (p : Piece α), p.read (fuel + 1) = p.round (Piece.read fuel)
  /-- A round leaves to readers only what begins before its piece: what they do elsewhere does not
  matter to it. -/
  round : ∀ {α : Type} (p : Piece α) pos (c : Cursor) (r r' : Readers), c.At ts pos → Steady ts r →
    (∀ {β : Type} (q : Piece β) start (d : Cursor), d.At ts start → q.Before start p pos →
      r q d = r' q d) →
    p.round r c = p.round r' c
  /-- A turn of a loop begins further on than the one in whose round it is read. -/
  loop : ∀ {α β : Type} (p : Piece α) (q : Piece β) start pos (l : Loop), p.loop? = some l →
    q.loop? = some l → q.Before start p pos → pos < start
  /-- No round is so deep that the depth would be used up: whatever stands below the rounds, and
  however many more there are, the same is read. -/
  ends : ∀ (base : Readers) depth, depthFor ts ≤ depth →
    (Piece.declarations none).readOver base depth first = declarations (depthFor ts) none first

private theorem Closed.progresses (hts : Closed ts) (file : Text) :
    Progresses ts (firstOf file ts) := by
  have hfirst := firstOf_at file hts
  refine {
    start := hfirst
    advance := fun pos c hat => hat.advance
    steady := steady_read hts
    declaration := fun fuel pos c hat hk => ?_
    synchronize := fun pos c hat => ?_
    rounds := fun fuel {_} p => p.read_succ fuel
    round := fun {_} p pos c r r' hat hr heq => ((hr.below hts heq).alike hat).1
    loop := fun {_ _} p q start pos l hp hq hbefore => hbefore.lt_of_loop? hq hp
    ends := fun base depth hdepth => ?_ }
  · have hread : Abreast ts pos _ (Parser.declaration fuel) (Parser.declaration fuel) c :=
      (steady_read hts fuel).abreast (p := .declaration) hat rfl
    have hpast := hread.weaken (Nat.le_refl pos) fun _ stop _ hlt => hlt rfl
    obtain ⟨-, stop, hstop, hle, hlt⟩ := Abreast.recover hat hts hk hpast
    obtain ⟨a, ha⟩ := recover_eq_some (Parser.declaration fuel) c
    exact ⟨stop, hstop, hlt a ha⟩
  · obtain ⟨stop, hstop, hle, hlt⟩ := hat.synchronize
    have hlast := hat.lt_length
    have hend := hstop.lt_length
    exact ⟨stop, hstop, by omega⟩
  · obtain ⟨more, rfl⟩ := Nat.exists_eq_add_of_le hdepth
    have hread := (Piece.declarations none).read_eq_readOver (depthFor ts)
    rw [Piece.readOver_add base]
    exact (readOver_alike hts _ _ hfirst (size_lt_depthFor ts none)).1.trans (congrFun hread.symm _)

/-- Whatever the tokens are, reading a program from them progresses and ends. -/
theorem ofTokens_progresses (file : Text) (tokens : List Token) :
    let ts := Program.closed file tokens
    Progresses ts (firstOf file ts) ∧
      ∀ (base : Readers) depth, depthFor ts ≤ depth → Program.ofTokens file tokens =
        outcome (firstOf file ts).current
          ((Piece.declarations none).readOver base depth (firstOf file ts)) := by
  have hprogress := (closed_closed file tokens).progresses file
  refine ⟨hprogress, fun base depth hdepth => ?_⟩
  rw [ofTokens_eq_outcome, hprogress.ends base depth hdepth]

end Lox.Parser
