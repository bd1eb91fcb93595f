import Mathlib.Data.List.Basic
import Mathlib.Data.List.TakeWhile
import Lox.Proofs.Utf8
import Lox.Trace.Summary

set_option autoImplicit false
set_option relaxedAutoImplicit false

namespace Lox

namespace Text

private theorem trim_eq_self {b c : UInt8} {s : Text} (hb : b < 0x80) (hc : c < 0x80)
    (hblank : isBlankScalar b.toNat = false) (hblank' : isBlankScalar c.toNat = false) :
    trim (b :: (s ++ [c])) = b :: (s ++ [c]) := by
  have hhead : headRune b (s ++ [c]) = (.scalar b.toNat, 1) := if_pos hb
  have hpieces : pieces (b :: (s ++ [c])) =
      (.scalar b.toNat, [b]) :: (piecesAfter 0 s ++ [(.scalar c.toNat, [c])]) := by
    have hrest := piecesAfter_concat hc s 0 (Nat.zero_le _)
    rw [pieces, piecesAfter.eq_3, hhead]
    dsimp only
    rw [hrest]
    rfl
  have hall : (pieces (b :: (s ++ [c]))).flatMap Prod.snd = b :: (s ++ [c]) :=
    flatMap_piecesAfter _ 0
  have hfirst : (pieces (b :: (s ++ [c]))).dropWhile isBlankPiece = pieces (b :: (s ++ [c])) := by
    rw [hpieces, List.dropWhile_cons, isBlankPiece, hblank]
    rfl
  have hlast : (pieces (b :: (s ++ [c]))).reverse.dropWhile isBlankPiece =
      (pieces (b :: (s ++ [c]))).reverse := by
    rw [hpieces, ← List.cons_append, List.reverse_append,
      List.reverse_singleton, List.singleton_append,
      List.dropWhile_cons, isBlankPiece, hblank']
    rfl
  unfold trim
  dsimp only
  rw [hfirst, hlast, List.reverse_reverse, hall]

end Text

namespace Trace

private theorem lines_append {l : Text} (h : Byte.lineFeed ∉ l) (r : Text) :
    lines (l ++ Byte.lineFeed :: r) = l :: lines r := by
  induction l with
  | nil => rw [List.nil_append, lines, if_pos rfl]
  | cons b l ih =>
    rw [List.mem_cons, not_or] at h
    rw [List.cons_append, lines, if_neg (Ne.symm h.1), ih h.2]

/-- A codec writes an event as one line with braces around it, and reads that line as the event. -/
structure Codec.RoundTrips (c : Codec) (x : Stamped) : Prop where
  braced : ∃ body, c.encode x = 123 :: (body ++ [125])
  oneLine : Byte.lineFeed ∉ c.encode x
  decoded : c.decode (c.encode x) = some x.entry

variable {c : Codec} {xs : List Stamped}

private theorem lines_write (h : ∀ x ∈ xs, c.RoundTrips x) :
    lines (write c xs) = xs.map c.encode := by
  induction xs with
  | nil => rfl
  | cons x xs ih =>
    obtain ⟨hx, hxs⟩ := List.forall_mem_cons.1 h
    have hfirst : write c (x :: xs) = c.encode x ++ Byte.lineFeed :: write c xs := by
      rw [write, List.flatMap_cons, List.append_assoc]
      rfl
    rw [hfirst, lines_append hx.oneLine, ih hxs, List.map_cons]

private theorem Codec.RoundTrips.readLine? {x : Stamped} (h : c.RoundTrips x) :
    readLine? c (c.encode x) = some x.entry := by
  obtain ⟨body, hbody⟩ := h.braced
  have htrim : (c.encode x).trim = c.encode x := by
    rw [hbody]
    exact Text.trim_eq_self (by decide) (by decide) (by decide) (by decide)
  have hfilled : ¬ (c.encode x).isEmpty = true := by
    rw [hbody]
    exact Bool.false_ne_true
  rw [Trace.readLine?, htrim, if_neg hfilled, h.decoded]

/-- Whether the line of an event is short enough to be read. -/
def isShort (c : Codec) (x : Stamped) : Bool := (c.encode x).length < lineLimit

theorem entries_write (h : ∀ x ∈ xs, c.RoundTrips x) :
    entries c (write c xs) = (xs.takeWhile (isShort c)).map Stamped.entry := by
  have hshort : ((xs.map c.encode).takeWhile fun l => l.length < lineLimit) =
      (xs.takeWhile (isShort c)).map c.encode := List.takeWhile_map ..
  rw [entries, lines_write h, hshort, List.filterMap_map, ← List.filterMap_eq_map]
  exact List.filterMap_congr fun x hx => (h x (List.takeWhile_subset _ hx)).readLine?

end Trace
end Lox
