import Lox.Json.Basic

set_option autoImplicit false
set_option relaxedAutoImplicit false

namespace Lox.Json

open Text (lit)

def isBlank (b : UInt8) : Bool :=
  b == Byte.space || b == Byte.tab || b == Byte.lineFeed || b == Byte.carriageReturn

def skipBlanks (t : Text) : Text := t.dropWhile isBlank

def after? (head t : Text) : Option Text :=
  if head.isPrefixOf t then some (t.drop head.length) else none

def digits? (t : Text) : Option (Text × Text) :=
  let ds := t.takeWhile Byte.isDigit
  if ds.isEmpty then none else some (ds, t.dropWhile Byte.isDigit)

/-- The digits before the point: a single zero, or digits that do not begin with zero. -/
def whole? : Text → Option (Text × Text)
  | 48 :: r => some ([48], r)
  | t => digits? t

def fraction? : Text → Option (Text × Text)
  | 46 :: r => do
    let (ds, rest) ← digits? r
    return (46 :: ds, rest)
  | t => some ([], t)

def power? : Text → Option (Text × Text)
  | [] => some ([], [])
  | e :: r =>
    if Byte.lower e = 101 then
      match r with
      | s :: r' =>
        if s = 43 || s = 45 then do
          let (ds, rest) ← digits? r'
          return (e :: s :: ds, rest)
        else do
          let (ds, rest) ← digits? r
          return (e :: ds, rest)
      | [] => none
    else some ([], e :: r)

def numeral? (t : Text) : Option (Text × Text) := do
  let (sign, r) : Text × Text := match t with
    | 45 :: r => ([45], r)
    | r => ([], r)
  let (w, r) ← whole? r
  let (f, r) ← fraction? r
  let (p, r) ← power? r
  return (sign ++ w ++ f ++ p, r)

def fourHex? : Text → Option (Nat × Text)
  | a :: b :: c :: d :: r => do
    let a ← Byte.hexValue? a
    let b ← Byte.hexValue? b
    let c ← Byte.hexValue? c
    let d ← Byte.hexValue? d
    return (((a * 16 + b) * 16 + c) * 16 + d, r)
  | _ => none

def shortEscape? (b : UInt8) : Option UInt8 :=
  if b = 34 || b = 92 || b = 47 then some b
  else if b = 98 then some 8
  else if b = 102 then some 12
  else if b = 110 then some 10
  else if b = 114 then some 13
  else if b = 116 then some 9
  else none

def isHighHalf (n : Nat) : Bool := 0xD800 ≤ n && n < 0xDC00

def isLowHalf (n : Nat) : Bool := 0xDC00 ≤ n && n < 0xE000

/-- The character of an escape by its number, joined with a following second half. -/
def fromEscape (n : Nat) (r : Text) : Text × Text :=
  if isHighHalf n then
    match r with
    | 92 :: 117 :: r' =>
      match fourHex? r' with
      | some (low, rest) =>
        if isLowHalf low then
          (Text.ofScalar (0x10000 + (n - 0xD800) * 1024 + (low - 0xDC00)), rest)
        else (Text.ofScalar Text.replacement, r)
      | none => (Text.ofScalar Text.replacement, r)
    | _ => (Text.ofScalar Text.replacement, r)
  else if isLowHalf n then (Text.ofScalar Text.replacement, r)
  else (Text.ofScalar n, r)

/-- The decoded bytes of a string up to its closing quote; `acc` holds them in reverse. -/
def stringBody? : Nat → Text → Text → Option (Text × Text)
  | 0, _, _ => none
  | fuel + 1, acc, t =>
    match t with
    | [] => none
    | 34 :: r => some (acc.reverse, r)
    | 92 :: 117 :: r =>
      match fourHex? r with
      | some (n, rest) =>
        let (bytes, rest) := fromEscape n rest
        stringBody? fuel (bytes.reverse ++ acc) rest
      | none => none
    | 92 :: b :: r =>
      match shortEscape? b with
      | some c => stringBody? fuel (c :: acc) r
      | none => none
    | b :: r => if b < 32 || b = 92 then none else stringBody? fuel (b :: acc) r

def string? (t : Text) : Option (Text × Text) := do
  let (bytes, rest) ← stringBody? (t.length + 1) [] t
  return (bytes.repaired, rest)

mutual

/-- A value at the head of a text without leading blanks. Arrays and objects may stand in each other
`room` times. -/
def value? (room : Nat) : Nat → Text → Option (Json × Text)
  | 0, _ => none
  | fuel + 1, t =>
    match t with
    | [] => none
    | 34 :: r => (string? r).map fun (s, rest) => (.string s, rest)
    | 91 :: r =>
      if room = 0 then none
      else match skipBlanks r with
        | 93 :: rest => some (.array [], rest)
        | r => (items? (room - 1) fuel r).map fun (js, rest) => (.array js, rest)
    | 123 :: r =>
      if room = 0 then none
      else match skipBlanks r with
        | 125 :: rest => some (.object [], rest)
        | r => (members? (room - 1) fuel r).map fun (ms, rest) => (.object ms, rest)
    | 110 :: _ => (after? (lit "null") t).map fun rest => (.null, rest)
    | 116 :: _ => (after? (lit "true") t).map fun rest => (.bool true, rest)
    | 102 :: _ => (after? (lit "false") t).map fun rest => (.bool false, rest)
    | _ => (numeral? t).map fun (n, rest) => (.number n, rest)
termination_by structural fuel => fuel

def items? (room : Nat) : Nat → Text → Option (List Json × Text)
  | 0, _ => none
  | fuel + 1, t => do
    let (j, rest) ← value? room fuel t
    match skipBlanks rest with
    | 93 :: rest => return ([j], rest)
    | 44 :: rest => do
      let (js, rest) ← items? room fuel (skipBlanks rest)
      return (j :: js, rest)
    | _ => none
termination_by structural fuel => fuel

def members? (room : Nat) : Nat → Text → Option (List (Text × Json) × Text)
  | 0, _ => none
  | fuel + 1, t =>
    match t with
    | 34 :: r => do
      let (k, rest) ← string? r
      let rest ← after? (lit ":") (skipBlanks rest)
      let (j, rest) ← value? room fuel (skipBlanks rest)
      match skipBlanks rest with
      | 125 :: rest => return ([(k, j)], rest)
      | 44 :: rest => do
        let (ms, rest) ← members? room fuel (skipBlanks rest)
        return ((k, j) :: ms, rest)
      | _ => none
    | _ => none
termination_by structural fuel => fuel

end

theorem value?_null (room fuel : Nat) (rest : Text) :
    value? room (fuel + 1) (lit "null" ++ rest) = some (.null, rest) := by
  have hword : lit "null" = [110, 117, 108, 108] := by decide
  simp [value?, hword, after?]

theorem value?_bool (room fuel : Nat) (b : Bool) (rest : Text) :
    value? room (fuel + 1) (lit (if b then "true" else "false") ++ rest) =
      some (.bool b, rest) := by
  have htrue : lit "true" = [116, 114, 117, 101] := by decide
  have hfalse : lit "false" = [102, 97, 108, 115, 101] := by decide
  cases b <;> simp [value?, htrue, hfalse, after?]

def maxDepth : Nat := 10000

/-- The value that a whole text denotes. Two steps for each byte are more than any value needs. -/
def read? (t : Text) : Option Json :=
  match value? maxDepth (2 * t.length + 2) (skipBlanks t) with
  | some (j, rest) => if (skipBlanks rest).isEmpty then some j else none
  | none => none

def members : Json → List (Text × Json)
  | .object ms => ms
  | _ => []

def member? (j : Json) (name : Text) : Option Json :=
  (j.members.reverse.find? fun m => m.1 == name).map Prod.snd

end Lox.Json
