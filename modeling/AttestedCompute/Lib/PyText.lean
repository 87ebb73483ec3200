import AttestedCompute.Lib.Positional

/-!
# Python text

The text operations of the Python standard library that the checkers rest on: line
and field splitting, and `int` of a string. `int` accepts much more than a run of
digits (surrounding whitespace, a sign, a base prefix, single underscores between
digits, decimal digits of any script), and a checker that feeds it unvalidated text
accepts all of that too, so the whole grammar is here.

A string is the list of its characters, which are Unicode scalar values; the tables are
those of Unicode 14.
-/

namespace Py

/-- A string, as its characters. -/
abbrev Str := List Char

/-- `str.isspace` of one character. -/
def isSpace (c : Char) : Bool :=
  (9 ≤ c.toNat && c.toNat ≤ 13) || (28 ≤ c.toNat && c.toNat ≤ 32)
    || c.toNat == 0x85 || c.toNat == 0xa0 || c.toNat == 0x1680
    || (0x2000 ≤ c.toNat && c.toNat ≤ 0x200a) || c.toNat == 0x2028 || c.toNat == 0x2029
    || c.toNat == 0x202f || c.toNat == 0x205f || c.toNat == 0x3000

/-- The characters `str.splitlines` breaks at. -/
def isLineBreak (c : Char) : Bool :=
  (10 ≤ c.toNat && c.toNat ≤ 13) || (28 ≤ c.toNat && c.toNat ≤ 30)
    || c.toNat == 0x85 || c.toNat == 0x2028 || c.toNat == 0x2029

def splitlinesAux : Str → Str → List Str
  | line, [] => if line = [] then [] else [line.reverse]
  -- a carriage return and the line feed after it are one break
  | line, '\r' :: '\n' :: rest => line.reverse :: splitlinesAux [] rest
  | line, c :: rest =>
      if isLineBreak c then line.reverse :: splitlinesAux [] rest
      else splitlinesAux (c :: line) rest

/-- `str.splitlines`. -/
def splitlines (s : Str) : List Str := splitlinesAux [] s

def splitAux : Str → Str → List Str
  | field, [] => if field = [] then [] else [field.reverse]
  | field, c :: rest =>
      if isSpace c then
        if field = [] then splitAux [] rest else field.reverse :: splitAux [] rest
      else splitAux (c :: field) rest

/-- `str.split` without a separator: the maximal runs of characters that are not spaces. -/
def split (s : Str) : List Str := splitAux [] s

/-- `str.partition` at one character, without the middle part. -/
def partition (sep : Char) (s : Str) : Str × Str :=
  let parts := s.span (· != sep)
  (parts.1, parts.2.drop 1)

/-! ## Integers -/

/-- The zeros of the runs of ten decimal digits outside ASCII. -/
def decimalZeros : List Nat := [
  0x660, 0x6f0, 0x7c0, 0x966, 0x9e6, 0xa66, 0xae6, 0xb66, 0xbe6, 0xc66, 0xce6, 0xd66, 0xde6,
  0xe50, 0xed0, 0xf20, 0x1040, 0x1090, 0x17e0, 0x1810, 0x1946, 0x19d0, 0x1a80, 0x1a90, 0x1b50,
  0x1bb0, 0x1c40, 0x1c50, 0xa620, 0xa8d0, 0xa900, 0xa9d0, 0xa9f0, 0xaa50, 0xabf0, 0xff10,
  0x104a0, 0x10d30, 0x11066, 0x110f0, 0x11136, 0x111d0, 0x112f0, 0x11450, 0x114d0, 0x11650,
  0x116c0, 0x11730, 0x118e0, 0x11950, 0x11c50, 0x11d50, 0x11da0, 0x16a60, 0x16ac0, 0x16b50,
  0x1d7ce, 0x1d7d8, 0x1d7e2, 0x1d7ec, 0x1d7f6, 0x1e140, 0x1e2f0, 0x1e950, 0x1fbf0]

/-- The digit a character denotes, in bases up to 36. -/
def digitValue (c : Char) : Option Nat :=
  if c.toNat < 127 then
    if 48 ≤ c.toNat ∧ c.toNat ≤ 57 then some (c.toNat - 48)
    else if 97 ≤ c.toNat ∧ c.toNat ≤ 122 then some (c.toNat - 97 + 10)
    else if 65 ≤ c.toNat ∧ c.toNat ≤ 90 then some (c.toNat - 65 + 10)
    else none
  else (decimalZeros.find? fun z => z ≤ c.toNat && c.toNat < z + 10).map (c.toNat - ·)

/-- The spaces `int` strips: outside ASCII those of `isSpace`, inside it those of C. -/
def isIntSpace (c : Char) : Bool :=
  if c.toNat < 127 then (9 ≤ c.toNat && c.toNat ≤ 13) || c.toNat == 32 else isSpace c

/-- A run of base-`base` digits with single underscores between them, and what follows it.
`underscore` says that the last character read was one. -/
def scanDigits (base : Nat) (underscore : Bool) : Str → Option (List Nat × Str)
  | [] => if underscore then none else some ([], [])
  | c :: rest =>
      if c = '_' then
        if underscore then none else scanDigits base true rest
      else
        match digitValue c with
        | some d =>
            if d < base then
              (scanDigits base false rest).map fun p => (d :: p.1, p.2)
            else if underscore then none else some ([], c :: rest)
        | none => if underscore then none else some ([], c :: rest)

/-- The sign of a numeral and what follows it. -/
def scanSign : Str → Bool × Str
  | '+' :: rest => (false, rest)
  | '-' :: rest => (true, rest)
  | cs => (false, cs)

/-- Skip the prefix of a hexadecimal numeral and one underscore after it. -/
def skipHexMark : Str → Str
  | z :: x :: rest =>
      if digitValue z = some 0 ∧ (x = 'x' ∨ x = 'X') then
        match rest with
        | '_' :: rest => rest
        | rest => rest
      else z :: x :: rest
  | cs => cs

/-- The longest decimal numeral `int` converts; bases that are powers of two have no limit. -/
def maxStrDigits : Nat := 4300

/-- `int(s, base)`, `none` where it raises `ValueError`. -/
def int (base : Nat) (s : Str) : Option Int :=
  let (negative, cs) := scanSign (s.dropWhile isIntSpace)
  let cs := if base = 16 then skipHexMark cs else cs
  if cs.head? = some '_' then none
  else
    match scanDigits base false cs with
    | none => none
    | some (ds, rest) =>
        if ds = [] ∨ rest.dropWhile isIntSpace ≠ [] ∨ (base = 10 ∧ maxStrDigits < ds.length) then
          none
        else
          let n : Int := Positional.value base ds
          some (if negative then -n else n)

end Py
