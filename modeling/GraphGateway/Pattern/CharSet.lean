/-!
This module contains the sets of characters that patterns name. The texts that patterns are tried on
are ASCII, and so are the members of the named classes.
-/

namespace GraphGateway

inductive CharSet where
  | range (low high : Nat) (anyCase : Bool)
  | union (a b : CharSet)
  | inter (a b : CharSet)
  | minus (a b : CharSet)
  | complement (a : CharSet)
deriving DecidableEq, Repr

namespace CharSet

def empty : CharSet :=
  .range 1 0 false

def all : CharSet :=
  .complement empty

def single (c : Char) (anyCase : Bool) : CharSet :=
  .range c.toNat c.toNat anyCase

def ofRanges (ranges : List (Nat × Nat)) : CharSet :=
  ranges.foldr (fun (low, high) set => .union (.range low high false) set) empty

def either (a b : CharSet) : CharSet :=
  .union (.minus a b) (.minus b a)

def isBetween (low high : Nat) (c : Char) : Bool :=
  low ≤ c.toNat && c.toNat ≤ high

def contains : CharSet → Char → Bool
  | range low high anyCase, c =>
    isBetween low high c
      || (anyCase && (isBetween low high c.toLower || isBetween low high c.toUpper))
  | union a b, c => a.contains c || b.contains c
  | inter a b, c => a.contains c && b.contains c
  | minus a b, c => a.contains c && !b.contains c
  | complement a, c => !a.contains c

def isAscii (set : CharSet) : Bool :=
  (List.range 128).all fun n => !set.contains (Char.ofNat (n + 128))

theorem contains_all (c : Char) : all.contains c = true := by
  simp [all, empty, contains, isBetween]
  omega

theorem contains_single (c other : Char) (h : (single c false).contains other = true)
    : other = c := by
  simp [single, contains, isBetween] at h
  exact Char.ext (UInt32.toNat_inj.1 (Nat.le_antisymm h.2 h.1))

/-! # Named classes -/

def digits : CharSet :=
  ofRanges [(0x30, 0x39)]

def spaces : CharSet :=
  ofRanges [(0x9, 0xd), (0x20, 0x20)]

def wordChars : CharSet :=
  ofRanges [(0x30, 0x39), (0x41, 0x5a), (0x5f, 0x5f), (0x61, 0x7a)]

/-- The classes that have a name between colons. -/
def named : List (String × List (Nat × Nat)) :=
  [ ("alnum", [(0x30, 0x39), (0x41, 0x5a), (0x61, 0x7a)]),
    ("alpha", [(0x41, 0x5a), (0x61, 0x7a)]),
    ("ascii", [(0x0, 0x7f)]),
    ("blank", [(0x9, 0x9), (0x20, 0x20)]),
    ("cntrl", [(0x0, 0x1f), (0x7f, 0x7f)]),
    ("digit", [(0x30, 0x39)]),
    ("graph", [(0x21, 0x7e)]),
    ("lower", [(0x61, 0x7a)]),
    ("print", [(0x20, 0x7e)]),
    ("punct", [(0x21, 0x2f), (0x3a, 0x40), (0x5b, 0x60), (0x7b, 0x7e)]),
    ("space", [(0x9, 0xd), (0x20, 0x20)]),
    ("upper", [(0x41, 0x5a)]),
    ("word", [(0x30, 0x39), (0x41, 0x5a), (0x5f, 0x5f), (0x61, 0x7a)]),
    ("xdigit", [(0x30, 0x39), (0x41, 0x46), (0x61, 0x66)])
  ]

/-- The general categories that have a name of one letter. -/
def categories : List (Char × List (Nat × Nat)) :=
  [ ('l', [(0x41, 0x5a), (0x61, 0x7a)]),
    ('m', []),
    ('n', [(0x30, 0x39)]),
    ('p', [(0x21, 0x23), (0x25, 0x2a), (0x2c, 0x2f), (0x3a, 0x3b), (0x3f, 0x40), (0x5b, 0x5d),
      (0x5f, 0x5f), (0x7b, 0x7b), (0x7d, 0x7d)]),
    ('s', [(0x24, 0x24), (0x2b, 0x2b), (0x3c, 0x3e), (0x5e, 0x5e), (0x60, 0x60), (0x7c, 0x7c),
      (0x7e, 0x7e)]),
    ('z', [(0x20, 0x20)]),
    ('c', [(0x0, 0x1f), (0x7f, 0x7f)])
  ]

end CharSet

end GraphGateway
