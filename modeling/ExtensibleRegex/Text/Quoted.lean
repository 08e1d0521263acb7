import ExtensibleRegex.Unicode.Binary

/-!
# Quoted text

Diagnostics show a text between double quotes. A quote, a backslash and the common control
characters are written with a backslash; every other character without a shape of its own
(controls, separators other than the blank, unassigned code points, combining marks) is written by
its number; all else stands as it is.
-/

namespace ExtensibleRegex

/-- Characters with a shape of their own that came with Unicode 16. -/
def lateShapes : CodeSet :=
  .ranges
    [(6990, 6991), (7039, 7039), (7305, 7306), (9255, 9257), (12772, 12773), (42955, 42957),
     (42970, 42972), (67008, 67059), (68928, 68965), (68974, 68997), (69006, 69007),
     (69314, 69316), (70528, 70537), (70539, 70539), (70542, 70542), (70544, 70581),
     (70583, 70583), (70585, 70586), (70602, 70602), (70604, 70605), (70609, 70609),
     (70611, 70613), (70615, 70616), (71376, 71395), (71454, 71454), (72640, 72673),
     (72688, 72697), (78944, 82938), (90368, 90397), (90410, 90412), (90416, 90425),
     (93504, 93561), (101631, 101631), (117760, 118009), (118016, 118451), (124368, 124397),
     (124400, 124410), (124415, 124415), (129202, 129211), (129216, 129217), (129673, 129673),
     (129679, 129679), (129726, 129726), (129734, 129734), (129756, 129756), (129759, 129759),
     (129769, 129769), (129995, 130031)]

/-- Marks that extend a grapheme since Unicode 16. -/
def lateExtenders : CodeSet :=
  .ranges
    [(3264, 3264), (3271, 3272), (3274, 3275), (5909, 5909), (5940, 5940), (6971, 6971),
     (6973, 6973), (6979, 6980), (7082, 7082), (7154, 7155), (43347, 43347), (43456, 43456),
     (70080, 70080), (70197, 70197), (70477, 70477), (71350, 71350), (71997, 71997),
     (73537, 73537), (94192, 94193), (119142, 119142), (119149, 119149)]

/-- Code points that are written by their number: unassigned ones, controls, separators, and what
combines with the character before it. -/
def shapeless : CodeSet :=
  .union lateExtenders
    (.diff (.unionOf [Unicode.otherCharacter, Unicode.separatorCharacter, Unicode.graphemeExtend])
      lateShapes)

/-- One character inside quotes. -/
def quoteChar (c : Char) : Text :=
  if c = '"' then ['\\', '"']
  else if c = '\\' then ['\\', '\\']
  else if c = '\n' then ['\\', 'n']
  else if c = '\r' then ['\\', 'r']
  else if c = '\t' then ['\\', 't']
  else if c.toNat = 0 then ['\\', '0']
  else if c ≠ ' ' ∧ shapeless.contains c.toNat then
    ['\\', 'u', '{'] ++ Nat.toDigits 16 c.toNat ++ ['}']
  else [c]

/-- A text between double quotes. -/
def quote (t : Text) : Text := '"' :: t.flatMap quoteChar ++ ['"']

end ExtensibleRegex
