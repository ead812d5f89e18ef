/-!
Decimal digits of all scripts: the characters of general category Nd, in runs of whole tens.
-/

namespace RecordCuration.Text

/-- The first code point of each run, with the number of tens in it. -/
def digitRuns : List (Nat × Nat) :=
  [(0x30, 1), (0x660, 1), (0x6f0, 1), (0x7c0, 1), (0x966, 1), (0x9e6, 1), (0xa66, 1), (0xae6, 1),
   (0xb66, 1), (0xbe6, 1), (0xc66, 1), (0xce6, 1), (0xd66, 1), (0xde6, 1), (0xe50, 1), (0xed0, 1),
   (0xf20, 1), (0x1040, 1), (0x1090, 1), (0x17e0, 1), (0x1810, 1), (0x1946, 1), (0x19d0, 1),
   (0x1a80, 1), (0x1a90, 1), (0x1b50, 1), (0x1bb0, 1), (0x1c40, 1), (0x1c50, 1), (0xa620, 1),
   (0xa8d0, 1), (0xa900, 1), (0xa9d0, 1), (0xa9f0, 1), (0xaa50, 1), (0xabf0, 1), (0xff10, 1),
   (0x104a0, 1), (0x10d30, 1), (0x10d40, 1), (0x11066, 1), (0x110f0, 1), (0x11136, 1),
   (0x111d0, 1), (0x112f0, 1), (0x11450, 1), (0x114d0, 1), (0x11650, 1), (0x116c0, 1),
   (0x116d0, 2), (0x11730, 1), (0x118e0, 1), (0x11950, 1), (0x11bf0, 1), (0x11c50, 1),
   (0x11d50, 1), (0x11da0, 1), (0x11f50, 1), (0x16130, 1), (0x16a60, 1), (0x16ac0, 1),
   (0x16b50, 1), (0x16d70, 1), (0x1ccf0, 1), (0x1d7ce, 5), (0x1e140, 1), (0x1e2f0, 1),
   (0x1e4f0, 1), (0x1e5f1, 1), (0x1e950, 1), (0x1fbf0, 1)]

def isDecimalDigit (c : Char) : Bool :=
  digitRuns.any fun r => r.1 ≤ c.toNat && c.toNat < r.1 + 10 * r.2

end RecordCuration.Text
