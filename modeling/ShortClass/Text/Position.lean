namespace ShortClass

structure Position where
  line : Nat
  column : Nat
  deriving DecidableEq

def Position.ofOffset (source : List Char) (offset : Nat) : Position :=
  let before := source.take offset
  ⟨before.count '\n' + 1, (before.reverse.takeWhile (· != '\n')).length + 1⟩

def isLineBreak (c : Char) : Bool :=
  let n := c.toNat
  (0x0A ≤ n && n ≤ 0x0D) || (0x1C ≤ n && n ≤ 0x1E) || n == 0x85 || n == 0x2028 || n == 0x2029

def firstLine (cs : List Char) : List Char := cs.takeWhile (!isLineBreak ·)

end ShortClass
