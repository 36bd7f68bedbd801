namespace ShortClass

def isHexDigit (c : Char) : Bool := c.isDigit || ('a' ≤ c && c ≤ 'f') || ('A' ≤ c && c ≤ 'F')

def isOctalDigit (c : Char) : Bool := '0' ≤ c && c ≤ '7'

def isBinaryDigit (c : Char) : Bool := c == '0' || c == '1'

def digitValue (c : Char) : Nat :=
  if c.isDigit then c.toNat - 48 else if 'a' ≤ c then c.toNat - 87 else c.toNat - 55

def numberOf (base : Nat) (ds : List Char) : Nat := ds.foldl (fun n d => base * n + digitValue d) 0

theorem numberOf_append (base : Nat) (ds : List Char) (d : Char) :
    numberOf base (ds ++ [d]) = base * numberOf base ds + digitValue d := by
  simp [numberOf]

def digitsLength (p : Char → Bool) : List Char → Nat
  | c :: rest =>
    if p c then
      match rest with
      | '_' :: d :: rest => if p d then 2 + digitsLength p (d :: rest) else 1
      | rest => 1 + digitsLength p rest
    else 0
  | [] => 0

end ShortClass
