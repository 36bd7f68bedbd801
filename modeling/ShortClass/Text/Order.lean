namespace ShortClass

variable {α : Type}

def lexLe (key : α → Nat) : List α → List α → Bool
  | [], _ => true
  | _ :: _, [] => false
  | a :: s, b :: t => key a < key b || (key a == key b && lexLe key s t)

def charsLe (s t : List Char) : Bool := lexLe Char.toNat s t

end ShortClass
