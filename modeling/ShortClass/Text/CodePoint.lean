import ShortClass.Text.Order

/-!
Code points and the texts made of them.

The run-time value of a string literal is a sequence of code points in which a surrogate may stand
alone, which `Char` cannot hold. Source texts are plain lists of characters; `Text.ofChars` embeds
them, and `Text.toChars` goes back where no surrogate is left.
-/

namespace ShortClass

inductive CodePoint where
  | scalar (c : Char)
  | surrogate (n : Fin 2048)
  deriving DecidableEq, Inhabited, Repr

abbrev Text := List CodePoint

instance : Coe Char CodePoint := ⟨.scalar⟩

namespace CodePoint

def toNat : CodePoint → Nat
  | scalar c => c.toNat
  | surrogate n => 0xD800 + n

def ofNat (n : Nat) : CodePoint :=
  if h : 0xD800 ≤ n ∧ n - 0xD800 < 2048 then surrogate ⟨n - 0xD800, h.2⟩ else scalar (Char.ofNat n)

theorem ofNat_toNat (p : CodePoint) : ofNat p.toNat = p := by
  cases p with
  | scalar c =>
    have h : ¬(0xD800 ≤ c.toNat ∧ c.toNat - 0xD800 < 2048) := by
      have hv : c.toNat < 0xD800 ∨ 0xDFFF < c.toNat ∧ c.toNat < 0x110000 := c.valid
      omega
    simp [ofNat, toNat, h]
  | surrogate n => simp [ofNat, toNat]

def toChar? : CodePoint → Option Char
  | scalar c => some c
  | surrogate _ => none

end CodePoint

namespace Text

def ofChars (cs : List Char) : Text := cs.map .scalar

def ofString (s : String) : Text := ofChars s.toList

def toChars? (t : Text) : Option (List Char) := t.mapM CodePoint.toChar?

def toChars (t : Text) : List Char := t.map fun p => p.toChar?.getD '\uFFFD'

@[simp] theorem toChars_ofChars (cs : List Char) : toChars (ofChars cs) = cs := by
  simp [toChars, ofChars, Function.comp_def, CodePoint.toChar?]

@[simp] theorem ofChars_append (a b : List Char) : ofChars (a ++ b) = ofChars a ++ ofChars b := by
  simp [ofChars]

theorem ofChars_injective {a b : List Char} (h : ofChars a = ofChars b) : a = b := by
  rw [← toChars_ofChars a, h, toChars_ofChars]

def le (s t : Text) : Bool := lexLe CodePoint.toNat s t

end Text

end ShortClass
