import ShortClass.Program.Literal

namespace ShortClass.Program

def JoinedWithin (links : Nat) (left right : Bool) (path : Ancestry) : Prop :=
  ∀ bound, links ≤ bound → ∀ leftmost rightmost,
    (left = true → leftmost = true → (path.joinsUpTo bound leftmost rightmost).left = true) ∧
      (right = true → rightmost = true → (path.joinsUpTo bound leftmost rightmost).right = true)

theorem joinsUpTo_parenthesized {parent : Node} (hk : parent.kind = .parenthesized) (bound : Nat)
    (leftmost rightmost : Bool) (index : Nat) (path : Ancestry) :
    Ancestry.joinsUpTo bound leftmost rightmost (⟨parent, index⟩ :: path) =
      path.joinsUpTo bound leftmost rightmost := by
  have hout : Ancestry.outsideParentheses (⟨parent, index⟩ :: path) = path.outsideParentheses := by
    simp [Ancestry.outsideParentheses, hk]
  cases bound with
  | zero => rfl
  | succ bound => rw [Ancestry.joinsUpTo, Ancestry.joinsUpTo, hout]

theorem joinedWithin_zero (path : Ancestry) : JoinedWithin 0 false false path := by
  intro bound _ leftmost rightmost
  simp

namespace JoinedWithin

variable {links : Nat} {left right : Bool} {path : Ancestry} {parent : Node} {index : Nat}

theorem joins (h : JoinedWithin links left right path) (hl : links ≤ maxLinks) :
    (left = true → path.joins.left = true) ∧ (right = true → path.joins.right = true) := by
  obtain ⟨h1, h2⟩ := h maxLinks hl true true
  exact ⟨fun hleft => h1 hleft rfl, fun hright => h2 hright rfl⟩

theorem parenthesized (h : JoinedWithin links left right path) (hk : parent.kind = .parenthesized) :
    JoinedWithin links left right (⟨parent, index⟩ :: path) := by
  intro bound hb leftmost rightmost
  rw [joinsUpTo_parenthesized hk]
  exact h bound hb leftmost rightmost

theorem outsideParentheses_sum (hk : parent.kind = .sum ∨ parent.kind = .sumAssignment) :
    Ancestry.outsideParentheses (⟨parent, index⟩ :: path) = ⟨parent, index⟩ :: path := by
  have hne : parent.kind ≠ .parenthesized := by rcases hk with hk | hk <;> simp [hk]
  simp [Ancestry.outsideParentheses, hne]

theorem leftOperand (h : JoinedWithin links left right path)
    (hk : parent.kind = .sum ∨ parent.kind = .sumAssignment) :
    JoinedWithin (links + 1) left true (⟨parent, 0⟩ :: path) := by
  intro bound hb leftmost rightmost
  obtain ⟨bound, rfl⟩ : ∃ b, bound = b + 1 := ⟨bound - 1, by omega⟩
  obtain ⟨hleft, -⟩ := h bound (by omega) leftmost false
  rw [Ancestry.joinsUpTo, outsideParentheses_sum hk]
  refine ⟨fun hl hm => ?_, fun _ hm => ?_⟩
  · have hj := hleft hl hm
    subst hm
    simpa [hk] using hj
  · simp [hm, hk]

theorem rightOperand (h : JoinedWithin links left right path)
    (hk : parent.kind = .sum ∨ parent.kind = .sumAssignment) :
    JoinedWithin (links + 1) true right (⟨parent, 1⟩ :: path) := by
  intro bound hb leftmost rightmost
  obtain ⟨bound, rfl⟩ : ∃ b, bound = b + 1 := ⟨bound - 1, by omega⟩
  obtain ⟨-, hright⟩ := h bound (by omega) false rightmost
  rw [Ancestry.joinsUpTo, outsideParentheses_sum hk]
  refine ⟨fun _ hm => ?_, fun hr hm => ?_⟩
  · simp [hm, hk]
  · have hj := hright hr hm
    subst hm
    simpa [hk] using hj

end JoinedWithin

end ShortClass.Program
