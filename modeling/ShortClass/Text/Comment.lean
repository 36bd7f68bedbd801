namespace ShortClass

def commentTail : List Char → Option Nat
  | [] => none
  | c :: t => if c = '*' ∧ t.head? = some '/' then some 2 else (commentTail t).map (· + 1)

theorem commentTail_le {t : List Char} {n : Nat} (h : commentTail t = some n) : n ≤ t.length := by
  induction t generalizing n with
  | nil => simp [commentTail] at h
  | cons c t ih =>
    rw [commentTail] at h
    split at h
    · next hc =>
      cases h
      cases t with
      | nil => simp at hc
      | cons d t => simp
    · obtain ⟨m, hm, rfl⟩ := Option.map_eq_some_iff.1 h
      simpa using ih hm

end ShortClass
