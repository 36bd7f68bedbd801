import ShortClass.Proofs.Stylesheet.ClosedText
import ShortClass.Proofs.Stylesheet.NameText

namespace ShortClass.Stylesheet

inductive Piece where
  | other (text : List Char)
  | name (written : List Char)

namespace Piece

def marks : Piece → List Mark
  | other t => atoms t
  | name w => [.name w]

def respell (σ : List Char → List Char) : Piece → Piece
  | other t => other t
  | name w => name (σ w)

def text : Piece → List Char
  | other t => t
  | name w => w

end Piece

def passedLength (c : Char) (t : List Char) : Nat :=
  if isQuote c then (stringTail c t).getD 0
  else if c = '[' then (attributeTail t).getD 0
  else if c = '\\' then (escapeTail t).getD 1
  else 0

def pieces : List Char → List Piece
  | [] => []
  | c :: t =>
    if c = '.' then
      match classLength t with
      | some n => .other ['.'] :: .name (t.take n) :: pieces (t.drop n)
      | none => .other ['.'] :: pieces t
    else .other (c :: t.take (passedLength c t)) :: pieces (t.drop (passedLength c t))
termination_by t => t.length

def selectorMarks (s : List Char) : List Mark := (pieces s).flatMap Piece.marks

section Recursion

variable {c : Char} {t : List Char} {n : Nat}

theorem pieces_dot_of_some (h : classLength t = some n) :
    pieces ('.' :: t) = .other ['.'] :: .name (t.take n) :: pieces (t.drop n) := by
  rw [pieces, if_pos rfl, h]

theorem pieces_dot_of_none (h : classLength t = none) : pieces ('.' :: t) = .other ['.'] :: pieces t := by
  rw [pieces, if_pos rfl, h]

theorem pieces_cons (hc : c ≠ '.') :
    pieces (c :: t) = .other (c :: t.take (passedLength c t)) :: pieces (t.drop (passedLength c t)) := by
  rw [pieces, if_neg hc]

theorem selectorMarks_nil : selectorMarks [] = [] := by
  rw [selectorMarks, pieces, List.flatMap_nil]

theorem selectorMarks_dot_of_some (h : classLength t = some n) :
    selectorMarks ('.' :: t) = .char '.' :: .name (t.take n) :: selectorMarks (t.drop n) := by
  simp [selectorMarks, pieces_dot_of_some h, Piece.marks, atoms]

theorem selectorMarks_dot_of_none (h : classLength t = none) :
    selectorMarks ('.' :: t) = .char '.' :: selectorMarks t := by
  simp [selectorMarks, pieces_dot_of_none h, Piece.marks, atoms]

theorem selectorMarks_cons (hc : c ≠ '.') :
    selectorMarks (c :: t) =
      atoms (c :: t.take (passedLength c t)) ++ selectorMarks (t.drop (passedLength c t)) := by
  simp [selectorMarks, pieces_cons hc, Piece.marks]

end Recursion

theorem text_pieces (s : List Char) : (pieces s).flatMap Piece.text = s := by
  fun_induction pieces s with
  | case1 => rfl
  | case2 t n h ih => simp [Piece.text, ih]
  | case3 t h ih => simp [Piece.text, ih]
  | case4 c t hc ih => simp [Piece.text, ih]

theorem spell_id_selectorMarks (s : List Char) : spell id (selectorMarks s) = s := by
  have hp (p : Piece) : spell id p.marks = p.text := by
    cases p with
    | other t => exact spell_atoms id t
    | name w => simp [Piece.marks, Piece.text, Mark.spell]
  conv_rhs => rw [← text_pieces s]
  rw [selectorMarks, spell, List.flatMap_assoc]
  congr 1
  funext p
  exact hp p

section Closed

variable {c : Char} {t : List Char}

theorem passedLength_le (h : Closed (c :: t)) : passedLength c t ≤ t.length := by
  rw [passedLength]
  split
  · cases hn : stringTail c t with
    | none => exact Nat.zero_le _
    | some n => exact stringTail_le hn
  split
  · cases hn : attributeTail t with
    | none => exact Nat.zero_le _
    | some n => exact (closed_attributeTail hn).1
  split
  · next hc =>
    subst hc
    cases hn : escapeTail t with
    | none =>
      cases h with
      | char hc _ => exact absurd rfl hc
      | pair _ => simp
    | some n => exact escapeTail_le hn
  · exact Nat.zero_le _

theorem closed_passedLength (h : Closed (c :: t)) : Closed (c :: t.take (passedLength c t)) := by
  by_cases hc : c = '\\'
  · subst hc
    cases hn : escapeTail t with
    | none =>
      cases h with
      | char hc _ => exact absurd rfl hc
      | @pair d u _ =>
        have hk : passedLength '\\' (d :: u) = 1 := by simp [passedLength, isQuote, hn]
        rw [hk]
        exact .pair .nil
    | some n =>
      have hk : passedLength '\\' t = n := by simp [passedLength, isQuote, hn]
      rw [hk]
      exact .of_passed (passed_escapeTail hn)
  · rw [passedLength, if_neg hc]
    split
    · next hq =>
      cases hn : stringTail c t with
      | none => exact .char hc .nil
      | some n => exact .char hc (closed_stringTail (not_isPlain_of_isQuote hq) hn).2
    split
    · cases hn : attributeTail t with
      | none => exact .char hc .nil
      | some n => exact .char hc (closed_attributeTail hn).2
    · exact .char hc .nil

theorem closed_drop_passedLength (h : Closed (c :: t)) : Closed (t.drop (passedLength c t)) := by
  apply (closed_passedLength h).of_append
  rwa [List.cons_append, List.take_append_drop]

theorem closed_drop_classLength {n : Nat} (h : Closed ('.' :: t)) (hn : classLength t = some n) :
    Closed (t.drop n) := by
  obtain ⟨-, -, hp, -⟩ := classLength_spec hn
  apply (Closed.of_passed hp).of_append
  rw [List.take_append_drop]
  cases h with
  | char _ h => exact h

end Closed

def IsSpelling (σ : List Char → List Char) : Prop := ∀ w, σ w = w ∨ IsWord (σ w)

theorem isSpelling_id : IsSpelling id := fun _ => .inl rfl

theorem aligned_selectorMarks {σ : List Char → List Char} (hσ : IsSpelling σ) {s : List Char} (hs : Closed s) :
    Aligned σ (selectorMarks s) := by
  fun_induction pieces s with
  | case1 => simp [selectorMarks_nil, Aligned]
  | case2 t n h ih =>
    obtain ⟨hpos, hle, hp, -⟩ := classLength_spec h
    have hname : (Mark.name (t.take n)).Sound σ := by
      rcases hσ (t.take n) with hw | hw
      · rw [Mark.Sound, hw]
        exact ⟨hp, by simp only [ne_eq, ← List.length_eq_zero_iff, List.length_take]; omega⟩
      · exact hw.passed
    rw [selectorMarks_dot_of_some h]
    exact .cons (by decide : '.' ≠ '\\') (.cons hname (ih (closed_drop_classLength hs h)))
  | case3 t h ih =>
    rw [selectorMarks_dot_of_none h]
    cases hs with
    | char hc hs => exact .cons hc (ih hs)
  | case4 c t hc ih =>
    rw [selectorMarks_cons hc]
    exact ((closed_passedLength hs).aligned_atoms σ).append (ih (closed_drop_passedLength hs))

section Respelled

variable {σ : List Char → List Char} {c : Char} {s t : List Char}

theorem escapeTail_eq_none_of_head? (h : escapeTail t = none) (hs : s.head? = t.head?) : escapeTail s = none := by
  cases s with
  | nil => rfl
  | cons d s =>
    cases t with
    | nil => simp at hs
    | cons e t =>
      obtain rfl : d = e := by simpa using hs
      simp only [escapeTail] at h ⊢
      split at h
      · simp at h
      · next hd =>
        rw [if_neg hd]
        split at h
        · next hn => rw [if_pos hn]
        · simp at h

theorem passedLength_backslash (t : List Char) : passedLength '\\' t = (escapeTail t).getD 1 := by
  simp [passedLength, isQuote]

theorem spell_selectorMarks_cons (σ : List Char → List Char) (c : Char) (t : List Char) :
    ∃ u, spell σ (selectorMarks (c :: t)) = c :: u ∧ (c = '\\' → u.head? = t.head?) := by
  by_cases hc : c = '.'
  · subst hc
    cases h : classLength t with
    | none => exact ⟨spell σ (selectorMarks t), by simp [selectorMarks_dot_of_none h, Mark.spell], by simp⟩
    | some n => exact ⟨_, by rw [selectorMarks_dot_of_some h, spell_cons, Mark.spell]; rfl, by simp⟩
  · refine ⟨_, by rw [selectorMarks_cons hc, spell_append, spell_atoms, List.cons_append], ?_⟩
    rintro rfl
    cases t with
    | nil => simp [selectorMarks_nil]
    | cons d t =>
      have hk : ∃ k, passedLength '\\' (d :: t) = k + 1 := by
        rw [passedLength_backslash]
        cases h : escapeTail (d :: t) with
        | none => exact ⟨0, rfl⟩
        | some n => exact escapeTail_succ h
      obtain ⟨k, hk⟩ := hk
      simp [hk]

theorem head?_spell_selectorMarks (σ : List Char → List Char) (s : List Char) :
    (spell σ (selectorMarks s)).head? = s.head? := by
  cases s with
  | nil => simp [selectorMarks_nil]
  | cons c t =>
    obtain ⟨u, hu, -⟩ := spell_selectorMarks_cons σ c t
    rw [hu]
    rfl

theorem namePiece_spell_eq_none {p : Char → Bool} {u : List Char} (h : namePiece p c t = none)
    (hu : c = '\\' → u.head? = t.head?) : namePiece p c u = none := by
  rw [namePiece] at h ⊢
  split at h
  · next hc =>
    rw [if_pos hc]
    exact escapeTail_eq_none_of_head? h (hu hc)
  · next hc =>
    rw [if_neg hc]
    exact h

theorem nameRun_spell_selectorMarks (h : nameRun s = 0) : nameRun (spell σ (selectorMarks s)) = 0 := by
  cases s with
  | nil => simp [selectorMarks_nil, nameRun]
  | cons c t =>
    have hn : namePiece isNameChar c t = none := by
      cases hp : namePiece isNameChar c t with
      | none => rfl
      | some n =>
        rw [nameRun_of_some hp] at h
        omega
    obtain ⟨u, hu, hhead⟩ := spell_selectorMarks_cons σ c t
    rw [hu]
    exact nameRun_of_none (namePiece_spell_eq_none hn hhead)

theorem spell_selectorMarks_hyphens (k : Nat) (s : List Char) :
    spell σ (selectorMarks (List.replicate k '-' ++ s)) = List.replicate k '-' ++ spell σ (selectorMarks s) := by
  induction k with
  | zero => simp
  | succ k ih =>
    have hp (t : List Char) : passedLength '-' t = 0 := by simp [passedLength, isQuote]
    rw [List.replicate_succ, List.cons_append, selectorMarks_cons (by decide), hp]
    simp [ih]

theorem classLength_spell_eq_none (h : classLength t = none) : classLength (spell σ (selectorMarks t)) = none := by
  obtain ⟨k, u, rfl, hu⟩ := exists_hyphens t
  rw [classLength_hyphens hu] at h
  rw [spell_selectorMarks_hyphens, classLength_hyphens (by rwa [head?_spell_selectorMarks])]
  split at h
  · next hk => rw [if_pos hk]
  · next hk =>
    rw [if_neg hk, Option.map_eq_none_iff]
    rw [Option.map_eq_none_iff] at h
    cases u with
    | nil => simp [selectorMarks_nil, bodyLength]
    | cons c u =>
      obtain ⟨v, hv, hhead⟩ := spell_selectorMarks_cons σ c u
      rw [bodyLength, Option.map_eq_none_iff] at h
      rw [hv, bodyLength, namePiece_spell_eq_none h hhead, Option.map_none]

theorem classLength_spell_eq_some (hσ : IsSpelling σ) {n : Nat} (h : classLength t = some n) :
    classLength (σ (t.take n) ++ spell σ (selectorMarks (t.drop n))) = some (σ (t.take n)).length := by
  obtain ⟨-, hle, -, hz⟩ := classLength_spec h
  have hz' := nameRun_spell_selectorMarks (σ := σ) hz
  rcases hσ (t.take n) with hw | hw
  · rw [hw, List.length_take_of_le hle]
    exact classLength_take_append h (head?_spell_selectorMarks σ _) hz'
  · exact hw.classLength_append hz'

theorem getD_spell_selectorMarks (hσ : IsSpelling σ) {r : List Char → Option Nat}
    (hr : ∀ ms, ∃ k, Takes r ms k) (hcl : ∀ n, r t = some n → n ≤ t.length ∧ Closed (t.take n)) (h : Closed t) :
    (r (t.take ((r t).getD 0) ++ spell σ (selectorMarks (t.drop ((r t).getD 0))))).getD 0 = (r t).getD 0 := by
  cases hn : r t with
  | none =>
    obtain ⟨k, hk⟩ := hr (selectorMarks t)
    have hnone := hk.spell_eq_none (aligned_selectorMarks hσ h) (aligned_selectorMarks isSpelling_id h)
      (by rwa [spell_id_selectorMarks])
    simp [hnone]
  | some n =>
    obtain ⟨hle, htake⟩ := hcl n hn
    have hdrop : Closed (t.drop n) := htake.of_append (by rwa [List.take_append_drop])
    have haligned {τ : List Char → List Char} (hτ : IsSpelling τ) :
        Aligned τ (atoms (t.take n) ++ selectorMarks (t.drop n)) :=
      (htake.aligned_atoms τ).append (aligned_selectorMarks hτ hdrop)
    obtain ⟨k, hk⟩ := hr (atoms (t.take n) ++ selectorMarks (t.drop n))
    have hsome := hk.spell_eq_some (haligned hσ) (haligned isSpelling_id) (by
      rw [spell_append, spell_atoms, spell_id_selectorMarks, List.take_append_drop, hn,
        List.length_take_of_le hle])
    rw [spell_append, spell_atoms, List.length_take_of_le hle] at hsome
    simp [hsome]

theorem passedLength_spell (hσ : IsSpelling σ) (h : Closed (c :: t)) :
    passedLength c (t.take (passedLength c t) ++ spell σ (selectorMarks (t.drop (passedLength c t)))) =
      passedLength c t := by
  by_cases hc : c = '\\'
  · subst hc
    rw [passedLength_backslash, passedLength_backslash]
    cases hn : escapeTail t with
    | none =>
      rw [escapeTail_eq_none_of_head? hn, Option.getD_none]
      exact head?_take_append 1 (head?_spell_selectorMarks σ _)
    | some n =>
      rw [Option.getD_some, escapeTail_take_append hn (head?_spell_selectorMarks σ _), Option.getD_some]
  · have ht := h.tail hc
    simp only [passedLength, if_neg hc]
    split
    · next hq =>
      exact getD_spell_selectorMarks hσ (stringTail_takes (not_isPlain_of_isQuote hq))
        (fun n => closed_stringTail (not_isPlain_of_isQuote hq)) ht
    split
    · exact getD_spell_selectorMarks hσ attributeTail_takes (fun n => closed_attributeTail) ht
    · rfl

theorem pieces_spell (hσ : IsSpelling σ) (hs : Closed s) :
    pieces (spell σ (selectorMarks s)) = (pieces s).map (Piece.respell σ) := by
  fun_induction pieces s with
  | case1 => simp [selectorMarks_nil, pieces]
  | case2 t n h ih =>
    rw [selectorMarks_dot_of_some h]
    simp only [spell_cons, Mark.spell, List.singleton_append]
    rw [pieces_dot_of_some (classLength_spell_eq_some hσ h), List.take_left, List.drop_left,
      ih (closed_drop_classLength hs h)]
    simp [Piece.respell]
  | case3 t h ih =>
    rw [selectorMarks_dot_of_none h]
    simp only [spell_cons, Mark.spell, List.singleton_append]
    rw [pieces_dot_of_none (classLength_spell_eq_none h), ih (hs.tail (by decide))]
    simp [Piece.respell]
  | case4 c t hc ih =>
    rw [selectorMarks_cons hc, spell_append, spell_atoms, List.cons_append, pieces_cons hc,
      passedLength_spell hσ hs]
    have hlen := List.length_take_of_le (passedLength_le hs)
    rw [List.take_left' hlen, List.drop_left' hlen, ih (closed_drop_passedLength hs)]
    simp [Piece.respell]

end Respelled

end ShortClass.Stylesheet
