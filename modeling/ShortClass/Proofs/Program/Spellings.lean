import ShortClass.Proofs.Program.StringValue
import ShortClass.Proofs.RenamedSource

/-!
Spellings of one string. A character beyond U+FFFF has two code units, and a literal may spell each of them by an
escape of its own; cooking leaves such halves apart. But for that the cooked text is a function of the string, so
two literals that denote one string are renamed alike, by every class map, exactly if they write the same
characters in halves.
-/

namespace ShortClass

def IsHighUnit (n : Nat) : Prop := 0xD800 ≤ n ∧ n < 0xDC00

def IsLowUnit (n : Nat) : Prop := 0xDC00 ≤ n ∧ n < 0xE000

instance (n : Nat) : Decidable (IsHighUnit n) := inferInstanceAs (Decidable (0xD800 ≤ n ∧ n < 0xDC00))

instance (n : Nat) : Decidable (IsLowUnit n) := inferInstanceAs (Decidable (0xDC00 ≤ n ∧ n < 0xE000))

theorem codeUnits_injective {m n : Nat} (hm : m ≤ 0x10FFFF) (hn : n ≤ 0x10FFFF) (h : codeUnits m = codeUnits n) :
    m = n := by
  unfold codeUnits at h
  split at h <;> split at h <;> simp only [List.cons.injEq, and_true, reduceCtorEq, and_false] at h <;> omega

namespace CodePoint

theorem toNat_le (p : CodePoint) : p.toNat ≤ 0x10FFFF := by
  cases p with
  | scalar c =>
    have hc : c.toNat < 0xD800 ∨ 0xDFFF < c.toNat ∧ c.toNat < 0x110000 := c.valid
    simp only [toNat]
    omega
  | surrogate n =>
    have hn := n.isLt
    simp only [toNat]
    omega

theorem toNat_injective {p q : CodePoint} (h : p.toNat = q.toNat) : p = q := by
  rw [← ofNat_toNat p, h, ofNat_toNat]

theorem codeUnits_cases (p : CodePoint) :
    codeUnits p.toNat = [p.toNat] ∨
      ∃ high low, codeUnits p.toNat = [high, low] ∧ IsHighUnit high ∧ IsLowUnit low ∧ 0x10000 ≤ p.toNat := by
  have hle := p.toNat_le
  by_cases h : p.toNat < 0x10000
  · exact .inl (by rw [codeUnits, if_pos h])
  · refine .inr ⟨_, _, by rw [codeUnits, if_neg h], ?_, ?_, by omega⟩
    · simp only [IsHighUnit]
      omega
    · simp only [IsLowUnit]
      omega

theorem length_codeUnits_pos (p : CodePoint) : 0 < (codeUnits p.toNat).length := by
  rcases p.codeUnits_cases with h | ⟨high, low, h, -⟩ <;> simp [h]

theorem not_isHighUnit_of_le {p : CodePoint} (h : 0x10000 ≤ p.toNat) : ¬IsHighUnit p.toNat := by
  simp only [IsHighUnit]
  omega

theorem toNat_of_isBlank {p : CodePoint} (h : p.isBlank = true) : ¬IsHighUnit p.toNat ∧ p.toNat < 0x10000 := by
  cases p with
  | scalar c =>
    have hmark : ('\uFEFF' : Char).toNat = 0xFEFF := rfl
    simp only [isBlank, isSpace, Bool.or_eq_true, Bool.and_eq_true, decide_eq_true_eq, beq_iff_eq] at h
    simp only [IsHighUnit, toNat]
    rcases h with h | rfl <;> omega
  | surrogate n => simp [isBlank] at h

end CodePoint

namespace Text

variable {p q : CodePoint} {s t : Text} {pos : Nat}

theorem utf16_cons (p : CodePoint) (t : Text) : utf16 (p :: t) = codeUnits p.toNat ++ t.utf16 := by
  simp [utf16]

theorem utf16_eq_nil_iff : t.utf16 = [] ↔ t = [] := by
  cases t with
  | nil => simp [utf16]
  | cons p t =>
    have hne : codeUnits p.toNat ≠ [] := List.ne_nil_of_length_pos p.length_codeUnits_pos
    simp [utf16_cons, hne]

def StartsHalved (p : CodePoint) (t : Text) : Prop := IsHighUnit p.toNat ∧ ∃ q ∈ t.head?, IsLowUnit q.toNat

instance (p : CodePoint) (t : Text) : Decidable (StartsHalved p t) :=
  inferInstanceAs (Decidable (IsHighUnit p.toNat ∧ ∃ q ∈ t.head?, IsLowUnit q.toNat))

/-- The places of characters that are written in halves, in code units from `pos` on. -/
def halved (pos : Nat) : Text → List Nat
  | [] => []
  | p :: t =>
    let rest := halved (pos + (codeUnits p.toNat).length) t
    if StartsHalved p t then pos :: rest else rest

theorem le_of_mem_halved {i : Nat} (h : i ∈ t.halved pos) : pos ≤ i := by
  induction t generalizing pos with
  | nil => simp [halved] at h
  | cons p t ih =>
    rw [halved] at h
    split at h
    · rcases List.mem_cons.1 h with rfl | h
      · exact Nat.le_refl _
      · exact (Nat.le_add_right _ _).trans (ih h)
    · exact (Nat.le_add_right _ _).trans (ih h)

theorem pos_mem_halved_iff : pos ∈ halved pos (p :: t) ↔ StartsHalved p t := by
  have hrest : pos ∉ halved (pos + (codeUnits p.toNat).length) t := by
    intro h
    have hle := le_of_mem_halved h
    have hpos := p.length_codeUnits_pos
    omega
  rw [halved]
  split
  · next h => exact ⟨fun _ => h, fun _ => List.mem_cons_self⟩
  · next h => exact ⟨fun hmem => absurd hmem hrest, fun h' => absurd h' h⟩

theorem startsHalved_iff_of_halved (h : halved pos (p :: s) = halved pos (q :: t)) :
    StartsHalved p s ↔ StartsHalved q t := by
  have hleft : pos ∈ halved pos (p :: s) ↔ StartsHalved p s := pos_mem_halved_iff
  rw [← hleft, h, pos_mem_halved_iff]

theorem halved_tail (h : halved pos (p :: s) = halved pos (p :: t)) :
    s.halved (pos + (codeUnits p.toNat).length) = t.halved (pos + (codeUnits p.toNat).length) := by
  have hiff := startsHalved_iff_of_halved h
  rw [halved, halved] at h
  split at h
  · next hs =>
    rw [if_pos (hiff.1 hs)] at h
    exact (List.cons.inj h).2
  · next hs => rwa [if_neg fun ht => hs (hiff.2 ht)] at h

section SameUnits

theorem eq_of_length_codeUnits (h : utf16 (p :: s) = utf16 (q :: t))
    (hlength : (codeUnits p.toNat).length = (codeUnits q.toNat).length) : p = q ∧ s.utf16 = t.utf16 := by
  rw [utf16_cons, utf16_cons] at h
  obtain ⟨hhead, htail⟩ := List.append_inj h hlength
  exact ⟨CodePoint.toNat_injective (codeUnits_injective p.toNat_le q.toNat_le hhead), htail⟩

theorem startsHalved_of_utf16 {high low : Nat} {us : List Nat} (hp : codeUnits p.toNat = [p.toNat])
    (hhigh : IsHighUnit high) (hlow : IsLowUnit low) (h : utf16 (p :: s) = high :: low :: us) : StartsHalved p s := by
  rw [utf16_cons, hp, List.singleton_append, List.cons.injEq] at h
  obtain ⟨rfl, h⟩ := h
  refine ⟨hhigh, ?_⟩
  cases s with
  | nil => simp [utf16] at h
  | cons q s =>
    refine ⟨q, rfl, ?_⟩
    rw [utf16_cons] at h
    rcases q.codeUnits_cases with hq | ⟨high', low', hq, hhigh', -⟩
    · rw [hq, List.singleton_append, List.cons.injEq] at h
      rwa [h.1]
    · -- a character starts with a high unit
      rw [hq, List.cons_append, List.cons.injEq] at h
      simp only [IsHighUnit, IsLowUnit] at hhigh' hlow
      omega

theorem heads_cases (h : utf16 (p :: s) = utf16 (q :: t)) :
    (p = q ∧ s.utf16 = t.utf16) ∨ (StartsHalved p s ∧ 0x10000 ≤ q.toNat) ∨ (StartsHalved q t ∧ 0x10000 ≤ p.toNat) := by
  rcases p.codeUnits_cases with hp | ⟨high, low, hp, hhigh, hlow, hple⟩ <;>
    rcases q.codeUnits_cases with hq | ⟨high', low', hq, hhigh', hlow', hqle⟩
  · exact .inl (eq_of_length_codeUnits h (by rw [hp, hq]; rfl))
  · rw [utf16_cons q, hq] at h
    exact .inr (.inl ⟨startsHalved_of_utf16 hp hhigh' hlow' h, hqle⟩)
  · rw [utf16_cons p, hp] at h
    exact .inr (.inr ⟨startsHalved_of_utf16 hq hhigh hlow h.symm, hple⟩)
  · exact .inl (eq_of_length_codeUnits h (by rw [hp, hq]; rfl))

theorem eq_of_halved (h : s.utf16 = t.utf16) (hhalved : s.halved pos = t.halved pos) : s = t := by
  induction s generalizing t pos with
  | nil => exact (utf16_eq_nil_iff.1 h.symm).symm
  | cons p s ih =>
    cases t with
    | nil => exact utf16_eq_nil_iff.1 h
    | cons q t =>
      have hiff := startsHalved_iff_of_halved hhalved
      rcases heads_cases h with ⟨rfl, htail⟩ | ⟨hp, hq⟩ | ⟨hq, hp⟩
      · rw [ih htail (halved_tail hhalved)]
      · exact absurd (hiff.1 hp).1 (CodePoint.not_isHighUnit_of_le hq)
      · exact absurd (hiff.2 hq).1 (CodePoint.not_isHighUnit_of_le hp)

theorem head_eq_of_isBlank (hp : p.isBlank = true) (h : utf16 (p :: s) = utf16 (q :: t)) :
    p = q ∧ s.utf16 = t.utf16 := by
  obtain ⟨hhigh, hlt⟩ := CodePoint.toNat_of_isBlank hp
  rcases heads_cases h with heq | ⟨⟨hp, -⟩, -⟩ | ⟨-, hp⟩
  · exact heq
  · exact absurd hp hhigh
  · omega

theorem eq_of_tokens (h : s.utf16 = t.utf16) (htokens : s.tokens = t.tokens) : s = t := by
  fun_induction tokens s generalizing t with
  | case1 => exact (utf16_eq_nil_iff.1 h.symm).symm
  | case2 p s hp ih =>
    cases t with
    | nil => exact utf16_eq_nil_iff.1 h
    | cons q t =>
      obtain ⟨rfl, htail⟩ := head_eq_of_isBlank hp h
      rw [tokens_cons_blank t hp] at htokens
      rw [ih htail htokens]
  | case3 p s hp ih =>
    cases t with
    | nil => exact utf16_eq_nil_iff.1 h
    | cons q t =>
      have hq : q.isBlank = false := by
        by_contra hq
        obtain ⟨rfl, -⟩ := head_eq_of_isBlank (by simpa using hq) h.symm
        exact hp (by simpa using hq)
      rw [tokens_cons t hq, List.cons.injEq, List.cons.injEq] at htokens
      obtain ⟨⟨rfl, hrun⟩, hrest⟩ := htokens
      have hcut (u : Text) : u.takeWhile (!·.isBlank) ++ u.dropWhile (!·.isBlank) = u :=
        List.takeWhile_append_dropWhile
      have hdrop : utf16 (s.dropWhile (!·.isBlank)) = utf16 (t.dropWhile (!·.isBlank)) := by
        rw [utf16_cons, utf16_cons, List.append_cancel_left_eq, ← hcut s, ← hcut t, utf16_append, utf16_append, hrun,
          List.append_cancel_left_eq] at h
        exact h
      rw [← hcut s, ← hcut t, hrun, ih hdrop hrest]

end SameUnits

end Text

namespace ClassList

theorem spaced_of_renamed (t : Text) : (renamed some {} t).text?.getD [] = spaced t.tokens := by
  have hkept : rename some = id := funext fun _ => rfl
  cases ht : t.tokens with
  | nil =>
    rw [renamed_of_tokens_nil ht]
    rfl
  | cons first rest => simp [renamed, ht, gluedRight, edge, Renaming.text?, hkept]

theorem tokens_eq_of_renamed {s t : Text} (h : renamed some {} s = renamed some {} t) : s.tokens = t.tokens := by
  have hread (u : Text) : ((renamed some {} u).text?.getD []).tokens = u.tokens := by
    rw [spaced_of_renamed]
    exact tokens_spaced fun v hv => Text.isToken_of_mem_tokens hv
  rw [← hread s, h, hread]

theorem renamed_eq_iff {s t : Text} (h : s.utf16 = t.utf16) :
    (∀ lookup j, renamed lookup j s = renamed lookup j t) ↔ s.halved 0 = t.halved 0 := by
  constructor
  · intro hall
    rw [Text.eq_of_tokens h (tokens_eq_of_renamed (hall some {}))]
  · intro hhalved lookup j
    rw [Text.eq_of_halved h hhalved]

end ClassList

namespace StringLiteral

theorem spellings_renamed_alike_iff {q q' : Quote} {raw raw' : Text} {us : List Nat} (h : Body q raw us)
    (h' : Body q' raw' us) :
    (∀ lookup j, ClassList.renamed lookup j (cook raw) = ClassList.renamed lookup j (cook raw')) ↔
      (cook raw).halved 0 = (cook raw').halved 0 :=
  ClassList.renamed_eq_iff (h.utf16_cook.trans h'.utf16_cook.symm)

def escapedBody : Text :=
  .ofChars ['b', '\\', 'x', '7', '4', 'n', ' ', '\\', 'u', '\x7b', '1', 'F', '6', '0', '0', '\x7d']

def plainBody : Text := .ofChars ['b', 't', 'n', ' ', '😀']

def btnUnits : List Nat := [0x62, 0x74, 0x6E, 0x20, 0xD83D, 0xDE00]

theorem body_escapedBody : Body .double escapedBody btnUnits :=
  .cons (.source (by decide)) <| .cons (@Character.hex _ ['7', '4'] _ rfl (List.all_eq_true.1 rfl)) <|
    .cons (.source (by decide)) <| .cons (.source (by decide)) <|
    .cons (@Character.braced _ ['1', 'F', '6', '0', '0'] _ (by decide) (List.all_eq_true.1 rfl) (by decide)) .nil

theorem body_plainBody : Body .single plainBody btnUnits :=
  .cons (.source (by decide)) <| .cons (.source (by decide)) <| .cons (.source (by decide)) <|
    .cons (.source (by decide)) <| .cons (.source (by decide)) .nil

theorem spellings_renamed_alike_escaped :
    Body .double escapedBody btnUnits ∧ Body .single plainBody btnUnits ∧
      ∀ lookup j, ClassList.renamed lookup j (cook escapedBody) = ClassList.renamed lookup j (cook plainBody) :=
  ⟨body_escapedBody, body_plainBody,
    (spellings_renamed_alike_iff body_escapedBody body_plainBody).2 (by decide +kernel)⟩

def halvedBody : Text := .ofChars ['\\', 'u', 'd', '8', '3', 'd', '\\', 'u', 'd', 'e', '0', '0']

theorem halved_spelling_not_renamed :
    Body .double halvedBody [0xD83D, 0xDE00] ∧ Body .double (.ofString "😀") [0xD83D, 0xDE00] ∧
      ClassList.renamed (ClassList.only "😀" "a") {} (cook halvedBody) = .none ∧
      ClassList.renamed (ClassList.only "😀" "a") {} (cook (.ofString "😀")) =
        .full (.ofString "a") := by
  refine ⟨?_, ?_, by decide +kernel, by decide +kernel⟩
  · exact .cons (@Character.unicode _ ['d', '8', '3', 'd'] _ rfl (List.all_eq_true.1 rfl)) <|
      .cons (@Character.unicode _ ['d', 'e', '0', '0'] _ rfl (List.all_eq_true.1 rfl)) .nil
  · exact .cons (.source (by decide)) .nil

end StringLiteral

end ShortClass
