import Mathlib.Algebra.Group.Nat.Defs
import Mathlib.Data.List.Basic
import Mathlib.Data.List.Induction
import ShortClass.Proofs.Program.EscapedText
import ShortClass.Text.Digits

/-!
The value of a string literal by the rules of the language, as a sequence of code units, and that cooking the
text of a literal gives it. In strict code the text between the quotes is

    body       = character*
    character  = SOURCE | "\" escape | "\" break
    escape     = SINGLE | OTHER | "0" | "x" HEX HEX | "u" HEX HEX HEX HEX | "u{" HEX+ "}"
    break      = LF | CR | CR LF | LS | PS

A SOURCE character is none of the quote, the backslash, LF and CR. SINGLE are the quotes, the backslash and the
letters of control characters; OTHER is what is neither SINGLE nor a digit nor "x" nor "u" nor a line break. No
digit follows "\0", no LF follows a CR that stands alone, and the number in braces is that of a code point.
-/

namespace ShortClass

def codeUnits (n : Nat) : List Nat :=
  if n < 0x10000 then [n] else [0xD800 + (n - 0x10000) / 0x400, 0xDC00 + (n - 0x10000) % 0x400]

def Text.utf16 (t : Text) : List Nat := t.flatMap fun p => codeUnits p.toNat

theorem Text.utf16_append (s t : Text) : (s ++ t).utf16 = s.utf16 ++ t.utf16 := by
  simp [utf16]

theorem Text.utf16_singleton (p : CodePoint) : utf16 [p] = codeUnits p.toNat := by
  simp [utf16]

theorem CodePoint.toNat_ofNat {n : Nat} (hn : n ≤ 0x10FFFF) : (ofNat n).toNat = n := by
  rw [ofNat]
  split
  · next h =>
    simp only [toNat]
    omega
  · next h =>
    have hvalid : n.isValidChar := by
      simp only [Nat.isValidChar]
      omega
    rw [toNat, Char.ofNat, dif_pos hvalid]
    rfl

namespace StringLiteral

def singleEscapes : List (Char × Nat) :=
  [('\'', 0x27), ('"', 0x22), ('\\', 0x5C), ('b', 0x08), ('f', 0x0C), ('n', 0x0A), ('r', 0x0D), ('t', 0x09),
    ('v', 0x0B)]

def lineBreaks : List Char := ['\n', '\r', '\u2028', '\u2029']

def isDigit : CodePoint → Bool
  | .scalar c => c.isDigit
  | .surrogate _ => false

def isSpecial (p : CodePoint) : Bool :=
  isDigit p || (singleEscapes.map Prod.fst ++ ['x', 'u'] ++ lineBreaks).any (.scalar · == p)

/-- The text starts with a character that stands for the given code units, and goes on with the rest. -/
inductive Character (q : Quote) : Text → List Nat → Text → Prop where
  | source {p : CodePoint} {rest : Text} :
    p ∉ [.scalar q.char, .scalar '\\', .scalar '\n', .scalar '\r'] →
    Character q (p :: rest) (codeUnits p.toNat) rest
  | single {c : Char} {u : Nat} {rest : Text} :
    (c, u) ∈ singleEscapes → Character q (.scalar '\\' :: .scalar c :: rest) [u] rest
  | other {p : CodePoint} {rest : Text} :
    isSpecial p = false → Character q (.scalar '\\' :: p :: rest) (codeUnits p.toNat) rest
  | zero {rest : Text} :
    (∀ p ∈ rest.head?, isDigit p = false) →
    Character q (.scalar '\\' :: .scalar '0' :: rest) [0] rest
  | hex {ds : List Char} {rest : Text} :
    ds.length = 2 → (∀ d ∈ ds, isHexDigit d = true) →
    Character q (.scalar '\\' :: .scalar 'x' :: (Text.ofChars ds ++ rest)) [numberOf 16 ds] rest
  | unicode {ds : List Char} {rest : Text} :
    ds.length = 4 → (∀ d ∈ ds, isHexDigit d = true) →
    Character q (.scalar '\\' :: .scalar 'u' :: (Text.ofChars ds ++ rest)) [numberOf 16 ds] rest
  | braced {ds : List Char} {rest : Text} :
    ds ≠ [] → (∀ d ∈ ds, isHexDigit d = true) → numberOf 16 ds ≤ 0x10FFFF →
    Character q (.scalar '\\' :: .scalar 'u' :: .scalar '\x7b' :: (Text.ofChars ds ++ .scalar '\x7d' :: rest))
      (codeUnits (numberOf 16 ds)) rest
  | lineBreak {b : Char} {rest : Text} :
    b ∈ lineBreaks → (b = '\r' → rest.head? ≠ some (.scalar '\n')) →
    Character q (.scalar '\\' :: .scalar b :: rest) [] rest
  | lineBreakPair {rest : Text} : Character q (.scalar '\\' :: .scalar '\r' :: .scalar '\n' :: rest) [] rest

inductive Body (q : Quote) : Text → List Nat → Prop where
  | nil : Body q [] []
  | cons {t rest : Text} {us vs : List Nat} : Character q t us rest → Body q rest vs → Body q t (us ++ vs)

end StringLiteral

theorem digitValue_lt {d : Char} (h : isHexDigit d = true) : digitValue d < 16 := by
  simp only [isHexDigit, digitValue, Char.isDigit, Bool.or_eq_true, Bool.and_eq_true, decide_eq_true_eq, Char.le_def,
    UInt32.le_iff_toNat_le, ge_iff_le, Char.toNat] at h ⊢
  change (48 ≤ d.val.toNat ∧ d.val.toNat ≤ 57 ∨ 97 ≤ d.val.toNat ∧ d.val.toNat ≤ 102) ∨
    65 ≤ d.val.toNat ∧ d.val.toNat ≤ 70 at h
  change (if 48 ≤ d.val.toNat ∧ d.val.toNat ≤ 57 then d.val.toNat - 48
    else if 97 ≤ d.val.toNat then d.val.toNat - 87 else d.val.toNat - 55) < 16
  split
  · omega
  split <;> omega

theorem numberOf_lt {ds : List Char} (h : ∀ d ∈ ds, isHexDigit d = true) : numberOf 16 ds < 16 ^ ds.length := by
  induction ds using List.reverseRecOn with
  | nil => decide
  | append_singleton ds d ih =>
    have hd := digitValue_lt (h d (by simp))
    have hds := ih fun e he => h e (by simp [he])
    rw [numberOf_append, List.length_append, List.length_singleton, Nat.pow_succ]
    omega

namespace Escape

theorem hexDigit?_of_isHexDigit {d : Char} (h : isHexDigit d = true) : hexDigit? (.scalar d) = some (digitValue d) := by
  have hdigit : d.isDigit = true ↔ '0' ≤ d ∧ d ≤ '9' := by simp [Char.isDigit, Char.le_def]
  simp only [isHexDigit, Bool.or_eq_true, Bool.and_eq_true, decide_eq_true_eq] at h
  rw [hexDigit?, digitValue]
  simp only [← hdigit]
  split
  · rfl
  · next hd =>
    by_cases ha : 'a' ≤ d
    · have hf : d ≤ 'f' := by
        rcases h with (h | h) | h
        · exact absurd h hd
        · exact h.2
        · exact absurd (Char.le_trans ha h.2) (by decide)
      rw [if_pos ⟨ha, hf⟩, if_pos ha]
    · have hA : 'A' ≤ d ∧ d ≤ 'F' := by
        rcases h with (h | h) | h
        · exact absurd h hd
        · exact absurd h.1 ha
        · exact h
      rw [if_neg fun hn => ha hn.1, if_pos hA, if_neg ha]

theorem isHex_of_isHexDigit {d : Char} (h : isHexDigit d = true) : isHex (.scalar d) = true := by
  rw [isHex, hexDigit?_of_isHexDigit h, Option.isSome_some]

theorem hexNumber_ofChars {ds : List Char} (h : ∀ d ∈ ds, isHexDigit d = true) :
    hexNumber (Text.ofChars ds) = numberOf 16 ds := by
  rw [hexNumber, numberOf, Text.ofChars, List.foldl_map]
  refine List.foldl_ext _ _ _ fun n d hd => ?_
  rw [hexDigit?_of_isHexDigit (h d hd), Option.getD_some]

theorem isHex_of_mem_ofChars {ds : List Char} (h : ∀ d ∈ ds, isHexDigit d = true) :
    ∀ p ∈ Text.ofChars ds, isHex p = true := by
  intro p hp
  obtain ⟨d, hd, rfl⟩ := List.mem_map.1 hp
  exact isHex_of_isHexDigit (h d hd)

theorem fixed?_ofChars {ds : List Char} (h : ∀ d ∈ ds, isHexDigit d = true) (rest : Text) :
    fixed? ds.length (Text.ofChars ds ++ rest) = some (numberOf 16 ds) := by
  have hlen : (Text.ofChars ds).length = ds.length := List.length_map _
  have hall : (Text.ofChars ds).all isHex = true := List.all_eq_true.2 (isHex_of_mem_ofChars h)
  rw [fixed?, List.take_left' hlen, hlen, hall, hexNumber_ofChars h]
  simp

theorem braced?_ofChars {ds : List Char} (hne : ds ≠ []) (h : ∀ d ∈ ds, isHexDigit d = true) (rest : Text) :
    braced? (.scalar '\x7b' :: (Text.ofChars ds ++ .scalar '\x7d' :: rest)) =
      some (numberOf 16 ds, ds.length + 2) := by
  have hlen : (Text.ofChars ds).length = ds.length := List.length_map _
  have hempty : (Text.ofChars ds).isEmpty = false := by simpa [Text.ofChars] using hne
  have hclose : isHex (.scalar '\x7d') = false := by decide
  have hds : (Text.ofChars ds ++ .scalar '\x7d' :: rest).takeWhile isHex = Text.ofChars ds := by
    rw [List.takeWhile_append_of_pos (isHex_of_mem_ofChars h), List.takeWhile_cons_of_neg (by simp [hclose]),
      List.append_nil]
  have hnext : (Text.ofChars ds ++ .scalar '\x7d' :: rest)[ds.length]? = some (.scalar '\x7d') := by
    rw [← hlen, List.getElem?_append_right (Nat.le_refl _), Nat.sub_self, List.getElem?_cons_zero]
  rw [braced?]
  simp only [hds, hlen, hnext, hempty, hexNumber_ofChars h]
  simp

theorem braced?_eq_none {t : Text} (h : t.head? ≠ some (.scalar '\x7b')) : braced? t = none := by
  rw [braced?]
  rintro u rfl
  exact h rfl

theorem read?_hex {ds : List Char} (hlen : ds.length = 2) (h : ∀ d ∈ ds, isHexDigit d = true) (rest : Text) :
    read? (.scalar 'x' :: (Text.ofChars ds ++ rest)) = some ([.ofNat (numberOf 16 ds)], 3) := by
  rw [read?, ← hlen, fixed?_ofChars h]

theorem read?_unicode {ds : List Char} (hlen : ds.length = 4) (h : ∀ d ∈ ds, isHexDigit d = true) (rest : Text) :
    read? (.scalar 'u' :: (Text.ofChars ds ++ rest)) = some ([.ofNat (numberOf 16 ds)], 5) := by
  have hbraced : braced? (Text.ofChars ds ++ rest) = none := by
    apply braced?_eq_none
    obtain ⟨d, es, rfl⟩ := List.exists_cons_of_length_eq_add_one hlen
    have hd := h d (by simp)
    simp only [Text.ofChars, List.map_cons, List.cons_append, List.head?_cons, ne_eq, Option.some.injEq,
      CodePoint.scalar.injEq]
    rintro rfl
    exact absurd hd (by decide)
  rw [read?, hbraced, ← hlen, fixed?_ofChars h]

theorem read?_braced {ds : List Char} (hne : ds ≠ []) (h : ∀ d ∈ ds, isHexDigit d = true)
    (hle : numberOf 16 ds ≤ 0x10FFFF) (rest : Text) :
    read? (.scalar 'u' :: .scalar '\x7b' :: (Text.ofChars ds ++ .scalar '\x7d' :: rest)) =
      some ([.ofNat (numberOf 16 ds)], ds.length + 3) := by
  rw [read?, braced?_ofChars hne h]
  simp only [Nat.min_eq_left hle]

theorem read?_single {p : CodePoint} (hu : p ≠ .scalar 'u') (hx : p ≠ .scalar 'x') {rest : Text}
    (hr : p = .scalar '\r' → rest.head? ≠ some (.scalar '\n')) : read? (p :: rest) = some (single p, 1) := by
  rw [read?]
  · exact hu
  · exact hx
  · rintro t rfl rfl
    exact hr rfl rfl

end Escape

namespace StringLiteral

variable {q : Quote} {t rest : Text} {us : List Nat}

theorem read?_of_mem_singleEscapes {c : Char} {u : Nat} (h : (c, u) ∈ singleEscapes) (rest : Text) :
    Escape.read? (.scalar c :: rest) = some ([.ofNat u], 1) ∧ u < 0x10000 := by
  simp only [singleEscapes, List.mem_cons, Prod.mk.injEq, List.not_mem_nil, or_false] at h
  rcases h with ⟨rfl, rfl⟩ | ⟨rfl, rfl⟩ | ⟨rfl, rfl⟩ | ⟨rfl, rfl⟩ | ⟨rfl, rfl⟩ | ⟨rfl, rfl⟩ | ⟨rfl, rfl⟩ |
    ⟨rfl, rfl⟩ | ⟨rfl, rfl⟩ <;>
  exact ⟨rfl, by decide⟩

theorem single_of_not_isSpecial {p : CodePoint} (h : isSpecial p = false) : Escape.single p = [p] := by
  rw [Escape.single] <;> rintro rfl <;> exact absurd h (by decide)

theorem single_of_mem_lineBreaks {b : Char} (h : b ∈ lineBreaks) : Escape.single (.scalar b) = [] := by
  simp only [lineBreaks, List.mem_cons, List.not_mem_nil, or_false] at h
  rcases h with rfl | rfl | rfl | rfl <;> rfl

theorem exists_value_of_read? {v : Text} {n : Nat} (h : Escape.read? t = some (v, n)) (hrest : t.drop n = rest) :
    ∃ w, cook (.scalar '\\' :: t) = w ++ cook rest ∧ w.utf16 = v.utf16 :=
  ⟨v, hrest ▸ cook_escaped h, rfl⟩

theorem utf16_ofNat {n : Nat} (hn : n ≤ 0x10FFFF) : Text.utf16 [.ofNat n] = codeUnits n := by
  rw [Text.utf16_singleton, CodePoint.toNat_ofNat hn]

theorem utf16_ofNat_of_lt {n : Nat} (hn : n < 0x10000) : Text.utf16 [.ofNat n] = [n] := by
  rw [utf16_ofNat (by omega), codeUnits, if_pos hn]

theorem Character.exists_value (h : Character q t us rest) : ∃ v, cook t = v ++ cook rest ∧ v.utf16 = us := by
  cases h with
  | @source p _ hp =>
    have hne : p ≠ .scalar '\\' := by
      rintro rfl
      simp at hp
    exact ⟨[p], cook_cons hne rest, Text.utf16_singleton p⟩
  | @single c u _ hc =>
    obtain ⟨hread, hu⟩ := read?_of_mem_singleEscapes hc rest
    rw [← utf16_ofNat_of_lt hu]
    exact exists_value_of_read? hread rfl
  | @other p _ hp =>
    have hne {c : Char} (hc : isSpecial (.scalar c) = true) : p ≠ .scalar c := by
      rintro rfl
      rw [hc] at hp
      cases hp
    have hread : Escape.read? (p :: rest) = some (Escape.single p, 1) :=
      Escape.read?_single (hne (by decide)) (hne (by decide)) fun hr => absurd hr (hne (by decide))
    rw [single_of_not_isSpecial hp] at hread
    rw [← Text.utf16_singleton]
    exact exists_value_of_read? hread rfl
  | zero => exact exists_value_of_read? (v := [.scalar '\x00']) (n := 1) rfl rfl
  | @hex ds _ hlen hds =>
    have hlt : numberOf 16 ds < 16 ^ ds.length := numberOf_lt hds
    rw [hlen] at hlt
    rw [← utf16_ofNat_of_lt (n := numberOf 16 ds) (by omega)]
    exact exists_value_of_read? (Escape.read?_hex hlen hds rest) (List.drop_left' (by simp [Text.ofChars, hlen]))
  | @unicode ds _ hlen hds =>
    have hlt : numberOf 16 ds < 16 ^ ds.length := numberOf_lt hds
    rw [hlen] at hlt
    rw [← utf16_ofNat_of_lt (n := numberOf 16 ds) (by omega)]
    exact exists_value_of_read? (Escape.read?_unicode hlen hds rest) (List.drop_left' (by simp [Text.ofChars, hlen]))
  | @braced ds _ hne hds hle =>
    rw [← utf16_ofNat hle]
    refine exists_value_of_read? (Escape.read?_braced hne hds hle rest) ?_
    rw [List.drop_succ_cons, List.drop_succ_cons, ← List.drop_drop, List.drop_left' (by simp [Text.ofChars])]
    rfl
  | @lineBreak b _ hb hr =>
    have hne {c : Char} (hc : c ∉ lineBreaks) : CodePoint.scalar b ≠ .scalar c := by
      rintro ⟨⟩
      exact hc hb
    have hread : Escape.read? (.scalar b :: rest) = some (Escape.single (.scalar b), 1) :=
      Escape.read?_single (hne (by decide)) (hne (by decide)) fun h => hr (CodePoint.scalar.inj h)
    rw [single_of_mem_lineBreaks hb] at hread
    exact exists_value_of_read? hread rfl
  | lineBreakPair => exact exists_value_of_read? (v := []) (n := 2) rfl rfl

theorem Body.utf16_cook (h : Body q t us) : (cook t).utf16 = us := by
  induction h with
  | nil => rw [cook]; rfl
  | cons hc _ ih =>
    obtain ⟨v, hv, hunits⟩ := hc.exists_value
    rw [hv, Text.utf16_append, hunits, ih]

theorem cook_eq_string_value (h : Body q t us) : (cook t).utf16 = us ∧ ∀ vs, Body q t vs → vs = us :=
  ⟨h.utf16_cook, fun _ hvs => hvs.utf16_cook.symm.trans h.utf16_cook⟩

def mixedBody : Text :=
  .ofChars ['a', '\\', 'x', '4', '1', '\\', 'u', '\x7b', '1', 'F', '6', '0', '0', '\x7d', '\\', '\r', '\n', '\\', '0',
    '\\', 'q', '\\', '\'']

theorem cook_eq_string_value_mixed :
    Body .double mixedBody [0x61, 0x41, 0xD83D, 0xDE00, 0, 0x71, 0x27] ∧
      (cook mixedBody).utf16 = [0x61, 0x41, 0xD83D, 0xDE00, 0, 0x71, 0x27] := by
  have h : Body .double mixedBody [0x61, 0x41, 0xD83D, 0xDE00, 0, 0x71, 0x27] :=
    .cons (.source (by decide)) <| .cons (@Character.hex _ ['4', '1'] _ rfl (List.all_eq_true.1 rfl)) <|
      .cons (@Character.braced _ ['1', 'F', '6', '0', '0'] _ (by decide) (List.all_eq_true.1 rfl) (by decide)) <|
      .cons .lineBreakPair <| .cons (.zero (by decide)) <| .cons (.other (by decide)) <|
      .cons (.single (by decide)) .nil
  exact ⟨h, (cook_eq_string_value h).1⟩

end StringLiteral

end ShortClass
