import ShortClass.Program.Escape

namespace ShortClass

namespace Escape

theorem hexDigit?_digitChar {d : Nat} (hd : d < 16) : hexDigit? (.scalar (Nat.digitChar d)) = some d := by
  have h : ∀ d < 16, hexDigit? (.scalar (Nat.digitChar d)) = some d := by decide
  exact h d hd

theorem fixed?_fourDigits {n : Nat} (hn : n < 65536) (rest : Text) :
    fixed? 4 (Text.ofChars (fourDigits n) ++ rest) = some n := by
  have htake : (Text.ofChars (fourDigits n) ++ rest).take 4 = Text.ofChars (fourDigits n) := by
    simp [fourDigits, Text.ofChars]
  have h0 := hexDigit?_digitChar (Nat.mod_lt n (by decide : 0 < 16))
  have h1 := hexDigit?_digitChar (Nat.mod_lt (n / 16) (by decide : 0 < 16))
  have h2 := hexDigit?_digitChar (Nat.mod_lt (n / 256) (by decide : 0 < 16))
  have h3 := hexDigit?_digitChar (Nat.mod_lt (n / 4096) (by decide : 0 < 16))
  rw [fixed?, htake]
  simp only [fourDigits, Text.ofChars, List.map_cons, List.map_nil, List.length_cons, List.length_nil, hexNumber,
    List.foldl_cons, List.foldl_nil, List.all_cons, List.all_nil, isHex, h0, h1, h2, h3, Option.isSome_some,
    Option.getD_some]
  simp only [BEq.rfl, Bool.and_self, if_true, Option.some.injEq]
  omega

theorem read?_fourDigits {n : Nat} (hn : n < 65536) (rest : Text) :
    read? (Text.ofChars ('u' :: fourDigits n) ++ rest) = some ([.ofNat n], 5) := by
  have hbraced : braced? (Text.ofChars (fourDigits n) ++ rest) = none := by
    have hne : ∀ d < 16, Nat.digitChar d ≠ '\x7b' := by decide
    have h3 := hne (n / 4096 % 16) (Nat.mod_lt _ (by decide))
    simp only [fourDigits, Text.ofChars, List.map_cons, List.cons_append]
    rw [braced?]
    simp [h3]
  have hfixed := fixed?_fourDigits hn rest
  rw [Text.ofChars, List.map_cons, List.cons_append, read?]
  rw [Text.ofChars] at hbraced hfixed
  rw [hbraced, hfixed]

end Escape

def Quote.reserved : Quote → List Char
  | .backtick => ['\x60', '$']
  | q => [q.char, '\n', '\r', '\u2028', '\u2029']

/-- The characters that stand bare in the text of a literal, each with the text after it. A backslash is taken with
the character after it, and there is no such list if the text ends between the two. -/
def bare? : List Char → Option (List (Char × List Char))
  | [] => some []
  | ['\\'] => none
  | '\\' :: _ :: t => bare? t
  | c :: t => (bare? t).map ((c, t) :: ·)

theorem bare?_cons {c : Char} (hc : c ≠ '\\') (t : List Char) : bare? (c :: t) = (bare? t).map ((c, t) :: ·) := by
  rw [bare?]
  · intro h; exact absurd h hc
  · intro d u h; exact absurd h hc

def Unreserved (q : Quote) (t : List Char) : Prop := ∃ cs, bare? t = some cs ∧ ∀ c ∈ cs, c.1 ∉ q.reserved

theorem Unreserved.cons {q : Quote} {c : Char} {t : List Char} (hc : c ≠ '\\') (hq : c ∉ q.reserved)
    (h : Unreserved q t) : Unreserved q (c :: t) := by
  obtain ⟨cs, hcs, hall⟩ := h
  exact ⟨(c, t) :: cs, by rw [bare?_cons hc, hcs, Option.map_some], List.forall_mem_cons.2 ⟨hq, hall⟩⟩

def endsLiteral (q : Quote) (c : Char) (t : List Char) : Bool :=
  match q with
  | .backtick => c == '\x60' || (c == '$' && t.head? == some '\x7b')
  | _ => c == q.char || c == '\n' || c == '\r'

theorem mem_reserved_of_endsLiteral {q : Quote} {c : Char} {t : List Char} (h : endsLiteral q c t = true) :
    c ∈ q.reserved := by
  cases q <;> simp only [endsLiteral, Bool.or_eq_true, Bool.and_eq_true, beq_iff_eq] at h
  · rcases h with (rfl | rfl) | rfl <;> decide
  · rcases h with (rfl | rfl) | rfl <;> decide
  · rcases h with rfl | ⟨rfl, -⟩ <;> decide

def isContained (q : Quote) (t : List Char) : Bool := (bare? t).any fun cs => cs.all fun c => !endsLiteral q c.1 c.2

theorem Unreserved.isContained {q : Quote} {t : List Char} (h : Unreserved q t) : isContained q t = true := by
  obtain ⟨cs, hcs, hall⟩ := h
  rw [ShortClass.isContained, hcs, Option.any_some, List.all_eq_true]
  intro c hc
  cases hends : endsLiteral q c.1 c.2 with
  | false => rfl
  | true => exact absurd (mem_reserved_of_endsLiteral hends) (hall c hc)

namespace Escape

theorem special?_of_ne_backtick {q : Quote} (hq : q ≠ .backtick) (c : Char) :
    special? q c =
      if c = '\\' ∨ c = q.char then some ['\\', c]
      else if c = '\n' then some ['\\', 'n']
      else if c = '\r' then some ['\\', 'r']
      else if c = '\u2028' ∨ c = '\u2029' then some ('\\' :: 'u' :: fourDigits c.toNat)
      else none := by
  cases q with
  | backtick => exact absurd rfl hq
  | double => rfl
  | single => rfl

def Written (q : Quote) (a : CodePoint) : Prop :=
  (∃ c, a = .scalar c ∧ codePoint q a = [c] ∧ c ≠ '\\' ∧ c ∉ q.reserved) ∨
    (∃ d, codePoint q a = ['\\', d] ∧ ∀ rest, read? (.scalar d :: rest) = some ([a], 1)) ∨
    ∃ n < 65536, codePoint q a = '\\' :: 'u' :: fourDigits n ∧ .ofNat n = a

theorem written_backtick (c : Char) : Written .backtick (.scalar c) := by
  by_cases hc : c = '\\' ∨ c = '\x60' ∨ c = '$'
  · refine .inr (.inl ⟨c, by simp [codePoint, special?, hc], fun rest => ?_⟩)
    rcases hc with rfl | rfl | rfl <;> rfl
  · refine .inl ⟨c, rfl, by simp [codePoint, special?, hc], fun h => hc (.inl h), ?_⟩
    simp only [not_or] at hc
    simp [Quote.reserved, hc]

theorem written_quoted {q : Quote} (hq : q ≠ .backtick) (c : Char) : Written q (.scalar c) := by
  have hcode : codePoint q (.scalar c) = (special? q c).getD [c] := rfl
  rw [special?_of_ne_backtick hq] at hcode
  by_cases h1 : c = '\\' ∨ c = q.char
  · rw [if_pos h1] at hcode
    refine .inr (.inl ⟨c, hcode, fun rest => ?_⟩)
    rcases h1 with rfl | rfl
    · rfl
    · cases q <;> rfl
  rw [if_neg h1] at hcode
  by_cases h2 : c = '\n'
  · rw [if_pos h2] at hcode
    subst h2
    exact .inr (.inl ⟨'n', hcode, fun rest => rfl⟩)
  rw [if_neg h2] at hcode
  by_cases h3 : c = '\r'
  · rw [if_pos h3] at hcode
    subst h3
    exact .inr (.inl ⟨'r', hcode, fun rest => rfl⟩)
  rw [if_neg h3] at hcode
  by_cases h4 : c = '\u2028' ∨ c = '\u2029'
  · rw [if_pos h4] at hcode
    refine .inr (.inr ⟨c.toNat, ?_, hcode, CodePoint.ofNat_toNat (.scalar c)⟩)
    rcases h4 with rfl | rfl <;> decide
  · rw [if_neg h4] at hcode
    simp only [not_or] at h1 h4
    refine .inl ⟨c, rfl, hcode, h1.1, ?_⟩
    cases q with
    | backtick => exact absurd rfl hq
    | double => simp [Quote.reserved, h1, h2, h3, h4]
    | single => simp [Quote.reserved, h1, h2, h3, h4]

theorem written (q : Quote) (a : CodePoint) : Written q a := by
  cases a with
  | surrogate n =>
    refine .inr (.inr ⟨0xD800 + n, by omega, rfl, ?_⟩)
    exact CodePoint.ofNat_toNat (.surrogate n)
  | scalar c =>
    by_cases hq : q = .backtick
    · subst hq
      exact written_backtick c
    · exact written_quoted hq c

theorem unreserved_fourDigits (q : Quote) (n : Nat) {rest : List Char} (h : Unreserved q rest) :
    Unreserved q (fourDigits n ++ rest) := by
  have hdigit : ∀ d < 16, Nat.digitChar d ≠ '\\' ∧ Nat.digitChar d ∉ q.reserved := by
    cases q <;> decide
  have hcons (d : Nat) {t : List Char} (ht : Unreserved q t) : Unreserved q (Nat.digitChar (d % 16) :: t) := by
    obtain ⟨hne, hmem⟩ := hdigit (d % 16) (Nat.mod_lt _ (by decide))
    exact ht.cons hne hmem
  exact hcons _ (hcons _ (hcons _ (hcons _ h)))

end Escape

theorem cook_cons {a : CodePoint} (ha : a ≠ .scalar '\\') (t : Text) : cook (a :: t) = a :: cook t := by
  rw [cook, if_neg ha]

theorem cook_escaped {t value : Text} {n : Nat} (h : Escape.read? t = some (value, n)) :
    cook (.scalar '\\' :: t) = value ++ cook (t.drop n) := by
  rw [cook, if_pos rfl, h]

theorem cook_codePoint (q : Quote) (a : CodePoint) (rest : Text) :
    cook (Text.ofChars (Escape.codePoint q a) ++ rest) = a :: cook rest := by
  rcases Escape.written q a with ⟨c, rfl, hc, hne, -⟩ | ⟨d, hd, hread⟩ | ⟨n, hn, hcode, rfl⟩
  · rw [hc]
    exact cook_cons (by simpa using hne) rest
  · rw [hd]
    exact cook_escaped (hread rest)
  · rw [hcode]
    have hread := cook_escaped (Escape.read?_fourDigits hn rest)
    rw [List.drop_left' (by simp [Text.ofChars, Escape.fourDigits])] at hread
    exact hread

theorem cook_escape (q : Quote) (t : Text) : cook (Text.ofChars (escape q t)) = t := by
  induction t with
  | nil => exact cook.eq_1
  | cons a t ih =>
    rw [escape, List.flatMap_cons, Text.ofChars_append, cook_codePoint]
    exact congrArg (a :: ·) ih

theorem unreserved_escape (q : Quote) (t : Text) : Unreserved q (escape q t) := by
  induction t with
  | nil => exact ⟨[], rfl, by simp⟩
  | cons a t ih =>
    rw [escape, List.flatMap_cons]
    rcases Escape.written q a with ⟨c, -, hc, hne, hfree⟩ | ⟨d, hd, -⟩ | ⟨n, -, hcode, -⟩
    · rw [hc]
      exact ih.cons hne hfree
    · rw [hd]
      exact ih
    · rw [hcode]
      exact Escape.unreserved_fourDigits q n ih

theorem escape_stays_inside (q : Quote) (t : Text) :
    cook (Text.ofChars (escape q t)) = t ∧
      (∃ cs, bare? (escape q t) = some cs ∧ ∀ c ∈ cs, c.1 ∉ q.reserved) ∧
      (∀ p ∈ Text.ofChars (escape q t), p.toChar?.isSome = true) ∧
      (escape q t).utf8Encode.utf8Decode? = some (escape q t).toArray :=
  ⟨cook_escape q t, unreserved_escape q t, by simp [Text.ofChars, CodePoint.toChar?],
    List.utf8Decode?_utf8Encode⟩

end ShortClass
