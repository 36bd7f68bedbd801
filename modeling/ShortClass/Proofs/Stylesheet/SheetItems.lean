import ShortClass.Proofs.Stylesheet.ClosedText

namespace ShortClass.Stylesheet

structure Item where
  kind : Option Token.Kind
  text : List Char
  start : Nat
  deriving DecidableEq

def Item.token? (i : Item) : Option Token := i.kind.map fun k => ⟨k, i.text, i.start⟩

def itemsFrom (pos : Nat) : List Char → List Item
  | [] => []
  | c :: t =>
    match skipped c t with
    | some n => ⟨none, c :: t.take n, pos⟩ :: itemsFrom (pos + 1 + n) (t.drop n)
    | none =>
      match lexeme c t with
      | some (kind, n) => ⟨some kind, c :: t.take n, pos⟩ :: itemsFrom (pos + 1 + n) (t.drop n)
      | none => []
termination_by t => t.length

section Skipped

variable {c : Char} {t : List Char} {n : Nat}

theorem commentTail_spec (h : commentTail t = some n) :
    (t.take n).getLast? = some '/' ∧ ∀ r, commentTail (t.take n ++ r) = some n := by
  induction t generalizing n with
  | nil => simp [commentTail] at h
  | cons c t ih =>
    rw [commentTail] at h
    split at h
    · next hc =>
      cases h
      cases t with
      | nil => simp at hc
      | cons d t =>
        obtain ⟨rfl, hd⟩ := hc
        obtain rfl : d = '/' := by simpa using hd
        exact ⟨by simp, fun r => by simp [commentTail]⟩
    · next hc =>
      obtain ⟨m, hm, rfl⟩ := Option.map_eq_some_iff.1 h
      obtain ⟨hlast, hpre⟩ := ih hm
      cases m with
      | zero => simp at hlast
      | succ m =>
        cases t with
        | nil => simp at hlast
        | cons d t =>
          refine ⟨by simpa using hlast, fun r => ?_⟩
          have hr := hpre r
          simp only [List.take_succ_cons, List.cons_append, List.head?_cons] at hc hr ⊢
          rw [commentTail, List.head?_cons, if_neg hc, hr]
          rfl

theorem skipped_spec (h : skipped c t = some n) :
    n ≤ t.length ∧ Closed (c :: t.take n) ∧ ∀ r, skipped c (t.take n ++ r) = some n := by
  rw [skipped] at h
  split at h
  · next hc =>
    cases h
    refine ⟨Nat.zero_le _, .char (by rintro rfl; simp at hc) .nil, fun r => ?_⟩
    rw [skipped, if_pos hc]
  split at h
  · next hb hc =>
    obtain ⟨rfl, hhead⟩ := hc
    cases t with
    | nil => simp at hhead
    | cons d t =>
      obtain rfl : d = '*' := by simpa using hhead
      obtain ⟨m, hm, rfl⟩ := Option.map_eq_some_iff.1 h
      rw [List.tail_cons] at hm
      obtain ⟨hlast, hpre⟩ := commentTail_spec hm
      have hcl : Closed (t.take m) := .of_getLast? (by simp [hlast])
      refine ⟨?_, .char (by decide) (.char (by decide) hcl), fun r => ?_⟩
      · simpa using commentTail_le hm
      · have hr := hpre r
        simp [skipped, hr]
  split at h
  · next hb hs hc =>
    obtain ⟨rfl, htake⟩ := hc
    cases h
    have hlen := congrArg List.length htake
    simp only [List.length_take, List.length_cons, List.length_nil] at hlen
    rw [htake]
    refine ⟨by omega, .of_getLast? (by decide), fun r => by simp [skipped]⟩
  split at h
  · next hb hs hm hc =>
    obtain ⟨rfl, htake⟩ := hc
    cases h
    have hlen := congrArg List.length htake
    simp only [List.length_take, List.length_cons, List.length_nil] at hlen
    rw [htake]
    refine ⟨by omega, .of_getLast? (by decide), fun r => by simp [skipped]⟩
  · simp at h

end Skipped

section Lexeme

variable {c : Char} {t : List Char} {n : Nat} {kind : Token.Kind}

theorem isKeywordChar_ne_backslash (h : isKeywordChar c = true) : c ≠ '\\' := by
  rintro rfl
  exact absurd h (by decide)

theorem lexeme_cases (h : lexeme c t = some (kind, n)) :
    (n = 0 ∧ (c = '\x7b' ∧ kind = .lbrace ∨ c = '\x7d' ∧ kind = .rbrace ∨ c = ';' ∧ kind = .semicolon)) ∨
      (c = '@' ∧ kind = .atKeyword ∧ n = (t.takeWhile isKeywordChar).length ∧ 0 < n) ∨
      (c ≠ '\x7b' ∧ c ≠ '\x7d' ∧ c ≠ ';' ∧ c ≠ '@' ∧ isSpace c = false ∧ kind = .prelude ∧
        preludeRun (c :: t) = n + 1) := by
  rw [lexeme] at h
  split at h
  · next hc =>
    cases h
    exact .inl ⟨rfl, .inl ⟨hc, rfl⟩⟩
  split at h
  · next hc =>
    cases h
    exact .inl ⟨rfl, .inr (.inl ⟨hc, rfl⟩)⟩
  split at h
  · next hc =>
    cases h
    exact .inl ⟨rfl, .inr (.inr ⟨hc, rfl⟩)⟩
  split at h
  · next hc =>
    simp only at h
    split at h
    · simp at h
    · cases h
      exact .inr (.inl ⟨hc, rfl, rfl, by omega⟩)
  split at h
  · simp at h
  · next h1 h2 h3 h4 hs =>
    obtain ⟨m, hm, h⟩ := Option.map_eq_some_iff.1 h
    cases h
    refine .inr (.inr ⟨h1, h2, h3, h4, by simpa using hs, rfl, ?_⟩)
    rw [preludeRun_of_some hm]
    omega

theorem lexeme_of_preludeRun (h1 : c ≠ '\x7b') (h2 : c ≠ '\x7d') (h3 : c ≠ ';') (h4 : c ≠ '@')
    (hs : isSpace c = false) (h : preludeRun (c :: t) = n + 1) : lexeme c t = some (.prelude, n) := by
  cases hp : preludePiece c t with
  | none =>
    rw [preludeRun_of_none hp] at h
    omega
  | some m =>
    rw [preludeRun_of_some hp] at h
    have hn : m + preludeRun (t.drop m) = n := by omega
    simp [lexeme, h1, h2, h3, h4, hs, hp, hn]

theorem closed_lexeme (h : lexeme c t = some (kind, n)) : n ≤ t.length ∧ Closed (c :: t.take n) := by
  rcases lexeme_cases h with ⟨rfl, hc⟩ | ⟨rfl, -, hn, -⟩ | ⟨-, -, -, -, -, -, hrun⟩
  · refine ⟨Nat.zero_le _, .char ?_ .nil⟩
    rcases hc with ⟨rfl, -⟩ | ⟨rfl, -⟩ | ⟨rfl, -⟩ <;> decide
  · have htake : t.take n = t.takeWhile isKeywordChar := by
      rw [hn]
      exact (List.prefix_iff_eq_take.1 (List.takeWhile_prefix _)).symm
    refine ⟨hn ▸ (List.takeWhile_prefix _).length_le, .char (by decide) (.of_getLast? fun hl => ?_)⟩
    rw [htake] at hl
    exact isKeywordChar_ne_backslash (List.all_eq_true.1 List.all_takeWhile _ (List.mem_of_getLast? hl)) rfl
  · obtain ⟨hle, hcl⟩ := closed_preludeRun (c :: t)
    rw [hrun] at hle hcl
    exact ⟨by simpa using hle, hcl⟩

end Lexeme

section Recursion

variable {pos : Nat} {c : Char} {t : List Char} {n : Nat} {kind : Token.Kind}

theorem scanFrom_of_skipped (h : skipped c t = some n) :
    scanFrom pos (c :: t) = scanFrom (pos + 1 + n) (t.drop n) := by
  rw [scanFrom, h]

theorem scanFrom_of_lexeme (h : skipped c t = none) (hl : lexeme c t = some (kind, n)) :
    scanFrom pos (c :: t) =
      { scanFrom (pos + 1 + n) (t.drop n) with
        tokens := ⟨kind, c :: t.take n, pos⟩ :: (scanFrom (pos + 1 + n) (t.drop n)).tokens } := by
  rw [scanFrom, h, hl]

theorem itemsFrom_of_skipped (h : skipped c t = some n) :
    itemsFrom pos (c :: t) = ⟨none, c :: t.take n, pos⟩ :: itemsFrom (pos + 1 + n) (t.drop n) := by
  rw [itemsFrom, h]

theorem itemsFrom_of_lexeme (h : skipped c t = none) (hl : lexeme c t = some (kind, n)) :
    itemsFrom pos (c :: t) = ⟨some kind, c :: t.take n, pos⟩ :: itemsFrom (pos + 1 + n) (t.drop n) := by
  rw [itemsFrom, h, hl]

end Recursion

theorem tokens_scanFrom (pos : Nat) (s : List Char) :
    (scanFrom pos s).tokens = (itemsFrom pos s).filterMap Item.token? := by
  fun_induction itemsFrom pos s with
  | case1 pos => simp [scanFrom]
  | case2 pos c t n h ih =>
    rw [scanFrom_of_skipped h, ih]
    rfl
  | case3 pos c t h kind n hl ih =>
    rw [scanFrom_of_lexeme h hl, ih]
    simp [Item.token?]
  | case4 pos c t h hl => rw [scanFrom, h, hl]; rfl

theorem text_itemsFrom {pos : Nat} {s : List Char} (h : (scanFrom pos s).unreadable = none) :
    (itemsFrom pos s).flatMap Item.text = s := by
  fun_induction itemsFrom pos s with
  | case1 pos => rfl
  | case2 pos c t n hs ih =>
    rw [scanFrom_of_skipped hs] at h
    simp [ih h]
  | case3 pos c t hs kind n hl ih =>
    rw [scanFrom_of_lexeme hs hl] at h
    simp [ih h]
  | case4 pos c t hs hl =>
    rw [scanFrom, hs, hl] at h
    simp at h

theorem closed_of_mem_itemsFrom {pos : Nat} {s : List Char} {i : Item} (h : i ∈ itemsFrom pos s) : Closed i.text := by
  fun_induction itemsFrom pos s with
  | case1 pos => simp at h
  | case2 pos c t n hs ih =>
    rcases List.mem_cons.1 h with rfl | h
    · exact (skipped_spec hs).2.1
    · exact ih h
  | case3 pos c t hs kind n hl ih =>
    rcases List.mem_cons.1 h with rfl | h
    · exact (closed_lexeme hl).2
    · exact ih h
  | case4 pos c t hs hl => simp at h

end ShortClass.Stylesheet
