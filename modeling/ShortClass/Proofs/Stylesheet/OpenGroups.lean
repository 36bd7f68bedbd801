import ShortClass.Proofs.Outcome
import ShortClass.Proofs.Stylesheet.SheetItems

/-!
How far the reading of a sheet depends on the text after it. A line feed ends every token but one: a group
in parentheses that has no end in the sheet may find one in the text that follows.
-/

namespace ShortClass.Stylesheet

def groupRunsOut : List Char → Bool
  | [] => true
  | ['\\'] => true
  | '\\' :: _ :: t => groupRunsOut t
  | c :: t =>
    if c = ')' ∨ c = '(' then false
    else if isQuote c then
      match stringTail c t with
      | some n => groupRunsOut (t.drop n)
      | none => true
    else groupRunsOut t
termination_by t => t.length

def runLeavesOpen : List Char → Bool
  | [] => false
  | c :: t =>
    match preludePiece c t with
    | some n => c = '(' && groupRunsOut t || runLeavesOpen (t.drop n)
    | none => false
termination_by t => t.length

/-- Is there a group in a sheet whose end is looked for beyond the sheet? -/
def leavesOpen : List Char → Bool
  | [] => false
  | c :: t =>
    match skipped c t with
    | some n => leavesOpen (t.drop n)
    | none =>
      match lexeme c t with
      | some (kind, n) => kind = .prelude && runLeavesOpen (c :: t) || leavesOpen (t.drop n)
      | none => false
termination_by t => t.length

section Tails

variable {q : Char} {t : List Char} {n : Nat}

theorem IsTail.append {r : List Char → Option Nat} {closes refuses opens : Char → Bool}
    (hr : IsTail r closes refuses opens)
    (ho : ∀ q, opens q = true → ∀ t n, stringTail q t = some n →
      n ≤ t.length ∧ ∀ s, stringTail q (t ++ s) = some n)
    (h : r t = some n) (s : List Char) : r (t ++ s) = some n := by
  induction hl : t.length using Nat.strongRecOn generalizing t n with
  | ind l ih =>
    subst hl
    match t with
    | [] => simp [hr.nil] at h
    | c :: t =>
      by_cases hc : c = '\\'
      · subst hc
        match t with
        | [] => simp [hr.lone] at h
        | d :: t =>
          rw [hr.pair] at h
          obtain ⟨m, hm, rfl⟩ := Option.map_eq_some_iff.1 h
          rw [List.cons_append, List.cons_append, hr.pair, ih t.length (by simp only [List.length_cons]; omega) hm rfl]
          rfl
      · rw [hr.char c t hc] at h
        rw [List.cons_append, hr.char c _ hc]
        split at h
        · next hclose => rw [if_pos hclose, h]
        split at h
        · simp at h
        split at h
        · next hclose hrefuse hq =>
          obtain ⟨k, hk, h⟩ := Option.bind_eq_some_iff.1 h
          obtain ⟨m, hm, rfl⟩ := Option.map_eq_some_iff.1 h
          obtain ⟨hkle, hs⟩ := ho c hq t k hk
          have hrest := ih (t.drop k).length (by rw [List.length_drop, List.length_cons]; omega) hm rfl
          rw [if_neg hclose, if_neg hrefuse, if_pos hq, hs, Option.bind_some,
            List.drop_append_of_le_length hkle, hrest]
          rfl
        · next hclose hrefuse hq =>
          obtain ⟨m, hm, rfl⟩ := Option.map_eq_some_iff.1 h
          rw [if_neg hclose, if_neg hrefuse, if_neg hq, ih t.length (by simp) hm rfl]
          rfl

theorem eq_of_isQuote (hq : isQuote q = true) : q = '"' ∨ q = '\'' := by simpa [isQuote] using hq

theorem stringTail_append (hq : isQuote q = true) (h : stringTail q t = some n) (s : List Char) :
    stringTail q (t ++ s) = some n :=
  (isTail_stringTail (not_isPlain_of_isQuote hq)).append (by simp) h s

theorem ne_backslash_of {c : Char} (hlone : c = '\\' → t = [] → False)
    (hpair : ∀ d u, c = '\\' → t = d :: u → False) : c ≠ '\\' := by
  intro hc
  cases t with
  | nil => exact hlone hc rfl
  | cons d u => exact hpair d u hc rfl

theorem groupTail_append (h : groupRunsOut t = false) (s : List Char) : groupTail (t ++ s) = groupTail t := by
  fun_induction groupRunsOut t with
  | case1 => simp at h
  | case2 => simp at h
  | case3 c t ih => rw [List.cons_append, List.cons_append, groupTail, groupTail, ih h]
  | case4 c t hlone hpair hc =>
    have hne := ne_backslash_of hlone hpair
    rw [List.cons_append, isTail_groupTail.char c _ hne, isTail_groupTail.char c _ hne]
    rcases hc with rfl | rfl <;> rfl
  | case5 c t hlone hpair hc hq n hn ih =>
    have hne := ne_backslash_of hlone hpair
    rw [List.cons_append, isTail_groupTail.char c _ hne, isTail_groupTail.char c _ hne, hn,
      stringTail_append hq hn, Option.bind_some, Option.bind_some, List.drop_append_of_le_length (stringTail_le hn),
      ih h]
    simp [hq]
  | case6 c t hlone hpair hc hq hn => simp at h
  | case7 c t hlone hpair hc hq ih =>
    have hne := ne_backslash_of hlone hpair
    rw [List.cons_append, isTail_groupTail.char c _ hne, isTail_groupTail.char c _ hne, ih h]
    simp [hq]

end Tails

section Pieces

variable {c : Char} {t v : List Char} {n : Nat} {kind : Token.Kind}

theorem preludePiece_append (h : preludePiece c t = some n) (hopen : c = '(' → groupRunsOut t = false) (v : List Char) :
    preludePiece c (t ++ '\n' :: v) = some n := by
  rw [preludePiece] at h ⊢
  split at h
  · next hc => rw [if_pos hc, groupTail_append (hopen hc), h]
  split at h
  · next hc hq => rw [if_neg hc, if_pos hq, stringTail_append hq h]
  split at h
  · next hc hq hb =>
    split at h
    · simp at h
    · rw [if_neg hc, if_neg hq, if_pos hb, if_neg (by simp), h]
  split at h
  · next hc hq hb hs =>
    split at h
    · simp at h
    · next hhead =>
      rw [if_neg hc, if_neg hq, if_neg hb, if_pos hs, if_neg, h]
      cases t with
      | nil => simp
      | cons d t => simpa using hhead
  · next hc hq hb hs => rw [if_neg hc, if_neg hq, if_neg hb, if_neg hs, h]

theorem preludePiece_append_none (h : preludePiece c t = none) {pos : Nat}
    (hread : (scanFrom pos (c :: t)).unreadable = none) (v : List Char) : preludePiece c (t ++ '\n' :: v) = none := by
  have hlexeme : skipped c t = none → lexeme c t ≠ none := by
    intro hs hl
    simp [scanFrom, hs, hl] at hread
  have hescape : c ≠ '\\' := by
    rintro rfl
    exact hlexeme (by simp [skipped]) (by simp [lexeme, h])
  have hquote : ¬isQuote c = true := by
    intro hq
    rcases eq_of_isQuote hq with rfl | rfl
    · exact hlexeme (by simp [skipped]) (by simp [lexeme, h])
    · exact hlexeme (by simp [skipped]) (by simp [lexeme, h])
  have hparen : c ≠ '(' := by
    rintro rfl
    simp [preludePiece] at h
  rw [preludePiece, if_neg hparen, if_neg hquote, if_neg hescape] at h ⊢
  split at h
  · next hs =>
    split at h
    · next hhead => rw [if_pos hs, if_pos (by simp [List.head?_append, hhead])]
    · simp at h
  · next hs => rw [if_neg hs, h]

theorem preludeRun_append {s : List Char} (hopen : runLeavesOpen s = false) (hne : s.drop (preludeRun s) ≠ [])
    {pos : Nat} (hread : (scanFrom pos (s.drop (preludeRun s))).unreadable = none) (v : List Char) :
    preludeRun (s ++ '\n' :: v) = preludeRun s := by
  fun_induction runLeavesOpen s with
  | case1 => simp at hne
  | case2 c t n hn ih =>
    obtain ⟨hgroup, hrest⟩ : (c = '(' → groupRunsOut t = false) ∧ runLeavesOpen (t.drop n) = false := by
      simpa using hopen
    have hle := (closed_preludePiece hn).1
    have hdrop : (c :: t).drop (preludeRun (c :: t)) = (t.drop n).drop (preludeRun (t.drop n)) := by
      rw [preludeRun_of_some hn, Nat.add_right_comm, List.drop_succ_cons, List.drop_drop]
    rw [hdrop] at hne hread
    rw [List.cons_append, preludeRun_of_some (preludePiece_append hn hgroup v), preludeRun_of_some hn,
      List.drop_append_of_le_length hle, ih hrest hne hread]
  | case3 c t hn =>
    rw [preludeRun_of_none hn] at hread
    rw [List.cons_append, preludeRun_of_none hn, preludeRun_of_none (preludePiece_append_none hn hread v)]

theorem skipped_append (h : skipped c t = some n) (s : List Char) : skipped c (t ++ s) = some n := by
  obtain ⟨-, -, hspec⟩ := skipped_spec h
  have hr := hspec (t.drop n ++ s)
  rwa [← List.append_assoc, List.take_append_drop] at hr

theorem take_append_newline {k : Nat} {w : List Char} (hw : w.length = k) (hnl : '\n' ∉ w) (v : List Char) :
    (t ++ '\n' :: v).take k = w ↔ t.take k = w := by
  by_cases hk : k ≤ t.length
  · rw [List.take_append_of_le_length hk]
  · have hmem : '\n' ∈ (t ++ '\n' :: v).take k := by
      rw [List.take_append, show k - t.length = k - t.length - 1 + 1 by omega, List.take_succ_cons]
      simp
    constructor
    · rintro rfl
      exact absurd hmem hnl
    · rintro rfl
      rw [List.length_take] at hw
      omega

theorem skipped_append_none (h : skipped c t = none) (hl : lexeme c t ≠ none) (v : List Char) :
    skipped c (t ++ '\n' :: v) = none := by
  have hblank : ¬(c = ' ' ∨ c = '\t' ∨ c = '\n' ∨ c = '\r' ∨ c = '\x0c') := by
    intro hb
    rw [skipped, if_pos hb] at h
    simp at h
  have hcomment {s : List Char} (hs : s.head? ≠ some '*') : ¬(c = '/' ∧ (t ++ s).head? = some '*') := by
    rintro ⟨rfl, hhead⟩
    cases t with
    | nil => exact hs hhead
    | cons d t =>
      obtain rfl : d = '*' := by simpa using hhead
      exact hl (by simp [lexeme, preludePiece, isQuote])
  have hold : ¬(c = '/' ∧ t.head? = some '*') := by simpa using hcomment (s := []) (by simp)
  have hopening : (t ++ '\n' :: v).take 3 = ['!', '-', '-'] ↔ t.take 3 = ['!', '-', '-'] :=
    take_append_newline (by rfl) (by decide) v
  have hclosing : (t ++ '\n' :: v).take 2 = ['-', '>'] ↔ t.take 2 = ['-', '>'] :=
    take_append_newline (by rfl) (by decide) v
  rw [skipped, if_neg hblank, if_neg hold] at h
  rw [skipped, if_neg hblank, if_neg (hcomment (by simp))]
  simpa only [hopening, hclosing] using h

theorem takeWhile_append_newline {p : Char → Bool} (hp : p '\n' = false) (t v : List Char) :
    (t ++ '\n' :: v).takeWhile p = t.takeWhile p := by
  induction t with
  | nil => simp [hp]
  | cons c t ih => simp only [List.cons_append, List.takeWhile_cons, ih]

theorem lexeme_append (h : lexeme c t = some (kind, n)) (hopen : kind = .prelude → runLeavesOpen (c :: t) = false)
    (hne : kind = .prelude → t.drop n ≠ []) {pos : Nat} (hread : (scanFrom pos (t.drop n)).unreadable = none)
    (v : List Char) : lexeme c (t ++ '\n' :: v) = some (kind, n) := by
  rcases lexeme_cases h with ⟨rfl, hc⟩ | ⟨rfl, rfl, hn, hpos⟩ | ⟨h1, h2, h3, h4, hs, rfl, hrun⟩
  · rcases hc with ⟨rfl, rfl⟩ | ⟨rfl, rfl⟩ | ⟨rfl, rfl⟩ <;> rfl
  · have hword : (t ++ '\n' :: v).takeWhile isKeywordChar = t.takeWhile isKeywordChar :=
      takeWhile_append_newline (by decide) t v
    have hne : n ≠ 0 := by omega
    simp [lexeme, hword, ← hn, hne]
  · apply lexeme_of_preludeRun h1 h2 h3 h4 hs
    have hdrop : (c :: t).drop (preludeRun (c :: t)) = t.drop n := by rw [hrun, List.drop_succ_cons]
    rw [← List.cons_append, preludeRun_append (hopen rfl) (hdrop ▸ hne rfl) (hdrop ▸ hread), hrun]

end Pieces

theorem scanFrom_append {pos : Nat} {u : List Char} (hopen : leavesOpen u = false)
    (hread : (scanFrom pos u).unreadable = none)
    (hlast : ∀ t ∈ (scanFrom pos u).tokens.getLast?, t.kind ≠ .prelude) (v : List Char) :
    scanFrom pos (u ++ '\n' :: v) =
      ⟨(scanFrom pos u).tokens ++ (scanFrom (pos + u.length + 1) v).tokens,
        (scanFrom (pos + u.length + 1) v).unreadable⟩ := by
  fun_induction leavesOpen u generalizing pos with
  | case1 =>
    have hs : skipped '\n' v = some 0 := rfl
    rw [List.nil_append, scanFrom_of_skipped hs]
    simp [scanFrom]
  | case2 c t n hs ih =>
    have hle := (skipped_spec hs).1
    have hpos : pos + 1 + n + (t.drop n).length + 1 = pos + (c :: t).length + 1 := by
      rw [List.length_drop, List.length_cons]
      omega
    rw [scanFrom_of_skipped hs] at hread hlast ⊢
    rw [List.cons_append, scanFrom_of_skipped (skipped_append hs _), List.drop_append_of_le_length hle,
      ih hopen hread hlast, hpos]
  | case3 c t hs kind n hl ih =>
    obtain ⟨hgroups, hrest⟩ : (kind = .prelude → runLeavesOpen (c :: t) = false) ∧ leavesOpen (t.drop n) = false := by
      simpa using hopen
    have hle := (closed_lexeme hl).1
    have hpos : pos + 1 + n + (t.drop n).length + 1 = pos + (c :: t).length + 1 := by
      rw [List.length_drop, List.length_cons]
      omega
    rw [scanFrom_of_lexeme hs hl] at hread hlast ⊢
    -- a prelude at the very end would go on in the text that follows
    have hne : kind = .prelude → t.drop n ≠ [] := by
      rintro rfl hnil
      rw [hnil] at hlast
      exact hlast ⟨.prelude, c :: t.take n, pos⟩ (by simp [scanFrom]) rfl
    have hlast' : ∀ t' ∈ (scanFrom (pos + 1 + n) (t.drop n)).tokens.getLast?, t'.kind ≠ .prelude := by
      intro t' ht'
      exact hlast t' (by simp [List.getLast?_cons, Option.mem_def.1 ht'])
    rw [List.cons_append, scanFrom_of_lexeme (skipped_append_none hs (by simp [hl]) v)
      (lexeme_append hl hgroups hne hread v), List.drop_append_of_le_length hle, List.take_append_of_le_length hle,
      ih hrest hread hlast', hpos]
    rfl
  | case4 c t hs hl => simp [scanFrom, hs, hl] at hread

section Follower

variable {q : Char} {t : List Char}

/-- A sheet without classes. After a group that has come to the quote `q`, it ends string and group and leaves
a quote without an end. -/
def strayQuote (q : Char) : List Char := ['x', ':', q, ')', q, ';']

def strayString : List Char := "/*\"*/".toList ++ strayQuote '"'

theorem classes_strayString : classes strayString = .ok [] := eq_ok_of_toOption (by decide +kernel)

theorem classes_strayQuote (hq : isQuote q = true) : classes (strayQuote q) = .ok [] := by
  rcases eq_of_isQuote hq with rfl | rfl
  · exact eq_ok_of_toOption (by decide +kernel)
  · exact eq_ok_of_toOption (by decide +kernel)

theorem stringTail_of_none (hq : isQuote q = true) (h : stringTail q t = none) (s : List Char) :
    stringTail q (t ++ '\n' :: s) = (stringTail q s).map (· + (t.length + 1)) := by
  have hread {c : Char} (hb : c ≠ '\\') (hc : c ≠ q) (t : List Char) :
      stringTail q (c :: t) = (stringTail q t).map (· + 1) := by
    rw [(isTail_stringTail (not_isPlain_of_isQuote hq)).char c t hb]
    simp [hc]
  have hne : '\n' ≠ q := by
    rintro rfl
    exact absurd hq (by decide)
  fun_induction stringTail q t with
  | case1 => exact hread (by decide) hne s
  | case2 => rw [List.cons_append, List.nil_append, stringTail, List.length_singleton]
  | case3 c t ih =>
    rw [List.cons_append, List.cons_append, stringTail, ih (Option.map_eq_none_iff.1 h), Option.map_map]
    rfl
  | case4 t => simp at h
  | case5 c t hlone hpair hc ih =>
    rw [List.cons_append, hread (ne_backslash_of hlone hpair) hc, ih (Option.map_eq_none_iff.1 h), Option.map_map]
    rfl

theorem exists_groupTail (h : groupRunsOut t = true) :
    ∃ v q w, classes v = .ok [] ∧ isQuote q = true ∧ t ++ '\n' :: v = w ++ [q, ';'] ∧
      groupTail (t ++ '\n' :: v) = some w.length := by
  fun_induction groupRunsOut t with
  | case1 => exact ⟨strayString, '"', "\n/*\"*/x:\")".toList, classes_strayString, rfl, by decide, by decide +kernel⟩
  | case2 => exact ⟨strayString, '"', "\\\n/*\"*/x:\")".toList, classes_strayString, rfl, by decide, by decide +kernel⟩
  | case3 c t ih =>
    obtain ⟨v, q, w, hv, hq, heq, htail⟩ := ih h
    refine ⟨v, q, '\\' :: c :: w, hv, hq, by rw [List.cons_append, List.cons_append, heq]; rfl, ?_⟩
    rw [List.cons_append, List.cons_append, groupTail, htail]
    rfl
  | case4 c t hlone hpair hc => simp at h
  | case5 c t hlone hpair hc hquote n hn ih =>
    obtain ⟨v, q, w, hv, hq, heq, htail⟩ := ih h
    have hle := stringTail_le hn
    have hsplit : t ++ '\n' :: v = t.take n ++ w ++ [q, ';'] := by
      rw [List.append_assoc, ← heq, ← List.append_assoc, List.take_append_drop]
    refine ⟨v, q, c :: (t.take n ++ w), hv, hq, by rw [List.cons_append, hsplit]; rfl, ?_⟩
    rw [List.cons_append, isTail_groupTail.char c _ (ne_backslash_of hlone hpair), stringTail_append hquote hn,
      Option.bind_some, List.drop_append_of_le_length hle, htail]
    simp only [not_or] at hc
    simp [hc, hquote, hle, Nat.add_comm]
  | case6 c t hlone hpair hc hquote hn =>
    -- the string that is left open ends at the first quote of what follows
    have hv : groupTail [')', c, ';'] = some 1 := by rw [groupTail] <;> simp
    have hstring : stringTail c (strayQuote c) = some 3 := by
      rcases eq_of_isQuote hquote with rfl | rfl
      · decide
      · decide
    refine ⟨strayQuote c, c, c :: (t ++ "\nx:".toList ++ [c, ')']), classes_strayQuote hquote, hquote,
      by simp [strayQuote], ?_⟩
    rw [List.cons_append, isTail_groupTail.char c _ (ne_backslash_of hlone hpair),
      stringTail_of_none hquote hn, hstring]
    simp only [not_or] at hc
    have hdrop : (t ++ '\n' :: strayQuote c).drop (3 + (t.length + 1)) = [')', c, ';'] := by
      rw [List.drop_append, List.drop_eq_nil_of_le (by omega), show 3 + (t.length + 1) - t.length = 4 by omega]
      rfl
    simp [hc, hquote, hdrop, hv]
    omega
  | case7 c t hlone hpair hc hquote ih =>
    obtain ⟨v, q, w, hv, hq, heq, htail⟩ := ih h
    refine ⟨v, q, c :: w, hv, hq, by rw [List.cons_append, heq]; rfl, ?_⟩
    rw [List.cons_append, isTail_groupTail.char c _ (ne_backslash_of hlone hpair), htail]
    simp only [not_or] at hc
    simp [hc, hquote]

theorem preludeRun_strayQuote (hq : isQuote q = true) : preludeRun [q, ';'] = 0 := by
  rcases eq_of_isQuote hq with rfl | rfl
  · decide +kernel
  · decide +kernel

theorem exists_preludeRun {s : List Char} (h : runLeavesOpen s = true) :
    ∃ v q, classes v = .ok [] ∧ isQuote q = true ∧
      (s ++ '\n' :: v).drop (preludeRun (s ++ '\n' :: v)) = [q, ';'] := by
  fun_induction runLeavesOpen s with
  | case1 => simp at h
  | case2 c t n hn ih =>
    by_cases hgroup : c = '(' ∧ groupRunsOut t = true
    · obtain ⟨rfl, hout⟩ := hgroup
      obtain ⟨v, q, w, hv, hq, heq, htail⟩ := exists_groupTail hout
      have hpiece : preludePiece '(' (t ++ '\n' :: v) = some w.length := by simp [preludePiece, htail]
      have hdrop : (t ++ '\n' :: v).drop w.length = [q, ';'] := by rw [heq, List.drop_left]
      refine ⟨v, q, hv, hq, ?_⟩
      rw [List.cons_append, preludeRun_of_some hpiece, hdrop, preludeRun_strayQuote hq, Nat.add_zero,
        List.drop_succ_cons, hdrop]
    · obtain ⟨v, q, hv, hq, hdrop⟩ := ih (by simpa [hgroup] using h)
      have hpiece := preludePiece_append hn (fun hc => by simpa [hc] using hgroup) v
      have hle := (closed_preludePiece hn).1
      refine ⟨v, q, hv, hq, ?_⟩
      rw [List.cons_append, preludeRun_of_some hpiece, Nat.add_right_comm, List.drop_succ_cons, ← List.drop_drop,
        List.drop_append_of_le_length hle, hdrop]
  | case3 c t hn => simp at h

theorem unreadable_strayQuote (pos : Nat) (hq : isQuote q = true) : (scanFrom pos [q, ';']).unreadable ≠ none := by
  rcases eq_of_isQuote hq with rfl | rfl
  · simp [scanFrom, skipped, lexeme, preludePiece, isQuote, stringTail]
  · simp [scanFrom, skipped, lexeme, preludePiece, isQuote, stringTail]

theorem exists_unreadable {pos : Nat} {u : List Char} (hopen : leavesOpen u = true)
    (hread : (scanFrom pos u).unreadable = none) :
    ∃ v, classes v = .ok [] ∧ (scanFrom pos (u ++ '\n' :: v)).unreadable ≠ none := by
  fun_induction leavesOpen u generalizing pos with
  | case1 => simp at hopen
  | case2 c t n hs ih =>
    rw [scanFrom_of_skipped hs] at hread
    obtain ⟨v, hv, hbad⟩ := ih hopen hread
    refine ⟨v, hv, ?_⟩
    rwa [List.cons_append, scanFrom_of_skipped (skipped_append hs _),
      List.drop_append_of_le_length (skipped_spec hs).1]
  | case3 c t hs kind n hl ih =>
    rw [scanFrom_of_lexeme hs hl] at hread
    by_cases hrun : kind = .prelude ∧ runLeavesOpen (c :: t) = true
    · obtain ⟨rfl, hrun⟩ := hrun
      -- the token now reaches into `v` and leaves the stray quote of it to be read next
      obtain ⟨v, q, hv, hq, hdrop⟩ := exists_preludeRun hrun
      refine ⟨v, hv, ?_⟩
      rw [List.cons_append] at hdrop ⊢
      cases hm : preludeRun (c :: (t ++ '\n' :: v)) with
      | zero =>
        rw [hm, List.drop_zero] at hdrop
        cases t <;> simp at hdrop
      | succ m =>
        rw [hm, List.drop_succ_cons] at hdrop
        rcases lexeme_cases hl with ⟨-, hc⟩ | ⟨-, hk, -⟩ | ⟨h1, h2, h3, h4, hspace, -, -⟩
        · simp at hc
        · simp at hk
        · rw [scanFrom_of_lexeme (skipped_append_none hs (by simp [hl]) v)
            (lexeme_of_preludeRun h1 h2 h3 h4 hspace hm), hdrop]
          exact unreadable_strayQuote _ hq
    · have hrest : leavesOpen (t.drop n) = true := by simpa [hrun] using hopen
      have hne : kind = .prelude → t.drop n ≠ [] := by
        intro _ hnil
        rw [hnil, leavesOpen] at hrest
        exact absurd hrest (by decide)
      obtain ⟨v, hv, hbad⟩ := ih hrest hread
      refine ⟨v, hv, ?_⟩
      rwa [List.cons_append, scanFrom_of_lexeme (skipped_append_none hs (by simp [hl]) v)
        (lexeme_append hl (fun hk => by simpa [hk] using hrun) hne hread v),
        List.drop_append_of_le_length (closed_lexeme hl).1]
  | case4 c t hs hl => simp at hopen

end Follower

end ShortClass.Stylesheet
