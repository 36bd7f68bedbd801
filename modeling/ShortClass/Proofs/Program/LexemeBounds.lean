import ShortClass.Program.Lexeme

namespace ShortClass.Program

theorem codeTail_le {t : List Char} {n : Nat} (h : codeTail t = some n) : n ≤ t.length := by
  unfold codeTail at h
  split at h
  · next ds =>
    simp only [Option.ite_none_right_eq_some, Bool.and_eq_true, decide_eq_true_eq, beq_iff_eq,
      List.getElem?_eq_some_iff, Option.some.injEq] at h
    obtain ⟨⟨-, hn, -⟩, rfl⟩ := h
    simp only [List.length_cons]
    omega
  · simp only [Option.ite_none_right_eq_some, Bool.and_eq_true, decide_eq_true_eq, Option.some.injEq] at h
    omega

theorem escapeTail_le {t : List Char} {n : Nat} (h : escapeTail t = some n) : n ≤ t.length := by
  unfold escapeTail at h
  split at h
  · simp at h
  · obtain ⟨m, hm, rfl⟩ := Option.map_eq_some_iff.1 h
    simpa using codeTail_le hm
  · simp only [Option.ite_none_right_eq_some, Bool.and_eq_true, decide_eq_true_eq, Option.some.injEq] at h
    simp only [List.length_cons]
    omega
  · cases h
    simp
  · next hne _ _ _ =>
    cases h
    exact List.length_pos_iff.2 hne

theorem wordRun_le (t : List Char) : wordRun t ≤ t.length := by
  fun_induction wordRun t with
  | case1 => simp
  | case2 c t hc ih =>
    simp only [List.length_cons]
    omega
  | case3 c t hc hu n hn ih =>
    have hle := codeTail_le hn
    have hpos : 0 < t.length := List.length_pos_of_mem (List.mem_of_head? hu.2)
    simp only [List.length_drop, List.length_tail] at ih hle
    simp only [List.length_cons]
    omega
  | case4 => simp
  | case5 => simp

theorem wordLength_le (t : List Char) : wordLength t ≤ t.length := by
  unfold wordLength
  split
  · simp
  · split
    · simp
    · exact wordRun_le _

theorem stringTail_bounds {q : Char} {t : List Char} {n : Nat} (h : stringTail q t = some n) :
    0 < n ∧ n ≤ t.length := by
  fun_induction stringTail q t generalizing n with
  | case1 => simp at h
  | case2 t =>
    cases h
    simp
  | case3 t hq ih =>
    obtain ⟨m, hm, h⟩ := Option.bind_eq_some_iff.1 h
    obtain ⟨k, hk, rfl⟩ := Option.map_eq_some_iff.1 h
    have hle := escapeTail_le hm
    have hk' := ih m hk
    simp only [List.length_drop, List.length_cons] at hk' ⊢
    omega
  | case4 => simp at h
  | case5 c t hc hb hl ih =>
    obtain ⟨k, hk, rfl⟩ := Option.map_eq_some_iff.1 h
    have hk' := ih hk
    simp only [List.length_cons]
    omega

theorem templateRun_drop {t : List Char} {n : Nat} (h : templateRun t = some n) :
    n ≤ t.length ∧ ∃ c r, t.drop n = c :: r ∧ (c = '$' → r.head? = some '\x7b') := by
  fun_induction templateRun t generalizing n with
  | case1 => simp at h
  | case2 c t hc =>
    cases h
    refine ⟨Nat.zero_le _, c, t, rfl, fun hd => ?_⟩
    rcases hc with rfl | hc
    · exact absurd hd (by decide)
    · exact hc.2
  | case3 t hc ih =>
    obtain ⟨m, hm, h⟩ := Option.bind_eq_some_iff.1 h
    obtain ⟨k, hk, rfl⟩ := Option.map_eq_some_iff.1 h
    have hle := escapeTail_le hm
    obtain ⟨hk', d, r, hd, hr⟩ := ih m hk
    simp only [List.length_drop] at hk'
    refine ⟨by simp only [List.length_cons]; omega, d, r, ?_, hr⟩
    rwa [List.drop_succ_cons, Nat.add_comm, ← List.drop_drop]
  | case4 c t hc hb ih =>
    obtain ⟨k, hk, rfl⟩ := Option.map_eq_some_iff.1 h
    obtain ⟨hk', d, r, hd, hr⟩ := ih hk
    exact ⟨by simpa using hk', d, r, by rwa [List.drop_succ_cons], hr⟩

theorem regexBody_le {inClass : Bool} {t : List Char} {n : Nat} (h : regexBody inClass t = some n) :
    n ≤ t.length := by
  fun_induction regexBody inClass t generalizing n with
  | case1 => simp at h
  | case2 => simp at h
  | case3 => simp at h
  | case4 => simp at h
  | case5 inClass d t hd hb ih =>
    obtain ⟨k, hk, rfl⟩ := Option.map_eq_some_iff.1 h
    have := ih hk
    simp only [List.length_cons]
    omega
  | case6 =>
    cases h
    simp
  | case7 inClass c t hc hb hs ih =>
    obtain ⟨k, hk, rfl⟩ := Option.map_eq_some_iff.1 h
    simpa using ih hk

theorem regexTail_le {t : List Char} {n : Nat} (h : regexTail t = some n) : n ≤ t.length := by
  unfold regexTail at h
  split at h
  · simp at h
  · obtain ⟨k, hk, rfl⟩ := Option.map_eq_some_iff.1 h
    have hle := regexBody_le hk
    have hrun := (List.takeWhile_prefix isWordPart (l := t.drop k)).length_le
    rw [List.length_drop] at hrun
    omega

theorem digitsLength_le (p : Char → Bool) (t : List Char) : digitsLength p t ≤ t.length := by
  fun_induction digitsLength p t <;> simp only [List.length_cons, List.length_nil] at * <;> omega

theorem signLength_le (t : List Char) : signLength t ≤ t.length := by
  unfold signLength
  split
  · split <;> simp
  · simp

theorem exponentLength_le (t : List Char) : exponentLength t ≤ t.length := by
  unfold exponentLength
  split
  · next c t =>
    have hsign := signLength_le t
    have hdigits := digitsLength_le Char.isDigit (t.drop (signLength t))
    rw [List.length_drop] at hdigits
    rw [List.length_cons]
    split
    · dsimp only
      split <;> omega
    · omega
  · simp

theorem fractionLength_le (t : List Char) : fractionLength t ≤ t.length := by
  unfold fractionLength
  split
  · next t =>
    have hdigits := digitsLength_le Char.isDigit t
    rw [List.length_cons]
    omega
  · simp

theorem decimalLength_le (t : List Char) : decimalLength t ≤ t.length := by
  unfold decimalLength
  dsimp only
  have hwhole := digitsLength_le Char.isDigit t
  have hfraction := fractionLength_le (t.drop (digitsLength Char.isDigit t))
  generalize digitsLength Char.isDigit t = whole at hwhole hfraction ⊢
  generalize fractionLength (t.drop whole) = fraction at hfraction ⊢
  have hexponent := exponentLength_le (t.drop (whole + fraction))
  rw [List.length_drop] at hfraction hexponent
  split
  · next h =>
    obtain ⟨-, hn⟩ := Bool.and_eq_true_iff.1 h
    obtain ⟨hlt, -⟩ := List.getElem?_eq_some_iff.1 (eq_of_beq hn)
    omega
  · omega

theorem radixLength_le {p : Char → Bool} {t : List Char} {n : Nat} (h : radixLength p t = some n) :
    n ≤ t.length + 2 := by
  unfold radixLength at h
  obtain ⟨-, h⟩ := Option.ite_none_left_eq_some.1 h
  have hdigits := digitsLength_le p t
  obtain rfl := Option.some.inj h
  split
  · next hn =>
    obtain ⟨hlt, -⟩ := List.getElem?_eq_some_iff.1 (eq_of_beq hn)
    omega
  · omega

theorem numberLength_le {t : List Char} {n : Nat} (h : numberLength t = some n) : n ≤ t.length := by
  replace h := (Option.filter_eq_some_iff.1 h).1
  unfold numeralLength at h
  split at h
  · next c t =>
    simp only [List.length_cons]
    split at h
    · exact radixLength_le h
    split at h
    · exact radixLength_le h
    split at h
    · exact radixLength_le h
    · obtain rfl := Option.some.inj h
      exact decimalLength_le _
  · obtain rfl := Option.some.inj h
    exact decimalLength_le _

theorem punctuator_length_le (t : List Char) : (punctuator t).length ≤ t.length := by
  unfold punctuator
  simp only
  split
  · next p hp =>
    have hfits := List.find?_some hp
    simp only [Bool.and_eq_true, List.isPrefixOf_iff_prefix] at hfits
    exact hfits.1.length_le
  · simp only [List.length_take]
    omega

theorem skipGap_bounds (newline fresh : Bool) (pos : Nat) (t : List Char) :
    pos ≤ (skipGap newline fresh pos t).pos ∧
      (skipGap newline fresh pos t).pos + (skipGap newline fresh pos t).rest.length = pos + t.length := by
  fun_induction skipGap newline fresh pos t with
  | case1 => simp
  | case2 newline fresh pos c t hc ih =>
    simp only [List.length_cons] at ih ⊢
    omega
  | case3 newline fresh pos c t hc hg ih =>
    simp only [List.length_cons] at ih ⊢
    omega
  | case4 newline fresh pos c t hc hg line hl ih =>
    have hrun := (List.takeWhile_prefix (fun d => !isLineEnd d) (l := c :: t)).length_le
    simp only [List.length_drop, List.length_cons] at ih hrun ⊢
    omega
  | case5 => exact ⟨Nat.le_refl _, rfl⟩
  | case6 newline fresh pos c t hc hg hl hb n hn broken ih =>
    have hle := commentTail_le hn
    have hpos : 0 < t.length := List.length_pos_of_mem (List.mem_of_head? hb.2)
    simp only [List.length_drop, List.length_cons, List.length_tail] at ih hle ⊢
    omega
  | case7 => exact ⟨Nat.le_refl _, rfl⟩

end ShortClass.Program
