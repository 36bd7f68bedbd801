import ShortClass.Proofs.Stylesheet.MarkedText

namespace ShortClass.Stylesheet

variable {c : Char} {r s t : List Char} {n : Nat}

theorem isNameChar_of_isNameStart (h : isNameStart c = true) : isNameChar c = true := by
  simp [isNameChar, h]

theorem isNameChar_of_isHexDigit (h : isHexDigit c = true) : isNameChar c = true := by
  simp only [isHexDigit, Bool.or_eq_true, Bool.and_eq_true, decide_eq_true_eq] at h
  have hname (ha : c.isAlpha = true) : isNameChar c = true :=
    isNameChar_of_isNameStart (by simp [isNameStart, ha])
  rcases h with (h | ⟨h1, h2⟩) | ⟨h1, h2⟩
  · simp [isNameChar, h]
  · have hz : c ≤ 'z' := Char.le_trans h2 (by decide)
    have hlower : c.isLower = true := Bool.and_eq_true_iff.2 ⟨decide_eq_true h1, decide_eq_true hz⟩
    exact hname (Bool.or_eq_true_iff.2 (.inr hlower))
  · have hz : c ≤ 'Z' := Char.le_trans h2 (by decide)
    have hupper : c.isUpper = true := decide_eq_true ⟨h1, hz⟩
    exact hname (Bool.or_eq_true_iff.2 (.inl hupper))

theorem head?_take_append (k : Nat) (h : r.head? = (s.drop k).head?) : (s.take k ++ r).head? = s.head? := by
  cases k with
  | zero => simpa using h
  | succ k =>
    cases s with
    | nil => simpa using h
    | cons c s => simp

theorem takeWhile_append_of_head? {p : Char → Bool} (hs : ∀ c ∈ s, p c = true)
    (hr : ∀ c ∈ r.head?, p c = false) : (s ++ r).takeWhile p = s := by
  rw [List.takeWhile_append_of_pos hs]
  cases r with
  | nil => simp
  | cons c r => simp [hr c (by simp)]

theorem takeWhile_take_stops (p : Char → Bool) (t : List Char) (n : Nat) :
    ((t.take n).takeWhile p).length = n ∨
      ∀ c ∈ (t.drop ((t.take n).takeWhile p).length).head?, p c = false := by
  induction t generalizing n with
  | nil => simp
  | cons c t ih =>
    cases n with
    | zero => simp
    | succ n =>
      by_cases hc : p c = true
      · simpa [hc] using ih n
      · right
        simp [hc]

theorem not_isHexDigit_of_endsHex (h : endsHex c = true) : isHexDigit c = false := by
  simp only [endsHex, Bool.or_eq_true, beq_iff_eq] at h
  rcases h with (((rfl | rfl) | rfl) | rfl) | rfl <;> decide

def AreDigits (ds r : List Char) : Prop :=
  (∀ c ∈ ds, isHexDigit c = true) ∧ ds.length ≤ 6 ∧ (ds.length = 6 ∨ ∀ c ∈ r.head?, isHexDigit c = false)

theorem AreDigits.hexEscape {ds : List Char} (h : AreDigits ds r) :
    hexEscape (ds ++ r) = (ds, ds.length + if r.head?.any endsHex then 1 else 0) := by
  obtain ⟨hs, hl, hr⟩ := h
  have hd : ((ds ++ r).take 6).takeWhile isHexDigit = ds := by
    rw [List.take_append, List.take_of_length_le hl]
    apply takeWhile_append_of_head? hs
    intro c hc
    rcases hr with hr | hr
    · simp [hr] at hc
    · apply hr
      cases r with
      | nil => simp at hc
      | cons d r =>
        cases hk : 6 - ds.length with
        | zero => simp [hk] at hc
        | succ k => simpa [hk] using hc
  have hnext : (ds ++ r)[ds.length]? = r.head? := by
    rw [List.getElem?_append_right (Nat.le_refl _), Nat.sub_self, List.head?_eq_getElem?]
  rw [Stylesheet.hexEscape, hd, hnext]

theorem exists_areDigits (t : List Char) : ∃ ds r, t = ds ++ r ∧ AreDigits ds r := by
  have hp : (t.take 6).takeWhile isHexDigit <+: t := (List.takeWhile_prefix _).trans (List.take_prefix _ _)
  have hstop := takeWhile_take_stops isHexDigit t 6
  have hall : ∀ c ∈ (t.take 6).takeWhile isHexDigit, isHexDigit c = true :=
    List.all_eq_true.1 List.all_takeWhile
  have hle : ((t.take 6).takeWhile isHexDigit).length ≤ 6 :=
    Nat.le_trans (List.takeWhile_prefix _).length_le (List.length_take_le 6 t)
  generalize (t.take 6).takeWhile isHexDigit = ds at hp hstop hall hle
  obtain ⟨r, rfl⟩ := hp
  rw [List.drop_left] at hstop
  exact ⟨ds, r, rfl, hall, hle, hstop⟩

theorem hexEscape_take_append (hv : r.head? = (t.drop (hexEscape t).2).head?) :
    (hexEscape (t.take (hexEscape t).2 ++ r)).2 = (hexEscape t).2 := by
  obtain ⟨ds, u, rfl, hd⟩ := exists_areDigits t
  rw [hd.hexEscape] at hv ⊢
  cases u with
  | nil =>
    have hnil : r = [] := by simpa using hv
    subst hnil
    simpa using congrArg Prod.snd hd.hexEscape
  | cons b u =>
    -- a blank after the digits belongs to the escape
    by_cases hb : endsHex b = true
    · have hr : AreDigits ds (b :: r) := ⟨hd.1, hd.2.1, .inr (by simpa using not_isHexDigit_of_endsHex hb)⟩
      have htake : (ds ++ b :: u).take (ds.length + 1) = ds ++ [b] := by
        rw [List.take_append, List.take_of_length_le (by omega)]
        simp
      simp [hb, htake, hr.hexEscape]
    · simp only [List.head?_cons, Option.any_some, hb, Bool.false_eq_true, ↓reduceIte, Nat.add_zero,
        List.drop_left] at hv ⊢
      have hr : AreDigits ds r := ⟨hd.1, hd.2.1, by simpa [hv] using hd.2.2⟩
      simp [hr.hexEscape, hv, hb]

theorem isPlain_of_mem_hexEscape (h : c ∈ t.take (hexEscape t).2) : isPlain c = true := by
  obtain ⟨ds, u, rfl, hd⟩ := exists_areDigits t
  have hplain : c ∈ ds → isPlain c = true := fun hc => isPlain_of_isNameChar (isNameChar_of_isHexDigit (hd.1 c hc))
  rw [hd.hexEscape] at h
  cases u with
  | nil => exact hplain (by simpa using h)
  | cons b u =>
    by_cases hb : endsHex b = true
    · have hc : c ∈ ds ∨ c = b := by
        rw [List.take_append, List.take_of_length_le (by simp [hb])] at h
        simpa [hb] using h
      rcases hc with hc | rfl
      · exact hplain hc
      · exact isPlain_of_endsHex hb
    · exact hplain (by simpa [hb] using h)

theorem hexEscape_le (t : List Char) : (hexEscape t).2 ≤ t.length := by
  obtain ⟨ds, u, rfl, hd⟩ := exists_areDigits t
  rw [hd.hexEscape, List.length_append]
  cases u with
  | nil => simp
  | cons b u =>
    simp only [List.length_cons]
    split <;> omega

theorem hexEscape_succ {d : Char} (t : List Char) (hd : isHexDigit d = true) :
    ∃ m, (hexEscape (d :: t)).2 = m + 1 := by
  refine ⟨_, (Nat.sub_add_cancel ?_).symm⟩
  simp [hexEscape, hd]
  omega

theorem escapeTail_take_append (h : escapeTail t = some n) (hr : r.head? = (t.drop n).head?) :
    escapeTail (t.take n ++ r) = some n := by
  cases t with
  | nil => simp [escapeTail] at h
  | cons d t =>
    simp only [escapeTail] at h
    split at h
    · next hd =>
      cases h
      obtain ⟨m, hm⟩ := hexEscape_succ t hd
      have hsame := hexEscape_take_append hr
      rw [hm, List.take_succ_cons, List.cons_append] at hsame ⊢
      simp [escapeTail, hd, hsame]
    split at h
    · simp at h
    · next hd hc =>
      cases h
      simp [escapeTail, hd, hc]

theorem escapeTail_le (h : escapeTail t = some n) : n ≤ t.length := by
  cases t with
  | nil => simp [escapeTail] at h
  | cons d t =>
    simp only [escapeTail] at h
    split at h
    · cases h
      exact hexEscape_le _
    split at h
    · simp at h
    · cases h
      simp

theorem escapeTail_succ (h : escapeTail t = some n) : ∃ m, n = m + 1 := by
  cases t with
  | nil => simp [escapeTail] at h
  | cons d t =>
    simp only [escapeTail] at h
    split at h
    · next hd =>
      cases h
      exact hexEscape_succ t hd
    split at h
    · simp at h
    · cases h
      exact ⟨0, rfl⟩

theorem passed_escapeTail (h : escapeTail t = some n) : Passed ('\\' :: t.take n) := by
  cases t with
  | nil => simp [escapeTail] at h
  | cons d t =>
    simp only [escapeTail] at h
    split at h
    · next hd =>
      cases h
      have hplain : ∀ c ∈ (d :: t).take (hexEscape (d :: t)).2, isPlain c = true := fun c =>
        isPlain_of_mem_hexEscape
      obtain ⟨m, hm⟩ := hexEscape_succ t hd
      rw [hm, List.take_succ_cons] at hplain ⊢
      exact .pair (passed_of_all fun c hc => hplain c (by simp [hc]))
    split at h
    · simp at h
    · cases h
      exact .pair .nil

section Name

variable {p : Char → Bool}

theorem namePiece_take_append (h : namePiece p c t = some n) (hr : r.head? = (t.drop n).head?) :
    namePiece p c (t.take n ++ r) = some n := by
  rw [namePiece] at h ⊢
  split at h
  · next hc =>
    rw [if_pos hc]
    exact escapeTail_take_append h hr
  · next hc =>
    rw [if_neg hc]
    exact h

theorem namePiece_le (h : namePiece p c t = some n) : n ≤ t.length := by
  rw [namePiece] at h
  split at h
  · exact escapeTail_le h
  split at h
  · cases h
    exact Nat.zero_le _
  · simp at h

theorem passed_namePiece (hp : ∀ c, p c = true → isNameChar c = true) (h : namePiece p c t = some n) :
    Passed (c :: t.take n) := by
  simp only [namePiece] at h
  split at h
  · next hc =>
    subst hc
    exact passed_escapeTail h
  split at h
  · next hc =>
    cases h
    exact .char (isPlain_of_isNameChar (hp c hc)) .nil
  · simp at h

theorem nameRun_of_some (h : namePiece isNameChar c t = some n) :
    nameRun (c :: t) = n + 1 + nameRun (t.drop n) := by
  rw [nameRun, h]

theorem nameRun_of_none (h : namePiece isNameChar c t = none) : nameRun (c :: t) = 0 := by
  rw [nameRun, h]

theorem passed_nameRun (s : List Char) : Passed (s.take (nameRun s)) := by
  fun_induction nameRun s with
  | case1 => exact .nil
  | case2 c t n h ih =>
    have hp := passed_namePiece (fun _ hc => hc) h
    rw [Nat.add_right_comm, List.take_succ_cons, List.take_add, ← List.cons_append]
    exact hp.append ih
  | case3 c t h => exact .nil

theorem nameRun_drop (s : List Char) : nameRun (s.drop (nameRun s)) = 0 := by
  fun_induction nameRun s with
  | case1 => simp [nameRun]
  | case2 c t n h ih =>
    rw [Nat.add_right_comm, List.drop_succ_cons, ← List.drop_drop]
    exact ih
  | case3 c t h => exact nameRun_of_none h

theorem nameRun_take_append (hr : r.head? = (s.drop (nameRun s)).head?) (hz : nameRun r = 0) :
    nameRun (s.take (nameRun s) ++ r) = nameRun s := by
  fun_induction nameRun s with
  | case1 => simpa using hz
  | case2 c t n h ih =>
    rw [Nat.add_right_comm, List.drop_succ_cons, ← List.drop_drop] at hr
    rw [Nat.add_right_comm, List.take_succ_cons, List.take_add, List.cons_append, List.append_assoc]
    have hhead := head?_take_append (nameRun (t.drop n)) hr
    have hdrop : (t.take n ++ ((t.drop n).take (nameRun (t.drop n)) ++ r)).drop n =
        (t.drop n).take (nameRun (t.drop n)) ++ r :=
      List.drop_left' (List.length_take_of_le (namePiece_le h))
    rw [nameRun_of_some (namePiece_take_append h hhead), hdrop, ih hr]
    omega
  | case3 c t h => simpa using hz

theorem nameRun_le (s : List Char) : nameRun s ≤ s.length := by
  fun_induction nameRun s with
  | case1 => exact Nat.zero_le _
  | case2 c t n h ih =>
    have hn := namePiece_le h
    simp only [List.length_drop, List.length_cons] at ih ⊢
    omega
  | case3 c t h => exact Nat.zero_le _

def bodyLength : List Char → Option Nat
  | [] => none
  | c :: t => (namePiece isNameStart c t).map fun n => n + 1 + nameRun (t.drop n)

theorem bodyLength_spec (h : bodyLength t = some n) :
    0 < n ∧ n ≤ t.length ∧ Passed (t.take n) ∧ nameRun (t.drop n) = 0 := by
  cases t with
  | nil => simp [bodyLength] at h
  | cons c t =>
    obtain ⟨m, hm, rfl⟩ := Option.map_eq_some_iff.1 h
    have hp := passed_namePiece (fun _ hc => isNameChar_of_isNameStart hc) hm
    have hle := namePiece_le hm
    have hrun := nameRun_le (t.drop m)
    rw [List.length_drop] at hrun
    rw [Nat.add_right_comm, List.take_succ_cons, List.take_add, List.drop_succ_cons, ← List.drop_drop,
      ← List.cons_append]
    refine ⟨by omega, by simp only [List.length_cons]; omega, hp.append (passed_nameRun _), nameRun_drop _⟩

theorem bodyLength_take_append (h : bodyLength t = some n) (hr : r.head? = (t.drop n).head?)
    (hz : nameRun r = 0) : bodyLength (t.take n ++ r) = some n := by
  cases t with
  | nil => simp [bodyLength] at h
  | cons c t =>
    obtain ⟨m, hm, rfl⟩ := Option.map_eq_some_iff.1 h
    rw [Nat.add_right_comm, List.drop_succ_cons, ← List.drop_drop] at hr
    rw [Nat.add_right_comm, List.take_succ_cons, List.take_add, List.cons_append, List.append_assoc]
    have hhead := head?_take_append (nameRun (t.drop m)) hr
    have hdrop : (t.take m ++ ((t.drop m).take (nameRun (t.drop m)) ++ r)).drop m =
        (t.drop m).take (nameRun (t.drop m)) ++ r :=
      List.drop_left' (List.length_take_of_le (namePiece_le hm))
    rw [bodyLength, namePiece_take_append hm hhead, Option.map_some, hdrop, nameRun_take_append hr hz]
    simp only [Option.some.injEq]
    omega

theorem exists_hyphens (t : List Char) : ∃ h u, t = List.replicate h '-' ++ u ∧ u.head? ≠ some '-' := by
  induction t with
  | nil => exact ⟨0, [], by simp⟩
  | cons c t ih =>
    by_cases hc : c = '-'
    · obtain ⟨h, u, rfl, hu⟩ := ih
      exact ⟨h + 1, u, by simp [hc, List.replicate_succ], hu⟩
    · exact ⟨0, c :: t, by simp, by simpa using hc⟩

theorem take_hyphens (k m : Nat) (u : List Char) :
    (List.replicate k '-' ++ u).take (k + m) = List.replicate k '-' ++ u.take m := by
  rw [List.take_append]
  simp

theorem drop_hyphens (k m : Nat) (u : List Char) : (List.replicate k '-' ++ u).drop (k + m) = u.drop m := by
  rw [List.drop_append]
  simp

theorem classLength_hyphens {h : Nat} {u : List Char} (hu : u.head? ≠ some '-') :
    classLength (List.replicate h '-' ++ u) = if 2 < h then none else (bodyLength u).map (h + ·) := by
  have hw : ((List.replicate h '-' ++ u).takeWhile (· == '-')).length = h := by
    rw [takeWhile_append_of_head?]
    · simp
    · simp
    · intro c hc
      have hne : c ≠ '-' := by rintro rfl; exact hu hc
      simpa using hne
  have hd : (List.replicate h '-' ++ u).drop h = u := List.drop_left' (by simp)
  simp only [classLength, hw, hd, gt_iff_lt]
  split
  · rfl
  · cases u with
    | nil => simp [bodyLength]
    | cons c u =>
      simp only [bodyLength, Option.map_map]
      congr 1
      funext m
      simp only [Function.comp_apply]
      omega

theorem classLength_spec (h : classLength t = some n) :
    0 < n ∧ n ≤ t.length ∧ Passed (t.take n) ∧ nameRun (t.drop n) = 0 := by
  obtain ⟨k, u, rfl, hu⟩ := exists_hyphens t
  rw [classLength_hyphens hu] at h
  split at h
  · simp at h
  · obtain ⟨m, hm, rfl⟩ := Option.map_eq_some_iff.1 h
    obtain ⟨hpos, hle, hp, hz⟩ := bodyLength_spec hm
    have hh : Passed (List.replicate k '-') := passed_of_all (by simp [isPlain])
    rw [take_hyphens, drop_hyphens]
    refine ⟨by omega, by simp only [List.length_append, List.length_replicate]; omega, hh.append hp, hz⟩

theorem classLength_take_append (h : classLength t = some n) (hr : r.head? = (t.drop n).head?)
    (hz : nameRun r = 0) : classLength (t.take n ++ r) = some n := by
  obtain ⟨k, u, rfl, hu⟩ := exists_hyphens t
  rw [classLength_hyphens hu] at h
  split at h
  · simp at h
  · next hk =>
    obtain ⟨m, hm, rfl⟩ := Option.map_eq_some_iff.1 h
    rw [drop_hyphens] at hr
    rw [take_hyphens, List.append_assoc, classLength_hyphens (by rwa [head?_take_append m hr]), if_neg hk,
      bodyLength_take_append hm hr hz, Option.map_some]

end Name

def IsWord : List Char → Prop
  | [] => False
  | c :: t => isNameStart c = true ∧ ∀ d ∈ t, isNameChar d = true

theorem nameRun_append (ht : ∀ d ∈ t, isNameChar d = true) : nameRun (t ++ r) = t.length + nameRun r := by
  induction t with
  | nil => simp
  | cons c t ih =>
    have hc : isNameChar c = true := ht c (by simp)
    have hp : namePiece isNameChar c (t ++ r) = some 0 := by
      have hne : c ≠ '\\' := by rintro rfl; exact absurd hc (by decide)
      simp [namePiece, hne, hc]
    rw [List.cons_append, nameRun_of_some hp, List.drop_zero, ih fun d hd => ht d (by simp [hd]), List.length_cons]
    omega

theorem IsWord.classLength_append {w : List Char} (hw : IsWord w) (hr : nameRun r = 0) :
    classLength (w ++ r) = some w.length := by
  cases w with
  | nil => exact hw.elim
  | cons c t =>
    obtain ⟨hc, ht⟩ := hw
    have hp : namePiece isNameStart c (t ++ r) = some 0 := by
      have hne : c ≠ '\\' := by rintro rfl; exact absurd hc (by decide)
      simp [namePiece, hne, hc]
    have hh : (c :: t ++ r).head? ≠ some '-' := by
      simp only [List.cons_append, List.head?_cons, ne_eq, Option.some.injEq]
      rintro rfl
      exact absurd hc (by decide)
    have h := classLength_hyphens (h := 0) hh
    simp only [List.replicate_zero, List.nil_append] at h
    rw [h, if_neg (by omega), List.cons_append, bodyLength, hp, Option.map_some, List.drop_zero,
      nameRun_append ht, hr]
    simp
    omega

theorem IsWord.passed {w : List Char} (hw : IsWord w) : Passed w ∧ w ≠ [] := by
  cases w with
  | nil => exact hw.elim
  | cons c t =>
    obtain ⟨hc, ht⟩ := hw
    refine ⟨.char (isPlain_of_isNameChar (isNameChar_of_isNameStart hc)) ?_, by simp⟩
    exact passed_of_all fun d hd => isPlain_of_isNameChar (ht d hd)

theorem unescape_eq_self {w : List Char} (hw : '\\' ∉ w) : unescape w = w := by
  fun_induction unescape w with
  | case1 => rfl
  | case2 => simp at hw
  | case3 => simp at hw
  | case4 => simp at hw
  | case5 c t h1 h2 ih => rw [ih fun h => hw (by simp [h])]

end ShortClass.Stylesheet
