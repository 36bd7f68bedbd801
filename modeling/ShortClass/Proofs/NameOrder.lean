import Mathlib.Data.Finset.Prod
import Mathlib.Data.Set.Card
import ShortClass.Proofs.NameNumbers

namespace ShortClass.Alphabet

section Words

variable {rank : Nat → Char → Nat} {u v : List Char} {x y : Char}

/-- Does `u` come before `v`, where `rank k` orders the characters at position `k`? -/
def Precedes (rank : Nat → Char → Nat) (u v : List Char) : Prop :=
  u.length < v.length ∨
    u.length = v.length ∧
      ∃ k x y, u[k]? = some x ∧ v[k]? = some y ∧ rank k x < rank k y ∧ ∀ l, k < l → u[l]? = v[l]?

theorem precedes_of_head (h : rank 0 x < rank 0 y) (t : List Char) : Precedes rank (x :: t) (y :: t) := by
  refine .inr ⟨rfl, 0, x, y, rfl, rfl, h, fun l hl => ?_⟩
  obtain ⟨l, rfl⟩ := Nat.exists_eq_succ_of_ne_zero (Nat.ne_of_gt hl)
  rfl

theorem Precedes.cons (h : Precedes (fun k => rank (k + 1)) u v) (x y : Char) :
    Precedes rank (x :: u) (y :: v) := by
  rcases h with hlen | ⟨hlen, k, a, b, ha, hb, hlt, hrest⟩
  · exact .inl (Nat.succ_lt_succ hlen)
  · refine .inr ⟨congrArg (· + 1) hlen, k + 1, a, b, ha, hb, hlt, fun l hl => ?_⟩
    obtain ⟨l, rfl⟩ := Nat.exists_eq_succ_of_ne_zero (Nat.ne_of_gt (Nat.zero_lt_of_lt hl))
    exact hrest l (Nat.lt_of_succ_lt_succ hl)

theorem Precedes.asymm (h : Precedes rank u v) : ¬Precedes rank v u := by
  rintro (hlen' | ⟨hlen', k', b', a', hb', ha', hlt', hrest'⟩)
  · rcases h with hlen | ⟨hlen, -⟩ <;> omega
  rcases h with hlen | ⟨-, k, a, b, ha, hb, hlt, hrest⟩
  · omega
  -- both name the last place where the words differ
  obtain hk | rfl | hk := Nat.lt_trichotomy k k'
  · obtain rfl : a' = b' := Option.some.inj (ha'.symm.trans ((hrest k' hk).trans hb'))
    omega
  · obtain rfl : a' = a := Option.some.inj (ha'.symm.trans ha)
    obtain rfl : b' = b := Option.some.inj (hb'.symm.trans hb)
    omega
  · obtain rfl : b = a := Option.some.inj (hb.symm.trans ((hrest' k hk).trans ha))
    omega

theorem Precedes.length_le (h : Precedes rank u v) : u.length ≤ v.length := by
  rcases h with hlen | ⟨hlen, -⟩ <;> omega

end Words

section Digits

variable {cs : List Char} {rank : Nat → Char → Nat}

theorem idxOf_getD_mod (hn : cs.Nodup) (h : cs ≠ []) (n : Nat) :
    cs.idxOf (cs.getD (n % cs.length) '_') = n % cs.length := by
  have hlt : n % cs.length < cs.length := Nat.mod_lt _ (List.length_pos_of_ne_nil h)
  rw [List.getD_eq_getElem _ _ hlt]
  exact hn.idxOf_getElem _ hlt

theorem precedes_of_digits (hn : cs.Nodup) (h : cs ≠ []) (hrank : ∀ c, rank 0 c = cs.idxOf c) {rest : Nat → List Char}
    {m n : Nat} (hmn : m < n)
    (hrest : m / cs.length < n / cs.length →
      Precedes (fun k => rank (k + 1)) (rest (m / cs.length)) (rest (n / cs.length))) :
    Precedes rank (cs.getD (m % cs.length) '_' :: rest (m / cs.length))
      (cs.getD (n % cs.length) '_' :: rest (n / cs.length)) := by
  rcases Nat.lt_or_eq_of_le (Nat.div_le_div_right (c := cs.length) (Nat.le_of_lt hmn)) with hdiv | hdiv
  · exact (hrest hdiv).cons _ _
  · rw [hdiv]
    apply precedes_of_head
    rw [hrank, hrank, idxOf_getD_mod hn h, idxOf_getD_mod hn h]
    have hm := Nat.div_add_mod m cs.length
    have hn' := Nat.div_add_mod n cs.length
    rw [hdiv] at hm
    omega

theorem precedes_following (hn : cs.Nodup) (h : cs ≠ []) {m n : Nat} (hmn : m < n) :
    Precedes (fun _ => cs.idxOf) (following cs m) (following cs n) := by
  induction n using Nat.strongRecOn generalizing m with
  | ind n ih =>
    cases n with
    | zero => omega
    | succ n =>
      rw [following_succ]
      cases m with
      | zero =>
        rw [following_zero]
        exact .inl (Nat.zero_lt_succ _)
      | succ m =>
        rw [following_succ]
        exact precedes_of_digits hn h (fun _ => rfl) (Nat.lt_of_succ_lt_succ hmn)
          (ih _ (Nat.lt_succ_of_le (Nat.div_le_self _ _)))

theorem exists_digits {c : Char} (hc : c ∈ cs) (n : Nat) :
    ∃ k, cs.getD (k % cs.length) '_' = c ∧ k / cs.length = n := by
  have hlt : cs.idxOf c < cs.length := List.idxOf_lt_length_of_mem hc
  refine ⟨cs.idxOf c + cs.length * n, ?_, ?_⟩
  · rw [Nat.add_mul_mod_self_left, Nat.mod_eq_of_lt hlt, List.getD_eq_getElem _ _ hlt]
    exact List.getElem_idxOf hlt
  · rw [Nat.add_mul_div_left _ _ (Nat.zero_lt_of_lt hlt), Nat.div_eq_of_lt hlt, Nat.zero_add]

theorem exists_following {t : List Char} (ht : ∀ c ∈ t, c ∈ cs) : ∃ n, following cs n = t := by
  induction t with
  | nil => exact ⟨0, following_zero cs⟩
  | cons c t ih =>
    obtain ⟨hc, ht⟩ := List.forall_mem_cons.1 ht
    obtain ⟨n, rfl⟩ := ih ht
    obtain ⟨k, rfl, rfl⟩ := exists_digits hc n
    exact ⟨k + 1, following_succ cs k⟩

end Digits

section Counting

def headed (cs : List Char) (words : Finset (List Char)) : Finset (List Char) :=
  (cs.toFinset ×ˢ words).image fun e => e.1 :: e.2

theorem mem_headed {cs : List Char} {words : Finset (List Char)} {c : Char} {t : List Char} :
    c :: t ∈ headed cs words ↔ c ∈ cs ∧ t ∈ words := by
  simp [headed]

theorem nil_notMem_headed (cs : List Char) (words : Finset (List Char)) : [] ∉ headed cs words := by
  simp [headed]

theorem card_headed {cs : List Char} (hn : cs.Nodup) (words : Finset (List Char)) :
    (headed cs words).card = cs.length * words.card := by
  rw [headed, Finset.card_image_of_injective, Finset.card_product, List.toFinset_card_of_nodup hn]
  rintro ⟨c, t⟩ ⟨d, u⟩ h
  obtain ⟨rfl, rfl⟩ := List.cons.inj h
  rfl

def wordsOf (cs : List Char) : Nat → Finset (List Char)
  | 0 => {[]}
  | n + 1 => headed cs (wordsOf cs n)

theorem mem_wordsOf {cs t : List Char} {n : Nat} : t ∈ wordsOf cs n ↔ t.length = n ∧ ∀ c ∈ t, c ∈ cs := by
  induction n generalizing t with
  | zero => cases t <;> simp [wordsOf]
  | succ n ih =>
    rw [wordsOf]
    cases t with
    | nil => simp [nil_notMem_headed]
    | cons c t =>
      rw [mem_headed, ih, List.forall_mem_cons, List.length_cons, Nat.add_right_cancel_iff]
      exact and_left_comm

theorem card_wordsOf {cs : List Char} (hn : cs.Nodup) (n : Nat) : (wordsOf cs n).card = cs.length ^ n := by
  induction n with
  | zero => rfl
  | succ n ih => rw [wordsOf, card_headed hn, ih, Nat.pow_succ, Nat.mul_comm]

def shortNames (n : Nat) : Finset ClassName := headed baseLeading (wordsOf base n)

theorem mem_shortNames {w : ClassName} {n : Nat} : w ∈ shortNames n ↔ IsShortName w ∧ w.length = n + 1 := by
  cases w with
  | nil => simp [shortNames, nil_notMem_headed, IsShortName]
  | cons c t =>
    rw [shortNames, mem_headed, mem_wordsOf, IsShortName, List.length_cons, Nat.add_right_cancel_iff, and_assoc,
      and_comm (a := t.length = n)]

theorem card_shortNames (n : Nat) : (shortNames n).card = 53 * 64 ^ n := by
  rw [shortNames, card_headed nodup_baseLeading, card_wordsOf nodup_base]
  rfl

end Counting

def rank (a : Alphabet) : Nat → Char → Nat
  | 0 => a.leading.idxOf
  | _ + 1 => a.all.idxOf

namespace IsOrder

variable {a : Alphabet}

theorem name_precedes (h : a.IsOrder) {i j : Nat} (hij : i < j) : Precedes a.rank (a.name i) (a.name j) := by
  rw [name, name]
  exact precedes_of_digits h.nodup_leading h.leading_ne_nil (fun _ => rfl) hij fun hdiv =>
    precedes_following h.nodup_all h.all_ne_nil hdiv

theorem lt_iff_precedes (h : a.IsOrder) {i j : Nat} : i < j ↔ Precedes a.rank (a.name i) (a.name j) := by
  refine ⟨h.name_precedes, fun hprec => ?_⟩
  by_contra hle
  rcases Nat.lt_or_eq_of_le (Nat.le_of_not_lt hle) with hji | rfl
  · exact hprec.asymm (h.name_precedes hji)
  · exact hprec.asymm hprec

theorem length_name_mono (h : a.IsOrder) {i j : Nat} (hij : i ≤ j) : (a.name i).length ≤ (a.name j).length := by
  rcases Nat.lt_or_eq_of_le hij with hij | rfl
  · exact (h.name_precedes hij).length_le
  · exact Nat.le_refl _

theorem exists_name (h : a.IsOrder) {w : ClassName} (hw : IsShortName w) : ∃ i, a.name i = w := by
  cases w with
  | nil => exact hw.elim
  | cons c t =>
    have ht : ∀ d ∈ t, d ∈ a.all := fun d hd => h.2.mem_iff.2 (hw.2 d hd)
    obtain ⟨n, rfl⟩ := exists_following ht
    obtain ⟨k, rfl, rfl⟩ := exists_digits (h.1.mem_iff.2 hw.1) n
    exact ⟨k, rfl⟩

theorem bijOn_name (h : a.IsOrder) : Set.BijOn a.name Set.univ {w | IsShortName w} :=
  ⟨fun i _ => h.isShortName i, h.name_injective.injOn, fun _ hw =>
    (h.exists_name hw).imp fun _ hi => ⟨Set.mem_univ _, hi⟩⟩

theorem ncard_name_length (h : a.IsOrder) (n : Nat) : {i | (a.name i).length = n + 1}.ncard = 53 * 64 ^ n := by
  have himage : a.name '' {i | (a.name i).length = n + 1} = shortNames n := by
    ext w
    rw [Finset.mem_coe, mem_shortNames]
    constructor
    · rintro ⟨i, hi, rfl⟩
      exact ⟨h.isShortName i, hi⟩
    · rintro ⟨hw, hlen⟩
      obtain ⟨i, rfl⟩ := h.exists_name hw
      exact ⟨i, hlen, rfl⟩
  rw [← Set.ncard_image_of_injective _ h.name_injective, himage, Set.ncard_coe_finset, card_shortNames]

end IsOrder

inductive Call where
  | reset
  | record (text : Text) (weight : Int)
  | sort

def Call.apply (a : Alphabet) : Call → Alphabet
  | reset => a.reset
  | record text weight => a.record text weight
  | sort => a.sort

def after (calls : List Call) : Alphabet := calls.foldl Call.apply {}

theorem IsOrder.apply {a : Alphabet} (h : a.IsOrder) (c : Call) : (c.apply a).IsOrder := by
  cases c with
  | reset => exact h
  | record text weight => exact h
  | sort => exact perm_sort a

theorem isOrder_after (calls : List Call) : (after calls).IsOrder := by
  have h (a : Alphabet) (ha : a.IsOrder) : (calls.foldl Call.apply a).IsOrder := by
    induction calls generalizing a with
    | nil => exact ha
    | cons c calls ih => exact ih (c.apply a) (ha.apply c)
  exact h {} ⟨.refl _, .refl _⟩

theorem after_names_in_order (calls : List Call) :
    (∀ i : Nat, (after calls).name? i = .ok ((after calls).name i)) ∧
      Set.BijOn (after calls).name Set.univ {w | IsShortName w} ∧
      (∀ i j, i < j ↔ Precedes (after calls).rank ((after calls).name i) ((after calls).name j)) ∧
      (∀ i j, i ≤ j → ((after calls).name i).length ≤ ((after calls).name j).length) ∧
      ∀ n, {i | ((after calls).name i).length = n + 1}.ncard = 53 * 64 ^ n := by
  have h := isOrder_after calls
  refine ⟨fun i => ?_, h.bijOn_name, fun i j => h.lt_iff_precedes, fun i j => h.length_name_mono,
    h.ncard_name_length⟩
  rw [name?, if_neg (by omega), Int.toNat_natCast]

end ShortClass.Alphabet
