import Mathlib.Data.Prod.Lex
import Mathlib.Data.List.Pairwise
import ShortClass.Proofs.SeparateEdits
import ShortClass.Proofs.StableOrder

/-!
Edits made one at a time. A buffer splices its edits in a single pass that compares each of them with the one
before it only. That finds an overlap wherever there is one, and else gives the text that one gets by making the
edits one after the other, from the last to the first. Unless two edits insert at the same place, it does not
matter in which order they were recorded.
-/

namespace ShortClass

variable {α : Type}

namespace Edit

def range (e : Edit α) : Nat × Nat := (e.start, e.stop)

/-- An arrangement by start, then by end, in which edits of one range stand as they were recorded. -/
structure Arranged (edits order : List (Edit α)) : Prop where
  perm : order.Perm edits
  sorted : order.Pairwise fun e f => e.start < f.start ∨ e.start = f.start ∧ e.stop ≤ f.stop
  stable : ∀ r, order.filter (fun e => e.range = r) = edits.filter fun e => e.range = r

section Arranged

variable {edits order : List (Edit α)}

def rank (e : Edit α) : (Nat ×ₗ Nat)ᵒᵈ := OrderDual.toDual (toLex e.range)

theorem rank_le_iff (e f : Edit α) : f.rank ≤ e.rank ↔ e.start < f.start ∨ e.start = f.start ∧ e.stop ≤ f.stop := by
  rw [rank, rank, OrderDual.toDual_le_toDual, Prod.Lex.toLex_le_toLex]
  rfl

theorem le_iff_rank (e f : Edit α) : e.le f = true ↔ f.rank ≤ e.rank := by
  rw [rank_le_iff]
  simp [le]

theorem rank_eq_iff (e : Edit α) (r : Nat × Nat) : e.rank = OrderDual.toDual (toLex r) ↔ e.range = r := by
  rw [rank, OrderDual.toDual_inj, toLex_inj]

theorem arranged_mergeSort (edits : List (Edit α)) : Arranged edits (edits.mergeSort le) where
  perm := List.mergeSort_perm edits le
  sorted := by
    refine (List.pairwise_mergeSort le_trans le_total edits).imp fun {e f} h => ?_
    rwa [le_iff_rank, rank_le_iff] at h
  stable r := by
    have h := filter_mergeSort_key le_iff_rank edits (OrderDual.toDual (toLex r))
    simpa only [rank_eq_iff] using h

theorem Arranged.eq (h : Arranged edits order) : order = edits.mergeSort le := by
  have hsorted {l : List (Edit α)} (hl : Arranged edits l) : l.Pairwise fun e f => f.rank ≤ e.rank :=
    hl.sorted.imp fun {e f} hef => (rank_le_iff e f).2 hef
  refine eq_of_filter_key (hsorted h) (hsorted (arranged_mergeSort edits)) fun k => ?_
  have hk : k = OrderDual.toDual (toLex (ofLex (OrderDual.ofDual k))) := rfl
  rw [hk]
  simp only [rank_eq_iff]
  rw [h.stable, (arranged_mergeSort edits).stable]

end Arranged

section Overlap

def overlap? (cursor : Nat) : List (Nat × Nat) → Option (Nat × Nat)
  | [] => none
  | (start, stop) :: rs => if start < cursor then some (start, stop) else overlap? stop rs

theorem splice_eq_error_iff {cursor : Nat} {rest : List α} {es : List (Edit α)} {err : EditError} :
    splice cursor rest es = .error err ↔
      ∃ r, overlap? cursor (es.map range) = some r ∧ err = .overlap r.1 r.2 := by
  induction es generalizing cursor rest with
  | nil => simp [splice, overlap?]
  | cons e es ih =>
    rw [splice, List.map_cons, range, overlap?]
    split
    · simp [eq_comm]
    · rw [← @ih e.stop (rest.drop (e.stop - cursor))]
      cases splice e.stop (rest.drop (e.stop - cursor)) es with
      | error err' => simp [bind, Except.bind]
      | ok tail => simp [bind, Except.bind]

theorem overlap?_eq_none_iff {cursor : Nat} {es : List (Edit α)} (hes : ∀ e ∈ es, e.start ≤ e.stop) :
    overlap? cursor (es.map range) = none ↔ (∀ e ∈ es, cursor ≤ e.start) ∧ es.Pairwise Before := by
  induction es generalizing cursor with
  | nil => simp [overlap?]
  | cons e es ih =>
    obtain ⟨he, hes⟩ := List.forall_mem_cons.1 hes
    rw [List.map_cons, range, overlap?, List.forall_mem_cons, List.pairwise_cons]
    split
    · next hlt => simp [Nat.not_le.2 hlt]
    · next hle =>
      rw [ih hes]
      constructor
      · rintro ⟨hafter, hpairs⟩
        exact ⟨⟨by omega, fun f hf => by have := hafter f hf; omega⟩, hafter, hpairs⟩
      · rintro ⟨-, hafter, hpairs⟩
        exact ⟨hafter, hpairs⟩

theorem pairwise_before_iff {order : List (Edit α)} :
    order.Pairwise Before ↔ ¬∃ e f, [e, f].Sublist order ∧ f.start < e.stop := by
  rw [List.pairwise_iff_forall_sublist]
  simp only [Before, not_exists, not_and, Nat.not_lt]

theorem splice_error_iff_overlap {source : List α} {es : List (Edit α)} (hes : ∀ e ∈ es, e.start ≤ e.stop) :
    (∃ start stop, splice 0 source es = .error (.overlap start stop)) ↔
      ∃ e f, [e, f].Sublist es ∧ f.start < e.stop := by
  rw [← not_iff_not, ← pairwise_before_iff]
  have hnone : overlap? 0 (es.map range) = none ↔ es.Pairwise Before := by
    rw [overlap?_eq_none_iff hes]
    simp
  rw [← hnone]
  cases hover : overlap? 0 (es.map range) with
  | none => simp [splice_eq_error_iff, hover]
  | some r => simpa using ⟨r.1, r.2, splice_eq_error_iff.2 ⟨r, hover, rfl⟩⟩

end Overlap

section Making

def make (e : Edit α) (t : List α) : List α := t.take e.start ++ e.replacement ++ t.drop e.stop

theorem exists_splice {source : List α} {es : List (Edit α)} (hes : es.Pairwise Before) {cursor : Nat}
    (hin : ∀ e ∈ es, cursor ≤ e.start ∧ e.Inside source.length) :
    ∃ r, splice cursor (source.drop cursor) es = .ok r ∧ es.foldr make source = source.take cursor ++ r := by
  induction es generalizing cursor with
  | nil => exact ⟨_, rfl, (List.take_append_drop cursor source).symm⟩
  | cons e es ih =>
    obtain ⟨hbefore, hes⟩ := List.pairwise_cons.1 hes
    obtain ⟨⟨hcursor, hle, hstop⟩, hin⟩ := List.forall_mem_cons.1 hin
    obtain ⟨tail, hsplice, hfold⟩ := ih hes fun f hf => ⟨hbefore f hf, (hin f hf).2⟩
    refine ⟨_, (splice_cons_eq_ok_iff hcursor).2 ⟨tail, ?_, rfl⟩, ?_⟩
    · rwa [List.drop_drop, Nat.add_sub_of_le (hcursor.trans hle)]
    · have hlength : (source.take e.stop).length = e.stop := List.length_take_of_le hstop
      have hstart : (source.take e.stop ++ tail).take e.start = source.take e.start := by
        rw [List.take_append_of_le_length (by omega), List.take_take, Nat.min_eq_left hle]
      have hgap : source.take cursor ++ (source.drop cursor).take (e.start - cursor) = source.take e.start := by
        rw [← List.take_add, Nat.add_sub_of_le hcursor]
      rw [List.foldr_cons, hfold, make, hstart, List.drop_left' hlength, ← hgap]
      simp only [List.append_assoc]

end Making

section Outside

def outsideFrom (cursor : Nat) (es : List (Edit α)) (rest : List α) : List α :=
  ((rest.zipIdx cursor).filter fun x => es.all fun e => x.2 < e.start || e.stop ≤ x.2).map Prod.fst

theorem outsideFrom_append (cursor : Nat) (es : List (Edit α)) (x y : List α) :
    outsideFrom cursor es (x ++ y) = outsideFrom cursor es x ++ outsideFrom (cursor + x.length) es y := by
  simp [outsideFrom, List.zipIdx_append]

theorem outsideFrom_sublist (cursor : Nat) (es : List (Edit α)) (rest : List α) :
    (outsideFrom cursor es rest).Sublist rest := by
  have h := (List.filter_sublist (l := rest.zipIdx cursor)
    (p := fun x => es.all fun e => x.2 < e.start || e.stop ≤ x.2)).map Prod.fst
  rwa [List.zipIdx_map_fst] at h

theorem outsideFrom_cons_sublist (cursor : Nat) (e : Edit α) (es : List (Edit α)) (rest : List α) :
    (outsideFrom cursor (e :: es) rest).Sublist (outsideFrom cursor es rest) := by
  refine (List.monotone_filter_right _ fun x hx => ?_).map Prod.fst
  rw [List.all_cons, Bool.and_eq_true] at hx
  exact hx.2

theorem outsideFrom_eq_nil {e : Edit α} {es : List (Edit α)} {y : List α} (h : e.start + y.length ≤ e.stop) :
    outsideFrom e.start (e :: es) y = [] := by
  rw [outsideFrom, List.map_eq_nil_iff, List.filter_eq_nil_iff]
  rintro ⟨a, i⟩ hx
  have hi := List.mem_zipIdx hx
  simp only [List.all_cons, Bool.and_eq_true, Bool.or_eq_true, decide_eq_true_eq]
  omega

theorem outsideFrom_sublist_splice {cursor : Nat} {rest r : List α} {es : List (Edit α)}
    (hes : ∀ e ∈ es, e.Inside (cursor + rest.length)) (h : splice cursor rest es = .ok r) :
    (outsideFrom cursor es rest).Sublist r := by
  induction es generalizing cursor rest r with
  | nil =>
    cases h
    exact outsideFrom_sublist cursor [] rest
  | cons e es ih =>
    obtain ⟨⟨hle, hstop⟩, hes⟩ := List.forall_mem_cons.1 hes
    have hcursor : cursor ≤ e.start := by
      by_contra hlt
      rw [splice, if_pos (by omega)] at h
      cases h
    obtain ⟨tail, htail, rfl⟩ := (splice_cons_eq_ok_iff hcursor).1 h
    obtain ⟨x, y, z, rfl, hx, hy⟩ : ∃ x y z, rest = x ++ (y ++ z) ∧ cursor + x.length = e.start ∧
        e.start + y.length = e.stop := by
      refine ⟨rest.take (e.start - cursor), (rest.drop (e.start - cursor)).take (e.stop - e.start),
        (rest.drop (e.start - cursor)).drop (e.stop - e.start), ?_, ?_, ?_⟩
      · rw [List.take_append_drop, List.take_append_drop]
      · rw [List.length_take]
        omega
      · rw [List.length_take, List.length_drop]
        omega
    have hdrop : (x ++ (y ++ z)).drop (e.stop - cursor) = z := by
      rw [← List.append_assoc, List.drop_left' (by rw [List.length_append]; omega)]
    have htake : (x ++ (y ++ z)).take (e.start - cursor) = x := List.take_left' (by omega)
    rw [hdrop] at htail
    have hrest := ih (fun f hf => ?_) htail
    · rw [outsideFrom_append, outsideFrom_append, hx, hy, outsideFrom_eq_nil (by omega), htake, List.nil_append,
        List.append_assoc]
      refine (outsideFrom_sublist ..).append ?_
      exact ((outsideFrom_cons_sublist ..).trans hrest).trans (List.sublist_append_right ..)
    · have hlength : cursor + (x ++ (y ++ z)).length = e.stop + z.length := by
        simp only [List.length_append]
        omega
      exact hlength ▸ hes f hf

end Outside

def outside (es : List (Edit α)) (source : List α) : List α := outsideFrom 0 es source

def InsertTogether (e f : Edit α) : Prop := e.start = e.stop ∧ f.start = f.stop ∧ e.start = f.start

instance (e f : Edit α) : Decidable (InsertTogether e f) :=
  inferInstanceAs (Decidable (e.start = e.stop ∧ f.start = f.stop ∧ e.start = f.start))

section Order

variable {edits edits' : List (Edit α)}

theorem map_range_mergeSort (h : edits'.Perm edits) :
    (edits'.mergeSort le).map range = (edits.mergeSort le).map range := by
  have hsorted (l : List (Edit α)) : ((l.mergeSort le).map range).Pairwise fun r s =>
      r.1 < s.1 ∨ r.1 = s.1 ∧ r.2 ≤ s.2 := List.pairwise_map.2 (arranged_mergeSort l).sorted
  refine List.Perm.eq_of_pairwise (fun r s _ _ hrs hsr => ?_) (hsorted edits') (hsorted edits) ?_
  · exact Prod.ext (by omega) (by omega)
  · exact (((List.mergeSort_perm edits' le).trans h).trans (List.mergeSort_perm edits le).symm).map range

theorem mergeSort_eq_of_before (h : edits'.Perm edits) (hle : ∀ e ∈ edits, e.start ≤ e.stop)
    (hdistinct : edits.Pairwise fun e f => ¬InsertTogether e f) (hbefore : (edits.mergeSort le).Pairwise Before)
    (hbefore' : (edits'.mergeSort le).Pairwise Before) : edits'.mergeSort le = edits.mergeSort le := by
  have hperm := List.mergeSort_perm edits le
  have hperm' := (List.mergeSort_perm edits' le).trans h
  have hsymm : Std.Symm fun e f : Edit α => ¬InsertTogether e f :=
    ⟨fun e f hef hfe => hef ⟨hfe.2.1, hfe.1, hfe.2.2.symm⟩⟩
  refine List.Perm.eq_of_pairwise (fun e f he hf hef hfe => ?_) hbefore' hbefore (hperm'.trans hperm.symm)
  have he := hperm'.mem_iff.1 he
  have hf := hperm.mem_iff.1 hf
  by_contra hne
  refine hdistinct.forall he hf hne ?_
  have hele := hle e he
  have hfle := hle f hf
  simp only [Before] at hef hfe
  simp only [InsertTogether]
  omega

theorem splice_mergeSort_perm (h : edits'.Perm edits) (source : List α) (hle : ∀ e ∈ edits, e.start ≤ e.stop)
    (hdistinct : edits.Pairwise fun e f => ¬InsertTogether e f) :
    splice 0 source (edits'.mergeSort le) = splice 0 source (edits.mergeSort le) := by
  have hranges := map_range_mergeSort h
  have hle' : ∀ e ∈ edits.mergeSort le, e.start ≤ e.stop := fun e he =>
    hle e ((List.mergeSort_perm edits le).mem_iff.1 he)
  have hle'' : ∀ e ∈ edits'.mergeSort le, e.start ≤ e.stop := fun e he =>
    hle e (((List.mergeSort_perm edits' le).trans h).mem_iff.1 he)
  cases hover : overlap? 0 ((edits.mergeSort le).map range) with
  | some r =>
    have herror {l : List (Edit α)} (hl : overlap? 0 (l.map range) = some r) :
        splice 0 source l = .error (.overlap r.1 r.2) := splice_eq_error_iff.2 ⟨r, hl, rfl⟩
    rw [herror hover, herror (hranges ▸ hover)]
  | none =>
    have hbefore := ((overlap?_eq_none_iff hle').1 hover).2
    have hbefore' := ((overlap?_eq_none_iff hle'').1 (hranges ▸ hover)).2
    rw [mergeSort_eq_of_before h hle hdistinct hbefore hbefore']

end Order

end Edit

namespace EditBuffer

def recordAll (source : List α) (calls : List (Int × Int × List α)) : Except EditError (EditBuffer α) :=
  calls.foldlM (fun b c => b.replace c.1 c.2.1 c.2.2) ⟨source, []⟩

def editOf (c : Int × Int × List α) : Edit α := ⟨c.1.toNat, c.2.1.toNat, c.2.2⟩

variable {source : List α} {calls : List (Int × Int × List α)} {b : EditBuffer α}

theorem recordAll_eq_ok_iff : recordAll source calls = .ok b ↔
    (∀ c ∈ calls, 0 ≤ c.1 ∧ c.1 ≤ c.2.1 ∧ c.2.1 ≤ source.length) ∧ b = ⟨source, calls.map editOf⟩ := by
  have hfold (before : List (Edit α)) :
      calls.foldlM (fun b c => b.replace c.1 c.2.1 c.2.2) (⟨source, before⟩ : EditBuffer α) = .ok b ↔
        (∀ c ∈ calls, 0 ≤ c.1 ∧ c.1 ≤ c.2.1 ∧ c.2.1 ≤ source.length) ∧ b = ⟨source, before ++ calls.map editOf⟩ := by
    induction calls generalizing before with
    | nil => simp [pure, Except.pure, eq_comm]
    | cons c calls ih =>
      rw [List.foldlM_cons, List.forall_mem_cons, replace]
      split
      · next hc =>
        have hrest := ih (before ++ [editOf c])
        simp only [List.append_assoc, List.singleton_append, ← List.map_cons] at hrest
        simp only [hc, true_and, and_self]
        exact hrest
      · next hc => simp [hc, bind, Except.bind]
  rw [recordAll, hfold, List.nil_append]

theorem apply_in_turn (h : recordAll source calls = .ok b) :
    ∃ order, Edit.Arranged b.edits order ∧ (∀ other, Edit.Arranged b.edits other → other = order) ∧
      ((∃ start stop, b.apply = .error (.overlap start stop)) ↔
        ∃ e f, [e, f].Sublist order ∧ f.start < e.stop) ∧
      ((¬∃ e f, [e, f].Sublist order ∧ f.start < e.stop) →
        b.apply = .ok (order.foldr Edit.make source) ∧
          (Edit.outside order source).Sublist (order.foldr Edit.make source)) ∧
      (b.edits.Pairwise (fun e f => ¬Edit.InsertTogether e f) →
        ∀ calls', calls'.Perm calls → ∃ b', recordAll source calls' = .ok b' ∧ b'.apply = b.apply) := by
  obtain ⟨hcalls, rfl⟩ := recordAll_eq_ok_iff.1 h
  have hinside : ∀ e ∈ calls.map editOf, e.Inside source.length := by
    refine List.forall_mem_map.2 fun c hc => ?_
    have hc := hcalls c hc
    simp only [Edit.Inside, editOf]
    omega
  have harranged := Edit.arranged_mergeSort (calls.map editOf)
  have hinside' : ∀ e ∈ (calls.map editOf).mergeSort Edit.le, e.Inside source.length :=
    fun e he => hinside e (harranged.perm.mem_iff.1 he)
  refine ⟨_, harranged, fun other hother => hother.eq, ?_, fun hnone => ?_, fun hdistinct calls' hperm => ?_⟩
  · exact Edit.splice_error_iff_overlap fun e he => (hinside' e he).1
  · obtain ⟨new, hnew, hfold⟩ := Edit.exists_splice (Edit.pairwise_before_iff.2 hnone)
      fun e he => ⟨Nat.zero_le _, hinside' e he⟩
    rw [List.take_zero, List.nil_append] at hfold
    rw [hfold]
    refine ⟨hnew, Edit.outsideFrom_sublist_splice (fun e he => ?_) hnew⟩
    rw [Nat.zero_add]
    exact hinside' e he
  · refine ⟨_, recordAll_eq_ok_iff.2 ⟨fun c hc => hcalls c (hperm.mem_iff.1 hc), rfl⟩, ?_⟩
    exact Edit.splice_mergeSort_perm (hperm.map editOf) source (fun e he => (hinside e he).1) hdistinct

def mixedCalls : List (Int × Int × List Char) := [(0, 2, []), (2, 2, ['z']), (4, 5, ['x', 'y'])]

theorem apply_in_turn_mixed :
    recordAll "abcdef".toList mixedCalls = .ok ⟨"abcdef".toList, mixedCalls.map editOf⟩ ∧
      ∀ calls, calls.Perm mixedCalls →
        ∃ b, recordAll "abcdef".toList calls = .ok b ∧ b.apply = .ok "zcdxyf".toList := by
  have h : recordAll "abcdef".toList mixedCalls = .ok ⟨"abcdef".toList, mixedCalls.map editOf⟩ := rfl
  obtain ⟨order, -, hunique, -, hspliced, hperm⟩ := apply_in_turn h
  have hsorted : Edit.Arranged (mixedCalls.map editOf) (mixedCalls.map editOf) := ⟨.refl _, by decide, fun _ => rfl⟩
  obtain rfl := hunique _ hsorted
  have hbefore : (mixedCalls.map editOf).Pairwise Edit.Before := by simp [mixedCalls, editOf, Edit.Before]
  have happly := (hspliced (Edit.pairwise_before_iff.1 hbefore)).1
  have hmade : (mixedCalls.map editOf).foldr Edit.make "abcdef".toList = "zcdxyf".toList := rfl
  rw [hmade] at happly
  rw [← happly]
  exact ⟨h, hperm (by decide)⟩

end EditBuffer

end ShortClass
