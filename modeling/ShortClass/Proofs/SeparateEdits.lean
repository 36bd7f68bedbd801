import ShortClass.Proofs.Splice

namespace ShortClass

variable {α : Type}

namespace Edit

def Apart (e f : Edit α) : Prop := e.stop ≤ f.start ∨ f.stop ≤ e.start

theorem Apart.symm {e f : Edit α} (h : e.Apart f) : f.Apart e := Or.symm h

theorem Apart.before {e f : Edit α} (h : e.Apart f) (hf : f.start < f.stop) (hle : e.le f = true) : e.Before f := by
  simp only [le, Bool.or_eq_true, decide_eq_true_eq, Bool.and_eq_true, beq_iff_eq] at hle
  simp only [Apart] at h
  simp only [Before]
  omega

theorem pairwise_before_mergeSort {edits : List (Edit α)} (hedits : ∀ e ∈ edits, e.start < e.stop)
    (h : edits.Pairwise Apart) : (edits.mergeSort le).Pairwise Before := by
  have hperm : (edits.mergeSort le).Perm edits := List.mergeSort_perm edits le
  have hle : (edits.mergeSort le).Pairwise fun e f => e.le f = true :=
    List.pairwise_mergeSort le_trans le_total edits
  have hapart : (edits.mergeSort le).Pairwise Apart := (hperm.pairwise_iff Apart.symm).2 h
  refine (hle.and hapart).imp_of_mem fun {e f} _ hf ⟨hef, hap⟩ => ?_
  exact hap.before (hedits f (hperm.mem_iff.1 hf)) hef

end Edit

theorem Spliced.exists_of_before {es : List (Edit α)} (hes : es.Pairwise Edit.Before) {pos : Nat} {t : List α}
    (hin : ∀ e ∈ es, pos ≤ e.start ∧ e.start < e.stop ∧ e.stop ≤ pos + t.length) : ∃ t', Spliced pos t es t' := by
  induction es generalizing pos t with
  | nil => exact ⟨t, .copy pos t⟩
  | cons e es ih =>
    obtain ⟨hfirst, hrest⟩ := List.pairwise_cons.1 hes
    obtain ⟨⟨hpos, hlt, hstop⟩, hothers⟩ := List.forall_mem_cons.1 hin
    obtain ⟨x, z, rfl, hx⟩ : ∃ x z, t = x ++ z ∧ pos + x.length = e.start :=
      ⟨t.take (e.start - pos), t.drop (e.start - pos), (List.take_append_drop _ t).symm, by
        rw [List.length_take]; omega⟩
    rw [List.length_append] at hstop hothers
    obtain ⟨y, z, rfl, hy⟩ : ∃ y w, z = y ++ w ∧ e.start + y.length = e.stop :=
      ⟨z.take (e.stop - e.start), z.drop (e.stop - e.start), (List.take_append_drop _ z).symm, by
        rw [List.length_take]; omega⟩
    rw [List.length_append] at hstop hothers
    obtain ⟨z', hz⟩ : ∃ z', Spliced e.stop z es z' := by
      refine ih hrest fun f hf => ?_
      obtain ⟨-, hf', hfstop⟩ := hothers f hf
      exact ⟨hfirst f hf, hf', by omega⟩
    have hput : Spliced e.start y [e] e.replacement := by
      have hput := Spliced.put e.start (t := y) e.replacement fun hnil => by simp [hnil] at hy; omega
      rwa [hy] at hput
    have hcopy : Spliced pos x [] x := .copy pos x
    exact ⟨_, hcopy.append (hx ▸ hput.append (hy ▸ hz))⟩

theorem Spliced.exists_of_apart_from {edits : List (Edit α)} {pos : Nat} {t : List α}
    (hin : ∀ e ∈ edits, pos ≤ e.start ∧ e.start < e.stop ∧ e.stop ≤ pos + t.length) (h : edits.Pairwise Edit.Apart) :
    ∃ t', Spliced pos t edits t' := by
  have hperm : (edits.mergeSort Edit.le).Perm edits := List.mergeSort_perm edits Edit.le
  obtain ⟨t', ht⟩ := Spliced.exists_of_before
    (Edit.pairwise_before_mergeSort (fun e he => (hin e he).2.1) h) fun e he => hin e (hperm.mem_iff.1 he)
  exact ⟨t', ht.perm hperm⟩

theorem Spliced.exists_of_apart {edits : List (Edit α)} {source : List α}
    (hin : ∀ e ∈ edits, e.start < e.stop ∧ e.stop ≤ source.length) (h : edits.Pairwise Edit.Apart) :
    ∃ t, Spliced 0 source edits t := by
  refine Spliced.exists_of_apart_from (fun e he => ?_) h
  have hbounds := hin e he
  omega

theorem Spliced.apart {pos : Nat} {t t' : List α} {edits : List (Edit α)} (h : Spliced pos t edits t') :
    (∀ e ∈ edits, pos ≤ e.start ∧ e.start < e.stop ∧ e.stop ≤ pos + t.length) ∧ edits.Pairwise Edit.Apart := by
  obtain ⟨fs, hperm, hbefore, hin, -⟩ := h.ordered
  refine ⟨fun e he => hin e (hperm.mem_iff.2 he), ?_⟩
  exact (hperm.pairwise_iff Edit.Apart.symm).1 (hbefore.imp .inl)

theorem Spliced.append_at {pos mid : Nat} {s t s' t' : List α} {es fs : List (Edit α)} (hs : Spliced pos s es s')
    (hmid : pos + s.length = mid) (ht : Spliced mid t fs t') : Spliced pos (s ++ t) (es ++ fs) (s' ++ t') := by
  subst hmid
  exact hs.append ht

theorem Spliced.around {source new : List α} {edits : List (Edit α)} (h : Spliced 0 source edits new) {a b : Nat}
    (hab : a ≤ b) (hb : b ≤ source.length) (hedits : ∀ e ∈ edits, e.stop ≤ a ∨ b ≤ e.start) :
    ∃ es fs before after, (es ++ fs).Perm edits ∧ Spliced 0 (source.take a) es before ∧
      Spliced b (source.drop b) fs after ∧ new = before ++ (source.drop a).take (b - a) ++ after := by
  obtain ⟨hin, hapart⟩ := h.apart
  obtain ⟨before, hbefore⟩ : ∃ before, Spliced 0 (source.take a) (edits.filter fun e => e.stop ≤ a) before := by
    refine Spliced.exists_of_apart_from (fun e he => ?_) (hapart.filter _)
    obtain ⟨he, hstop⟩ := List.mem_filter.1 he
    have hbounds := hin e he
    simp only [decide_eq_true_eq] at hstop
    rw [List.length_take]
    omega
  obtain ⟨after, hafter⟩ : ∃ after, Spliced b (source.drop b) (edits.filter fun e => !decide (e.stop ≤ a)) after := by
    refine Spliced.exists_of_apart_from (fun e he => ?_) (hapart.filter _)
    obtain ⟨he, hstop⟩ := List.mem_filter.1 he
    have hbounds := hin e he
    have hside := hedits e he
    simp only [Bool.not_eq_true', decide_eq_false_iff_not] at hstop
    rw [List.length_drop]
    omega
  have hperm := List.filter_append_perm (fun e : Edit α => decide (e.stop ≤ a)) edits
  refine ⟨_, _, before, after, hperm, hbefore, hafter, ?_⟩
  have hmiddle : a + ((source.drop a).take (b - a)).length = b := by
    rw [List.length_take, List.length_drop]
    omega
  have hstart : 0 + (source.take a).length = a := by
    rw [List.length_take]
    omega
  have hsource : source.take a ++ ((source.drop a).take (b - a) ++ source.drop b) = source := by
    have hdrop : source.drop b = (source.drop a).drop (b - a) := by rw [List.drop_drop, Nat.add_sub_of_le hab]
    rw [hdrop, List.take_append_drop, List.take_append_drop]
  have hall := hbefore.append_at hstart ((Spliced.copy a ((source.drop a).take (b - a))).append_at hmiddle hafter)
  rw [hsource, List.nil_append] at hall
  rw [List.append_assoc]
  exact Except.ok.inj
    ((EditBuffer.applyAll_of_spliced h).symm.trans (EditBuffer.applyAll_of_spliced (hall.perm hperm)))

end ShortClass
