import Mathlib.Data.List.Nodup
import ShortClass.Edits

namespace ShortClass

variable {α : Type}

namespace Edit

def Inside (length : Nat) (e : Edit α) : Prop := e.start ≤ e.stop ∧ e.stop ≤ length

def Before (e f : Edit α) : Prop := e.stop ≤ f.start

theorem le_of_before {e f : Edit α} {length : Nat} (he : e.Inside length) (hf : f.Inside length)
    (h : e.Before f) : e.le f = true := by
  obtain ⟨he, -⟩ := he
  obtain ⟨hf, -⟩ := hf
  simp only [Before] at h
  simp only [le, Bool.or_eq_true, decide_eq_true_eq, Bool.and_eq_true, beq_iff_eq]
  omega

theorem le_trans (e f g : Edit α) (hef : e.le f = true) (hfg : f.le g = true) : e.le g = true := by
  simp only [le, Bool.or_eq_true, decide_eq_true_eq, Bool.and_eq_true, beq_iff_eq] at hef hfg ⊢
  omega

theorem le_total (e f : Edit α) : (e.le f || f.le e) = true := by
  simp only [le, Bool.or_eq_true, decide_eq_true_eq, Bool.and_eq_true, beq_iff_eq]
  omega

theorem splice_cons_eq_ok_iff {cursor : Nat} {rest r : List α} {e : Edit α} {es : List (Edit α)}
    (h : cursor ≤ e.start) :
    splice cursor rest (e :: es) = .ok r ↔
      ∃ tail, splice e.stop (rest.drop (e.stop - cursor)) es = .ok tail ∧
        r = rest.take (e.start - cursor) ++ e.replacement ++ tail := by
  rw [splice, if_neg (by omega)]
  cases splice e.stop (rest.drop (e.stop - cursor)) es with
  | error err => simp [bind, Except.bind]
  | ok tail => simp [bind, Except.bind, eq_comm]

theorem splice_append_left {x y r : List α} {es : List (Edit α)} {cursor : Nat}
    (hes : ∀ e ∈ es, cursor + x.length ≤ e.start ∧ e.start ≤ e.stop)
    (h : splice (cursor + x.length) y es = .ok r) : splice cursor (x ++ y) es = .ok (x ++ r) := by
  cases es with
  | nil =>
    cases h
    rfl
  | cons e es =>
    obtain ⟨hstart, hstop⟩ := hes e (by simp)
    obtain ⟨tail, htail, rfl⟩ := (splice_cons_eq_ok_iff hstart).1 h
    refine (splice_cons_eq_ok_iff (by omega)).2 ⟨tail, ?_, ?_⟩
    · rw [List.drop_append, List.drop_of_length_le (by omega), List.nil_append, Nat.sub_sub]
      exact htail
    · have hx : x.take (e.start - cursor) = x := List.take_of_length_le (by omega)
      rw [List.take_append, hx, Nat.sub_sub]
      simp only [List.append_assoc]

end Edit

/-- The text from offset `pos` on, with edits made inside it. -/
inductive Spliced : Nat → List α → List (Edit α) → List α → Prop where
  | copy (pos : Nat) (t : List α) : Spliced pos t [] t
  | put (pos : Nat) {t : List α} (new : List α) : t ≠ [] → Spliced pos t [⟨pos, pos + t.length, new⟩] new
  | append {pos : Nat} {s t s' t' : List α} {es fs : List (Edit α)} :
    Spliced pos s es s' → Spliced (pos + s.length) t fs t' → Spliced pos (s ++ t) (es ++ fs) (s' ++ t')
  | perm {pos : Nat} {t t' : List α} {es fs : List (Edit α)} :
    Spliced pos t es t' → es.Perm fs → Spliced pos t fs t'

namespace Spliced

theorem ordered {pos : Nat} {t t' : List α} {es : List (Edit α)} (h : Spliced pos t es t') :
    ∃ fs : List (Edit α), fs.Perm es ∧ fs.Pairwise Edit.Before ∧
      (∀ f ∈ fs, pos ≤ f.start ∧ f.start < f.stop ∧ f.stop ≤ pos + t.length) ∧
      ∀ y gs r, (∀ g ∈ gs, pos + t.length ≤ g.start ∧ g.start ≤ g.stop) →
        Edit.splice (pos + t.length) y gs = .ok r → Edit.splice pos (t ++ y) (fs ++ gs) = .ok (t' ++ r) := by
  -- what follows the text is left open, so that the parts of an `append` can be put one after the other
  induction h with
  | copy pos t => exact ⟨[], .nil, .nil, by simp, fun y gs r hgs hr => Edit.splice_append_left hgs hr⟩
  | @put pos t new ht =>
    have hlen := List.length_pos_of_ne_nil ht
    refine ⟨_, .refl _, List.pairwise_singleton _ _, by simp; omega, fun y gs r hgs hr => ?_⟩
    refine (Edit.splice_cons_eq_ok_iff (Nat.le_refl _)).2 ⟨r, ?_, ?_⟩
    · simpa using hr
    · simp
  | @append pos s t s' t' es fs _ _ ihs iht =>
    obtain ⟨es', hes, hesb, hesin, hessplice⟩ := ihs
    obtain ⟨fs', hfs, hfsb, hfsin, hfssplice⟩ := iht
    have hlen : pos + (s ++ t).length = pos + s.length + t.length := by simp; omega
    refine ⟨es' ++ fs', hes.append hfs, ?_, ?_, fun y gs r hgs hr => ?_⟩
    · refine List.pairwise_append.2 ⟨hesb, hfsb, fun e he f hf => ?_⟩
      have h1 := hesin e he
      have h2 := hfsin f hf
      simp only [Edit.Before]
      omega
    · intro f hf
      rw [hlen]
      rcases List.mem_append.1 hf with hf | hf
      · have h1 := hesin f hf
        omega
      · have h2 := hfsin f hf
        omega
    · rw [hlen] at hgs hr
      rw [List.append_assoc, List.append_assoc, List.append_assoc]
      refine hessplice _ _ _ (fun g hg => ?_) (hfssplice y gs r hgs hr)
      rcases List.mem_append.1 hg with hg | hg
      · have h2 := hfsin g hg
        omega
      · have h3 := hgs g hg
        omega
  | perm _ hp ih =>
    obtain ⟨gs, hgs, hrest⟩ := ih
    exact ⟨gs, hgs.trans hp, hrest⟩

end Spliced

namespace EditBuffer

variable {source : List α}

theorem foldlM_replace {edits : List (Edit α)} (h : ∀ e ∈ edits, e.Inside source.length) (before : List (Edit α)) :
    edits.foldlM (fun b e => b.replace e.start e.stop e.replacement) (⟨source, before⟩ : EditBuffer α) =
      .ok ⟨source, before ++ edits⟩ := by
  induction edits generalizing before with
  | nil => rw [List.append_nil]; rfl
  | cons e edits ih =>
    obtain ⟨hle, hin⟩ := h e (by simp)
    have hstep : (⟨source, before⟩ : EditBuffer α).replace e.start e.stop e.replacement =
        .ok ⟨source, before ++ [e]⟩ := by
      rw [replace, if_pos ⟨by omega, by omega, by simp only; omega⟩]
      simp
    have hrest := ih (fun f hf => h f (by simp [hf])) (before ++ [e])
    rw [List.foldlM_cons, hstep]
    simpa [bind, Except.bind] using hrest

theorem applyAll_eq {edits : List (Edit α)} (h : ∀ e ∈ edits, e.Inside source.length) :
    applyAll source edits = Edit.splice 0 source (edits.mergeSort Edit.le) := by
  rw [applyAll, foldlM_replace h, List.nil_append]
  rfl

theorem applyAll_of_spliced {edits : List (Edit α)} {t : List α} (h : Spliced 0 source edits t) :
    applyAll source edits = .ok t := by
  obtain ⟨fs, hperm, hbefore, hin, hsplice⟩ := h.ordered
  have hinside : ∀ f ∈ fs, f.Inside source.length := by
    intro f hf
    have hb := hin f hf
    simp only [Edit.Inside]
    omega
  have hnodup : (fs.map Edit.start).Nodup := by
    refine List.pairwise_map.2 (hbefore.imp_of_mem fun {e f} he hf hb => ?_)
    have hlt := hin e he
    simp only [Edit.Before] at hb
    omega
  have hsorted : edits.mergeSort Edit.le = fs := by
    have hle : (edits.mergeSort Edit.le).Pairwise fun e f => e.le f = true :=
      List.pairwise_mergeSort Edit.le_trans Edit.le_total edits
    refine List.Perm.eq_of_pairwise (fun e f he hf hef hfe => ?_) hle ?_ ((List.mergeSort_perm _ _).trans hperm.symm)
    · have hstart : e.start = f.start := by
        simp only [Edit.le, Bool.or_eq_true, decide_eq_true_eq, Bool.and_eq_true, beq_iff_eq] at hef hfe
        omega
      exact List.inj_on_of_nodup_map hnodup (hperm.mem_iff.2 ((List.mergeSort_perm _ _).mem_iff.1 he)) hf hstart
    · exact hbefore.imp_of_mem fun he hf hb => Edit.le_of_before (hinside _ he) (hinside _ hf) hb
  rw [applyAll_eq fun e he => hinside e (hperm.mem_iff.2 he), hsorted]
  simpa using hsplice [] [] [] (by simp) rfl

end EditBuffer

end ShortClass
