import Mathlib.Data.List.DropRight
import Mathlib.Data.List.Induction
import ShortClass.Proofs.AlphabetOrder
import ShortClass.Proofs.NameOrder

namespace ShortClass.Alphabet

def Call.isReset : Call → Bool
  | reset => true
  | _ => false

theorem after_append (calls : List Call) (c : Call) : after (calls ++ [c]) = c.apply (after calls) := by
  rw [after, List.foldl_append]
  rfl

def sinceReset (calls : List Call) : List Call := calls.rtakeWhile fun c => !c.isReset

def recorded (c : Char) : List Call → Int
  | [] => 0
  | .record text weight :: calls => weight * text.count (.scalar c) + recorded c calls
  | _ :: calls => recorded c calls

section Counts

variable {a : Alphabet} {c : Char}

theorem recorded_append (c : Char) (calls : List Call) (d : Call) :
    recorded c (calls ++ [d]) = recorded c calls + recorded c [d] := by
  induction calls with
  | nil => simp [recorded]
  | cons e calls ih =>
    cases e with
    | reset => exact ih
    | sort => exact ih
    | record text weight =>
      simp only [List.cons_append, recorded, ih]
      omega

theorem characters_apply (h : a.characters = base) (d : Call) : (d.apply a).characters = base := by
  cases d with
  | reset => exact characters_reset a
  | record text weight => exact (characters_record a text weight).trans h
  | sort => exact h

theorem characters_after (calls : List Call) : (after calls).characters = base := by
  induction calls using List.reverseRecOn with
  | nil => exact characters_reset {}
  | append_singleton calls d ih =>
    rw [after_append]
    exact characters_apply ih d

theorem count_of_notMem (h : c ∉ a.characters) : a.count c = 0 := by
  have hnone : a.counts.lookup c = none := by
    rw [List.lookup_eq_none_iff]
    intro e he
    rw [bne_iff_ne]
    rintro rfl
    exact h (List.mem_map_of_mem he)
  rw [count, hnone]
  rfl

theorem count_after (hc : c ∈ base) (calls : List Call) :
    (after calls).count c = recorded c (sinceReset calls) := by
  induction calls using List.reverseRecOn with
  | nil => exact count_reset {} c
  | append_singleton calls d ih =>
    rw [after_append, sinceReset, List.rtakeWhile_concat]
    cases d with
    | reset => exact count_reset _ c
    | sort =>
      rw [if_pos (by rfl), recorded_append, ← sinceReset, ← ih]
      exact (Int.add_zero _).symm
    | record text weight =>
      have hmem : c ∈ (after calls).characters := by rwa [characters_after]
      rw [if_pos (by rfl), recorded_append, ← sinceReset, ← ih, Call.apply, count_record hmem]
      simp [recorded]

end Counts

section Orders

variable {count : Char → Int} {given cs ds : List Char}

theorem Ordered.eq (hcs : Ordered count given cs) (hds : Ordered count given ds) : cs = ds := by
  refine List.Perm.eq_of_pairwise (fun c d _ _ hcd hdc => ?_) hcs.falling hds.falling (hcs.perm.trans hds.perm.symm)
  omega

theorem Ordered.leading (h : Ordered count base cs) :
    Ordered count baseLeading (cs.filter fun c => !baseFollowing.contains c) := by
  have hbase : base.filter (fun c => !baseFollowing.contains c) = baseLeading := by decide +kernel
  have hperm : (cs.filter fun c => !baseFollowing.contains c).Perm baseLeading := hbase ▸ h.perm.filter _
  refine ⟨hperm, (h.falling.filter _).imp_of_mem fun {c d} hc hd hcd => ?_⟩
  have hidx {x : Char} (hx : x ∈ cs.filter fun c => !baseFollowing.contains c) : base.idxOf x = baseLeading.idxOf x :=
    List.idxOf_append_of_mem (hperm.mem_iff.1 hx)
  rwa [hidx hc, hidx hd] at hcd

theorem follows_new : Follows {} fun _ => 0 := by
  refine ⟨⟨.refl _, ?_⟩, ⟨.refl _, ?_⟩⟩
  · exact (pairwise_idxOf nodup_baseLeading).imp fun h => .inr ⟨rfl, h⟩
  · exact (pairwise_idxOf nodup_base).imp fun h => .inr ⟨rfl, h⟩

theorem Follows.apply {a : Alphabet} (h : a.Follows count) (d : Call) : ∃ count, (d.apply a).Follows count := by
  cases d with
  | reset => exact ⟨count, h.leading, h.all⟩
  | record text weight => exact ⟨count, h.leading, h.all⟩
  | sort => exact ⟨a.count, follows_sort a⟩

theorem exists_follows_after (calls : List Call) : ∃ count, (after calls).Follows count := by
  induction calls using List.reverseRecOn with
  | nil => exact ⟨_, follows_new⟩
  | append_singleton calls d ih =>
    obtain ⟨count, h⟩ := ih
    rw [after_append]
    exact h.apply d

end Orders

theorem after_consistent (calls : List Call) :
    (∀ c, (after calls).count c = if c ∈ base then recorded c (sinceReset calls) else 0) ∧
    (after calls).leading.Perm baseLeading ∧ (after calls).all.Perm base ∧
    (after calls).leading = (after calls).all.filter (fun c => !baseFollowing.contains c) ∧
    ∀ cs, Ordered (after (calls ++ [.sort])).count base cs ↔ cs = (after (calls ++ [.sort])).all := by
  obtain ⟨count, hleading, hall⟩ := exists_follows_after calls
  have hsorted : Ordered (after (calls ++ [.sort])).count base (after (calls ++ [.sort])).all := by
    rw [after_append]
    exact (follows_sort (after calls)).all
  refine ⟨fun c => ?_, hleading.perm, hall.perm, hleading.eq hall.leading, fun cs => ⟨fun h => h.eq hsorted, ?_⟩⟩
  · split
    · next hc => exact count_after hc calls
    · next hc => exact count_of_notMem (by rwa [characters_after])
  · rintro rfl
    exact hsorted

end ShortClass.Alphabet
