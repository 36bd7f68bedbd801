import Mathlib.Data.Int.Order.Basic
import Mathlib.Data.List.Count
import ShortClass.Proofs.NameNumbers
import ShortClass.Proofs.StableOrder

namespace ShortClass.Alphabet

variable {a : Alphabet} {c : Char}

section Counts

theorem lookup_map_add (counts : List (Char × Int)) (f : Char → Int) (c : Char) :
    (counts.map fun e => (e.1, e.2 + f e.1)).lookup c = (counts.lookup c).map (· + f c) := by
  induction counts with
  | nil => rfl
  | cons e counts ih =>
    obtain ⟨d, n⟩ := e
    by_cases h : c = d
    · simp [h]
    · have hne : (c == d) = false := beq_false_of_ne h
      rw [List.map_cons, List.lookup_cons, List.lookup_cons, hne]
      exact ih

def characters (a : Alphabet) : List Char := a.counts.map Prod.fst

theorem characters_record (a : Alphabet) (text : Text) (weight : Int) :
    (a.record text weight).characters = a.characters := by
  simp [characters, record, Function.comp_def]

theorem characters_reset (a : Alphabet) : a.reset.characters = base := by
  simp [characters, reset, zeroCounts, Function.comp_def]

theorem count_record (hc : c ∈ a.characters) (text : Text) (weight : Int) :
    (a.record text weight).count c = a.count c + weight * text.count (.scalar c) := by
  obtain ⟨e, he, rfl⟩ := List.mem_map.1 hc
  have hsome : a.counts.lookup e.1 ≠ none := by
    intro hnone
    simpa using List.lookup_eq_none_iff.1 hnone e he
  obtain ⟨n, hn⟩ := Option.ne_none_iff_exists'.1 hsome
  have hmap := lookup_map_add a.counts (fun d => weight * text.count (.scalar d)) e.1
  rw [hn] at hmap
  rw [count, count, hn, record]
  exact congrArg (·.getD 0) hmap

theorem count_ofChars (cs : List Char) (c : Char) : (Text.ofChars cs).count (.scalar c) = cs.count c :=
  List.count_map_of_injective cs CodePoint.scalar (fun _ _ => CodePoint.scalar.inj) c

theorem count_foldl_record (hc : c ∈ a.characters) (cs : List ClassName) :
    (cs.foldl (fun a d => a.record (Text.ofChars d) 1) a).count c = a.count c + cs.flatten.count c := by
  induction cs generalizing a with
  | nil => simp
  | cons d cs ih =>
    rw [List.foldl_cons, ih (by rwa [characters_record]), count_record hc, count_ofChars, List.flatten_cons,
      List.count_append]
    omega

end Counts

structure Ordered (count : Char → Int) (given cs : List Char) : Prop where
  perm : cs.Perm given
  falling : cs.Pairwise fun c d => count d < count c ∨ count c = count d ∧ given.idxOf c < given.idxOf d

theorem Ordered.congr {count count' : Char → Int} {given cs : List Char} (h : Ordered count given cs)
    (heq : ∀ c ∈ given, count c = count' c) : Ordered count' given cs := by
  refine ⟨h.perm, h.falling.imp_of_mem fun {c d} hc hd hcd => ?_⟩
  rwa [← heq c (h.perm.mem_iff.1 hc), ← heq d (h.perm.mem_iff.1 hd)]

structure Follows (a : Alphabet) (count : Char → Int) : Prop where
  leading : Ordered count baseLeading a.leading
  all : Ordered count base a.all

theorem follows_sort (a : Alphabet) : a.sort.Follows a.count := by
  have hle (c d : Char) : decide (a.count d ≤ a.count c) = true ↔ a.count d ≤ a.count c := decide_eq_true_iff
  constructor
  · exact ⟨(perm_sort a).1, pairwise_mergeSort_stable hle (pairwise_idxOf nodup_baseLeading)⟩
  · exact ⟨(perm_sort a).2, pairwise_mergeSort_stable hle (pairwise_idxOf nodup_base)⟩

end ShortClass.Alphabet
