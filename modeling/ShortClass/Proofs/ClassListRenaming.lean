import ShortClass.Proofs.Tokens

namespace ShortClass.ClassList

variable {lookup : Text → Option Text} {j : Joins} {value : Text}

def GivesTokens (lookup : Text → Option Text) : Prop :=
  ∀ t u, Text.IsToken t → lookup t = some u → Text.IsToken u

def HasStem (j : Joins) (value : Text) : Prop :=
  gluedRight j value = true ∧ ∃ t ∈ value.tokens.getLast?, Text.isFragment t = true

instance : Decidable (HasStem j value) :=
  inferInstanceAs (Decidable (gluedRight j value = true ∧ ∃ t ∈ value.tokens.getLast?, Text.isFragment t = true))

def newValue (lookup : Text → Option Text) (j : Joins) (value : Text) : Text :=
  (renamed lookup j value).text?.getD value

theorem isToken_rename (hl : GivesTokens lookup) {t : Text} (ht : t.IsToken) : (rename lookup t).IsToken := by
  rw [rename]
  cases h : lookup t with
  | none => exact ht
  | some u => exact hl t u ht h

theorem edge_eq (lookup : Text → Option Text) (joined glued : Bool) (token : Text) :
    edge lookup joined glued token = [] ∨ edge lookup joined glued token = [.scalar ' '] := by
  rw [edge]
  split
  · exact .inl rfl
  · exact .inr rfl

theorem newValue_cases (lookup : Text → Option Text) (h : ¬HasStem j value) :
    newValue lookup j value = value ∧ value.tokens.map (rename lookup) = value.tokens ∨
      ∃ first last, value.tokens ≠ [] ∧
        newValue lookup j value = edge lookup j.left (gluedLeft j value) first ++
          spaced (value.tokens.map (rename lookup)) ++ edge lookup j.right (gluedRight j value) last := by
  rw [newValue, renamed]
  split
  · next ht => exact .inl ⟨rfl, by rw [ht]; rfl⟩
  · next first rest ht =>
    have hlast : (first :: rest).getLast? = some ((first :: rest).getLast (by simp)) :=
      List.getLast?_eq_some_getLast (by simp)
    rw [if_neg]
    · split
      · exact .inr ⟨first, (first :: rest).getLast (by simp), by simp [ht], by rw [ht]; rfl⟩
      · next hnone =>
        refine .inl ⟨rfl, ?_⟩
        have hsame : ∀ t ∈ value.tokens, rename lookup t = t := by
          intro t hmem
          rw [ht] at hmem
          have hlookup : lookup t = none := by
            simp only [List.any_eq_true, not_exists, not_and, Bool.not_eq_true, Option.isSome_eq_false_iff,
              Option.isNone_iff_eq_none] at hnone
            exact hnone t hmem
          rw [rename, hlookup, Option.getD_none]
        rw [List.map_congr_left hsame, List.map_id']
    · intro hstem
      rw [Bool.and_eq_true] at hstem
      exact h ⟨hstem.1, _, by rw [ht]; exact hlast, hstem.2⟩

theorem tokens_between_edges {lead trail : Text} {ts : List Text} (hts : ∀ t ∈ ts, Text.IsToken t)
    (hlead : lead = [] ∨ lead = [.scalar ' ']) (htrail : trail = [] ∨ trail = [.scalar ' ']) :
    (lead ++ spaced ts ++ trail).tokens = ts := by
  have hbody : (lead ++ spaced ts).tokens = ts := by
    rcases hlead with rfl | rfl
    · exact tokens_spaced hts
    · rw [List.singleton_append, Text.tokens_cons_blank _ isBlank_space, tokens_spaced hts]
  rcases htrail with rfl | rfl
  · rw [List.append_nil, hbody]
  · have hseam : ¬Text.Glued (lead ++ spaced ts) [.scalar ' '] := by
      rintro ⟨-, b, hb, hblank⟩
      obtain rfl : .scalar ' ' = b := by simpa using hb
      exact absurd hblank (by decide)
    rw [Text.tokens_append hseam, hbody, Text.tokens_cons_blank _ isBlank_space, Text.tokens_nil, List.append_nil]

theorem isToken_of_mem_map_rename (hl : GivesTokens lookup) {t : Text}
    (ht : t ∈ value.tokens.map (rename lookup)) : t.IsToken := by
  obtain ⟨u, hu, rfl⟩ := List.mem_map.1 ht
  exact isToken_rename hl (Text.isToken_of_mem_tokens hu)

theorem tokens_newValue (hl : GivesTokens lookup) (h : ¬HasStem j value) :
    (newValue lookup j value).tokens = value.tokens.map (rename lookup) := by
  rcases newValue_cases lookup h with ⟨hsame, hmap⟩ | ⟨first, last, -, hnew⟩
  · rw [hsame, hmap]
  · rw [hnew]
    exact tokens_between_edges (fun t ht => isToken_of_mem_map_rename hl ht) (edge_eq ..) (edge_eq ..)

theorem newValue_nil (lookup : Text → Option Text) (j : Joins) : newValue lookup j [] = [] := by
  rw [newValue, renamed_of_tokens_nil Text.tokens_nil]
  rfl

theorem endsToken_of_newValue (h : ¬HasStem j value) (hj : j.right = true)
    (hnew : Text.EndsToken (newValue lookup j value)) : Text.EndsToken value := by
  rcases newValue_cases lookup h with ⟨hsame, -⟩ | ⟨first, last, hne, heq⟩
  · rwa [hsame] at hnew
  · obtain ⟨a, ha⟩ : ∃ a, value.getLast? = some a := by
      cases value with
      | nil => exact absurd Text.tokens_nil hne
      | cons b t => exact Option.isSome_iff_exists.1 (by simp)
    refine ⟨a, ha, ?_⟩
    by_contra hblank
    have hedge : edge lookup j.right (gluedRight j value) last = [.scalar ' '] := by
      simp [edge, hj, gluedRight, Text.endsBlank, ha, hblank]
    rw [heq, hedge] at hnew
    obtain ⟨b, hb, hb'⟩ := hnew
    obtain rfl : .scalar ' ' = b := by simpa using hb
    exact absurd hb' (by decide)

theorem startsToken_of_newValue (h : ¬HasStem j value) (hj : j.left = true)
    (hnew : Text.StartsToken (newValue lookup j value)) : Text.StartsToken value := by
  rcases newValue_cases lookup h with ⟨hsame, -⟩ | ⟨first, last, hne, heq⟩
  · rwa [hsame] at hnew
  · obtain ⟨a, ha⟩ : ∃ a, value.head? = some a := by
      cases value with
      | nil => exact absurd Text.tokens_nil hne
      | cons b t => exact ⟨b, rfl⟩
    refine ⟨a, ha, ?_⟩
    by_contra hblank
    have hedge : edge lookup j.left (gluedLeft j value) first = [.scalar ' '] := by
      simp [edge, hj, gluedLeft, Text.startsBlank, ha, hblank]
    rw [heq, hedge] at hnew
    obtain ⟨b, hb, hb'⟩ := hnew
    obtain rfl : .scalar ' ' = b := by simpa using hb
    exact absurd hb' (by decide)

theorem newValue_ne_nil (hl : GivesTokens lookup) (h : ¬HasStem j value) (hv : value ≠ []) :
    newValue lookup j value ≠ [] := by
  rcases newValue_cases lookup h with ⟨hsame, -⟩ | ⟨first, last, hne, heq⟩
  · rwa [hsame]
  · intro hnil
    have htokens := tokens_newValue hl h
    rw [hnil, Text.tokens_nil] at htokens
    exact hne (List.map_eq_nil_iff.1 htokens.symm)

end ShortClass.ClassList
