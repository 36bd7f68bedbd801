import ShortClass.Proofs.ClassListPieces
import ShortClass.Proofs.Program.EscapedText

namespace ShortClass

namespace ClassList

variable {lookup : Text → Option Text} {j : Joins} {value : Text}

inductive RenamedTo (lookup : Text → Option Text) (j : Joins) (value : Text) : Renaming → Prop where
  | noKey : (∀ t ∈ value.tokens, lookup t = none) → ¬HasStem j value → RenamedTo lookup j value .none
  | openStem : HasStem j value → (value.tokens.dropLast = [] ∨ ∃ t ∈ value.tokens.dropLast, lookup t = none) →
    RenamedTo lookup j value .none
  | upToStem {first stem : Text} {rest : List Text} : HasStem j value → value.tokens = first :: rest ++ [stem] →
    (∀ t ∈ first :: rest, (lookup t).isSome = true) →
    RenamedTo lookup j value (.upToStem (edge lookup j.left (gluedLeft j value) first ++
      spaced ((first :: rest).map (rename lookup)) ++ .scalar ' ' :: stem) stem)
  | full {first last : Text} : ¬HasStem j value → value.tokens.head? = some first →
    value.tokens.getLast? = some last → (∃ t ∈ value.tokens, (lookup t).isSome = true) →
    RenamedTo lookup j value (.full (edge lookup j.left (gluedLeft j value) first ++
      spaced (value.tokens.map (rename lookup)) ++ edge lookup j.right (gluedRight j value) last))

theorem hasStem_iff {last : Text} (h : value.tokens.getLast? = some last) :
    HasStem j value ↔ (gluedRight j value && last.isFragment) = true := by
  simp [HasStem, h]

theorem renamedTo_renamed (lookup : Text → Option Text) (j : Joins) (value : Text) :
    RenamedTo lookup j value (renamed lookup j value) := by
  rw [renamed]
  split
  · next ht =>
    refine .noKey (by simp [ht]) ?_
    rintro ⟨-, t, hlast, -⟩
    simp [ht] at hlast
  · next first rest ht =>
    have hlast : value.tokens.getLast? = some ((first :: rest).getLast (by simp)) := by
      rw [ht]
      exact List.getLast?_eq_some_getLast (by simp)
    dsimp only
    split
    · next hglued =>
      have hstem := (hasStem_iff hlast).2 hglued
      have hwhole : value.tokens.dropLast = (first :: rest).dropLast := by rw [ht]
      split
      · next hopen =>
        refine .openStem hstem ?_
        rw [hwhole]
        simpa using hopen
      · next hall =>
        rw [Bool.or_eq_true, not_or] at hall
        cases rest with
        | nil => simp at hall
        | cons second rest =>
          have hparts : first :: second :: rest = first :: (second :: rest).dropLast ++
              [(first :: second :: rest).getLast (by simp)] := (List.dropLast_concat_getLast (by simp)).symm
          have hkeys : ((first :: second :: rest).dropLast.all fun t => (lookup t).isSome) = true := by
            simpa only [Bool.not_eq_true, Bool.not_eq_false'] using hall.2
          exact .upToStem hstem (ht.trans hparts) (List.all_eq_true.1 hkeys)
    · next hglued =>
      have hstem : ¬HasStem j value := fun h => hglued ((hasStem_iff hlast).1 h)
      split
      · next hany =>
        have hkey : ∃ t ∈ value.tokens, (lookup t).isSome = true := ht ▸ List.any_eq_true.1 hany
        have hfull := RenamedTo.full hstem (by rw [ht]; rfl) hlast hkey
        rwa [ht] at hfull
      · next hnone =>
        refine .noKey (fun t hmem => ?_) hstem
        rw [ht] at hmem
        simp only [List.any_eq_true, not_exists, not_and, Bool.not_eq_true, Option.isSome_eq_false_iff,
          Option.isNone_iff_eq_none] at hnone
        exact hnone t hmem

theorem text?_renamed_eq_none_iff :
    (renamed lookup j value).text? = none ↔
      (∀ t ∈ value.tokens, lookup t = none) ∨
        HasStem j value ∧ (value.tokens.dropLast = [] ∨ ∃ t ∈ value.tokens.dropLast, lookup t = none) := by
  have hrenamed := renamedTo_renamed lookup j value
  generalize renamed lookup j value = r at hrenamed
  cases hrenamed with
  | noKey hnone _ => exact iff_of_true rfl (.inl hnone)
  | openStem hstem hopen => exact iff_of_true rfl (.inr ⟨hstem, hopen⟩)
  | @upToStem first stem rest hstem htokens hkeys =>
    refine iff_of_false (by simp [Renaming.text?]) ?_
    have hwhole : value.tokens.dropLast = first :: rest := by rw [htokens, List.dropLast_concat]
    rintro (hnone | ⟨-, hnil | ⟨t, ht, hnone⟩⟩)
    · simpa [hnone first (by simp [htokens])] using hkeys first (by simp)
    · simp [hwhole] at hnil
    · simpa [hnone] using hkeys t (hwhole ▸ ht)
  | full hstem _ _ hkey =>
    refine iff_of_false (by simp [Renaming.text?]) ?_
    obtain ⟨t, ht, hkey⟩ := hkey
    rintro (hnone | ⟨hstem', -⟩)
    · simp [hnone t ht] at hkey
    · exact hstem hstem'

theorem exists_key_of_text? {r : Text} (h : (renamed lookup j value).text? = some r) :
    ∃ t ∈ value.tokens, (lookup t).isSome = true := by
  by_contra hnone
  have hall : ∀ t ∈ value.tokens, lookup t = none := by
    intro t ht
    by_contra hkey
    exact hnone ⟨t, ht, Option.isSome_iff_ne_none.2 hkey⟩
  rw [text?_renamed_eq_none_iff.2 (.inl hall)] at h
  simp at h

def newTokens (lookup : Text → Option Text) (j : Joins) (value : Text) : List Text :=
  if HasStem j value then value.tokens.dropLast.map (rename lookup) ++ value.tokens.getLast?.toList
  else value.tokens.map (rename lookup)

/-- The text `t` lists the new tokens, with a space between each two and at an edge that asks for it. -/
structure Relisted (lookup : Text → Option Text) (j : Joins) (value t : Text) : Prop where
  tokens : t.tokens = newTokens lookup j value
  singleSpaces : ∃ lead trail, (lead = [] ∨ lead = [.scalar ' ']) ∧ (trail = [] ∨ trail = [.scalar ' ']) ∧
    t = lead ++ spaced t.tokens ++ trail
  starts : t.head? = some (.scalar ' ') ↔
    j.left = true ∧ (value.startsBlank = true ∨ ∃ u ∈ value.tokens.head?, (lookup u).isSome = true)
  ends : t.getLast? = some (.scalar ' ') ↔
    ¬HasStem j value ∧ j.right = true ∧ (value.endsBlank = true ∨ ∃ u ∈ value.tokens.getLast?, (lookup u).isSome = true)

theorem edge_eq_space_iff (lookup : Text → Option Text) (joined blank : Bool) (t : Text) :
    edge lookup joined (joined && !blank) t = [.scalar ' '] ↔
      joined = true ∧ (blank = true ∨ (lookup t).isSome = true) := by
  cases joined <;> cases blank <;> simp [edge, Option.isSome_iff_ne_none]

section Edges

variable {lead trail : Text} {ts : List Text}

theorem startsToken_spaced (hts : ∀ t ∈ ts, Text.IsToken t) (hne : ts ≠ []) : Text.StartsToken (spaced ts) := by
  obtain ⟨t, ts, rfl⟩ := List.exists_cons_of_ne_nil hne
  obtain ⟨ht, hblank⟩ := hts t (by simp)
  obtain ⟨a, t, rfl⟩ := List.exists_cons_of_ne_nil ht
  exact ⟨a, by cases ts <;> simp [spaced], hblank a (by simp)⟩

theorem spaced_concat (hne : ts ≠ []) (t : Text) : spaced (ts ++ [t]) = spaced ts ++ .scalar ' ' :: t := by
  induction ts with
  | nil => exact absurd rfl hne
  | cons u ts ih =>
    cases ts with
    | nil => rfl
    | cons v ts =>
      have hrest := ih (by simp)
      simp only [List.cons_append, spaced] at hrest ⊢
      rw [hrest, List.append_assoc]
      rfl

theorem endsToken_spaced (hts : ∀ t ∈ ts, Text.IsToken t) (hne : ts ≠ []) : Text.EndsToken (spaced ts) := by
  obtain ⟨us, t, rfl⟩ : ∃ us t, ts = us ++ [t] := ⟨_, _, (List.dropLast_concat_getLast hne).symm⟩
  obtain ⟨ht, hblank⟩ := hts t (by simp)
  have hends := Text.endsToken_of_forall ht hblank
  by_cases hus : us = []
  · rwa [hus]
  · rw [spaced_concat hus, List.append_cons]
    exact Text.endsToken_append.2 (.inl hends)

theorem head?_eq_space_iff (hlead : lead = [] ∨ lead = [.scalar ' ']) (hbody : Text.StartsToken value) (rest : Text) :
    (lead ++ value ++ rest).head? = some (.scalar ' ') ↔ lead = [.scalar ' '] := by
  obtain ⟨a, ha, hblank⟩ := hbody
  rcases hlead with rfl | rfl
  · refine iff_of_false ?_ (by simp)
    rw [List.nil_append, List.head?_append, ha, Option.some_or]
    intro h
    rw [Option.some.inj h] at hblank
    exact absurd hblank (by decide)
  · simp

theorem getLast?_eq_space_iff (htrail : trail = [] ∨ trail = [.scalar ' ']) (hbody : Text.EndsToken value)
    (before : Text) : (before ++ value ++ trail).getLast? = some (.scalar ' ') ↔ trail = [.scalar ' '] := by
  obtain ⟨a, ha, hblank⟩ := hbody
  rcases htrail with rfl | rfl
  · refine iff_of_false ?_ (by simp)
    rw [List.append_nil, List.getLast?_append, ha, Option.some_or]
    intro h
    rw [Option.some.inj h] at hblank
    exact absurd hblank (by decide)
  · simp

theorem eq_of_edges (hlead : lead = [] ∨ lead = [.scalar ' ']) (htrail : trail = [] ∨ trail = [.scalar ' '])
    (h : lead = [.scalar ' '] ↔ trail = [.scalar ' ']) : lead = trail := by
  rcases hlead with rfl | rfl
  · rcases htrail with rfl | rfl
    · rfl
    · simp at h
  · exact (h.1 rfl).symm

theorem relisted_of_edges (hts : ∀ t ∈ ts, Text.IsToken t) (hne : ts ≠ []) (htokens : ts = newTokens lookup j value)
    (hlead : lead = [] ∨ lead = [.scalar ' ']) (htrail : trail = [] ∨ trail = [.scalar ' '])
    (hstarts : lead = [.scalar ' '] ↔
      j.left = true ∧ (value.startsBlank = true ∨ ∃ u ∈ value.tokens.head?, (lookup u).isSome = true))
    (hends : trail = [.scalar ' '] ↔ ¬HasStem j value ∧ j.right = true ∧
      (value.endsBlank = true ∨ ∃ u ∈ value.tokens.getLast?, (lookup u).isSome = true)) :
    Relisted lookup j value (lead ++ spaced ts ++ trail) := by
  have hall := tokens_between_edges hts hlead htrail
  exact ⟨hall.trans htokens, ⟨lead, trail, hlead, htrail, by rw [hall]⟩,
    (head?_eq_space_iff hlead (startsToken_spaced hts hne) trail).trans hstarts,
    (getLast?_eq_space_iff htrail (endsToken_spaced hts hne) lead).trans hends⟩

end Edges

theorem relisted_of_text? (hl : GivesTokens lookup) {t : Text} (h : (renamed lookup j value).text? = some t) :
    Relisted lookup j value t := by
  have hrenamed := renamedTo_renamed lookup j value
  generalize renamed lookup j value = r at h hrenamed
  cases hrenamed with
  | noKey _ _ => simp [Renaming.text?] at h
  | openStem _ _ => simp [Renaming.text?] at h
  | @upToStem first stem rest hstem htokens hkeys =>
    obtain rfl := Option.some.inj h
    have hmem : ∀ u ∈ first :: rest ++ [stem], Text.IsToken u := fun u hu => Text.isToken_of_mem_tokens (htokens ▸ hu)
    have hnew : newTokens lookup j value = (first :: rest).map (rename lookup) ++ [stem] := by
      rw [newTokens, if_pos hstem, htokens, List.dropLast_concat, List.getLast?_concat, Option.toList_some]
    have hts : ∀ u ∈ (first :: rest).map (rename lookup) ++ [stem], Text.IsToken u := by
      intro u hu
      rcases List.mem_append.1 hu with hu | hu
      · obtain ⟨w, hw, rfl⟩ := List.mem_map.1 hu
        exact isToken_rename hl (hmem w (List.mem_append_left _ hw))
      · exact hmem u (List.mem_append_right _ hu)
    have hrelisted := relisted_of_edges hts (by simp) hnew.symm (edge_eq lookup j.left (gluedLeft j value) first)
      (.inl rfl) ((edge_eq_space_iff lookup j.left value.startsBlank first).trans (by simp [htokens]))
      (by simp [hstem])
    rwa [spaced_concat (by simp), List.append_nil, ← List.append_assoc] at hrelisted
  | @full first last hstem hfirst hlast hkey =>
    obtain rfl := Option.some.inj h
    have hne : value.tokens.map (rename lookup) ≠ [] := by
      intro hnil
      rw [List.map_eq_nil_iff.1 hnil] at hfirst
      simp at hfirst
    have hnew : newTokens lookup j value = value.tokens.map (rename lookup) := if_neg hstem
    exact relisted_of_edges (fun u hu => isToken_of_mem_map_rename hl hu) hne hnew.symm (edge_eq ..) (edge_eq ..)
      ((edge_eq_space_iff lookup j.left value.startsBlank first).trans (by simp [hfirst]))
      ((edge_eq_space_iff lookup j.right value.endsBlank last).trans (by simp [hlast, hstem]))

theorem tokens_newValue_cases (hl : GivesTokens lookup) (j : Joins) (value : Text) :
    (newValue lookup j value).tokens = newTokens lookup j value ∨ newValue lookup j value = value ∧ HasStem j value ∧
      (value.tokens.dropLast = [] ∨ ∃ t ∈ value.tokens.dropLast, lookup t = none) := by
  by_cases hstem : HasStem j value
  · rw [newValue]
    cases ht : (renamed lookup j value).text? with
    | some t => exact .inl (relisted_of_text? hl ht).tokens
    | none =>
      rcases text?_renamed_eq_none_iff.1 ht with hnone | ⟨-, hopen⟩
      · refine .inr ⟨rfl, hstem, ?_⟩
        cases hwhole : value.tokens.dropLast with
        | nil => exact .inl rfl
        | cons u us =>
          have hu : u ∈ value.tokens := (List.dropLast_sublist _).subset (by simp [hwhole])
          exact .inr ⟨u, List.mem_cons_self, hnone u hu⟩
      · exact .inr ⟨rfl, hstem, hopen⟩
  · rw [newTokens, if_neg hstem]
    exact .inl (tokens_newValue hl hstem)

theorem Relisted.eq {t u : Text} (ht : Relisted lookup j value t) (hu : Relisted lookup j value u)
    (hne : newTokens lookup j value ≠ []) : t = u := by
  obtain ⟨lead, trail, hlead, htrail, heq⟩ := ht.singleSpaces
  obtain ⟨lead', trail', hlead', htrail', heq'⟩ := hu.singleSpaces
  have hts : ∀ v ∈ newTokens lookup j value, Text.IsToken v := fun v hv => Text.isToken_of_mem_tokens (ht.tokens ▸ hv)
  rw [ht.tokens] at heq
  rw [hu.tokens] at heq'
  have hstarts := ht.starts.trans hu.starts.symm
  have hends := ht.ends.trans hu.ends.symm
  have hbody := startsToken_spaced hts hne
  have hbody' := endsToken_spaced hts hne
  rw [heq, heq', head?_eq_space_iff hlead hbody, head?_eq_space_iff hlead' hbody] at hstarts
  rw [heq, heq', getLast?_eq_space_iff htrail hbody', getLast?_eq_space_iff htrail' hbody'] at hends
  rw [heq, heq', eq_of_edges hlead hlead' hstarts, eq_of_edges htrail htrail' hends]

theorem newTokens_ne_nil (h : value.tokens ≠ []) : newTokens lookup j value ≠ [] := by
  rw [newTokens]
  split
  · simp [List.getLast?_eq_some_getLast h]
  · simpa using h

def readBack (raw : Bool) (source : Text) : Text := if raw then source else cook source

theorem exists_text?_of_source? {r : Renaming} {q : Quote} {raw : Bool} {source : Text}
    (h : r.source? value q raw = some source) : r.text? = some (readBack raw source) := by
  rw [Renaming.source?] at h
  split at h
  · simp at h
  · next t ht =>
    obtain ⟨-, h⟩ := Option.ite_none_left_eq_some.1 h
    obtain rfl := Option.some.inj h
    cases raw with
    | true => exact ht
    | false => simpa [readBack, cook_escape] using ht

theorem source?_eq_none_iff {r : Renaming} {q : Quote} {raw : Bool} :
    r.source? value q raw = none ↔ r.text? = none ∨ r.text? = some value := by
  rw [Renaming.source?]
  split
  · next ht => simp [ht]
  · next t ht => simp [ht]

theorem relisted_readBack (hl : GivesTokens lookup) (j : Joins) (value : Text) (q : Quote) (raw : Bool) :
    (∀ source, (renamed lookup j value).source? value q raw = some source →
      Relisted lookup j value (readBack raw source)) ∧
    ((renamed lookup j value).source? value q raw = none ↔
      (∀ t ∈ value.tokens, lookup t = none) ∨
      HasStem j value ∧ (value.tokens.dropLast = [] ∨ ∃ t ∈ value.tokens.dropLast, lookup t = none) ∨
      Relisted lookup j value value) := by
  refine ⟨fun source h => relisted_of_text? hl (exists_text?_of_source? h), ?_⟩
  rw [source?_eq_none_iff, text?_renamed_eq_none_iff, or_assoc]
  refine or_congr_right' fun hkey => or_congr_right' fun hstem => ⟨relisted_of_text? hl, fun hvalue => ?_⟩
  have hsome : (renamed lookup j value).text? ≠ none := by
    rw [Ne, text?_renamed_eq_none_iff, not_or]
    exact ⟨hkey, hstem⟩
  obtain ⟨t, ht⟩ := Option.ne_none_iff_exists'.1 hsome
  have htokens : value.tokens ≠ [] := by
    intro hnil
    exact hkey (by simp [hnil])
  rw [ht, (relisted_of_text? hl ht).eq hvalue (newTokens_ne_nil htokens)]

section Single

def only (key name : String) (t : Text) : Option Text :=
  if t = Text.ofString key then some (Text.ofString name) else none

theorem givesTokens_only {key name : String} (h : (Text.ofString name).IsToken) : GivesTokens (only key name) := by
  intro t u _ hu
  obtain ⟨-, hu⟩ := Option.ite_none_right_eq_some.1 hu
  exact Option.some.inj hu ▸ h

theorem relisted_readBack_stem :
    ∃ source, (renamed (only "btn" "a\"b") ⟨true, true⟩ (Text.ofString "btn btn  btn-")).source?
        (Text.ofString "btn btn  btn-") .double false = some source ∧
      Relisted (only "btn" "a\"b") ⟨true, true⟩ (Text.ofString "btn btn  btn-") (readBack false source) ∧
      (readBack false source).tokens = ["a\"b", "a\"b", "btn-"].map Text.ofString := by
  have hl : GivesTokens (only "btn" "a\"b") := givesTokens_only ⟨by decide, by decide⟩
  have hmain := relisted_readBack hl ⟨true, true⟩ (Text.ofString "btn btn  btn-") .double false
  have hsource : (renamed (only "btn" "a\"b") ⟨true, true⟩ (Text.ofString "btn btn  btn-")).source?
      (Text.ofString "btn btn  btn-") .double false = some (Text.ofString " a\\\"b a\\\"b btn-") := by
    decide +kernel
  have hrelisted := hmain.1 _ hsource
  exact ⟨_, hsource, hrelisted, hrelisted.tokens.trans (by decide +kernel)⟩

theorem unwritten_with_key :
    GivesTokens (only "btn" "btn") ∧
      ¬((renamed (only "btn" "btn") {} (Text.ofString "btn")).source? (Text.ofString "btn") .double false = none ↔
        (∀ t ∈ (Text.ofString "btn").tokens, only "btn" "btn" t = none) ∨ HasStem {} (Text.ofString "btn")) ∧
    GivesTokens (only "fi" "a") ∧
      ¬((renamed (only "fi" "a") ⟨false, true⟩ (Text.ofString "fi fi-")).source? (Text.ofString "fi fi-") .double
          false = none ↔
        (∀ t ∈ (Text.ofString "fi fi-").tokens, only "fi" "a" t = none) ∨
          HasStem ⟨false, true⟩ (Text.ofString "fi fi-")) := by
  refine ⟨givesTokens_only ⟨by decide, by decide⟩, by decide +kernel, givesTokens_only ⟨by decide, by decide⟩, ?_⟩
  decide +kernel

end Single

end ClassList

end ShortClass
