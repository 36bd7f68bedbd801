import ShortClass.Proofs.ClassListRenaming
import ShortClass.Proofs.Program.EscapedText
import ShortClass.Proofs.Program.NewText

namespace ShortClass

theorem Text.mem_of_mem_tokens {v t : Text} (ht : t ∈ v.tokens) {a : CodePoint} (ha : a ∈ t) : a ∈ v := by
  fun_induction tokens v with
  | case1 => simp at ht
  | case2 b v hb ih => exact List.mem_cons_of_mem b (ih ht)
  | case3 b v hb ih =>
    rcases List.mem_cons.1 ht with rfl | ht
    · rcases List.mem_cons.1 ha with rfl | ha
      · exact List.mem_cons_self
      · exact List.mem_cons_of_mem b ((List.takeWhile_sublist _).subset ha)
    · exact List.mem_cons_of_mem b ((List.dropWhile_sublist _).subset (ih ht))

theorem Text.ofChars_toChars {t : Text} (h : ∀ a ∈ t, a.toChar?.isSome = true) : ofChars t.toChars = t := by
  induction t with
  | nil => rfl
  | cons a t ih =>
    have htail := ih fun b hb => h b (by simp [hb])
    cases a with
    | scalar c => exact congrArg (CodePoint.scalar c :: ·) htail
    | surrogate n => simpa [CodePoint.toChar?] using h (.surrogate n) (by simp)

namespace ClassList

theorem mem_spaced {ts : List Text} {a : CodePoint} (h : a ∈ spaced ts) : a = .scalar ' ' ∨ ∃ t ∈ ts, a ∈ t := by
  induction ts with
  | nil => simp [spaced] at h
  | cons t ts ih =>
    cases ts with
    | nil => exact .inr ⟨t, by simp, h⟩
    | cons u ts =>
      rw [spaced, List.mem_append, List.mem_cons] at h
      · rcases h with h | h | h
        · exact .inr ⟨t, by simp, h⟩
        · exact .inl h
        · rcases ih h with rfl | ⟨v, hv, ha⟩
          · exact .inl rfl
          · exact .inr ⟨v, List.mem_cons_of_mem t hv, ha⟩
      · simp

theorem mem_newValue {lookup : Text → Option Text} {j : Joins} {value : Text} (hstem : ¬HasStem j value)
    {a : CodePoint} (h : a ∈ newValue lookup j value) :
    a ∈ value ∨ a = .scalar ' ' ∨ ∃ t ∈ value.tokens, ∃ u, lookup t = some u ∧ a ∈ u := by
  rcases newValue_cases lookup hstem with ⟨hsame, -⟩ | ⟨first, last, -, heq⟩
  · exact .inl (hsame ▸ h)
  · have hedge (joined glued : Bool) (token : Text) (ha : a ∈ edge lookup joined glued token) : a = .scalar ' ' := by
      rcases edge_eq lookup joined glued token with hnil | hspace
      · simp [hnil] at ha
      · simpa [hspace] using ha
    rw [heq, List.mem_append, List.mem_append] at h
    rcases h with (h | h) | h
    · exact .inr (.inl (hedge _ _ _ h))
    · rcases mem_spaced h with rfl | ⟨u, hu, ha⟩
      · exact .inr (.inl rfl)
      · obtain ⟨t, ht, rfl⟩ := List.mem_map.1 hu
        rw [rename] at ha
        cases hlookup : lookup t with
        | none =>
          rw [hlookup] at ha
          exact .inl (Text.mem_of_mem_tokens ht ha)
        | some u =>
          rw [hlookup] at ha
          exact .inr (.inr ⟨t, ht, u, hlookup, ha⟩)
    · exact .inr (.inl (hedge _ _ _ h))

end ClassList

namespace Program

open ClassList

variable {p : Program} {lookup : Text → Option Text} {s : Span}

def readBody (raw : Bool) (body : List Char) : Text := if raw then Text.ofChars body else cook (Text.ofChars body)

def IsBody (raw : Bool) (q : Quote) (body : List Char) : Prop :=
  if raw then q.char ∉ body else isContained q body = true

theorem edit?_eq (lookup : Text → Option Text) (s : Span) :
    s.edit? lookup = none ∧ newValue lookup s.joins s.value = s.value ∨
      s.edit? lookup = some ⟨s.start, s.stop, if s.raw then (newValue lookup s.joins s.value).toChars
        else escape s.quote (newValue lookup s.joins s.value)⟩ := by
  rw [Span.edit?, Renaming.source?, newValue]
  cases h : (renamed lookup s.joins s.value).text? with
  | none => exact .inl ⟨rfl, rfl⟩
  | some t =>
    by_cases ht : t = s.value
    · exact .inl ⟨by simp [ht], ht⟩
    · right
      cases hraw : s.raw <;> simp [ht]

theorem readBody_spanText (lookup : Text → Option Text) (hvalue : s.value = readBody s.raw (p.text s.start s.stop))
    (hplain : s.raw = true → ∀ a ∈ newValue lookup s.joins s.value, a.toChar?.isSome = true) :
    readBody s.raw (p.spanText lookup s) = newValue lookup s.joins s.value := by
  rw [spanText]
  rcases edit?_eq lookup s with ⟨hnone, hsame⟩ | hsome
  · rw [hnone, hsame]
    exact hvalue.symm
  · rw [hsome]
    cases hraw : s.raw with
    | true => simpa [readBody] using Text.ofChars_toChars (hplain hraw)
    | false => simpa [readBody] using cook_escape s.quote _

theorem isBody_spanText (lookup : Text → Option Text)
    (hquote : s.raw = true → ∀ a ∈ newValue lookup s.joins s.value, a.toChar? = some s.quote.char →
      s.quote.char ∈ p.text s.start s.stop)
    (hplain : s.raw = true → ∀ a ∈ newValue lookup s.joins s.value, a.toChar?.isSome = true)
    (h : IsBody s.raw s.quote (p.text s.start s.stop)) : IsBody s.raw s.quote (p.spanText lookup s) := by
  rw [spanText]
  rcases edit?_eq lookup s with ⟨hnone, -⟩ | hsome
  · rwa [hnone]
  · rw [hsome]
    cases hraw : s.raw with
    | true =>
      simp only [IsBody, hraw, if_true] at h ⊢
      intro hmem
      obtain ⟨a, ha, hchar⟩ := List.mem_map.1 hmem
      obtain ⟨c, hc⟩ := Option.isSome_iff_exists.1 (hplain hraw a ha)
      rw [hc, Option.getD_some] at hchar
      exact h (hquote hraw a ha (hchar ▸ hc))
    | false => simpa [IsBody] using (unreserved_escape s.quote _).isContained

end Program

end ShortClass
