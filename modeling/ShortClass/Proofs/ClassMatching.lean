import ShortClass.Proofs.Allocation
import ShortClass.Proofs.Program.LiteralText
import ShortClass.Proofs.Program.ParsedTree
import ShortClass.Proofs.Program.ReachedNodes
import ShortClass.Proofs.Stylesheet.Renaming

namespace ShortClass

theorem IsShortName.mem_base {n : ClassName} (h : IsShortName n) {c : Char} (hc : c ∈ n) : c ∈ Alphabet.base := by
  cases n with
  | nil => simp at hc
  | cons d t =>
    have hleading : Alphabet.baseLeading ⊆ Alphabet.base := List.subset_append_left _ _
    rcases List.mem_cons.1 hc with rfl | hc
    · exact hleading h.1
    · exact h.2 c hc

theorem IsShortName.isToken {n : ClassName} (h : IsShortName n) : Text.IsToken (Text.ofChars n) := by
  constructor
  · rintro hnil
    rw [List.map_eq_nil_iff.1 hnil] at h
    exact h
  · intro a ha
    obtain ⟨c, hc, rfl⟩ := List.mem_map.1 ha
    have hbase : Alphabet.base.all (fun c => !CodePoint.isBlank (.scalar c)) = true := by decide
    simpa using List.all_eq_true.1 hbase c (h.mem_base hc)

theorem Text.toChars?_eq_some {t : Text} {cs : List Char} : t.toChars? = some cs ↔ t = ofChars cs := by
  induction t generalizing cs with
  | nil => simp [toChars?, ofChars, eq_comm]
  | cons a t ih =>
    have hcons : toChars? (a :: t) = some cs ↔
        ∃ c, a.toChar? = some c ∧ ∃ ds, toChars? t = some ds ∧ c :: ds = cs := by
      simp [toChars?, List.mapM_cons, Option.bind_eq_some_iff]
    rw [hcons]
    cases a with
    | surrogate n => cases cs <;> simp [CodePoint.toChar?, ofChars]
    | scalar c => cases cs <;> simp [CodePoint.toChar?, ofChars, ih, and_comm]

namespace ClassMap

variable {m : ClassMap}

theorem lookup_eq_some {t u : Text} (h : m.lookup t = some u) :
    ∃ c n, t = Text.ofChars c ∧ m.get? c = some n ∧ u = Text.ofChars n := by
  obtain ⟨n, hn, rfl⟩ := Option.map_eq_some_iff.1 h
  obtain ⟨c, hc, hget⟩ := Option.bind_eq_some_iff.1 hn
  exact ⟨c, n, Text.toChars?_eq_some.1 hc, hget, rfl⟩

theorem lookup_ofChars (c : ClassName) : m.lookup (Text.ofChars c) = (m.get? c).map Text.ofChars := by
  rw [lookup, Text.toChars?_eq_some.2 rfl, Option.bind_some]

theorem rename_ofChars (c : ClassName) : ClassList.rename m.lookup (Text.ofChars c) = Text.ofChars (m.rename c) := by
  rw [ClassList.rename, lookup_ofChars, rename]
  cases m.get? c <;> rfl

end ClassMap

namespace Minifier

open ClassList Program

variable {m : Minifier}

theorem Allocated.givesTokens (hm : m.Allocated) : GivesTokens m.classMap.lookup := by
  intro t u ht h
  obtain ⟨c, n, rfl, hget, rfl⟩ := ClassMap.lookup_eq_some h
  cases hx : m.isExcluded c with
  | true => rwa [hm.eq_of_excluded hget hx]
  | false => exact (hm.isShortName hget hx).2.isToken

theorem isRenamed_eq_false_iff {m : ClassMap} {c : ClassName} : m.isRenamed c = false ↔ m.rename c = c := by
  rw [ClassMap.isRenamed, ClassMap.rename]
  cases m.get? c <;> simp

theorem Allocated.getD_newName? (hm : m.Allocated) (c : ClassName) :
    (m.newName? c).getD c = m.classMap.rename c := by
  rw [newName?]
  split
  · next h =>
    rcases Bool.or_eq_true_iff.1 h with hx | hsame
    · cases hget : m.classMap.get? c with
      | none => simp [ClassMap.rename, hget]
      | some n => simp [ClassMap.rename, hget, hm.eq_of_excluded hget hx]
    · exact (isRenamed_eq_false_iff.1 (by simpa using hsame)).symm
  · rfl

theorem Allocated.isShortName_of_newName? (hm : m.Allocated) {c n : ClassName} (h : m.newName? c = some n) :
    IsShortName n := by
  rw [newName?] at h
  split at h
  · simp at h
  · next hx =>
    rw [Bool.or_eq_true_iff, not_or] at hx
    cases hget : m.classMap.get? c with
    | none => simp [ClassMap.isRenamed, hget] at hx
    | some k =>
      obtain rfl : k = n := by simpa [ClassMap.rename, hget] using h
      exact (hm.isShortName hget (by simpa using hx.1)).2

theorem Allocated.renameSheet (hm : m.Allocated) {css : List Char} {cs : List ClassName}
    (hcs : Stylesheet.classes css = .ok cs) :
    ∃ css', m.renameSheet css = .ok css' ∧ Stylesheet.classes css' = .ok (cs.map m.classMap.rename) := by
  obtain ⟨ss, hss, hvalues⟩ := Stylesheet.exists_parse_of_classes hcs
  refine ⟨_, Stylesheet.renameClasses_eq_respelled m.newName? hss, ?_⟩
  have hrename : Stylesheet.renamed m.newName? = m.classMap.rename := funext hm.getD_newName?
  rw [Stylesheet.classes_respelled (fun c n => hm.isShortName_of_newName?) hss, hrename, hvalues]

theorem Allocated.mem_map_rename_iff (hm : m.Allocated) {c : ClassName} (hc : c ∈ m.classMap.keys) {ts : List Text}
    (hfresh : ∀ t ∈ ts, (∀ k ∈ m.classMap.keys, t ≠ Text.ofChars k) →
      ∀ k n, m.classMap.get? k = some n → t ≠ Text.ofChars n) :
    Text.ofChars c ∈ ts ↔ Text.ofChars (m.classMap.rename c) ∈ ts.map (ClassList.rename m.classMap.lookup) := by
  obtain ⟨n, hn⟩ := ClassMap.mem_keys_iff.1 hc
  have hname : m.classMap.rename c = n := by rw [ClassMap.rename, hn, Option.getD_some]
  constructor
  · intro hmem
    rw [← ClassMap.rename_ofChars]
    exact List.mem_map_of_mem hmem
  · intro hmem
    obtain ⟨t, ht, heq⟩ := List.mem_map.1 hmem
    rw [hname, ClassList.rename] at heq
    cases hl : m.classMap.lookup t with
    | some u =>
      -- two classes with one name are the same
      obtain ⟨k, l, rfl, hk, rfl⟩ := ClassMap.lookup_eq_some hl
      rw [hl, Option.getD_some] at heq
      obtain rfl := Text.ofChars_injective heq
      rwa [hm.get?_injective hn hk]
    | none =>
      rw [hl, Option.getD_none] at heq
      refine absurd heq (hfresh t ht ?_ c n hn)
      rintro k hk rfl
      obtain ⟨l, hget⟩ := ClassMap.mem_keys_iff.1 hk
      rw [ClassMap.lookup_ofChars, hget] at hl
      simp at hl

section Literal

variable {p : Program} {path : Ancestry} {n : Node}

theorem not_hasStem_of_joins {j : Joins} (hj : j.right = false) (v : Text) : ¬HasStem j v := by
  rintro ⟨hglued, -⟩
  simp [gluedRight, hj] at hglued

theorem Allocated.mem_newValue (hm : m.Allocated) {j : Joins} {cs : List Char}
    (hstem : ¬HasStem j (Text.ofChars cs)) {a : CodePoint}
    (ha : a ∈ newValue m.classMap.lookup j (Text.ofChars cs)) :
    ∃ c, a = .scalar c ∧ (c ∈ cs ∨ c = ' ' ∨ c ∈ Alphabet.base) := by
  rcases ClassList.mem_newValue hstem ha with h | rfl | ⟨t, ht, u, hu, h⟩
  · obtain ⟨c, hc, rfl⟩ := List.mem_map.1 h
    exact ⟨c, rfl, .inl hc⟩
  · exact ⟨' ', rfl, .inr (.inl rfl)⟩
  · obtain ⟨k, l, rfl, hget, rfl⟩ := ClassMap.lookup_eq_some hu
    obtain ⟨c, hc, rfl⟩ := List.mem_map.1 h
    cases hx : m.isExcluded k with
    | true =>
      rw [hm.eq_of_excluded hget hx] at h
      obtain ⟨d, hd, heq⟩ := List.mem_map.1 (Text.mem_of_mem_tokens ht h)
      obtain rfl := CodePoint.scalar.inj heq
      exact ⟨d, rfl, .inl hd⟩
    | false => exact ⟨c, rfl, .inr (.inr ((hm.isShortName hget hx).2.mem_base hc))⟩

theorem rename_string (hp : p.WellNested) (lookup : Text → Option Text) :
    ∃ new, p.rename lookup = .ok new ∧ ∀ s, .string s false ∈ p.literals →
      s.value = readBody s.raw (p.text s.start s.stop) ∧ p.Rewrites lookup (s.start - 1) (s.stop + 1)
        (p.text (s.start - 1) s.start ++ p.spanText lookup s ++ p.text s.stop (s.stop + 1)) new := by
  obtain ⟨new, hnew, hreached⟩ := hp.rename_reached lookup
  refine ⟨new, hnew, fun s hs => ?_⟩
  obtain ⟨path, n, hn, ⟨hk, hat⟩ | ⟨-, hat⟩⟩ := exists_reached_of_mem_literals hs
  · have hrewrites := hreached path n hn
    rw [stringLiteral_eq] at hat
    obtain ⟨rfl, hfree⟩ := Literal.string.inj hat
    have hle := (hn.nested hp).1.of_string hk
    have hstop : n.stop - 1 + 1 = n.stop := by omega
    refine ⟨rfl, ?_⟩
    rw [newText_of_string hk, literalText, ← hfree] at hrewrites
    simpa [stringSpan, hstop] using hrewrites
  · simp [templateLiteral] at hat

theorem Allocated.readBody_spanText (hm : m.Allocated) {s : Span} (hj : s.raw = true → s.joins = {})
    (hvalue : s.value = readBody s.raw (p.text s.start s.stop)) :
    readBody s.raw (p.spanText m.classMap.lookup s) = newValue m.classMap.lookup s.joins s.value ∧
      (IsBody s.raw s.quote (p.text s.start s.stop) →
        IsBody s.raw s.quote (p.spanText m.classMap.lookup s)) := by
  have hmem : s.raw = true → ∀ a ∈ newValue m.classMap.lookup s.joins s.value,
      ∃ c, a = .scalar c ∧ (c ∈ p.text s.start s.stop ∨ c = ' ' ∨ c ∈ Alphabet.base) := by
    intro hraw a ha
    have hvalue : s.value = Text.ofChars (p.text s.start s.stop) := by rw [hvalue, hraw]; rfl
    rw [hvalue] at ha
    exact hm.mem_newValue (not_hasStem_of_joins (by rw [hj hraw]) _) ha
  have hplain : s.raw = true → ∀ a ∈ newValue m.classMap.lookup s.joins s.value, a.toChar?.isSome = true := by
    intro hraw a ha
    obtain ⟨c, rfl, -⟩ := hmem hraw a ha
    rfl
  refine ⟨Program.readBody_spanText _ hvalue hplain, isBody_spanText _ ?_ hplain⟩
  intro hraw a ha hquote
  obtain ⟨c, rfl, hc⟩ := hmem hraw a ha
  obtain rfl : c = s.quote.char := Option.some.inj hquote
  have hno : ∀ q : Quote, q.char ≠ ' ' ∧ q.char ∉ Alphabet.base := by
    intro q
    cases q <;> decide
  rcases hc with hc | hc | hc
  · exact hc
  · exact absurd hc (hno s.quote).1
  · exact absurd hc (hno s.quote).2

end Literal

theorem extract_preserves_matching (tries : Nat) {m₀ m : Minifier} {css : List Char}
    (h : extract tries m₀ css = .ok m) :
    ∃ cs css', Stylesheet.classes css = .ok cs ∧ m.renameSheet css = .ok css' ∧
      Stylesheet.classes css' = .ok (cs.map m.classMap.rename) ∧
      ∀ (source : List Char) (p : Program) (s : Span), parse? source = some p →
        .string s false ∈ p.literals → s.joins = {} →
        (∃ new, m.renameProgram p = .ok new ∧ p.Rewrites m.classMap.lookup (s.start - 1) (s.stop + 1)
          (p.text (s.start - 1) s.start ++ p.spanText m.classMap.lookup s ++ p.text s.stop (s.stop + 1)) new) ∧
        (IsBody s.raw s.quote (p.text s.start s.stop) →
          IsBody s.raw s.quote (p.spanText m.classMap.lookup s)) ∧
        ((∀ t ∈ s.value.tokens, (∀ k ∈ m.classMap.keys, t ≠ Text.ofChars k) →
            ∀ k n, m.classMap.get? k = some n → t ≠ Text.ofChars n) →
          ∀ c ∈ cs, Text.ofChars c ∈ s.value.tokens ↔
            Text.ofChars (m.classMap.rename c) ∈ (readBody s.raw (p.spanText m.classMap.lookup s)).tokens) := by
  obtain ⟨cs, hcs⟩ : ∃ cs, Stylesheet.classes css = .ok cs := by
    cases hcs : Stylesheet.classes css with
    | ok cs => exact ⟨cs, rfl⟩
    | error e => simp [extract, hcs, Except.mapError, bind, Except.bind] at h
  rcases extract_cases tries m₀ hcs with herr | ⟨m', hok, hm, -, hkeys⟩
  · simp [herr] at h
  obtain rfl := Except.ok.inj (hok.symm.trans h)
  obtain ⟨css', hsheet, hclasses⟩ := hm.renameSheet hcs
  refine ⟨cs, css', hcs, hsheet, hclasses, fun source p s hp hs hj => ?_⟩
  obtain ⟨new, hnew, hstrings⟩ := rename_string (wellNested_of_parse hp) m'.classMap.lookup
  obtain ⟨hvalue, hrewrites⟩ := hstrings s hs
  obtain ⟨hread, hbody⟩ := hm.readBody_spanText (fun _ => hj) hvalue
  refine ⟨⟨new, hnew, hrewrites⟩, hbody, fun hfresh c hc => ?_⟩
  rw [hread, tokens_newValue hm.givesTokens (not_hasStem_of_joins (by rw [hj]) _)]
  exact hm.mem_map_rename_iff ((hkeys c).2 hc) hfresh

def callProgram : Program where
  source := "f(\"btn 1\")".toList
  root := .mk .other 0 10 [.mk .expressionStatement 0 10
    [.mk .call 0 10 [.mk .identifier 0 1 [], .mk .arguments 1 10 [.mk .string 2 9 []]]]]

def callSpan : Span := ⟨3, 8, cook (Text.ofString "btn 1"), .double, {}, false⟩

theorem literals_callProgram : callProgram.literals = [.string callSpan false] := rfl

theorem extract_preserves_matching_call :
    parse? callProgram.source = some callProgram ∧ ∃ m css',
      extract 1 {} ".btn .card\x7b\x7d".toList = .ok m ∧
      m.renameSheet ".btn .card\x7b\x7d".toList = .ok css' ∧
      Stylesheet.classes css' = .ok [m.classMap.rename "btn".toList, m.classMap.rename "card".toList] ∧
      (∃ new, m.renameProgram callProgram = .ok new ∧ callProgram.Rewrites m.classMap.lookup 2 9
        (['"'] ++ callProgram.spanText m.classMap.lookup callSpan ++ ['"']) new) ∧
      Text.ofChars (m.classMap.rename "btn".toList) ∈
        (readBody false (callProgram.spanText m.classMap.lookup callSpan)).tokens ∧
      Text.ofChars (m.classMap.rename "card".toList) ∉
        (readBody false (callProgram.spanText m.classMap.lookup callSpan)).tokens := by
  have hcs : Stylesheet.classes ".btn .card\x7b\x7d".toList = .ok ["btn".toList, "card".toList] :=
    eq_ok_of_toOption (by decide +kernel)
  have hfree : ∀ c, isExcluded {} c = false := by
    intro c
    simp [isExcluded, Usage.isBuilt]
  obtain ⟨m, hok, hm, hx, hkeys⟩ := (extract_cases 1 {} hcs).resolve_left
    (extract_ne_outOfNames 0 hcs fun a i _ _ => hfree _)
  obtain ⟨cs, css', hclasses, hsheet, hclasses', hprogram⟩ := extract_preserves_matching 1 hok
  obtain rfl := Except.ok.inj (hclasses.symm.trans hcs)
  have hp : parse? callProgram.source = some callProgram := by decide +kernel
  obtain ⟨hrename, -, hmatch⟩ := hprogram _ callProgram callSpan hp (by simp [literals_callProgram]) rfl
  have htokens : callSpan.value.tokens = ["btn", "1"].map Text.ofString := by decide +kernel
  have hfresh : ∀ t ∈ callSpan.value.tokens, (∀ k ∈ m.classMap.keys, t ≠ Text.ofChars k) →
      ∀ k n, m.classMap.get? k = some n → t ≠ Text.ofChars n := by
    rw [htokens]
    intro t ht hno k n hn
    obtain rfl | rfl : t = Text.ofString "btn" ∨ t = Text.ofString "1" := by simpa using ht
    · exact absurd rfl (hno "btn".toList ((hkeys _).2 (by simp)))
    · -- no name begins with a digit
      obtain ⟨-, hshort⟩ := hm.isShortName hn (by rw [hx, hfree])
      intro heq
      rw [← Text.ofChars_injective heq] at hshort
      exact absurd hshort.1 (by decide)
  refine ⟨hp, m, css', hok, hsheet, hclasses', hrename, ?_, ?_⟩
  · refine (hmatch hfresh "btn".toList (by simp)).1 ?_
    rw [htokens]
    decide
  · intro hcard
    have hmem := (hmatch hfresh "card".toList (by simp)).2 hcard
    rw [htokens] at hmem
    exact absurd hmem (by decide)

end Minifier

end ShortClass
