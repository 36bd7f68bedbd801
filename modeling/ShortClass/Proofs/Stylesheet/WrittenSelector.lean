import Mathlib.Data.List.Chain
import ShortClass.Proofs.Stylesheet.NameText

namespace ShortClass.Stylesheet

inductive InString (q : Char) : List Char → Prop where
  | nil : InString q []
  | char {c : Char} {s : List Char} : c ≠ q → c ≠ '\\' → InString q s → InString q (c :: s)
  | pair {c : Char} {s : List Char} : InString q s → InString q ('\\' :: c :: s)

inductive InBrackets : List Char → Prop where
  | nil : InBrackets []
  | char {c : Char} {s : List Char} : c ∉ [']', '"', '\'', '\\'] → InBrackets s → InBrackets (c :: s)
  | pair {c : Char} {s : List Char} : InBrackets s → InBrackets ('\\' :: c :: s)
  | string {q : Char} {s t : List Char} :
    q ∈ ['"', '\''] → InString q s → InBrackets t → InBrackets (q :: (s ++ q :: t))

def StartsName (c : Char) : Prop := c.isAlpha = true ∨ c = '_' ∨ 0x80 ≤ c.toNat

def ContinuesName (c : Char) : Prop := StartsName c ∨ c.isDigit = true ∨ c = '-'

def Escapable (c : Char) : Prop := isHexDigit c = false ∧ c ∉ ['\n', '\r', '\x0c']

/-- The spellings of one character of a name. Only a character with the property `bare` may stand for itself. -/
inductive Spelled (bare : Char → Prop) (c : Char) : List Char → Prop where
  | self : bare c → Spelled bare c [c]
  | pair : Escapable c → Spelled bare c ['\\', c]
  | code {ds : List Char} {b : Char} :
    ds ≠ [] → ds.length ≤ 6 → (∀ d ∈ ds, isHexDigit d = true) → numberOf 16 ds = c.toNat → c ≠ '\x00' →
    b ∈ [' ', '\t', '\n', '\r', '\x0c'] → Spelled bare c ('\\' :: (ds ++ [b]))

inductive Continued : ClassName → List Char → Prop where
  | nil : Continued [] []
  | cons {c : Char} {v : ClassName} {w t : List Char} :
    Spelled ContinuesName c w → Continued v t → Continued (c :: v) (w ++ t)

inductive Named : ClassName → List Char → Prop where
  | mk {c : Char} {v : ClassName} {w t : List Char} :
    Spelled StartsName c w → Continued v t → Named (c :: v) (w ++ t)

inductive Part where
  | string (q : Char) (s : List Char) (hq : q ∈ ['"', '\'']) (hs : InString q s)
  | brackets (s : List Char) (hs : InBrackets s)
  | escape (c : Char) (hc : Escapable c)
  | filler (t : List Char) (hne : t ≠ []) (ht : ∀ c ∈ t, c ∉ ['.', '[', '"', '\'', '\\'])
  | name (v : ClassName) (w : List Char) (hw : Named v w)

namespace Part

def text : Part → List Char
  | string q s _ _ => q :: (s ++ [q])
  | brackets s _ => '[' :: (s ++ [']'])
  | escape c _ => ['\\', c]
  | filler t _ _ => t
  | name _ w _ => '.' :: w

def component? (pos : Nat) : Part → Option Component
  | name v w _ => some ⟨v, pos + 1, pos + 1 + w.length⟩
  | _ => none

/-- After a class name nothing may follow that would continue it. -/
def MayPrecede : Part → Part → Prop
  | name _ _ _, r => ∀ c ∈ r.text.head?, ¬ContinuesName c ∧ c ≠ '\\'
  | _, _ => True

theorem text_ne_nil (p : Part) : p.text ≠ [] := by
  cases p with
  | filler t hne ht => exact hne
  | _ => simp [text]

end Part

def partComponents (pos : Nat) : List Part → List Component
  | [] => []
  | p :: ps => (p.component? pos).toList ++ partComponents (pos + p.text.length) ps

theorem isNameStart_iff {c : Char} : isNameStart c = true ↔ StartsName c := by
  simp [isNameStart, StartsName, or_assoc]

theorem isNameChar_iff {c : Char} : isNameChar c = true ↔ ContinuesName c := by
  simp [isNameChar, ContinuesName, ← isNameStart_iff, or_assoc]

section Tails

variable {q : Char} {s : List Char}

theorem InString.stringTail_append (h : InString q s) (hq : isPlain q = false) (hne : q ≠ '\\') (r : List Char) :
    stringTail q (s ++ q :: r) = some (s.length + 1) := by
  have htail := isTail_stringTail hq
  induction h with
  | nil => simp [htail.char q r hne]
  | @char c s hc hb _ ih => simp [htail.char c _ hb, hc, ih]
  | pair _ ih => simp [htail.pair, ih]

theorem isQuote_of_mem (h : q ∈ ['"', '\'']) : isQuote q = true ∧ q ≠ '\\' ∧ q ≠ ']' ∧ q ≠ '.' := by
  simp only [List.mem_cons, List.not_mem_nil, or_false] at h
  rcases h with rfl | rfl <;> decide

theorem InString.tail (h : InString q s) (hq : q ∈ ['"', '\'']) (r : List Char) :
    stringTail q (s ++ q :: r) = some (s.length + 1) := by
  obtain ⟨hquote, hne, -⟩ := isQuote_of_mem hq
  exact h.stringTail_append (not_isPlain_of_isQuote hquote) hne r

theorem InBrackets.attributeTail_append (h : InBrackets s) (r : List Char) :
    attributeTail (s ++ ']' :: r) = some (s.length + 1) := by
  have htail := isTail_attributeTail
  induction h with
  | nil => simp [htail.char ']' r (by decide)]
  | @char c s hc _ ih =>
    simp only [List.mem_cons, List.not_mem_nil, or_false, not_or] at hc
    simp [htail.char c _ hc.2.2.2, isQuote, hc, ih]
  | pair _ ih => simp [htail.pair, ih]
  | @string q s t hq hs _ ih =>
    obtain ⟨hquote, hne, hclose, -⟩ := isQuote_of_mem hq
    have hstring := hs.tail hq (t ++ ']' :: r)
    have hdrop : (s ++ q :: (t ++ ']' :: r)).drop (s.length + 1) = t ++ ']' :: r := by
      rw [← List.drop_drop, List.drop_left]
      rfl
    have hlen : t.length + 1 + (s.length + 1) + 1 = (q :: (s ++ q :: t)).length + 1 := by
      simp only [List.length_cons, List.length_append]
      omega
    rw [List.cons_append, List.append_assoc, List.cons_append, htail.char q _ hne, ← hlen]
    simp [hclose, hquote, hstring, hdrop, ih]

end Tails

section Name

variable {bare : Char → Prop} {p : Char → Bool} {c : Char} {v : ClassName} {w r : List Char}

theorem escapeTail_of_escapable (h : Escapable c) (r : List Char) : escapeTail (c :: r) = some 1 := by
  obtain ⟨hhex, hbreak⟩ := h
  simp only [List.mem_cons, List.not_mem_nil, or_false] at hbreak
  simp [escapeTail, hhex, hbreak]

theorem hexEscape_append {ds : List Char} {b : Char} (hlen : ds.length ≤ 6) (hds : ∀ d ∈ ds, isHexDigit d = true)
    (hb : b ∈ [' ', '\t', '\n', '\r', '\x0c']) (r : List Char) :
    hexEscape (ds ++ b :: r) = (ds, ds.length + 1) := by
  have hends : endsHex b = true := by
    simp only [List.mem_cons, List.not_mem_nil, or_false] at hb
    rcases hb with rfl | rfl | rfl | rfl | rfl <;> decide
  have hdigits : AreDigits ds (b :: r) := ⟨hds, hlen, .inr (by simpa using not_isHexDigit_of_endsHex hends)⟩
  rw [hdigits.hexEscape]
  simp [hends]

theorem Spelled.namePiece (h : Spelled bare c w) (hp : ∀ c, bare c → p c = true ∧ c ≠ '\\') :
    ∃ d u, w = d :: u ∧ ∀ r, namePiece p d (u ++ r) = some u.length := by
  cases h with
  | self hc =>
    obtain ⟨hpc, hne⟩ := hp c hc
    exact ⟨c, [], rfl, fun r => by simp [Stylesheet.namePiece, hpc, hne]⟩
  | pair hc => exact ⟨'\\', [c], rfl, fun r => escapeTail_of_escapable hc r⟩
  | @code ds b hne hlen hds _ _ hb =>
    refine ⟨'\\', ds ++ [b], rfl, fun r => ?_⟩
    have hhex := hexEscape_append hlen hds hb r
    obtain ⟨d, es, rfl⟩ := List.exists_cons_of_ne_nil hne
    simp only [List.cons_append] at hhex
    simp [Stylesheet.namePiece, escapeTail, hds d (by simp), hhex]

theorem unescape_cons (hc : c ≠ '\\') (t : List Char) : unescape (c :: t) = c :: unescape t := by
  rw [unescape]
  · intro h; exact absurd h hc
  · intro d u h; exact absurd h hc

theorem Spelled.unescape_append (h : Spelled bare c w) (hbare : bare c → c ≠ '\\') (r : List Char) :
    unescape (w ++ r) = c :: unescape r := by
  cases h with
  | self hc => exact unescape_cons (hbare hc) r
  | pair hc => simp [unescape, hc.1]
  | @code ds b hne hlen hds hcode hzero hb =>
    have hhex := hexEscape_append hlen hds hb r
    have hchar : charOfCode (numberOf 16 ds) = c := by
      have hne0 : c.toNat ≠ 0 := fun h => hzero (Char.toNat_inj.1 h)
      have hvalid : c.toNat.isValidChar := c.valid
      rw [hcode, charOfCode, if_neg (by simp [hne0, hvalid]), Char.ofNat_toNat]
    obtain ⟨d, es, rfl⟩ := List.exists_cons_of_ne_nil hne
    simp only [List.cons_append] at hhex
    simp [unescape, hds d (by simp), hhex, hchar]

theorem ContinuesName.isNameChar (h : ContinuesName c) : isNameChar c = true ∧ c ≠ '\\' := by
  refine ⟨isNameChar_iff.2 h, ?_⟩
  rintro rfl
  exact absurd (isNameChar_iff.2 h) (by decide)

theorem StartsName.isNameStart (h : StartsName c) : isNameStart c = true ∧ c ≠ '\\' :=
  ⟨isNameStart_iff.2 h, (ContinuesName.isNameChar (.inl h)).2⟩

theorem Continued.nameRun_append (h : Continued v w) (hr : nameRun r = 0) : nameRun (w ++ r) = w.length := by
  induction h with
  | nil => exact hr
  | @cons c v w t hc _ ih =>
    obtain ⟨d, u, rfl, hpiece⟩ := hc.namePiece fun _ => ContinuesName.isNameChar
    rw [List.append_assoc, List.cons_append, nameRun_of_some (hpiece _), List.drop_left, ih, List.length_append,
      List.length_cons]

theorem Continued.unescape_eq (h : Continued v w) : unescape w = v := by
  induction h with
  | nil => simp [unescape]
  | cons hc _ ih => rw [hc.unescape_append fun h => (ContinuesName.isNameChar h).2, ih]

theorem Named.classLength_append (h : Named v w) (hr : nameRun r = 0) : classLength (w ++ r) = some w.length := by
  cases h with
  | @mk c v w t hc ht =>
    obtain ⟨d, u, rfl, hpiece⟩ := hc.namePiece fun _ => StartsName.isNameStart
    have hd : d ≠ '-' := by
      rintro rfl
      simpa [Stylesheet.namePiece, Stylesheet.isNameStart] using hpiece []
    have hlength := classLength_hyphens (h := 0) (u := d :: (u ++ (t ++ r))) (by simpa using hd)
    rw [if_neg (by decide), bodyLength, hpiece, Option.map_some, Option.map_some, List.drop_left,
      ht.nameRun_append hr, List.replicate_zero, List.nil_append] at hlength
    rw [List.append_assoc, List.cons_append, hlength, List.length_append, List.length_cons, Nat.zero_add]

theorem Named.unescape_eq (h : Named v w) : unescape w = v := by
  cases h with
  | mk hc ht => rw [hc.unescape_append fun h => (StartsName.isNameStart h).2, ht.unescape_eq]

end Name

section Scan

variable {pos : Nat} {r : List Char}

theorem componentsFrom_filler {t : List Char} (ht : ∀ c ∈ t, c ∉ ['.', '[', '"', '\'', '\\']) :
    componentsFrom pos (t ++ r) = componentsFrom (pos + t.length) r := by
  induction t generalizing pos with
  | nil => rfl
  | cons c t ih =>
    have hc := ht c (by simp)
    simp only [List.mem_cons, List.not_mem_nil, or_false, not_or] at hc
    have hstep : componentsFrom pos (c :: (t ++ r)) = componentsFrom (pos + 1) (t ++ r) := by
      rw [componentsFrom, if_neg hc.1]
      simp [isQuote, hc]
    rw [List.cons_append, hstep, ih fun d hd => ht d (by simp [hd]), List.length_cons, Nat.add_assoc, Nat.add_comm 1]

theorem componentsFrom_skip {c : Char} {s : List Char} (hc : c ≠ '.')
    (hs : (if isQuote c then stringTail c (s ++ r) else if c = '[' then attributeTail (s ++ r)
      else if c = '\\' then escapeTail (s ++ r) else none) = some s.length) :
    componentsFrom pos (c :: s ++ r) = componentsFrom (pos + (c :: s).length) r := by
  rw [List.cons_append, componentsFrom, if_neg hc, hs]
  simp only [Option.getD_some, List.drop_left, List.length_cons, Nat.add_assoc, Nat.add_comm 1]

theorem componentsFrom_part (p : Part) (hr : (p.component? pos).isSome = true → nameRun r = 0) :
    componentsFrom pos (p.text ++ r) = (p.component? pos).toList ++ componentsFrom (pos + p.text.length) r := by
  cases p with
  | string q s hq hs =>
    obtain ⟨hquote, -, -, hdot⟩ := isQuote_of_mem hq
    apply componentsFrom_skip hdot
    rw [if_pos hquote, List.append_assoc, List.singleton_append, hs.tail hq, List.length_append, List.length_singleton]
  | brackets s hs =>
    apply componentsFrom_skip (by decide)
    rw [if_neg (by decide), if_pos rfl, List.append_assoc, List.singleton_append, hs.attributeTail_append,
      List.length_append, List.length_singleton]
  | escape c hc =>
    apply componentsFrom_skip (by decide)
    rw [if_neg (by decide), if_neg (by decide), if_pos rfl]
    exact escapeTail_of_escapable hc r
  | filler t hne ht => exact componentsFrom_filler ht
  | name v w hw =>
    have hlength := hw.classLength_append (hr rfl)
    rw [Part.text, List.cons_append, componentsFrom, if_pos rfl, hlength]
    simp only [List.take_left, List.drop_left, hw.unescape_eq, Part.component?, Option.toList_some,
      List.singleton_append, List.length_cons, Nat.add_assoc, Nat.add_comm 1]

theorem nameRun_eq_zero (h : ∀ c ∈ r.head?, ¬ContinuesName c ∧ c ≠ '\\') : nameRun r = 0 := by
  cases r with
  | nil => rw [nameRun]
  | cons c r =>
    obtain ⟨hc, hne⟩ := h c (by simp)
    apply nameRun_of_none
    rw [namePiece, if_neg hne, if_neg fun h => hc (isNameChar_iff.1 h)]

theorem Part.MayPrecede.nameRun {p s : Part} (h : p.MayPrecede s) (hp : (p.component? pos).isSome = true)
    (r : List Char) : nameRun (s.text ++ r) = 0 := by
  cases p with
  | name v w hw =>
    apply nameRun_eq_zero
    rwa [List.head?_append_of_ne_nil _ s.text_ne_nil]
  | _ => simp [component?] at hp

end Scan

theorem components_of_parts (ps : List Part) (h : ps.IsChain Part.MayPrecede) (start : Nat) :
    Segment.components ⟨ps.flatMap Part.text, start⟩ = partComponents start ps := by
  rw [Segment.components]
  induction ps generalizing start with
  | nil => rw [List.flatMap_nil, componentsFrom, partComponents]
  | cons p ps ih =>
    obtain ⟨hnext, hrest⟩ := List.isChain_cons.1 h
    rw [List.flatMap_cons, componentsFrom_part, partComponents, ih hrest]
    intro hp
    cases ps with
    | nil => rw [List.flatMap_nil, nameRun]
    | cons s ps => exact (hnext s rfl).nameRun hp _

def bracketedParts : List Part :=
  [.brackets ['a', '=', '"', '.', 'x', '"'] (.char (by decide) <| .char (by decide) <|
      .string (s := ['.', 'x']) (by decide) (.char (by decide) (by decide) <| .char (by decide) (by decide) .nil) .nil),
    .name ['1', '0', ':', 'b'] ['\\', '3', '1', ' ', '0', '\\', ':', 'b']
      (.mk (@Spelled.code StartsName '1' ['3', '1'] ' ' (by decide) (by decide) (List.all_eq_true.1 rfl) (by decide)
          (by decide) (by decide)) <|
        .cons (.self (.inr (.inl (by decide)))) <| .cons (.pair ⟨by decide, by decide⟩) <|
        .cons (.self (.inl (.inl (by decide)))) .nil),
    .filler [':', 'n', 'o', 't', '('] (by decide) (by simp),
    .string '"' ['.', 'y'] (by decide) (.char (by decide) (by decide) <| .char (by decide) (by decide) .nil),
    .filler [')'] (by decide) (by simp)]

theorem components_of_parts_bracketed :
    bracketedParts.flatMap Part.text = "[a=\".x\"].\\31 0\\:b:not(\".y\")".toList ∧
      Segment.components ⟨"[a=\".x\"].\\31 0\\:b:not(\".y\")".toList, 40⟩ = [⟨"10:b".toList, 49, 57⟩] := by
  have htext : bracketedParts.flatMap Part.text = "[a=\".x\"].\\31 0\\:b:not(\".y\")".toList := by decide
  have hchain : bracketedParts.IsChain Part.MayPrecede := by
    simp [bracketedParts, Part.MayPrecede, Part.text, ContinuesName, StartsName]
  refine ⟨htext, ?_⟩
  rw [← htext, components_of_parts bracketedParts hchain]
  decide

end ShortClass.Stylesheet
