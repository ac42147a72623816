import EntityQuery.Proofs.Text.Characters

/-!
# Where a scan ends

A scan looks past its own end: a point belongs to a numeral only with a digit after it, and a type
letter only without one. What it finds still does not depend on all that follows. A text may be cut
short right behind the numeral or the quoted text, or later, and the same is found in front of the
cut.
-/

namespace EntityQuery

namespace Text

/-! ### Texts cut short -/

/-- A blank or a comma, with which nothing goes on but a quoted text. -/
def isGap (c : Char) : Bool := isBlank c || c == ','

theorem isGap_of_isBlank {c : Char} (h : isBlank c = true) : isGap c = true := by
  simp [isGap, h]

/-- The first text is the second one up to a place where it ends or goes on with a blank or a
comma. -/
inductive CutShort : List Char → List Char → Prop
  | here {cs ds : List Char} (h : ∀ c ∈ cs.head?, isGap c = true) : CutShort cs ds
  | cons {cs ds : List Char} (c : Char) (h : CutShort cs ds) : CutShort (c :: cs) (c :: ds)

namespace CutShort

variable {cs ds : List Char}

theorem nil (ds : List Char) : CutShort [] ds :=
  .here fun _ hc => by cases hc

/-- The same text before both. -/
theorem append (text : List Char) (h : CutShort cs ds) : CutShort (text ++ cs) (text ++ ds) := by
  induction text with
  | nil => exact h
  | cons c text ih => exact .cons c ih

/-- A text that is cut short starts like the whole text, or not with what neither a blank nor a
comma is. -/
theorem head_eq_false {test : Char → Bool} (htest : ∀ c, isGap c = true → test c = false)
    (h : CutShort cs ds) (hds : ∀ c ∈ ds.head?, test c = false) :
    ∀ c ∈ cs.head?, test c = false := by
  cases h with
  | here hcs => exact fun c hc => htest c (hcs c hc)
  | cons c h => exact hds

theorem head?_ne {d : Char} (hd : isGap d = false) (h : CutShort cs ds) (hds : ds.head? ≠ some d) :
    cs.head? ≠ some d := by
  cases h with
  | here hcs =>
    intro hhead
    rw [hcs d hhead] at hd
    cases hd
  | cons c h => exact hds

end CutShort

/-! ### Runs of characters -/

section

variable {test : Char → Bool} {cs : List Char}

theorem takeWhile_eq_nil (h : ∀ c ∈ cs.head?, test c = false) : cs.takeWhile test = [] := by
  cases cs with
  | nil => rfl
  | cons c cs => simp [h c rfl]

theorem head_of_takeWhile_eq_nil (h : cs.takeWhile test = []) : ∀ c ∈ cs.head?, test c = false := by
  cases cs with
  | nil => exact fun _ hc => by cases hc
  | cons c cs =>
    intro d hd
    cases hd
    simpa [List.takeWhile_cons] using h

theorem head_dropWhile (cs : List Char) : ∀ c ∈ (cs.dropWhile test).head?, test c = false := by
  intro c hc
  have h := List.head?_dropWhile_not test cs
  rw [Option.mem_def.mp hc] at h
  exact h

/-- A run of characters ends where the next one does not go on with it. -/
theorem takeWhile_append_stop {run rest : List Char} (hrun : ∀ c ∈ run, test c = true)
    (hrest : ∀ c ∈ rest.head?, test c = false) :
    (run ++ rest).takeWhile test = run ∧ (run ++ rest).dropWhile test = rest := by
  have hnil : rest.takeWhile test = [] := takeWhile_eq_nil hrest
  constructor
  · rw [List.takeWhile_append_of_pos hrun, hnil, List.append_nil]
  · have hsplit := @List.takeWhile_append_dropWhile _ test rest
    rw [hnil, List.nil_append] at hsplit
    rw [List.dropWhile_append_of_pos hrun, hsplit]

/-- A run of characters that neither a blank nor a comma is ends where it did if the text is cut
short behind it. -/
theorem takeWhile_cutShort (htest : ∀ c, isGap c = true → test c = false) {rest : List Char}
    (h : CutShort rest (cs.dropWhile test)) :
    (cs.takeWhile test ++ rest).takeWhile test = cs.takeWhile test ∧
      (cs.takeWhile test ++ rest).dropWhile test = rest :=
  takeWhile_append_stop (List.all_eq_true.mp List.all_takeWhile)
    (h.head_eq_false htest (head_dropWhile cs))

end

/-! ### Blanks and commas -/

/-- The blanks by their code points. -/
private def blanks : List Nat := blankRanges.flatMap fun (lo, hi) => List.range' lo (hi + 1 - lo)

private theorem mem_ranges {n : Nat} {ranges : List (Nat × Nat)} (h : inRanges n ranges = true) :
    n ∈ ranges.flatMap fun (lo, hi) => List.range' lo (hi + 1 - lo) := by
  induction ranges with
  | nil => cases h
  | cons range rest ih =>
    obtain ⟨lo, hi⟩ := range
    simp only [inRanges, Bool.and_eq_true, Bool.or_eq_true, decide_eq_true_eq] at h
    rw [List.flatMap_cons, List.mem_append]
    rcases h with ⟨hlo, hhi | hrest⟩
    · left
      rw [List.mem_range'_1]
      omega
    · exact .inr (ih hrest)

/-- No blank is part of a word. -/
theorem isWordPart_of_isBlank {c : Char} (h : isBlank c = true) : isWordPart c = false := by
  have hall : ∀ n ∈ blanks, (!inRanges n alphabeticRanges && !inRanges n numericRanges && n != 95) =
      true :=
    List.all_eq_true.mp (by decide +kernel)
  have hc := hall c.toNat (mem_ranges h)
  simp only [Bool.and_eq_true, Bool.not_eq_true', bne_iff_ne, ne_eq] at hc
  have hne : c ≠ '_' := by
    rintro rfl
    exact hc.2 rfl
  simp [isWordPart, isAlphabetic, isNumeric, hc.1.1, hc.1.2, hne]

theorem isWordPart_of_isGap {c : Char} (h : isGap c = true) : isWordPart c = false := by
  rw [isGap, Bool.or_eq_true, beq_iff_eq] at h
  rcases h with hblank | rfl
  · exact isWordPart_of_isBlank hblank
  · decide

theorem isDigit_of_isGap {c : Char} (h : isGap c = true) : c.isDigit = false := by
  rw [← Bool.not_eq_true]
  intro hdigit
  have hpart := isWordPart_of_isDigit hdigit
  rw [isWordPart_of_isGap h] at hpart
  cases hpart

/-! ### Quoted texts -/

/-- A quoted text is found up to its closing quote, and whatever follows but a further quote. -/
theorem unquote_eq_some {cs content : List Char} {n : Nat} (h : unquote cs = some (content, n)) :
    ∃ text after, cs = text ++ after ∧ text.length = n ∧ after.head? ≠ some '\'' ∧
      ∀ rest, rest.head? ≠ some '\'' → unquote (text ++ rest) = some (content, n) := by
  fun_induction unquote cs generalizing content n with
  | case1 => cases h
  | case2 cs ih =>
    obtain ⟨⟨content', n'⟩, hcs, hresult⟩ := Option.map_eq_some_iff.mp h
    cases hresult
    obtain ⟨text, after, rfl, rfl, hafter, hread⟩ := ih hcs
    refine ⟨'\'' :: '\'' :: text, after, rfl, rfl, hafter, fun rest hrest => ?_⟩
    simp [unquote, hread rest hrest]
  | case3 cs hcs =>
    cases h
    refine ⟨['\''], cs, rfl, rfl, ?_, fun rest hrest => unquote_end hrest⟩
    cases cs with
    | nil => simp
    | cons c cs => simpa using fun hc => hcs cs (by rw [hc])
  | case4 c cs _ hc ih =>
    obtain ⟨⟨content', n'⟩, hcs, hresult⟩ := Option.map_eq_some_iff.mp h
    cases hresult
    obtain ⟨text, after, rfl, rfl, hafter, hread⟩ := ih hcs
    refine ⟨c :: text, after, rfl, rfl, hafter, fun rest hrest => ?_⟩
    rw [List.cons_append, unquote_cons hc, hread rest hrest]
    rfl

end Text

namespace Numeral

open Text (CutShort)

/-! ### The parts of a numeral -/

private theorem takeSign_cutShort {cs sign rest : List Char} (h : takeSign cs = (sign, rest)) :
    cs = sign ++ rest ∧
      ∀ rest', CutShort rest' rest → takeSign (sign ++ rest') = (sign, rest') := by
  unfold takeSign at h
  split at h
  · cases h
    exact ⟨rfl, fun _ _ => rfl⟩
  · next hcs =>
    cases h
    refine ⟨rfl, fun rest' hcut => ?_⟩
    have hhead : rest'.head? ≠ some '-' := by
      apply hcut.head?_ne (by decide)
      intro hminus
      obtain ⟨ds, hds⟩ := List.head?_eq_some_iff.mp hminus
      exact hcs ds hds
    rw [List.nil_append]
    unfold takeSign
    split
    · exact absurd rfl hhead
    · rfl

theorem takeFraction_of_head {cs : List Char}
    (h : ∀ ds, cs = '.' :: ds → ∀ d ∈ ds.head?, d.isDigit = false) :
    takeFraction cs = ([], cs) := by
  unfold takeFraction
  split
  · next ds =>
    rw [Text.takeWhile_eq_nil (h ds rfl)]
    rfl
  · rfl

private theorem takeFraction_cutShort {cs fraction rest : List Char}
    (h : takeFraction cs = (fraction, rest)) :
    cs = (if fraction.isEmpty then [] else '.' :: fraction) ++ rest ∧ ∀ rest', CutShort rest' rest →
      takeFraction ((if fraction.isEmpty then [] else '.' :: fraction) ++ rest') =
        (fraction, rest') := by
  unfold takeFraction at h
  split at h
  · next ds =>
    simp only at h
    split at h
    · next hempty =>
      -- a point without a digit after it stays in the rest
      cases h
      refine ⟨rfl, fun rest' hcut => takeFraction_of_head ?_⟩
      rintro ds' rfl
      cases hcut with
      | here hgap => exact absurd (hgap '.' rfl) (by decide)
      | cons _ hcut =>
        apply hcut.head_eq_false fun _ => Text.isDigit_of_isGap
        exact Text.head_of_takeWhile_eq_nil (List.isEmpty_iff.mp hempty)
    · next hne =>
      cases h
      simp only [hne, Bool.false_eq_true, ↓reduceIte]
      refine ⟨?_, fun rest' hcut => ?_⟩
      · rw [List.cons_append, List.takeWhile_append_dropWhile]
      · obtain ⟨htake, hdrop⟩ := Text.takeWhile_cutShort (fun _ => Text.isDigit_of_isGap) hcut
        rw [List.cons_append, takeFraction, htake, hdrop, if_neg hne]
  · next hcs =>
    cases h
    refine ⟨rfl, fun rest' hcut => takeFraction_of_head ?_⟩
    rintro ds' rfl
    cases hcut with
    | here hgap => exact absurd (hgap '.' rfl) (by decide)
    | cons _ hcut => exact absurd rfl (hcs _)

theorem takeExponent_of_head {cs : List Char} (h : ∀ c ∈ cs.head?, ¬(c = 'e' ∨ c = 'E')) :
    takeExponent cs = (([], []), cs) := by
  match cs with
  | [] => rfl
  | [e] => simp [takeExponent, h e rfl]
  | e :: s :: cs => simp [takeExponent, h e rfl]

private theorem takeExponent_signed {e sign : Char} (he : e = 'e' ∨ e = 'E')
    (hsign : sign = '+' ∨ sign = '-') (cs : List Char) : takeExponent (e :: sign :: cs) =
      if (cs.takeWhile Char.isDigit).isEmpty then (([], []), e :: sign :: cs)
      else (([e, sign], cs.takeWhile Char.isDigit), cs.dropWhile Char.isDigit) := by
  simp [takeExponent, he, hsign]

private theorem takeExponent_unsigned {e : Char} (he : e = 'e' ∨ e = 'E') {cs : List Char}
    (hcs : ∀ c ∈ cs.head?, ¬(c = '+' ∨ c = '-')) : takeExponent (e :: cs) =
      if (cs.takeWhile Char.isDigit).isEmpty then (([], []), e :: cs)
      else (([e], cs.takeWhile Char.isDigit), cs.dropWhile Char.isDigit) := by
  cases cs with
  | nil => simp [takeExponent, he]
  | cons c cs => simp [takeExponent, he, hcs c rfl]

/-- Letters for an exponent that have none stay in the rest, where no numeral may have them. -/
private theorem takeExponent_cutShort {cs mark exponent rest : List Char}
    (h : takeExponent cs = ((mark, exponent), rest))
    (hrest : exponent = [] → ∀ c ∈ rest.head?, ¬(c = 'e' ∨ c = 'E')) :
    cs = mark ++ exponent ++ rest ∧ ∀ rest', CutShort rest' rest →
      takeExponent (mark ++ exponent ++ rest') = ((mark, exponent), rest') := by
  have habsent (h : (([], []), cs) = ((mark, exponent), rest)) :
      cs = mark ++ exponent ++ rest ∧ ∀ rest', CutShort rest' rest →
        takeExponent (mark ++ exponent ++ rest') = ((mark, exponent), rest') := by
    cases h
    refine ⟨rfl, fun rest' hcut => takeExponent_of_head ?_⟩
    intro c hc
    cases hcut with
    | here hgap =>
      rintro (rfl | rfl)
      · exact absurd (hgap _ hc) (by decide)
      · exact absurd (hgap _ hc) (by decide)
    | cons _ _ => exact hrest rfl c hc
  match cs with
  | [] => exact habsent h
  | e :: cs =>
    by_cases he : e = 'e' ∨ e = 'E'
    · by_cases hcs : ∀ c ∈ cs.head?, ¬(c = '+' ∨ c = '-')
      · rw [takeExponent_unsigned he hcs] at h
        split at h
        · exact habsent h
        · next hne =>
          cases h
          refine ⟨by simp, fun rest' hcut => ?_⟩
          obtain ⟨htake, hdrop⟩ := Text.takeWhile_cutShort (fun _ => Text.isDigit_of_isGap) hcut
          have hhead : ∀ c ∈ (cs.takeWhile Char.isDigit ++ rest').head?, ¬(c = '+' ∨ c = '-') := by
            cases cs with
            | nil => simp at hne
            | cons d cs =>
              have hd : d.isDigit = true := by simpa [List.takeWhile_cons] using hne
              simpa [List.takeWhile_cons, hd] using hcs
          rw [List.append_assoc, List.singleton_append, takeExponent_unsigned he hhead, htake,
            hdrop, if_neg hne]
      · match cs with
        | [] => simp at hcs
        | sign :: cs =>
          have hsign : sign = '+' ∨ sign = '-' := by simpa [Classical.or_iff_not_imp_left] using hcs
          rw [takeExponent_signed he hsign] at h
          split at h
          · exact habsent h
          · next hne =>
            cases h
            refine ⟨by simp, fun rest' hcut => ?_⟩
            obtain ⟨htake, hdrop⟩ := Text.takeWhile_cutShort (fun _ => Text.isDigit_of_isGap) hcut
            simp only [List.cons_append, List.nil_append]
            rw [takeExponent_signed he hsign, htake, hdrop, if_neg hne]
    · exact habsent ((takeExponent_of_head (by simpa using he)).symm.trans h)

/-- The type letters are letters. -/
private theorem isAlpha_of_isSuffix {c : Char} (h : isSuffix c = true) : c.isAlpha = true := by
  apply Classical.byContradiction
  intro hc
  have hlower : ¬(c.val ≥ 'a'.val ∧ c.val ≤ 'z'.val) :=
    fun hc' => hc (Text.isAlpha_iff.mpr (.inr hc'))
  have hupper : c.toUpper = c := dif_neg hlower
  have hletters : ∀ d ∈ ['L', 'M', 'D', 'F'], d.isAlpha = true := List.all_eq_true.mp (by decide)
  rw [isSuffix, hupper] at h
  exact hc (hletters c (List.contains_iff_mem.mp h))

private theorem isSuffix_of_isWordPart {c : Char} (h : Text.isWordPart c = false) :
    isSuffix c = false := by
  rw [← Bool.not_eq_true]
  intro hsuffix
  have hpart :=
    Text.isWordPart_of_isWordStart (Text.isWordStart_of_isAlpha (isAlpha_of_isSuffix hsuffix))
  rw [h] at hpart
  cases hpart

private theorem takeSuffix_of_head {cs : List Char}
    (h : ∀ c ∈ cs.head?, Text.isWordPart c = false) :
    takeSuffix cs = ([], cs) := by
  cases cs with
  | nil => rfl
  | cons c cs => simp [takeSuffix, isSuffix_of_isWordPart (h c rfl)]

private theorem takeSuffix_cons {c : Char} (hc : isSuffix c = true) {cs : List Char}
    (h : ∀ c ∈ cs.head?, Text.isWordPart c = false) : takeSuffix (c :: cs) = ([c], cs) := by
  have hnext : cs.head?.any Text.isWordPart = false := by
    cases cs with
    | nil => rfl
    | cons d cs => exact h d rfl
  simp [takeSuffix, hc, hnext]

private theorem takeSuffix_cutShort {cs suffix rest : List Char}
    (h : takeSuffix cs = (suffix, rest)) (hrest : ∀ c ∈ rest.head?, Text.isWordPart c = false) :
    cs = suffix ++ rest ∧ (∀ c ∈ suffix, isSuffix c = true) ∧
      ∀ rest', CutShort rest' rest → takeSuffix (suffix ++ rest') = (suffix, rest') := by
  have hhead {rest' : List Char} (hcut : CutShort rest' rest) :
      ∀ c ∈ rest'.head?, Text.isWordPart c = false :=
    hcut.head_eq_false (fun _ => Text.isWordPart_of_isGap) hrest
  unfold takeSuffix at h
  split at h
  · next c cs =>
    by_cases hc : (isSuffix c && !(cs.head?.any Text.isWordPart)) = true
    · rw [if_pos hc] at h
      cases h
      have hc : isSuffix c = true := (Bool.and_eq_true_iff.mp hc).1
      refine ⟨rfl, by simpa using hc, fun rest' hcut => takeSuffix_cons hc (hhead hcut)⟩
    · rw [if_neg hc] at h
      cases h
      exact ⟨rfl, by simp, fun rest' hcut => takeSuffix_of_head (hhead hcut)⟩
  · cases h
    exact ⟨rfl, by simp, fun rest' hcut => takeSuffix_of_head (hhead hcut)⟩

theorem scan_of_parts
    {cs sign whole fraction mark exponent suffix afterSign afterWhole afterFraction
    afterExponent rest : List Char} (hsign : takeSign cs = (sign, afterSign))
    (hwhole : afterSign.takeWhile Char.isDigit = whole)
    (hdrop : afterSign.dropWhile Char.isDigit = afterWhole)
    (hfraction : takeFraction afterWhole = (fraction, afterFraction))
    (hexponent : takeExponent afterFraction = ((mark, exponent), afterExponent))
    (hsuffix : takeSuffix afterExponent = (suffix, rest)) :
    scan cs = (⟨sign, whole, fraction, mark, exponent, suffix⟩, rest) := by
  simp only [scan, hsign, hwhole, hdrop, hfraction, hexponent, hsuffix]

private theorem chars_append (n : Numeral) (rest : List Char) : n.chars ++ rest =
    n.sign ++ (n.whole ++ ((if n.fraction.isEmpty then [] else '.' :: n.fraction) ++
      (n.exponentMark ++ n.exponent ++ (n.suffix ++ rest)))) := by
  simp [chars, body]

/-- A numeral that no word follows is found in any text that is cut short behind it. -/
theorem scan_cutShort {cs rest : List Char} {n : Numeral} (h : scan cs = (n, rest))
    (hrest : ∀ c ∈ rest.head?, Text.isWordPart c = false) :
    cs = n.chars ++ rest ∧ ∀ rest', CutShort rest' rest → scan (n.chars ++ rest') = (n, rest') := by
  simp only [scan] at h
  generalize hsign : takeSign cs = signed at h
  obtain ⟨sign, afterSign⟩ := signed
  generalize hfraction : takeFraction (afterSign.dropWhile Char.isDigit) = fractional at h
  obtain ⟨fraction, afterFraction⟩ := fractional
  generalize hexponent : takeExponent afterFraction = exponential at h
  obtain ⟨⟨mark, exponent⟩, afterExponent⟩ := exponential
  generalize hsuffix : takeSuffix afterExponent = lettered at h
  obtain ⟨suffix, after⟩ := lettered
  cases h
  obtain ⟨rfl, hletter, hsuffix'⟩ := takeSuffix_cutShort hsuffix hrest
  -- what follows a numeral without exponent is its type letter or no part of a word, and neither is
  -- an `e`
  have hmark : exponent = [] → ∀ c ∈ (suffix ++ after).head?, ¬(c = 'e' ∨ c = 'E') := by
    intro _ c hc
    cases suffix with
    | nil =>
      have hpart := hrest c hc
      rintro (rfl | rfl)
      · exact absurd hpart (by decide)
      · exact absurd hpart (by decide)
    | cons d suffix =>
      cases hc
      have hsuffix := hletter c List.mem_cons_self
      rintro (rfl | rfl)
      · exact absurd hsuffix (by decide)
      · exact absurd hsuffix (by decide)
  obtain ⟨rfl, hexponent'⟩ := takeExponent_cutShort hexponent hmark
  obtain ⟨hafterWhole, hfraction'⟩ := takeFraction_cutShort hfraction
  obtain ⟨rfl, hsign'⟩ := takeSign_cutShort hsign
  have hwhole := @List.takeWhile_append_dropWhile _ Char.isDigit afterSign
  generalize hdigits : afterSign.takeWhile Char.isDigit = whole at hwhole
  rw [hafterWhole] at hwhole
  refine ⟨?_, fun rest' hcut => ?_⟩
  · rw [chars_append, ← hwhole]
  · have hcut₁ := hcut.append suffix
    have hcut₂ := hcut₁.append (mark ++ exponent)
    have hcut₃ := hcut₂.append (if fraction.isEmpty then [] else '.' :: fraction)
    have hcut₄ := hcut₃.append whole
    rw [hwhole] at hcut₄
    rw [← hafterWhole] at hcut₃
    obtain ⟨htake, hdrop⟩ := Text.takeWhile_cutShort (fun _ => Text.isDigit_of_isGap) hcut₃
    rw [hdigits] at htake hdrop
    rw [chars_append]
    exact scan_of_parts (hsign' _ hcut₄) htake hdrop (hfraction' _ hcut₂) (hexponent' _ hcut₁)
      (hsuffix' _ hcut)

end Numeral

end EntityQuery
