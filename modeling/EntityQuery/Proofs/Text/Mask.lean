import EntityQuery.Proofs.Text.Characters

/-!
# Masked texts

A mask keeps the characters of a text that stand outside of single quotes and puts one blank place
for each quoted literal. Two texts are alike if their masks stay the same whatever may follow them.
All quoted literals are alike, and so are texts that differ in quoted literals only.
-/

namespace EntityQuery.Text

/-! ### Masks -/

/-- The characters of a text with one `none` in place of each literal in single quotes, in which a
doubled quote stands for one. `inside` says whether the text starts within a literal. -/
def maskFrom : (inside : Bool) → List Char → List (Option Char)
  | _, [] => []
  | false, '\'' :: cs => none :: maskFrom true cs
  | false, c :: cs => some c :: maskFrom false cs
  | true, '\'' :: '\'' :: cs => maskFrom true cs
  | true, '\'' :: cs => maskFrom false cs
  | true, _ :: cs => maskFrom true cs

/-- The mask of a text. -/
def mask (text : String) : List (Option Char) := maskFrom false text.toList

theorem maskFrom_of_no_quote {cs : List Char} (h : ∀ c ∈ cs, c ≠ '\'') (rest : List Char) :
    maskFrom false (cs ++ rest) = cs.map some ++ maskFrom false rest := by
  induction cs with
  | nil => rfl
  | cons c cs ih =>
    simp only [List.mem_cons, forall_eq_or_imp] at h
    have hc : c ≠ '\'' := h.1
    simp [maskFrom, ih h.2]

private theorem maskFrom_end {cs : List Char} (h : cs.head? ≠ some '\'') :
    maskFrom true ('\'' :: cs) = maskFrom false cs := by
  cases cs with
  | nil => rfl
  | cons c cs =>
    have hc : c ≠ '\'' := by simpa using h
    simp [maskFrom, hc]

/-- A mask leaves a literal at its closing quote, whatever the literal holds. -/
theorem maskFrom_doubleQuotes (content : List Char) {cs : List Char} (h : cs.head? ≠ some '\'') :
    maskFrom true (doubleQuotes content ++ '\'' :: cs) = maskFrom false cs := by
  induction content with
  | nil => exact maskFrom_end h
  | cons c content ih =>
    by_cases hc : c = '\''
    · subst hc
      simpa [doubleQuotes, maskFrom] using ih
    · simpa [doubleQuotes, maskFrom, hc] using ih

/-! ### Texts without quotes -/

/-- A text that neither ends a literal nor starts one. -/
def isQuoteFree (text : String) : Bool := text.toList.all (· != '\'')

theorem isQuoteFree_iff {text : String} :
    isQuoteFree text = true ↔ ∀ c ∈ text.toList, c ≠ '\'' := by
  simp [isQuoteFree]

@[simp]
theorem isQuoteFree_append (a b : String) :
    isQuoteFree (a ++ b) = (isQuoteFree a && isQuoteFree b) := by
  simp [isQuoteFree]

theorem quoted_of_isQuoteFree {text : String} (h : isQuoteFree text = true) :
    quoted text = "'" ++ text ++ "'" := by
  rw [quoted, doubleQuotes_of_no_quote (isQuoteFree_iff.mp h)]
  apply String.toList_injective
  simp

/-! ### Alike texts -/

/-- Texts that a mask does not tell apart, wherever no quote follows them. -/
def Alike (a b : String) : Prop :=
  ∀ cs ds, cs.head? ≠ some '\'' → ds.head? ≠ some '\'' →
    maskFrom false cs = maskFrom false ds →
    maskFrom false (a.toList ++ cs) = maskFrom false (b.toList ++ ds)

namespace Alike

variable {a b c d t : String}

/-- Alike texts have the same mask. -/
theorem mask_eq (h : Alike a b) : mask a = mask b := by
  have h := h [] [] (by simp) (by simp) rfl
  rwa [List.append_nil, List.append_nil] at h

/-- All quoted literals are alike. -/
theorem quoted (content content' : String) :
    Alike (Text.quoted content) (Text.quoted content') := by
  intro cs ds hcs hds heq
  simp only [Text.quoted, String.toList_ofList, List.cons_append, List.append_assoc,
    List.nil_append, maskFrom]
  rw [maskFrom_doubleQuotes _ hcs, maskFrom_doubleQuotes _ hds, heq]

/-- A text without quotes is alike to itself. -/
theorem of_isQuoteFree (ht : isQuoteFree t = true) : Alike t t := by
  intro cs ds _ _ heq
  have ht := isQuoteFree_iff.mp ht
  rw [maskFrom_of_no_quote ht, maskFrom_of_no_quote ht, heq]

/-- A text without quotes before both. -/
theorem prepend (ht : isQuoteFree t = true) (h : Alike a b) : Alike (t ++ a) (t ++ b) := by
  intro cs ds hcs hds heq
  have ht := isQuoteFree_iff.mp ht
  rw [String.toList_append, String.toList_append, List.append_assoc, List.append_assoc,
    maskFrom_of_no_quote ht, maskFrom_of_no_quote ht, h cs ds hcs hds heq]

/-- Alike texts one after the other, where the second ones do not start with a quote. -/
private theorem append (h : Alike a b) (h' : Alike c d) (hc : c.toList.head? ≠ some '\'')
    (hd : d.toList.head? ≠ some '\'') : Alike (a ++ c) (b ++ d) := by
  have hhead {xs ys : List Char} (hx : xs.head? ≠ some '\'') (hy : ys.head? ≠ some '\'') :
      (xs ++ ys).head? ≠ some '\'' := by
    cases xs with
    | nil => exact hy
    | cons x xs => exact hx
  intro cs ds hcs hds heq
  rw [String.toList_append, String.toList_append, List.append_assoc, List.append_assoc]
  exact h _ _ (hhead hc hcs) (hhead hd hds) (h' cs ds hcs hds heq)

private theorem head?_ne_quote (ht : isQuoteFree t = true) : t.toList.head? ≠ some '\'' :=
  fun h => isQuoteFree_iff.mp ht '\'' (List.mem_of_mem_head? h) rfl

/-- A text without quotes behind both. -/
theorem followedBy (h : Alike a b) (ht : isQuoteFree t = true) : Alike (a ++ t) (b ++ t) :=
  h.append (of_isQuoteFree ht) (head?_ne_quote ht) (head?_ne_quote ht)

/-- A text without quotes between two pairs. -/
theorem around (h : Alike a b) (ht : isQuoteFree t = true) (hne : t ≠ "") (h' : Alike c d) :
    Alike (a ++ t ++ c) (b ++ t ++ d) := by
  have hhead (e : String) : (t ++ e).toList.head? = t.toList.head? := by
    cases hcs : t.toList with
    | nil => exact absurd (String.toList_eq_nil_iff.mp hcs) hne
    | cons x xs => simp [hcs]
  rw [String.append_assoc, String.append_assoc]
  apply h.append (h'.prepend ht)
  · rw [hhead]
    exact head?_ne_quote ht
  · rw [hhead]
    exact head?_ne_quote ht

/-- Alike texts in lists, with a text without quotes between one and the next. -/
theorem intercalate {α : Type} {f g : α → String} {xs : List α} (ht : isQuoteFree t = true)
    (hne : t ≠ "") (h : ∀ x ∈ xs, Alike (f x) (g x)) :
    Alike (t.intercalate (xs.map f)) (t.intercalate (xs.map g)) := by
  induction xs with
  | nil => exact @of_isQuoteFree "" (by decide)
  | cons x rest ih =>
    simp only [List.mem_cons, forall_eq_or_imp] at h
    cases rest with
    | nil => simpa using h.1
    | cons y rest =>
      simp only [List.map_cons, String.intercalate_cons_cons]
      exact h.1.around ht hne (ih h.2)

end Alike

end EntityQuery.Text
