import EntityQuery.Proofs.Jpql.OpenWords
import EntityQuery.Proofs.Jpql.Reading
import Mathlib.Data.List.Forall2

/-!
# Reading function calls

A function call is one operand, whatever stands between its parentheses. So texts with calls are
read with each call folded into a literal, and the arguments of a call are read apart, between the
commas that stand outside of further parentheses.
-/

namespace EntityQuery.Jpql

/-! ### Folding -/

mutual

/-- The words with each function call as one literal. A call is a name right before a parenthesis,
and all words up to where this parenthesis is closed. -/
def foldCalls : List Word → List Word
  | [] => []
  | .literal name :: .openParen :: ws => foldCall 1 (name ++ " (") ws
  | w :: ws => w :: foldCalls ws

/-- Goes on in a call of which `depth` parentheses are open. A call that is never closed stays
open. -/
def foldCall : (depth : Nat) → (text : String) → List Word → List Word
  | _, _, [] => [.openParen]
  | depth, text, w :: ws =>
    if w.depthAfter depth = 0 then .literal (text ++ " " ++ w.text) :: foldCalls ws
    else foldCall (w.depthAfter depth) (text ++ " " ++ w.text) ws

end

theorem foldCalls_cons {w : Word} (hw : ∀ name, w ≠ .literal name) (ws : List Word) :
    foldCalls (w :: ws) = w :: foldCalls ws := by
  cases w with
  | literal name => exact absurd rfl (hw name)
  | _ => rw [foldCalls]; rintro _ _ ⟨⟩

theorem foldCalls_literal (name : String) {ws : List Word} (h : ws.head? ≠ some .openParen) :
    foldCalls (.literal name :: ws) = .literal name :: foldCalls ws := by
  rw [foldCalls]
  rintro _ rest _ rfl
  simp at h

/-- Balanced words leave a call as deep as it was. -/
private theorem Balanced.exists_foldCall {ws : List Word} (h : Balanced ws) (depth : Nat)
    (text : String) : ∃ longer, ∀ vs,
      foldCall (depth + 1) text (ws ++ vs) = foldCall (depth + 1) longer vs := by
  induction h generalizing depth text with
  | nil => exact ⟨text, fun vs => rfl⟩
  | @cons w ws ho hc _ ih =>
    obtain ⟨longer, hfold⟩ := ih depth (text ++ " " ++ w.text)
    refine ⟨longer, fun vs => ?_⟩
    rw [List.cons_append, foldCall, Word.depthAfter_of_ne ho hc, if_neg (by omega), hfold]
  | @paren inner ws _ _ ihi ih =>
    obtain ⟨middle, hinner⟩ := ihi (depth + 1) (text ++ " " ++ Word.openParen.text)
    obtain ⟨longer, hfold⟩ := ih depth (middle ++ " " ++ Word.closeParen.text)
    refine ⟨longer, fun vs => ?_⟩
    have hopen : Word.depthAfter (depth + 1) .openParen = depth + 1 + 1 := rfl
    have hclose : Word.depthAfter (depth + 1 + 1) .closeParen = depth + 1 := rfl
    rw [List.cons_append, List.append_assoc, List.cons_append, foldCall, hopen, if_neg (by omega),
      hinner, foldCall, hclose, if_neg (by omega), hfold]

/-- The words fold to others, whatever follows them but a parenthesis. -/
def Folds (ws vs : List Word) : Prop :=
  ∀ rest : List Word, rest.head? ≠ some .openParen → foldCalls (ws ++ rest) = vs ++ foldCalls rest

namespace Folds

variable {ws vs ws' vs' : List Word}

theorem nil : Folds [] [] := fun _ _ => rfl

theorem literal (text : String) : Folds [.literal text] [.literal text] :=
  fun _ hrest => foldCalls_literal text hrest

/-- A word that names no function. -/
theorem cons {w : Word} (hw : ∀ name, w ≠ .literal name) (h : Folds ws vs) :
    Folds (w :: ws) (w :: vs) := by
  intro rest hrest
  rw [List.cons_append, foldCalls_cons hw, h rest hrest, List.cons_append]

theorem append (h : Folds ws vs) (hhead : ∀ rest, (ws' ++ rest).head? ≠ some .openParen)
    (h' : Folds ws' vs') : Folds (ws ++ ws') (vs ++ vs') := by
  intro rest hrest
  rw [List.append_assoc, h _ (hhead rest), h' rest hrest, List.append_assoc]

/-- A word between two parts that names no function and opens no parenthesis. -/
theorem append_cons {w : Word} (hw : ∀ name, w ≠ .literal name) (ho : w ≠ .openParen)
    (h : Folds ws vs) (h' : Folds ws' vs') : Folds (ws ++ w :: ws') (vs ++ w :: vs') :=
  h.append (by simpa using ho) (h'.cons hw)

/-- Words in parentheses. -/
theorem group (h : Folds ws vs) :
    Folds (.openParen :: (ws ++ [.closeParen])) (.openParen :: (vs ++ [.closeParen])) :=
  (h.append_cons (by simp) (by simp) nil).cons (by simp)

/-- A call is one literal. -/
theorem call (name : String) (h : Balanced ws) :
    ∃ text, Folds (.literal name :: .openParen :: (ws ++ [.closeParen])) [.literal text] := by
  obtain ⟨longer, hfold⟩ := h.exists_foldCall 0 (name ++ " (")
  have hclose : Word.depthAfter (0 + 1) .closeParen = 0 := rfl
  refine ⟨longer ++ " " ++ Word.closeParen.text, fun rest _ => ?_⟩
  rw [List.cons_append, List.cons_append, List.append_assoc, foldCalls, hfold,
    List.singleton_append, foldCall, if_pos hclose, List.singleton_append]

theorem foldCalls_eq (h : Folds ws vs) : foldCalls ws = vs := by
  have hfold := h [] (by simp)
  rwa [List.append_nil, foldCalls, List.append_nil] at hfold

end Folds

/-! ### The reader -/

/-- Reads words in which functions are called. -/
def readFolded (negation : Nat) (ws : List Word) : Option Phrase :=
  readWords negation (foldCalls ws)

/-- Reads the text of an expression in which functions are called. -/
def readCalls (negation : Nat) (text : String) : Option Phrase :=
  (words text.toList).bind (readFolded negation)

/-- The name of the function that a text calls, and what is read of its arguments. -/
def readArguments (negation : Nat) (text : String) : Option (String × List Phrase) :=
  match words text.toList with
  | some (.literal name :: .openParen :: ws) =>
    if ws.getLast? = some .closeParen then
      ((split "," ws.dropLast).mapM (readFolded negation)).map fun phrases => (name, phrases)
    else none
  | _ => none

/-- A comparison before a plus sign is taken apart. -/
example : readCalls atomStrength "LENGTH(E.a) = 2 + 1" =
    some (.binary .eq (.literal "LENGTH ( E.a )")
      (.binary .add (.literal "2") (.literal "1"))) := by
  decide +kernel

/-- Commas within a call in an argument divide nothing. -/
example : readArguments atomStrength "SUBSTRING(E.a, LOCATE('b', E.a) + 1)" =
    some ("SUBSTRING",
      [.path "E.a", .binary .add (.literal "LOCATE ( 'b' , E.a )") (.literal "1")]) := by
  decide +kernel

/-! ### Commas -/

private theorem toLower_ne_comma {c : Char} (hc : c ≠ ',') : c.toLower ≠ ',' := by
  unfold Char.toLower
  split
  · next hupper =>
    intro heq
    have hval := congrArg (fun d : Char => d.val.toNat) heq
    obtain ⟨hlow, hhigh⟩ := hupper
    simp only [ge_iff_le, UInt32.le_iff_toNat_le] at hlow hhigh
    simp at hlow hhigh hval
    omega
  · exact hc

/-- A word that starts with something else is no comma. -/
private theorem isKeyword_comma_of_head {w : Word} {c : Char} {cs : List Char} (hc : c ≠ ',')
    (hw : w.text.toList = c :: cs) : w.isKeyword "," = false := by
  rw [Word.isKeyword, Text.equalIgnoringCase, beq_eq_false_iff_ne, hw]
  intro heq
  exact toLower_ne_comma hc (List.head_eq_of_cons_eq heq)

private theorem isKeyword_comma_ofRun {c : Char} (hc : c ≠ ',') (cs : List Char) :
    (Word.ofRun (c :: cs)).isKeyword "," = false := by
  unfold Word.ofRun
  repeat' split
  any_goals decide
  · exact isKeyword_comma_of_head hc String.toList_ofList
  · exact isKeyword_comma_of_head hc String.toList_ofList

private theorem all_ite {c : Prop} [Decidable c] {x y : Option (Word × Nat)}
    {test : Word × Nat → Bool} (hx : x.all test = true) (hy : y.all test = true) :
    (if c then x else y).all test = true := by
  split
  · exact hx
  · exact hy

private theorem eq_comma_of_sign? {c : Char} {cs : List Char} {w : Word} {n : Nat}
    (h : Word.sign? c cs = some (w, n)) (hw : w.isKeyword "," = true) : w = .comma := by
  have hall : (Word.sign? c cs).all (fun x => !x.1.isKeyword "," || x.1 == .comma) = true := by
    unfold Word.sign?
    repeat' apply all_ite
    all_goals decide
  simpa [h, hw] using hall

private theorem eq_comma_of_first? {c : Char} {cs : List Char} {w : Word} {n : Nat}
    (h : Word.first? c cs = some (w, n)) (hw : w.isKeyword "," = true) : w = .comma := by
  have hhead {c : Char} {cs : List Char} {n m : Nat} (hc : c ≠ ',')
      (h : Word.literalOf c cs n = (w, m)) : w = .comma := by
    cases h
    have hno : (Word.literal (String.ofList (c :: cs.take n))).isKeyword "," = false :=
      isKeyword_comma_of_head hc String.toList_ofList
    rw [hno] at hw
    cases hw
  unfold Word.first? at h
  split at h
  · next hrun =>
    have hc : c ≠ ',' := by
      rintro rfl
      exact absurd hrun (by decide)
    split at h
    · obtain ⟨x, _, hx⟩ := Option.map_eq_some_iff.mp h
      exact hhead hc hx
    · cases h
      rw [isKeyword_comma_ofRun hc] at hw
      cases hw
  · split at h
    · next hquote =>
      obtain ⟨x, _, hx⟩ := Option.map_eq_some_iff.mp h
      exact hhead (by rw [hquote]; decide) hx
    · split at h
      · next hbrace =>
        obtain ⟨x, _, hx⟩ := Option.map_eq_some_iff.mp h
        exact hhead (by rw [hbrace]; decide) hx
      · exact eq_comma_of_sign? h hw

/-- Among the words of a text, only commas have a comma as their text. -/
theorem eq_comma_of_mem_words {cs : List Char} {ws : List Word} (h : words cs = some ws) :
    ∀ w ∈ ws, w.isKeyword "," = true → w = .comma := by
  fun_induction words cs generalizing ws with
  | case1 =>
    cases h
    simp
  | case2 cs ih => exact ih h
  | case3 => cases h
  | case4 c cs _ w n hfirst ih =>
    obtain ⟨rest, hrest, rfl⟩ := Option.map_eq_some_iff.mp h
    exact List.forall_mem_cons.mpr ⟨eq_comma_of_first? hfirst, ih hrest⟩

private theorem mem_of_mem_openWordsFrom {w : Word} {depth : Nat} {ws : List Word}
    (h : w ∈ openWordsFrom depth ws) : w ∈ ws := by
  fun_induction openWordsFrom depth ws with
  | case1 => exact h
  | case2 first rest ih =>
    rcases List.mem_cons.mp h with rfl | h
    · exact List.mem_cons_self
    · exact List.mem_cons_of_mem _ (ih h)
  | case3 depth first rest ih => exact List.mem_cons_of_mem _ (ih h)

/-- Words of a text without open commas are not divided at commas. -/
private theorem Cuts.isKeyword_comma {text : String} {ws : List Word} (h : Cuts text ws)
    (hopen : .comma ∉ openWords ws) : ∀ w ∈ openWords ws, w.isKeyword "," = false := by
  intro w hw
  cases hkeyword : w.isKeyword "," with
  | false => rfl
  | true =>
    have hmem : w ∈ ws := mem_of_mem_openWordsFrom hw
    obtain rfl := eq_comma_of_mem_words h.spells.words_eq w hmem hkeyword
    exact absurd hw hopen

/-! ### Texts of phrases -/

/-- The text is cut into balanced words without open commas, and these are the words of the phrase
once calls are folded. -/
def Writes (text : String) (p : Phrase) : Prop :=
  ∃ ws, Cuts text ws ∧ Folds ws p.words ∧ .comma ∉ openWords ws

private theorem comma_notMem_append {ws vs : List Word} (hb : Balanced ws)
    (h : .comma ∉ openWords ws) (h' : .comma ∉ openWords vs) : .comma ∉ openWords (ws ++ vs) := by
  rw [hb.openWords_append, List.mem_append]
  exact not_or.mpr ⟨h, h'⟩

private theorem comma_notMem_cons {w : Word} {ws : List Word} (ho : w ≠ .openParen)
    (hc : w ≠ .closeParen) (hw : w ≠ .comma) (h : .comma ∉ openWords ws) :
    .comma ∉ openWords (w :: ws) := by
  rw [Balanced.openWords_cons ho hc, List.mem_cons]
  exact not_or.mpr ⟨hw.symm, h⟩

private theorem comma_notMem_group {ws : List Word} (hb : Balanced ws) :
    .comma ∉ openWords (.openParen :: (ws ++ [.closeParen])) := by
  rw [hb.openWords_group]
  decide

namespace Writes

variable {a b : String} {p q : Phrase} {negation : Nat}

/-- A literal is `NULL`, one word, or one word with a sign before it. -/
private theorem cases_ofLiteral (l : Literal) :
    Phrase.ofLiteral l = .null ∨ (∃ text, Phrase.ofLiteral l = .literal text) ∨
      ∃ text, Phrase.ofLiteral l = .negate (.literal text) := by
  unfold Phrase.ofLiteral Phrase.ofText
  split
  · exact .inl rfl
  · split
    · exact .inr (.inr ⟨_, rfl⟩)
    · exact .inr (.inl ⟨_, rfl⟩)

/-- Only the words of the phrase matter, not its groups. -/
theorem of_words (h : Writes a p) (hw : q.words = p.words) : Writes a q := by
  rwa [Writes, hw]

/-- A text is read as the phrase that it writes. -/
theorem readCalls_eq (h : Writes a p) (hp : p.Stable negation 1 0) :
    readCalls negation a = some p := by
  obtain ⟨ws, hcuts, hfolds, _⟩ := h
  rw [readCalls, hcuts.spells.words_eq, Option.bind_some, readFolded, hfolds.foldCalls_eq,
    readWords_words hp]

theorem literal {l : Literal} (h : l.value.isWellFormed = true) : Writes l.text (.ofLiteral l) := by
  have hspells := spells_literal h
  rcases cases_ofLiteral l with heq | ⟨text, heq⟩ | ⟨text, heq⟩
  · rw [heq] at hspells ⊢
    exact ⟨_, ⟨hspells, .cons (by simp) (by simp) .nil⟩, .cons (by simp) .nil, by decide⟩
  · rw [heq] at hspells ⊢
    exact ⟨_, ⟨hspells, .cons (by simp) (by simp) .nil⟩, .literal text,
      comma_notMem_cons (by simp) (by simp) (by simp) List.not_mem_nil⟩
  · rw [heq] at hspells ⊢
    refine ⟨_, ⟨hspells, .cons (by simp) (by simp) (.cons (by simp) (by simp) .nil)⟩, ?_, ?_⟩
    · exact .cons (by simp) (.literal text)
    · exact comma_notMem_cons (by simp) (by simp) (by simp)
        (comma_notMem_cons (by simp) (by simp) (by simp) List.not_mem_nil)

theorem path {j : Jpql} (h : j.IsPath Text.isPlainName) : Writes j.text (.path j.text) := by
  obtain ⟨hstart, hdot, hrun⟩ := isPathRun_of_isPath h
  have hspells := spells_path hstart hdot hrun
  rw [String.ofList_toList] at hspells
  exact ⟨_, ⟨hspells, .cons (by simp) (by simp) .nil⟩, .cons (by simp) .nil,
    comma_notMem_cons (by simp) (by simp) (by simp) List.not_mem_nil⟩

theorem negate (h : Writes a p) : Writes ("-" ++ a) (.negate p) := by
  obtain ⟨ws, hcuts, hfolds, hcomma⟩ := h
  exact ⟨_, hcuts.minus, hfolds.cons (by simp),
    comma_notMem_cons (by simp) (by simp) (by simp) hcomma⟩

theorem group (h : Writes a p) : Writes ("(" ++ a ++ ")") (.group p) := by
  obtain ⟨ws, hcuts, hfolds, _⟩ := h
  exact ⟨_, hcuts.paren, hfolds.group, comma_notMem_group hcuts.balanced⟩

theorem groupIf {j : Jpql} (h : Writes j.text p) (needed : Bool) :
    Writes (j.parenIf needed).text (p.groupIf needed) := by
  cases needed with
  | true => exact h.group
  | false => exact h

theorem binary {op : BinaryOperator} (hop : op ≠ .mod) (ha : Writes a p) (hb : Writes b q) :
    Writes (a ++ " " ++ op.surface ++ " " ++ b) (.binary op p q) := by
  obtain ⟨ws, hcuts, hfolds, hcomma⟩ := ha
  obtain ⟨vs, hcuts', hfolds', hcomma'⟩ := hb
  have hsign : Cuts op.surface [.operator op] :=
    ⟨spells_surface hop, .cons (by simp) (by simp) .nil⟩
  refine ⟨ws ++ [.operator op] ++ vs, (hcuts.blank hsign).blank hcuts', ?_, ?_⟩
  · rw [List.append_assoc]
    exact hfolds.append_cons (by simp) (by simp) hfolds'
  · rw [List.append_assoc]
    exact comma_notMem_append hcuts.balanced hcomma
      (comma_notMem_cons (by simp) (by simp) (by simp) hcomma')

/-- A remainder is read with its operands, although it is written as a call. -/
theorem modulo (ha : Writes a p) (hb : Writes b q) :
    Writes ("MOD" ++ "(" ++ (a ++ ", " ++ b) ++ ")") (.modulo p q) := by
  obtain ⟨ws, hcuts, hfolds, _⟩ := ha
  obtain ⟨vs, hcuts', hfolds', _⟩ := hb
  have hinner := hcuts.comma hcuts'
  have hrun : ∀ c ∈ "MOD".toList, Word.isRunPart c = true := List.all_eq_true.mp (by decide)
  refine ⟨_, .call (by decide) hrun hinner, ?_, ?_⟩
  · have harguments : Folds (ws ++ .comma :: vs) (p.words ++ .comma :: q.words) :=
      hfolds.append_cons (by simp) (by simp) hfolds'
    have hwords : (Phrase.modulo p q).words =
        .mod :: .openParen :: (p.words ++ .comma :: q.words ++ [.closeParen]) := by
      simp [Phrase.words]
    rw [hwords]
    exact harguments.group.cons (by simp : ∀ name, Word.mod ≠ .literal name)
  · exact comma_notMem_cons (by decide) (by decide) (by decide) (comma_notMem_group hinner.balanced)

/-- A name before balanced words in parentheses is one operand. -/
private theorem exists_of_cuts {text name : String} {ws : List Word} (hb : Balanced ws)
    (h : Cuts text (.literal name :: .openParen :: (ws ++ [.closeParen]))) :
    ∃ call, Writes text (.literal call) := by
  obtain ⟨call, hfolds⟩ := Folds.call name hb
  exact ⟨call, _, h, hfolds,
    comma_notMem_cons (by simp) (by simp) (by simp) (comma_notMem_group hb)⟩

end Writes

/-- The name of a function is one word. -/
private theorem ofRun_functionName {name : String} (hn : name ∈ functionNames)
    (hmod : name ≠ "MOD") :
    Word.ofRun name.toList = .literal name := by
  have hall : ∀ name ∈ functionNames, name ≠ "MOD" → Word.ofRun name.toList = .literal name := by
    decide
  exact hall name hn hmod

/-- A call of a function other than the remainder is one operand. -/
theorem Tidy.exists_writes_call {name : String} {arguments : List Jpql}
    (h : (Jpql.call name arguments).Tidy Text.isPlainName) (hmod : name ≠ "MOD") :
    ∃ call, Writes (Jpql.call name arguments).text (.literal call) := by
  cases h with
  | path h => cases h
  | call hn hall =>
    obtain ⟨ws, hb, hcuts⟩ := exists_cuts_call hn fun j hj => (hall j hj).exists_cuts
    rw [ofRun_functionName hn hmod] at hcuts
    exact Writes.exists_of_cuts hb hcuts

/-- A field of a date or a time is one operand. -/
theorem Tidy.exists_writes_extract {field : String} {operand : Jpql}
    (h : (Jpql.extract field operand).Tidy Text.isPlainName) :
    ∃ call, Writes (Jpql.extract field operand).text (.literal call) := by
  cases h with
  | path h => cases h
  | extract hf hoperand =>
    obtain ⟨ws, hcuts, _⟩ := hoperand.exists_cuts
    obtain ⟨vs, hb, hcuts⟩ := exists_cuts_extract hf hcuts
    exact Writes.exists_of_cuts hb hcuts

/-! ### Arguments -/

/-- Texts with commas between them are divided at these commas, and each is read for itself. -/
private theorem exists_cuts_arguments {negation : Nat} {texts : List String} {phrases : List Phrase}
    (h : List.Forall₂ (fun text p => Writes text p ∧ p.Stable negation 1 0) texts phrases)
    (hne : texts ≠ []) :
    ∃ ws, Cuts (", ".intercalate texts) ws ∧
      (split "," ws).mapM (readFolded negation) = some phrases := by
  induction h with
  | nil => exact absurd rfl hne
  | @cons text p rest phrases hfirst hrest ih =>
    obtain ⟨⟨ws, hcuts, hfolds, hcomma⟩, hp⟩ := hfirst
    have hread : readFolded negation ws = some p := by
      rw [readFolded, hfolds.foldCalls_eq, readWords_words hp]
    have hopen := hcuts.isKeyword_comma hcomma
    cases hrest with
    | nil =>
      refine ⟨ws, by simpa using hcuts, ?_⟩
      rw [hcuts.balanced.split_eq_singleton hopen]
      simp [hread]
    | cons hsecond hrest =>
      obtain ⟨vs, hcuts', hsplit⟩ := ih (by simp)
      rw [String.intercalate_cons_cons]
      refine ⟨_, hcuts.comma hcuts', ?_⟩
      rw [hcuts.balanced.split_append hopen (by decide)]
      simp [hread, hsplit]

/-- The arguments of a call are read one by one. -/
theorem readArguments_eq {negation : Nat} {name : String} {texts : List String}
    {phrases : List Phrase} (hn : name ∈ functionNames) (hmod : name ≠ "MOD")
    (h : List.Forall₂ (fun text p => Writes text p ∧ p.Stable negation 1 0) texts phrases)
    (hne : texts ≠ []) :
    readArguments negation (name ++ "(" ++ ", ".intercalate texts ++ ")") =
      some (name, phrases) := by
  obtain ⟨ws, hcuts, hsplit⟩ := exists_cuts_arguments h hne
  have hrun : ∀ name ∈ functionNames, name.toList ≠ [] ∧ name.toList.all Word.isRunPart = true := by
    decide
  have hcall := hcuts.call (hrun name hn).1 (List.all_eq_true.mp (hrun name hn).2)
  rw [ofRun_functionName hn hmod] at hcall
  rw [readArguments, hcall.spells.words_eq]
  simp [hsplit]

end EntityQuery.Jpql
