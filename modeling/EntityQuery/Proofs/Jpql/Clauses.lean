import EntityQuery.Proofs.Jpql.Words
import EntityQuery.Text.Case

/-!
# Clauses

Words that stand outside of all parentheses are open, and open keywords divide a statement into its
clauses and a condition into its parts. The condition of a statement is what follows its last open
`WHERE`, up to an open `ORDER`.
-/

namespace EntityQuery.Jpql

namespace Word

/-- The text of a word. -/
def text : Word → String
  | .path text => text
  | .literal text => text
  | .null => "NULL"
  | .is => "IS"
  | .not => "NOT"
  | .mod => "MOD"
  | .openParen => "("
  | .closeParen => ")"
  | .comma => ","
  | .operator op => op.surface

/-- Whether a word is a keyword, in any case. -/
def isKeyword (keyword : String) (w : Word) : Bool := Text.equalIgnoringCase w.text keyword

/-- The number of open parentheses after a word. -/
def depthAfter (depth : Nat) : Word → Nat
  | .openParen => depth + 1
  | .closeParen => depth - 1
  | _ => depth

end Word

/-- The words that stand outside of parentheses, of which `depth` are open at first. -/
def openWordsFrom : (depth : Nat) → List Word → List Word
  | _, [] => []
  | 0, w :: ws => w :: openWordsFrom (w.depthAfter 0) ws
  | depth + 1, w :: ws => openWordsFrom (w.depthAfter (depth + 1)) ws

/-- The words outside of parentheses. -/
def openWords (ws : List Word) : List Word := openWordsFrom 0 ws

/-- The parts between open keywords; `part` is what the first of them starts with. -/
def splitFrom (keyword : String) : (depth : Nat) → (part : List Word) → List Word → List (List Word)
  | _, part, [] => [part]
  | depth, part, w :: ws =>
    if depth = 0 ∧ w.isKeyword keyword then part :: splitFrom keyword 0 [] ws
    else splitFrom keyword (w.depthAfter depth) (part ++ [w]) ws

/-- The parts between open keywords. -/
def split (keyword : String) (ws : List Word) : List (List Word) := splitFrom keyword 0 [] ws

/-- The condition of a statement. -/
def whereClause (ws : List Word) : List Word :=
  ((split "ORDER" ((split "WHERE" ws).getLastD [])).headD [])

/-! ### Balanced words -/

/-- Words in which every parenthesis is closed again. -/
inductive Balanced : List Word → Prop
  | nil : Balanced []
  | cons {w : Word} {ws : List Word} (ho : w ≠ .openParen) (hc : w ≠ .closeParen)
      (h : Balanced ws) :
    Balanced (w :: ws)
  | paren {inner ws : List Word} (hi : Balanced inner) (h : Balanced ws) :
    Balanced (.openParen :: (inner ++ .closeParen :: ws))

theorem Word.depthAfter_of_ne {w : Word} (ho : w ≠ .openParen) (hc : w ≠ .closeParen)
    (depth : Nat) :
    w.depthAfter depth = depth := by
  cases w with
  | openParen => exact absurd rfl ho
  | closeParen => exact absurd rfl hc
  | _ => rfl

namespace Balanced

variable {ws vs : List Word}

theorem append (h : Balanced ws) (h' : Balanced vs) : Balanced (ws ++ vs) := by
  induction h with
  | nil => exact h'
  | cons ho hc _ ih => exact .cons ho hc ih
  | paren hi _ _ ih =>
    rw [List.cons_append, List.append_assoc, List.cons_append]
    exact .paren hi ih

/-- Words in parentheses. -/
theorem group (h : Balanced ws) : Balanced (.openParen :: (ws ++ [.closeParen])) := .paren h .nil

/-- Nothing within parentheses is open. -/
private theorem openWordsFrom_succ (h : Balanced ws) (depth : Nat) (vs : List Word) :
    openWordsFrom (depth + 1) (ws ++ vs) = openWordsFrom (depth + 1) vs := by
  induction h generalizing depth vs with
  | nil => rfl
  | cons ho hc _ ih => rw [List.cons_append, openWordsFrom, Word.depthAfter_of_ne ho hc, ih]
  | paren _ _ ihi ih =>
    rw [List.cons_append, List.append_assoc, List.cons_append, openWordsFrom, Word.depthAfter, ihi,
      openWordsFrom, Word.depthAfter, Nat.add_sub_cancel, ih]

private theorem openWords_paren (h : Balanced ws) (vs : List Word) :
    openWords (.openParen :: (ws ++ .closeParen :: vs)) = .openParen :: openWords vs := by
  rw [openWords, openWordsFrom, Word.depthAfter, h.openWordsFrom_succ]
  rfl

theorem openWords_cons {w : Word} (ho : w ≠ .openParen) (hc : w ≠ .closeParen) (vs : List Word) :
    openWords (w :: vs) = w :: openWords vs := by
  rw [openWords, openWordsFrom, Word.depthAfter_of_ne ho hc]
  rfl

/-- The open words of balanced words are those of the parts. -/
theorem openWords_append (h : Balanced ws) (vs : List Word) :
    openWords (ws ++ vs) = openWords ws ++ openWords vs := by
  induction h with
  | nil => rfl
  | cons ho hc _ ih =>
    rw [List.cons_append, openWords_cons ho hc, openWords_cons ho hc, ih, List.cons_append]
  | paren hi _ _ ih =>
    rw [List.cons_append, List.append_assoc, List.cons_append, hi.openWords_paren,
      hi.openWords_paren, ih, List.cons_append]

/-- The only open word of words in parentheses is the first. -/
theorem openWords_group (h : Balanced ws) :
    openWords (.openParen :: (ws ++ [.closeParen])) = [.openParen] :=
  h.openWords_paren []

/-- No keyword divides words within parentheses. -/
private theorem splitFrom_succ (h : Balanced ws) (keyword : String) (depth : Nat)
    (part vs : List Word) :
    splitFrom keyword (depth + 1) part (ws ++ vs) =
      splitFrom keyword (depth + 1) (part ++ ws) vs := by
  induction h generalizing depth part vs with
  | nil => rw [List.nil_append, List.append_nil]
  | cons ho hc _ ih =>
    rw [List.cons_append, splitFrom, if_neg (by simp), Word.depthAfter_of_ne ho hc, ih]
    simp
  | paren _ _ ihi ih =>
    rw [List.cons_append, List.append_assoc, List.cons_append, splitFrom, if_neg (by simp),
      Word.depthAfter, ihi, splitFrom, if_neg (by simp), Word.depthAfter, Nat.add_sub_cancel, ih]
    simp

/-- Words in parentheses belong to one part. -/
private theorem splitFrom_group (h : Balanced ws) {keyword : String}
    (hk : Word.openParen.isKeyword keyword = false) (part vs : List Word) :
    splitFrom keyword 0 part (.openParen :: (ws ++ .closeParen :: vs)) =
      splitFrom keyword 0 (part ++ (.openParen :: (ws ++ [.closeParen]))) vs := by
  rw [splitFrom, if_neg (by simp [hk]), Word.depthAfter, h.splitFrom_succ, splitFrom,
    if_neg (by simp), Word.depthAfter]
  simp

/-- After balanced words no parenthesis is open, whatever keywords divide them. -/
private theorem exists_splitFrom (h : Balanced ws) {keyword : String}
    (hk : Word.openParen.isKeyword keyword = false) (part : List Word) :
    ∃ parts last,
      ∀ vs, splitFrom keyword 0 part (ws ++ vs) = parts ++ splitFrom keyword 0 last vs := by
  induction h generalizing part with
  | nil => exact ⟨[], part, fun vs => rfl⟩
  | @cons w ws ho hc _ ih =>
    by_cases hw : w.isKeyword keyword = true
    · obtain ⟨parts, last, hsplit⟩ := ih []
      refine ⟨part :: parts, last, fun vs => ?_⟩
      rw [List.cons_append, splitFrom, if_pos ⟨rfl, hw⟩, hsplit, List.cons_append]
    · obtain ⟨parts, last, hsplit⟩ := ih (part ++ [w])
      refine ⟨parts, last, fun vs => ?_⟩
      rw [List.cons_append, splitFrom, if_neg (fun h => hw h.2), Word.depthAfter_of_ne ho hc,
        hsplit]
  | @paren inner ws hi _ _ ih =>
    obtain ⟨parts, last, hsplit⟩ := ih (part ++ (.openParen :: (inner ++ [.closeParen])))
    refine ⟨parts, last, fun vs => ?_⟩
    rw [List.cons_append, List.append_assoc, List.cons_append, hi.splitFrom_group hk, hsplit]

/-- Words without the open keyword belong to one part. -/
theorem splitFrom_append (h : Balanced ws) {keyword : String}
    (hk : ∀ w ∈ openWords ws, w.isKeyword keyword = false) (part vs : List Word) :
    splitFrom keyword 0 part (ws ++ vs) = splitFrom keyword 0 (part ++ ws) vs := by
  induction h generalizing part with
  | nil => rw [List.nil_append, List.append_nil]
  | @cons w ws ho hc _ ih =>
    rw [openWords_cons ho hc, List.forall_mem_cons] at hk
    rw [List.cons_append, splitFrom, if_neg (by simp [hk.1]), Word.depthAfter_of_ne ho hc, ih hk.2,
      List.append_assoc, List.singleton_append]
  | @paren inner ws hi _ _ ih =>
    rw [hi.openWords_paren, List.forall_mem_cons] at hk
    rw [List.cons_append, List.append_assoc, List.cons_append, hi.splitFrom_group hk.1, ih hk.2]
    simp

/-- Words without the open keyword are one part. -/
theorem split_eq_singleton (h : Balanced ws) {keyword : String}
    (hk : ∀ w ∈ openWords ws, w.isKeyword keyword = false) : split keyword ws = [ws] := by
  have hsplit := h.splitFrom_append hk [] []
  rwa [List.append_nil, List.nil_append] at hsplit

/-- Words without the open keyword are the first part before it. -/
theorem split_append (h : Balanced ws) {keyword : String}
    (hk : ∀ w ∈ openWords ws, w.isKeyword keyword = false) {mark : Word}
    (hmark : mark.isKeyword keyword = true) (vs : List Word) :
    split keyword (ws ++ mark :: vs) = ws :: split keyword vs := by
  rw [split, h.splitFrom_append hk, List.nil_append, splitFrom, if_pos ⟨rfl, hmark⟩]
  rfl

/-- Words without the open keyword are the last part behind it. -/
theorem getLastD_split (h : Balanced ws) (h' : Balanced vs) {keyword : String}
    (hk : Word.openParen.isKeyword keyword = false)
    (hk' : ∀ w ∈ openWords vs, w.isKeyword keyword = false) {mark : Word}
    (hmark : mark.isKeyword keyword = true) :
    (split keyword (ws ++ mark :: vs)).getLastD [] = vs := by
  obtain ⟨parts, last, hsplit⟩ := h.exists_splitFrom hk []
  have hlast : splitFrom keyword 0 [] vs = [vs] := h'.split_eq_singleton hk'
  rw [split, hsplit, splitFrom, if_pos ⟨rfl, hmark⟩, hlast]
  simp

end Balanced

/-! ### Texts of balanced words -/

/-- The text is cut into these words, whatever may follow it, and they are balanced. -/
structure Cuts (text : String) (ws : List Word) : Prop where
  spells : Spells text.toList ws
  balanced : Balanced ws

theorem Word.ofRun_ne_paren (run : List Char) :
    Word.ofRun run ≠ .openParen ∧ Word.ofRun run ≠ .closeParen := by
  unfold Word.ofRun
  repeat' split
  all_goals exact ⟨nofun, nofun⟩

/-- The words of a text, none where the text cannot be cut. -/
def wordsOf (text : String) : List Word := (words text.toList).getD []

namespace Cuts

variable {a b : String} {ws vs : List Word}

theorem wordsOf_eq (h : Cuts a ws) : wordsOf a = ws := by
  rw [wordsOf, h.spells.words_eq, Option.getD_some]

theorem nil : Cuts "" [] := ⟨fun _ _ => by simp, .nil⟩

/-- A run is one word. -/
theorem run (hne : a.toList ≠ []) (h : ∀ c ∈ a.toList, Word.isRunPart c = true) :
    Cuts a [Word.ofRun a.toList] :=
  ⟨spells_run hne h, .cons (Word.ofRun_ne_paren _).1 (Word.ofRun_ne_paren _).2 .nil⟩

/-- A fixed run, such as a keyword. -/
theorem keyword {w : Word} (hne : a.toList ≠ []) (h : a.toList.all Word.isRunPart = true)
    (hw : Word.ofRun a.toList = w) : Cuts a [w] :=
  hw ▸ .run hne (List.all_eq_true.mp h)

/-- A blank between two texts. -/
theorem blank (ha : Cuts a ws) (hb : Cuts b vs) : Cuts (a ++ " " ++ b) (ws ++ vs) :=
  ⟨by simpa using ha.spells.append_blank hb.spells, ha.balanced.append hb.balanced⟩

/-- A comma between two texts. -/
theorem comma (ha : Cuts a ws) (hb : Cuts b vs) : Cuts (a ++ ", " ++ b) (ws ++ .comma :: vs) :=
  ⟨by simpa using ha.spells.append_comma hb.spells,
    ha.balanced.append (.cons nofun nofun hb.balanced)⟩

/-- Parentheses around a text. -/
theorem paren (ha : Cuts a ws) : Cuts ("(" ++ a ++ ")") (.openParen :: (ws ++ [.closeParen])) :=
  ⟨by simpa using ha.spells.paren, ha.balanced.group⟩

/-- A minus sign before a text. -/
theorem minus (ha : Cuts a ws) : Cuts ("-" ++ a) (.operator .sub :: ws) :=
  ⟨by simpa using ha.spells.minus, .cons nofun nofun ha.balanced⟩

/-- A function and its arguments. -/
theorem call {name : String} (hne : name.toList ≠ [])
    (h : ∀ c ∈ name.toList, Word.isRunPart c = true) (ha : Cuts a ws) :
    Cuts (name ++ "(" ++ a ++ ")")
      (Word.ofRun name.toList :: .openParen :: (ws ++ [.closeParen])) := by
  refine ⟨?_, .cons (Word.ofRun_ne_paren _).1 (Word.ofRun_ne_paren _).2 ha.balanced.group⟩
  cases hname : name.toList with
  | nil => exact absurd hname hne
  | cons c run =>
    rw [hname] at h
    simpa [hname] using Spells.run_paren h ha.spells.paren

end Cuts

/-- The condition of a statement is found between the words before it and the sort keys, even where
the words before it have another `WHERE` among them. -/
theorem whereClause_eq {before clause after : List Word} (hb : Balanced before)
    (hc : Balanced clause) (ha : Balanced after)
    (hk : ∀ w ∈ openWords clause, w.isKeyword "WHERE" = false ∧ w.isKeyword "ORDER" = false)
    (hk' : ∀ w ∈ openWords after, w.isKeyword "WHERE" = false)
    (hs : after = [] ∨ ∃ rest, after = .literal "ORDER" :: rest) :
    whereClause (before ++ .literal "WHERE" :: (clause ++ after)) = clause := by
  have hopen : ∀ w ∈ openWords (clause ++ after), w.isKeyword "WHERE" = false := by
    intro w hw
    rw [hc.openWords_append, List.mem_append] at hw
    exact hw.elim (fun hw => (hk w hw).1) (hk' w)
  rw [whereClause, hb.getLastD_split (hc.append ha) (by decide) hopen (by decide)]
  rcases hs with rfl | ⟨rest, rfl⟩
  · -- Without sort keys the condition goes on to the end.
    rw [List.append_nil, hc.split_eq_singleton fun w hw => (hk w hw).2]
    rfl
  · rw [hc.split_append (fun w hw => (hk w hw).2) (by decide)]
    rfl

/-- Conditions before others in a conjunction are parts of it. -/
theorem mem_split_intercalate {front back : List (List Word)}
    (h : ∀ part ∈ front, Balanced part ∧ ∀ w ∈ openWords part, w.isKeyword "AND" = false)
    {part : List Word} (hp : part ∈ front) :
    part ∈ split "AND" ([.operator .and].intercalate (front ++ back)) := by
  induction front with
  | nil => cases hp
  | cons first front ih =>
    rw [List.forall_mem_cons] at h
    obtain ⟨⟨hbalanced, hopen⟩, hrest⟩ := h
    by_cases hlast : front ++ back = []
    · obtain ⟨rfl, rfl⟩ := List.append_eq_nil_iff.mp hlast
      rw [List.append_nil, List.intercalate_singleton, hbalanced.split_eq_singleton hopen]
      exact hp
    · rw [List.cons_append, List.intercalate_cons_of_ne_nil hlast, List.append_assoc,
        List.singleton_append, hbalanced.split_append hopen (by decide)]
      rcases List.mem_cons.mp hp with rfl | hp
      · exact List.mem_cons_self
      · exact List.mem_cons_of_mem _ (ih hrest hp)

end EntityQuery.Jpql
