/-
HisiRiscv.Lib.PyText — Python strings as lists of characters: white space, lines and words.

`isSpace` is `str.isspace` on one character (and `\s` of a pattern), `isLineBreak` what
`str.splitlines` splits at. A text file is read with universal newlines, so that its lines have
no carriage return. A text made of lines is split into these lines (`splitlines_unlines`).
-/
import Mathlib.Data.List.DropRight
import Mathlib.Data.List.Infix

namespace HisiRiscv.PyText

abbrev Text : Type := List Char

/-- `str.isspace` of a character. -/
def isSpace (c : Char) : Bool :=
  let n := c.toNat
  (9 ≤ n && n ≤ 13) || (28 ≤ n && n ≤ 32) || n == 0x85 || n == 0xa0 || n == 0x1680 ||
    (0x2000 ≤ n && n ≤ 0x200a) || n == 0x2028 || n == 0x2029 || n == 0x202f || n == 0x205f ||
    n == 0x3000

/-- The characters that end a line. -/
def isLineBreak (c : Char) : Bool :=
  let n := c.toNat
  (10 ≤ n && n ≤ 13) || (28 ≤ n && n ≤ 30) || n == 0x85 || n == 0x2028 || n == 0x2029

/-- The text of a file, as `read_text` gives it. -/
def universalNewlines : Text → Text
  | [] => []
  | '\r' :: '\n' :: text => '\n' :: universalNewlines text
  | '\r' :: text => '\n' :: universalNewlines text
  | c :: text => c :: universalNewlines text

/-- `str.splitlines`, of a text without carriage returns. -/
def splitlines : Text → List Text
  | [] => []
  | c :: text =>
    if isLineBreak c then [] :: splitlines text
    else
      match splitlines text with
      | [] => [[c]]
      | line :: lines => (c :: line) :: lines

/-- `str.split(maxsplit=1)`. -/
def splitOnce (line : Text) : List Text :=
  let line := line.dropWhile isSpace
  let word := line.takeWhile fun c => !isSpace c
  let rest := (line.dropWhile fun c => !isSpace c).dropWhile isSpace
  if word = [] then [] else if rest = [] then [word] else [word, rest]

/-- `str.split()`. -/
def words : Text → List Text
  | [] => []
  | c :: text =>
    if isSpace c then words text
    else
      match text.head?.map isSpace, words text with
      | some false, word :: rest => (c :: word) :: rest
      | _, rest => [c] :: rest

def removePrefix (c : Char) : Text → Text
  | [] => []
  | d :: text => if d = c then text else d :: text

/-- The rest of a text that begins with a character, as a pattern reads it. -/
def afterChar (c : Char) : Text → Option Text
  | [] => none
  | d :: text => if d = c then some text else none

/-- `str.strip()`, of anything that is read as characters. -/
def strip {α : Type} (char : α → Char) (l : List α) : List α :=
  (l.dropWhile fun x => isSpace (char x)).rdropWhile fun x => isSpace (char x)

theorem isSpace_of_isLineBreak {c : Char} (h : isLineBreak c = true) : isSpace c = true := by
  simp only [isLineBreak, isSpace, Bool.or_eq_true, Bool.and_eq_true, decide_eq_true_eq,
    beq_iff_eq] at *
  omega

theorem universalNewlines_eq {text : Text} (h : '\r' ∉ text) : universalNewlines text = text := by
  induction text with
  | nil => rfl
  | cons c text ih =>
    rw [List.mem_cons, not_or] at h
    obtain ⟨hc, htext⟩ := h
    rw [universalNewlines, ih htext]
    · intro rest heq
      exact absurd heq.symm hc
    · exact fun heq => hc heq.symm

theorem splitlines_line {line rest : Text} (h : ∀ c ∈ line, isLineBreak c = false) :
    splitlines (line ++ '\n' :: rest) = line :: splitlines rest := by
  induction line with
  | nil => rfl
  | cons c line ih =>
    obtain ⟨hc, hline⟩ := List.forall_mem_cons.mp h
    rw [List.cons_append, splitlines, hc, ih hline]
    rfl

theorem splitlines_unlines {lines : List Text}
    (h : ∀ line ∈ lines, ∀ c ∈ line, isLineBreak c = false) :
    splitlines (lines.flatMap fun line => line ++ ['\n']) = lines := by
  induction lines with
  | nil => rfl
  | cons line lines ih =>
    obtain ⟨hline, hlines⟩ := List.forall_mem_cons.mp h
    rw [List.flatMap_cons, List.append_assoc, List.singleton_append, splitlines_line hline,
      ih hlines]

/-- Two words with spaces between them. -/
theorem splitOnce_words {word spaces rest : Text} (hword : ∀ c ∈ word, isSpace c = false)
    (hspaces : ∀ c ∈ spaces, isSpace c = true) (hrest : ∀ c ∈ rest, isSpace c = false)
    (hword' : word ≠ []) (hspaces' : spaces ≠ []) (hrest' : rest ≠ []) :
    splitOnce (word ++ (spaces ++ rest)) = [word, rest] := by
  have hdrop : ∀ text : Text, (∀ c ∈ text, isSpace c = false) → text ≠ [] → ∀ more,
      (text ++ more).dropWhile isSpace = text ++ more := by
    intro text htext hne more
    obtain ⟨c, text, rfl⟩ := List.exists_cons_of_ne_nil hne
    rw [List.cons_append, List.dropWhile_cons_of_neg (by simp [htext c])]
  obtain ⟨c, spaces, rfl⟩ := List.exists_cons_of_ne_nil hspaces'
  have hc := hspaces c List.mem_cons_self
  have htake : (word ++ (c :: spaces ++ rest)).takeWhile (fun c => !isSpace c) = word := by
    rw [List.takeWhile_append_of_pos (by simpa using hword), List.cons_append,
      List.takeWhile_cons_of_neg (by simp [hc]), List.append_nil]
  have hrestDrop : (word ++ (c :: spaces ++ rest)).dropWhile (fun c => !isSpace c) =
      c :: spaces ++ rest := by
    rw [List.dropWhile_append_of_pos (by simpa using hword), List.cons_append,
      List.dropWhile_cons_of_neg (by simp [hc])]
  have hlast : (c :: spaces ++ rest).dropWhile isSpace = rest := by
    rw [List.dropWhile_append_of_pos hspaces, ← List.append_nil rest, hdrop rest hrest hrest']
  rw [splitOnce]
  simp only [hdrop word hword hword', htake, hrestDrop, hlast]
  rw [if_neg hword', if_neg hrest']

theorem words_space {c : Char} (hc : isSpace c = true) (text : Text) :
    words (c :: text) = words text := by rw [words, if_pos hc]

/-- A word, and what does not go on with it. -/
theorem words_append {word rest : Text} (hword : ∀ c ∈ word, isSpace c = false) (hne : word ≠ [])
    (hrest : ∀ c ∈ rest.head?, isSpace c = true) : words (word ++ rest) = word :: words rest := by
  induction word with
  | nil => exact absurd rfl hne
  | cons c word ih =>
    obtain ⟨hc, hword⟩ := List.forall_mem_cons.mp hword
    rw [List.cons_append, words, hc, if_neg Bool.false_ne_true]
    cases word with
    | nil =>
      rw [List.nil_append]
      cases rest with
      | nil => rfl
      | cons d rest =>
        have hd : isSpace d = true := hrest d rfl
        simp only [List.head?_cons, Option.map_some, hd]
    | cons d word =>
      have hd : isSpace d = false := hword d List.mem_cons_self
      rw [ih hword (List.cons_ne_nil _ _)]
      simp only [List.cons_append, List.head?_cons, Option.map_some, hd]

theorem removePrefix_of_ne {c : Char} {text : Text} (h : text.head? ≠ some c) :
    removePrefix c text = text := by
  cases text with
  | nil => rfl
  | cons d text =>
    rw [removePrefix, if_neg]
    rintro rfl
    exact h rfl

section OneLine

variable {v t : Text}

theorem prefix_universalNewlines (hv : ∀ c ∈ v, isLineBreak c = false) (h : v <+: t) :
    v <+: universalNewlines t := by
  fun_induction universalNewlines t generalizing v with
  | case1 => exact h
  | case2 t ih =>
    cases v with
    | nil => exact List.nil_prefix
    | cons c v =>
      obtain ⟨rfl, -⟩ := List.cons_prefix_cons.mp h
      exact absurd (hv '\r' List.mem_cons_self) (by decide)
  | case3 t hne ih =>
    cases v with
    | nil => exact List.nil_prefix
    | cons c v =>
      obtain ⟨rfl, -⟩ := List.cons_prefix_cons.mp h
      exact absurd (hv '\r' List.mem_cons_self) (by decide)
  | case4 d t hne hne' ih =>
    cases v with
    | nil => exact List.nil_prefix
    | cons c v =>
      obtain ⟨rfl, hpre⟩ := List.cons_prefix_cons.mp h
      exact List.cons_prefix_cons.mpr ⟨rfl, ih (List.forall_mem_cons.mp hv).2 hpre⟩

/-- A word without line breaks stays one. -/
theorem infix_universalNewlines (hv : ∀ c ∈ v, isLineBreak c = false) (h : v <:+: t) :
    v <:+: universalNewlines t := by
  fun_induction universalNewlines t with
  | case1 => exact h
  | case2 t ih =>
    obtain h | h := List.infix_cons_iff.mp h
    · have hpre := prefix_universalNewlines hv h
      rw [universalNewlines] at hpre
      exact hpre.isInfix
    · obtain h | h := List.infix_cons_iff.mp h
      · have hpre := prefix_universalNewlines hv h
        rw [universalNewlines] at hpre
        · exact hpre.isInfix
        · simp
        · simp
      · exact List.infix_cons (ih h)
  | case3 t hne ih =>
    obtain h | h := List.infix_cons_iff.mp h
    · have hpre := prefix_universalNewlines hv h
      rw [universalNewlines] at hpre
      · exact hpre.isInfix
      · exact hne
    · exact List.infix_cons (ih h)
  | case4 d t hne hne' ih =>
    obtain h | h := List.infix_cons_iff.mp h
    · have hpre := prefix_universalNewlines hv h
      rw [universalNewlines] at hpre
      · exact hpre.isInfix
      · exact hne
      · exact hne'
    · exact List.infix_cons (ih h)

theorem prefix_splitlines (hv : ∀ c ∈ v, isLineBreak c = false) (hne : v ≠ []) (h : v <+: t) :
    ∃ line lines, splitlines t = line :: lines ∧ v <+: line := by
  induction t generalizing v with
  | nil => exact absurd (List.prefix_nil.mp h) hne
  | cons d t ih =>
    obtain ⟨c, v, rfl⟩ := List.exists_cons_of_ne_nil hne
    obtain ⟨rfl, hpre⟩ := List.cons_prefix_cons.mp h
    obtain ⟨hc, hv⟩ := List.forall_mem_cons.mp hv
    rw [splitlines, hc]
    cases v with
    | nil =>
      cases splitlines t with
      | nil => exact ⟨[c], [], rfl, List.prefix_rfl⟩
      | cons line lines => exact ⟨c :: line, lines, rfl, by simp⟩
    | cons e v =>
      obtain ⟨line, lines, heq, hpre⟩ := ih hv (by simp) hpre
      rw [heq]
      exact ⟨c :: line, lines, rfl, List.cons_prefix_cons.mpr ⟨rfl, hpre⟩⟩

/-- A word without line breaks lies in one line. -/
theorem infix_splitlines (hv : ∀ c ∈ v, isLineBreak c = false) (hne : v ≠ []) (h : v <:+: t) :
    ∃ line ∈ splitlines t, v <:+: line := by
  induction t with
  | nil => exact absurd (List.infix_nil.mp h) hne
  | cons d t ih =>
    obtain h | h := List.infix_cons_iff.mp h
    · obtain ⟨line, lines, heq, hpre⟩ := prefix_splitlines hv hne h
      rw [heq]
      exact ⟨line, List.mem_cons_self, hpre.isInfix⟩
    · obtain ⟨line, hline, hin⟩ := ih h
      rw [splitlines]
      split
      · exact ⟨line, List.mem_cons_of_mem _ hline, hin⟩
      · cases hlines : splitlines t with
        | nil =>
          rw [hlines] at hline
          cases hline
        | cons first lines =>
          rw [hlines, List.mem_cons] at hline
          obtain rfl | hline := hline
          · exact ⟨d :: line, List.mem_cons_self, List.infix_cons hin⟩
          · exact ⟨line, List.mem_cons_of_mem _ hline, hin⟩

end OneLine

end HisiRiscv.PyText
