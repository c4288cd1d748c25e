/-
HisiRiscv.Docs.Tutorial — the tutorial pages: the preprocessor `mdbook-hisi-docs.py`, and
its checker `check-tutorial-snippets.py`.

The preprocessor puts text in the place of the tokens of a page, in four passes over the whole
page. The checker looks for tokens line by line.

Translation notes. A page's content is a list of cells: a character, and whether it was written
in the page. No function looks at the second part; it tells a token that is left of the page from
one that a snippet or a chip brings in. A file is read with universal newlines; what
mdBook hands to the preprocessor is not. Dictionaries are lists of pairs in the order of
insertion. A chip's field is given by `str(value)`. The text of the manifest (`json.dumps`) and
the base of the API links come from `versions.json`, which the checker does not read; they are
parameters.

  §1 Text and content.
  §2 Tokens.
  §3 The contracts.
  §4 The passes.
  §5 The checker.
  §6 Pages that can be rendered.
-/
import Mathlib.Data.Char
import Mathlib.Data.List.DropRight
import Mathlib.Data.List.Lex
import Mathlib.Data.List.Sort
import HisiRiscv.Lib.PyText
import HisiRiscv.Lib.Substitute
import HisiRiscv.Lib.Tokens

namespace HisiRiscv.Docs.Tutorial

open PyText Scan

/-! ## §1 Text and content -/

structure Cell where
  char : Char
  page : Bool
  deriving DecidableEq

abbrev Content : Type := List Cell

def text (content : Content) : Text := content.map Cell.char

/-- A text of the page. -/
def written (t : Text) : Content := t.map fun c => ⟨c, true⟩

/-- A text that a pass brings in. -/
def generated (t : Text) : Content := t.map fun c => ⟨c, false⟩

/-- `sep.join(parts)`. -/
def join {α : Type} (sep : List α) : List (List α) → List α
  | [] => []
  | [part] => part
  | part :: parts => part ++ (sep ++ join sep parts)

/-- `str.split(None, maxsplit)`. -/
def splitMax (maxsplit : ℕ) (line : Text) : List Text :=
  let line := line.dropWhile isSpace
  if line = [] then []
  else
    match maxsplit with
    | 0 => [line]
    | maxsplit + 1 =>
      (line.takeWhile fun c => !isSpace c) :: splitMax maxsplit (line.dropWhile fun c => !isSpace c)

/-- What `html.escape` writes for a character. -/
def escapeChar (c : Char) : Option Text :=
  if c = '&' then some "&amp;".toList
  else if c = '<' then some "&lt;".toList
  else if c = '>' then some "&gt;".toList
  else if c = '"' then some "&quot;".toList
  else if c = '\x27' then some "&#x27;".toList
  else none

/-- `html.escape`. -/
def escape (content : Content) : Content :=
  content.flatMap fun c => ((escapeChar c.char).map generated).getD [c]

/-! ## §2 Tokens -/

def opener (name : String) : Text := '{' :: '{' :: '#' :: name.toList

def closer : Text := ['}', '}']

def snippetOpener : Text := opener "tutorial-snippet"
def fieldOpener : Text := opener "chip-field"
def chipIfOpener : Text := opener "chip-if"
def chipElseOpener : Text := opener "chip-else"
def chipEndOpener : Text := opener "chip-end"
def apiLinkOpener : Text := opener "api-link"

/-- `[A-Za-z0-9_.-]`. -/
def isIdChar (c : Char) : Bool := c.isAlphanum || c = '_' || c = '.' || c = '-'

section Patterns

variable {α : Type} (char : α → Char)

/-- The rest after a literal text. -/
def after (w : Text) (l : List α) : Option (List α) :=
  if w <+: l.map char then some (l.drop w.length) else none

/-- `{{#name\s+([A-Za-z0-9_.-]+)\s*}}`, for the opener of the name: the length of a match, and
the id. -/
def matchToken (w : Text) (l : List α) : Option (ℕ × Text) := do
  let rest ← after char w l
  let spaces := rest.takeWhile fun x => isSpace (char x)
  let rest := rest.dropWhile fun x => isSpace (char x)
  let id := rest.takeWhile fun x => isIdChar (char x)
  let rest := (rest.dropWhile fun x => isIdChar (char x)).dropWhile fun x => isSpace (char x)
  let rest ← after char closer rest
  if spaces = [] ∨ id = [] then none else some (l.length - rest.length, id.map char)

/-- `API_LINK_RE`: the length of a match, the path and the label. -/
def matchApiLink (l : List α) : Option (ℕ × List α × List α) := do
  let rest ← after char apiLinkOpener l
  let run := rest.takeWhile fun x => char x ≠ '|' && char x ≠ '}'
  let rest ← after char ['|'] (rest.dropWhile fun x => char x ≠ '|' && char x ≠ '}')
  let label := rest.takeWhile fun x => char x ≠ '}'
  let rest ← after char closer (rest.dropWhile fun x => char x ≠ '}')
  let path := run.dropWhile fun x => isSpace (char x)
  -- a path of spaces only is the last one: the others are those of `\s+`
  let path := if path = [] then run.drop (run.length - 1) else path
  if (run.takeWhile fun x => isSpace (char x)) = [] ∨ run.length < 2 ∨ label = [] then none
  else some (l.length - rest.length, path, label)

end Patterns

/-- A match of `CHIP_IF_RE`. -/
structure ChipIf where
  chip : Text
  thenBody : Content
  elseBody : Option Content

/-- `(.*?){{#chip-end}}`: what stands before the first end. -/
def matchEnd : Content → Option Content
  | [] => none
  | c :: l =>
    if (after Cell.char (chipEndOpener ++ closer) (c :: l)).isSome then some []
    else (matchEnd l).map (c :: ·)

/-- The part of `CHIP_IF_RE` after the head: the two bodies. -/
def matchBodies : Content → Option (Content × Option Content)
  | [] => none
  | c :: l =>
    match (after Cell.char (chipElseOpener ++ closer) (c :: l)).bind matchEnd with
    | some elseBody => some ([], some elseBody)
    | none =>
      if (after Cell.char (chipEndOpener ++ closer) (c :: l)).isSome then some ([], none)
      else (matchBodies l).map fun bodies => (c :: bodies.1, bodies.2)

/-- `CHIP_IF_RE`. -/
def matchChipIf (l : Content) : Option (ℕ × ChipIf) := do
  let (head, chip) ← matchToken Cell.char chipIfOpener l
  let (thenBody, elseBody) ← matchBodies (l.drop head)
  let elseLength := (elseBody.map fun body => (chipElseOpener ++ closer).length + body.length).getD 0
  return (head + thenBody.length + elseLength + (chipEndOpener ++ closer).length,
    ⟨chip, thenBody, elseBody⟩)

/-- A literal text, as `str.replace` finds it. -/
def matchLiteral (w : Text) (l : Content) : Option (ℕ × Unit) :=
  (after Cell.char w l).map fun _ => (w.length, ())

/-! ## §3 The contracts -/

inductive Failure where
  | systemExit (message : Text)
  | indexError
  deriving DecidableEq

def docsStart : Text := "# docs:start ".toList

def docsEnd : Text := "# docs:end".toList

/-- `line.split(None, 2)[2].strip()`. -/
def snippetId (line : Text) : Option Text := (splitMax 2 line)[2]?.map (strip id)

section Dictionaries

variable {β : Type}

def keys (dict : List (Text × β)) : List Text := dict.map Prod.fst

def get (dict : List (Text × β)) (key : Text) : Option β := dict.lookup key

end Dictionaries

/-- The state of `load_snippets` between two lines. -/
structure Loader where
  snippets : List (Text × Text)
  current : Option Text
  lines : List Text

/-- `str.strip("\n")`. -/
def stripNewlines (t : Text) : Text := (t.dropWhile (· = '\n')).rdropWhile (· = '\n')

def loadLine (st : Loader) (line : Text) : Except Failure Loader :=
  if docsStart <+: line then
    match st.current, snippetId line with
    | some current, _ =>
      .error (.systemExit ("nested docs:start before docs:end for ".toList ++ current))
    | none, none => .error .indexError
    | none, some id => .ok { st with current := some id, lines := [] }
  else if line = docsEnd then
    match st.current with
    | none => .error (.systemExit "docs:end without docs:start".toList)
    | some current =>
      if (keys st.snippets).contains current then
        .error (.systemExit ("duplicate tutorial snippet id: ".toList ++ current))
      else .ok
        { snippets := st.snippets ++ [(current, stripNewlines (join ['\n'] st.lines))]
          current := none
          lines := [] }
  else
    match st.current with
    | none => .ok st
    | some _ => .ok { st with lines := st.lines ++ [line] }

def loadSnippets (contracts : Text) : Except Failure (List (Text × Text)) := do
  let st ← (splitlines (universalNewlines contracts)).foldlM loadLine ⟨[], none, []⟩
  match st.current with
  | some current => .error (.systemExit ("unterminated tutorial snippet: ".toList ++ current))
  | none => .ok st.snippets

/-- What `load_chips` accepts. -/
structure Chips where
  default : Text
  selectable : List Text
  chips : List (Text × List (Text × Text))
  default_mem : default ∈ keys chips

/-! ## §4 The passes -/

def htmlCodeBlock (body : Text) : Content :=
  generated "<pre><code class=\"language-bash\">".toList ++
    (escape (generated body) ++ generated "</code></pre>".toList)

/-- The block of a chip. -/
def chipBlock (chip : Text) (body : Content) : Content :=
  generated "<div class=\"hisi-chip-block\" data-hisi-chip=\"".toList ++
    (escape (generated chip) ++ (generated "\">".toList ++ (body ++ generated "</div>".toList)))

def unknown (what id : Text) : Failure := .systemExit ("unknown ".toList ++ what ++ ": ".toList ++ id)

/-- The snippets of the selectable chips. -/
def variants (snippets : List (Text × Text)) (chips : Chips) (id : Text) : List (Text × Text) :=
  chips.selectable.eraseDups.filterMap fun chip =>
    (get snippets (id ++ '.' :: chip)).map (chip, ·)

def replaceSnippet (snippets : List (Text × Text)) (chips : Chips) (id : Text) :
    Except Failure Content :=
  match variants snippets chips id with
  | [] =>
    match get snippets id with
    | none => .error (unknown "tutorial snippet id".toList id)
    | some body =>
      .ok (generated "```bash\n".toList ++ (generated body ++ generated "\n```".toList))
  | blocks =>
    .ok (join (generated ['\n']) (blocks.map fun (chip, body) => chipBlock chip (htmlCodeBlock body)))

def renderSnippets (snippets : List (Text × Text)) (chips : Chips) (content : Content) :
    Except Failure Content :=
  sub (matchToken Cell.char snippetOpener) (replaceSnippet snippets chips) content

def Chips.defaultData (chips : Chips) : List (Text × Text) :=
  (get chips.chips chips.default).getD []

def replaceField (chips : Chips) (field : Text) : Except Failure Content :=
  match get chips.defaultData field with
  | none => .error (unknown "chip field".toList field)
  | some value =>
    .ok (generated "<span data-hisi-chip-field=\"".toList ++ (escape (generated field) ++
      (generated "\">".toList ++ (escape (generated value) ++ generated "</span>".toList))))

def renderChipFields (chips : Chips) (content : Content) : Except Failure Content :=
  sub (matchToken Cell.char fieldOpener) (replaceField chips) content

def blockClass : Text := "class=\"hisi-chip-block\"".toList

def hiddenClass : Text := "class=\"hisi-chip-block hidden\"".toList

/-- `block.replace('class="hisi-chip-block"', 'class="hisi-chip-block hidden"')`. -/
def hide (block : Content) : Content :=
  substituteAll (fun _ => generated hiddenClass) (scan (matchLiteral blockClass) block)

def replaceChipIf (chips : Chips) (m : ChipIf) : Except Failure Content :=
  if (keys chips.chips).contains m.chip then
    let block := chipBlock m.chip (strip Cell.char m.thenBody)
    let elseBody := strip Cell.char (m.elseBody.getD [])
    let others := chips.selectable.filter (· ≠ m.chip)
    .ok (join (generated ['\n'])
      (if elseBody ≠ [] then block :: others.map fun other => chipBlock other elseBody
      else if m.chip ≠ chips.default then [hide block] else [block]))
  else .error (unknown "chip in chip-if".toList m.chip)

def renderChipIfs (chips : Chips) (content : Content) : Except Failure Content :=
  sub matchChipIf (replaceChipIf chips) content

def replaceApiLink (apiBase : Text) (chips : Chips) (m : Content × Content) : Content :=
  let path := strip Cell.char m.1
  let label := strip Cell.char m.2
  let href := generated (apiBase.rdropWhile (· = '/') ++ '/' :: chips.default ++ ['/']) ++
    path.dropWhile fun c => c.char = '/'
  generated "<a data-hisi-api-link=\"".toList ++ (escape path ++
    (generated "\" href=\"".toList ++ (escape href ++
      (generated "\">".toList ++ (escape label ++ generated "</a>".toList)))))

def renderApiLinks (apiBase : Text) (chips : Chips) (content : Content) : Content :=
  substituteAll (replaceApiLink apiBase chips) (scan (matchApiLink Cell.char) content)

/-- `payload.replace("</", "<\\/")`. -/
def escapeSlash : Text → Text
  | '<' :: '/' :: t => '<' :: '\x5c' :: '/' :: escapeSlash t
  | c :: t => c :: escapeSlash t
  | [] => []

def manifestScript (payload : Text) : Content :=
  generated ("<script type=\"application/json\" data-hisi-docs-manifest>".toList ++
    escapeSlash payload ++ "</script>\n\n".toList)

def render (payload apiBase : Text) (snippets : List (Text × Text)) (chips : Chips)
    (content : Content) : Except Failure Content := do
  let content ← renderChipIfs chips content
  let content ← renderSnippets snippets chips content
  let content ← renderChipFields chips content
  return manifestScript payload ++ renderApiLinks apiBase chips content

/-! ## §5 The checker -/

/-- `path:lineno: `. -/
def location (path : Text) (lineno : ℕ) : Text :=
  path ++ ':' :: (toString lineno).toList ++ ": ".toList

/-- The state of `parse_snippets` between two lines. -/
structure Parser where
  snippets : List (Text × List Text)
  errors : List Text
  current : Option Text
  lines : List Text

def Parser.error (st : Parser) (message : Text) : Parser :=
  { st with errors := st.errors ++ [message] }

def parseLine (contractsPath : Text) (st : Parser) (numbered : Text × ℕ) :
    Except Failure Parser :=
  let (line, lineno) := numbered
  let here := location contractsPath lineno
  if docsStart <+: line then
    match st.current, snippetId line with
    | some current, _ =>
      .ok (st.error (here ++ "nested docs:start before docs:end for ".toList ++ current))
    | none, none => .error .indexError
    | none, some id => .ok { st with current := some id, lines := [] }
  else if line = docsEnd then
    match st.current with
    | none => .ok (st.error (here ++ "docs:end without docs:start".toList))
    | some current =>
      let lines := st.lines
      let st : Parser := { st with current := none, lines := [] }
      if (keys st.snippets).contains current then
        .ok (st.error (here ++ "duplicate tutorial snippet id: ".toList ++ current))
      else if lines.all fun part => strip id part = [] then
        .ok (st.error (here ++ "empty tutorial snippet: ".toList ++ current))
      else .ok { st with snippets := st.snippets ++ [(current, lines)] }
  else
    match st.current with
    | none => .ok st
    | some _ => .ok { st with lines := st.lines ++ [line] }

def parseSnippets (contractsPath contracts : Text) :
    Except Failure (List (Text × List Text) × List Text) := do
  let st ← ((splitlines (universalNewlines contracts)).zipIdx 1).foldlM (parseLine contractsPath)
    ⟨[], [], none, []⟩
  match st.current with
  | some current =>
    return (st.snippets,
      st.errors ++ [contractsPath ++ ": unterminated tutorial snippet: ".toList ++ current])
  | none => return (st.snippets, st.errors)

def shellFences : List Text := ["```bash".toList, "```sh".toList, "```shell".toList]

def hasVariants (snippets : List (Text × List Text)) (id : Text) : Bool :=
  (keys snippets).any fun key => id ++ ['.'] <+: key

/-- The ids of the tokens of an opener, as `finditer` finds them in a line. -/
def findIds (w line : Text) : List Text := findAll (matchToken id w) line

def fieldErrors (chips : Chips) (here field : Text) : List Text :=
  (chips.chips.filter fun (chip, data) =>
      chips.selectable.contains chip && !(keys data).contains field).map fun (chip, _) =>
    here ++ "chip field '".toList ++ field ++ "' missing for ".toList ++ chip

def lineErrors (snippets : List (Text × List Text)) (chips : Chips) (here line : Text) :
    List Text :=
  (if shellFences.contains (strip id line) then
      [here ++ "tutorials must use \x7b#tutorial-snippet ...\x7d ".toList ++
        "instead of handwritten shell code blocks".toList]
    else []) ++
  ((findIds snippetOpener line).filter fun snippet =>
      !(keys snippets).contains snippet && !hasVariants snippets snippet).map
    (fun snippet => here ++ "unknown tutorial snippet id: ".toList ++ snippet) ++
  (findIds fieldOpener line).flatMap (fieldErrors chips here) ++
  ((findIds chipIfOpener line).filter fun chip => !(keys chips.chips).contains chip).map
    (fun chip => here ++ "unknown chip in chip-if: ".toList ++ chip) ++
  ((findAll (matchApiLink id) line).filter fun link => strip id link.1 = []).map
    fun _ => here ++ "empty api-link path".toList

/-- A tutorial: its path, and the text of its file. -/
structure Page where
  path : Text
  content : Text

def Page.lines (page : Page) : List Text := splitlines (universalNewlines page.content)

def pageErrors (snippets : List (Text × List Text)) (chips : Chips) (page : Page) : List Text :=
  (page.lines.zipIdx 1).flatMap fun (line, lineno) =>
    lineErrors snippets chips (location page.path lineno) line

/-- `snippet_id.rsplit(".", 1)[0]` and `snippet_id.rsplit(".", 1)[-1]`. -/
def rsplitDot (id : Text) : Text × Text :=
  let last := id.rtakeWhile (· ≠ '.')
  if last = id then (id, id) else (id.take (id.length - last.length - 1), last)

def unusedSnippets (snippets : List (Text × List Text)) (chips : Chips) (used : List Text) :
    List Text :=
  ((keys snippets).filter fun id =>
    let (base, last) := rsplitDot id
    let base := if chips.selectable.contains last then base else id
    !used.contains base && !used.contains id).insertionSort (· ≤ ·)

/-- The errors that `main` of the checker collects. -/
def checkErrors (root contracts : Text) (chips : Chips) (tutorials : List Page) :
    Except Failure (List Text) := do
  let (snippets, errors) ← parseSnippets (root ++ "/scripts/tutorial-contracts.sh".toList) contracts
  let used := tutorials.flatMap fun page => page.lines.flatMap (findIds snippetOpener)
  let unused := unusedSnippets snippets chips used
  return errors ++ tutorials.flatMap (pageErrors snippets chips) ++
    if unused = [] then []
    else ["unused tutorial snippet ids: ".toList ++ join ", ".toList unused]

/-- `main` of the checker. -/
def main (root contracts : Text) (chips : Chips) (tutorials : List Page) : Except Failure ℕ := do
  let errors ← checkErrors root contracts chips tutorials
  return if errors = [] then 0 else 1

/-! ## §6 Pages that can be rendered -/

/-- A whole token of an opener. -/
structure IsToken (w t id : Text) : Prop where
  shape : ∃ spaces spaces', t = w ++ (spaces ++ (id ++ (spaces' ++ closer))) ∧ spaces ≠ [] ∧
    (∀ c ∈ spaces, isSpace c = true) ∧ ∀ c ∈ spaces', isSpace c = true
  id_ne_nil : id ≠ []
  isIdChar : ∀ c ∈ id, isIdChar c = true

/-- A token in the text has this id. -/
def Names (w t id : Text) : Prop := ∃ v, v <:+: t ∧ IsToken w v id

/-- The tokens that must not be left in a page. -/
def openers : List Text :=
  [snippetOpener, fieldOpener, chipIfOpener, chipElseOpener, chipEndOpener]

/-- A text without parts of a chip-if block. -/
def Plain (t : Text) : Prop :=
  ∀ w ∈ [chipIfOpener, chipElseOpener, chipEndOpener], ¬ w <:+: t

/-- A text over several lines. -/
def Broken (t : Text) : Prop := ∃ c ∈ t, isLineBreak c = true

/-- The chips that are shown the other body of a block. -/
def elseNames (chips : Chips) (chip other : Text) : List Text :=
  if strip id other = [] then [] else chips.selectable.filter (· ≠ chip)

/-- The other body of a block, if a chip is shown it. -/
def elseParts (chips : Chips) (chip other : Text) : List Text :=
  if elseNames chips chip other = [] then [] else [other]

/-- Text, and closed blocks that are not nested: the parts of the page that are left of it, and the
names of chips that come in. A head over several lines names a chip. -/
inductive Blocks (chips : Chips) : Text → List Text → List Text → Prop
  | plain {t} (ht : Plain t) : Blocks chips t [t] []
  | block {t head chip body rest parts names} (ht : Plain t) (hhead : IsToken chipIfOpener head chip)
      (hchip : Broken head → chip ∈ keys chips.chips) (hbody : Plain body)
      (hrest : Blocks chips rest parts names) :
      Blocks chips (t ++ (head ++ (body ++ (chipEndOpener ++ closer ++ rest)))) (t :: body :: parts) names
  | blockElse {t head chip body other rest parts names} (ht : Plain t)
      (hhead : IsToken chipIfOpener head chip) (hchip : Broken head → chip ∈ keys chips.chips)
      (hbody : Plain body) (hend : ¬ chipEndOpener ++ closer <:+: other)
      (hother : ∀ part ∈ elseParts chips chip other, Plain part) (hrest : Blocks chips rest parts names) :
      Blocks chips (t ++ (head ++ (body ++ (chipElseOpener ++ closer ++
        (other ++ (chipEndOpener ++ closer ++ rest))))))
        (t :: body :: (elseParts chips chip other ++ parts)) (elseNames chips chip other ++ names)

/-- A snippet that has a text. -/
def Known (snippets : List (Text × Text)) (chips : Chips) (id : Text) : Prop :=
  id ∈ keys snippets ∨ ∃ chip ∈ chips.selectable, id ++ '.' :: chip ∈ keys snippets

/-- The texts that a snippet brings in. -/
def brought (snippets : List (Text × Text)) (chips : Chips) (id : Text) : List Text :=
  match variants snippets chips id with
  | [] => (get snippets id).toList
  | blocks => blocks.flatMap fun (chip, body) => [chip, body]

/-- What the checker does not look at, in the parts of a page and in what comes in. -/
structure Fits (snippets : List (Text × Text)) (chips : Chips) (parts names : List Text) : Prop where
  whole : ∀ part ∈ parts, ∀ w ∈ [snippetOpener, fieldOpener],
    Tokens.Complete w (fun t => ∃ id, IsToken w t id) part
  snippet : ∀ part ∈ parts, ∀ t id, t <:+: part → IsToken snippetOpener t id →
    (Broken t ∨ ∃ key ∈ keys snippets, id ++ ['.'] <+: key) → Known snippets chips id
  field : ∀ part ∈ parts, ∀ t id, t <:+: part → IsToken fieldOpener t id →
    (Broken t ∨ chips.default ∉ chips.selectable) → id ∈ keys chips.defaultData
  nameSnippet : ∀ name ∈ names, ∀ id, Names snippetOpener name id → Known snippets chips id
  nameField : ∀ name ∈ names, ∀ field, Names fieldOpener name field → field ∈ keys chips.defaultData
  brought : ∀ t ∈ parts ++ names, ∀ id, Names snippetOpener t id → ∀ new ∈ brought snippets chips id,
    ∀ field, Names fieldOpener new field → field ∈ keys chips.defaultData

/-- The blocks are closed, and what they leave fits. -/
def Renderable (snippets : List (Text × Text)) (chips : Chips) (page : Text) : Prop :=
  ∃ parts names, Blocks chips page parts names ∧ Fits snippets chips parts names

/-- The page is rendered, and no token is left of it. -/
def Rendered (payload apiBase : Text) (snippets : List (Text × Text)) (chips : Chips)
    (page : Text) : Prop :=
  ∃ content, render payload apiBase snippets chips (written page) = .ok content ∧
    ∀ w ∈ openers, ¬ written w <:+: content

end HisiRiscv.Docs.Tutorial
