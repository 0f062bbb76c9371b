import Formulary.Settings.Scalar

/-!
# YAML

The part of the notation that settings need: block mappings and lists by indentation, flow mappings
and lists in brackets, plain and quoted scalars, comments, and the marks of a document's beginning
and end.  A file holds one document.

The flow readers take the characters ahead and return what they read with the characters that are
left; the block readers do the same with lines.  They return nothing if the text is not in the
notation.
-/

set_option autoImplicit false

namespace Formulary.Yaml

/-- Whether a blank, or the end, is ahead. -/
def blankAhead : List Char → Bool
  | [] => true
  | c :: _ => c = ' ' || c = '\t' || c = '\n'

/-- The characters that separate the parts of a flow collection. -/
def isFlowMark (c : Char) : Bool :=
  c = ',' || c = '[' || c = ']' || c = '\x7b' || c = '\x7d'

/-- Whether a colon ends a key, given what follows it. -/
def endsKey (flow : Bool) : List Char → Bool
  | c :: rest => blankAhead (c :: rest) || (flow && isFlowMark c)
  | [] => true

/-- Whether a plain scalar can start with what is ahead. -/
def startsPlain (flow : Bool) : List Char → Bool
  | [] => false
  | c :: rest =>
    if c = '-' then !blankAhead rest
    else if c = '?' || c = ':' then !flow && !blankAhead rest
    else !(blankAhead [c] || isFlowMark c || "#&*!|>'\"%@`".toList.contains c)

/-- Takes the characters of a plain scalar; `blank` says whether a space is in front. -/
def plainFrom (flow blank : Bool) : List Char → List Char × List Char
  | [] => ([], [])
  | c :: rest =>
    if c = '\n' || c = '\t' || (c = '#' && blank) || (c = ':' && endsKey flow rest)
        || (flow && (isFlowMark c || c = '?')) then
      ([], c :: rest)
    else
      let (taken, left) := plainFrom flow (c = ' ') rest
      (c :: taken, left)

/-- Drops the spaces at the end. -/
def trimEnd (cs : List Char) : List Char :=
  (cs.reverse.dropWhile (· = ' ')).reverse

/-- Reads a plain scalar. -/
def plain (flow blank : Bool) (cs : List Char) : List Char × List Char :=
  let (taken, left) := plainFrom flow blank cs
  (trimEnd taken, left)

/-- Reads a single-quoted text up to its closing quote; a quote inside is written twice. -/
def singleQuoted : List Char → Option (List Char × List Char)
  | [] => none
  | '\'' :: '\'' :: rest => do
    let (taken, left) ← singleQuoted rest
    some ('\'' :: taken, left)
  | '\'' :: rest => some ([], rest)
  | c :: rest => do
    let (taken, left) ← singleQuoted rest
    some ((if c = '\n' then ' ' else c) :: taken, left)

/-- What an escaped character of a double-quoted text stands for. -/
def escaped? (c : Char) : Option Char :=
  match c with
  | '0' => some '\x00'
  | 'a' => some '\x07'
  | 'v' => some '\x0b'
  | 'e' => some '\x1b'
  | ' ' => some ' '
  | '\t' => some '\t'
  | 'N' => some '\u0085'
  | '_' => some '\u00a0'
  | 'L' => some '\u2028'
  | 'P' => some '\u2029'
  | c => Json.escaped? c

/-- Reads a double-quoted text up to its closing quote. -/
def doubleQuoted : List Char → Option (List Char × List Char)
  | [] => none
  | '"' :: rest => some ([], rest)
  | '\\' :: 'x' :: a :: b :: rest => do
    let unit ← Json.hexValue? [a, b]
    let (taken, left) ← doubleQuoted rest
    some (Json.character unit :: taken, left)
  | '\\' :: 'u' :: a :: b :: c :: d :: rest => do
    let unit ← Json.hexValue? [a, b, c, d]
    let (taken, left) ← doubleQuoted rest
    some (Json.character unit :: taken, left)
  | '\\' :: c :: rest => do
    let e ← escaped? c
    let (taken, left) ← doubleQuoted rest
    some (e :: taken, left)
  | c :: rest => do
    let (taken, left) ← doubleQuoted rest
    some ((if c = '\n' then ' ' else c) :: taken, left)

/-- Reads a quoted text of either kind. -/
def quoted : List Char → Option (Document × List Char)
  | '\'' :: rest => (singleQuoted rest).map fun (cs, left) => (.text (String.ofList cs), left)
  | '"' :: rest => (doubleQuoted rest).map fun (cs, left) => (.text (String.ofList cs), left)
  | _ => none

/-- Drops spaces, line ends and comments. -/
def skipFrom (comment : Bool) : List Char → List Char
  | [] => []
  | c :: rest =>
    if comment then skipFrom (c ≠ '\n') rest
    else if c = ' ' || c = '\n' then skipFrom false rest
    else if c = '#' then skipFrom true rest
    else c :: rest

/-- Drops spaces, line ends and comments ahead. -/
def skip (cs : List Char) : List Char :=
  skipFrom false cs

mutual

/-- Reads a scalar or a flow collection; it holds no more than `size` characters. -/
def flow : Nat → List Char → Option (Document × List Char)
  | 0, _ => none
  | size + 1, cs =>
    match cs with
    | '[' :: rest => (flowItems size (skip rest)).map fun (ds, left) => (.list ds, left)
    | '\x7b' :: rest => (flowEntries size (skip rest)).map fun (es, left) => (.mapping es, left)
    | '\'' :: _ | '"' :: _ => quoted cs
    | _ =>
      if startsPlain true cs then
        let (taken, left) := plain true false cs
        some (Scalar.resolve taken, left)
      else none

/-- Reads what follows the key of an entry: a colon and a value, or nothing. -/
def flowValue : Nat → List Char → Option (Document × List Char)
  | 0, _ => none
  | size + 1, cs =>
    match cs with
    | ':' :: rest =>
      match skip rest with
      | ',' :: left => some (.null, ',' :: left)
      | ']' :: left => some (.null, ']' :: left)
      | '\x7d' :: left => some (.null, '\x7d' :: left)
      | ahead => flow size ahead
    | _ => some (.null, cs)

/-- Reads the items of a flow list and its closing bracket; an item may be a single entry. -/
def flowItems : Nat → List Char → Option (List Document × List Char)
  | 0, _ => none
  | size + 1, cs =>
    match cs with
    | ']' :: rest => some ([], rest)
    | _ => do
      let (d, rest) ← flow size cs
      let (item, rest) ← match skip rest with
        | ':' :: after => do
          let (v, rest) ← flowValue size (':' :: after)
          if d.isScalar then some (.mapping [(d, v)], rest) else none
        | after => some (d, after)
      match skip rest with
      | ',' :: rest => do
        let (ds, left) ← flowItems size (skip rest)
        some (item :: ds, left)
      | ']' :: rest => some ([item], rest)
      | _ => none

/-- Reads the entries of a flow mapping and its closing brace. -/
def flowEntries : Nat → List Char → Option (List (Document × Document) × List Char)
  | 0, _ => none
  | size + 1, cs =>
    match cs with
    | '\x7d' :: rest => some ([], rest)
    | _ => do
      let (key, rest) ← match cs with
        | ':' :: _ => some (.null, cs)
        | _ => flow size cs
      let (v, rest) ← flowValue size (skip rest)
      if !key.isScalar then none
      else match skip rest with
        | ',' :: rest => do
          let (es, left) ← flowEntries size (skip rest)
          some ((key, v) :: es, left)
        | '\x7d' :: rest => some ([(key, v)], rest)
        | _ => none

end

/-- A line that says something: how far it is indented, and its text from there on. -/
structure Line where
  indent : Nat
  text : List Char

/-- The line of some characters; one without content or with a comment only is none. -/
def line? (cs : List Char) : Option Line :=
  let text := cs.dropWhile (· = ' ')
  match text with
  | [] => none
  | '#' :: _ => none
  | _ => some ⟨cs.length - text.length, text⟩

/-- The lines of some characters. -/
def lines (cs : List Char) : List Line :=
  (cs.splitOn '\n').filterMap line?

/-- The characters of some lines. -/
def unlines (ls : List Line) : List Char :=
  ls.flatMap fun l => '\n' :: (List.replicate l.indent ' ' ++ l.text)

/-- Whether nothing but a comment is ahead on a line. -/
def endsLine (cs : List Char) : Bool :=
  match cs.dropWhile (· = ' ') with
  | [] => true
  | c :: _ => c = '#'

/-- Whether a line is an item of a block list. -/
def isItem : List Char → Bool
  | '-' :: rest => blankAhead rest
  | _ => false

/-- The key at the start of a line, and what follows its colon. -/
def key? (cs : List Char) : Option (Document × List Char) :=
  let (key, rest) : Option Document × List Char := match cs with
    | '\'' :: _ | '"' :: _ =>
      match quoted cs with
      | some (d, rest) => (some d, rest.dropWhile (· = ' '))
      | none => (none, cs)
    | ':' :: rest => if blankAhead rest then (some .null, cs) else
      let (taken, left) := plain false false cs
      (some (Scalar.resolve taken), left)
    | _ =>
      if startsPlain false cs then
        let (taken, left) := plain false false cs
        (some (Scalar.resolve taken), left)
      else (none, cs)
  match key, rest with
  | some d, ':' :: after => if blankAhead after then some (d, after) else none
  | _, _ => none

/-- Takes the further lines of a plain scalar: those that are indented deeper than `parent`. -/
def continuation (parent : Int) : List Line → Option (List (List Char) × List Line)
  | [] => some ([], [])
  | l :: ls =>
    if parent < l.indent then
      let (taken, left) := plain false true l.text
      if left.isEmpty then do
        let (more, rest) ← continuation parent ls
        some (taken :: more, rest)
      else if endsLine left then some ([taken], ls)
      else none
    else some ([], l :: ls)

/-- Reads a value that starts on the current line. -/
def inline (parent : Int) (text : List Char) (ls : List Line) : Option (Document × List Line) :=
  match text with
  | '\'' :: _ | '"' :: _ | '[' :: _ | '\x7b' :: _ => do
    let cs := text ++ unlines ls
    let (d, left) ← flow (4 * cs.length + 4) cs
    let (here, below) := left.span (· ≠ '\n')
    if endsLine here then some (d, lines below) else none
  | _ =>
    if startsPlain false text then do
      let (taken, left) := plain false false text
      if left.isEmpty then do
        let (more, rest) ← continuation parent ls
        let joined := (taken :: more).foldr
          (fun part all => if all.isEmpty then part else part ++ ' ' :: all) []
        some (Scalar.resolve joined, rest)
      else if endsLine left then some (Scalar.resolve taken, ls)
      else none
    else none

mutual

/-- Reads what starts on the first line, as part of something indented by `parent`. -/
def block : Nat → Int → List Line → Option (Document × List Line)
  | 0, _, _ => none
  | _ + 1, _, [] => some (.null, [])
  | size + 1, parent, l :: ls =>
    if isItem l.text then
      (blockItems size l.indent (l :: ls)).map fun (ds, rest) => (.list ds, rest)
    else if (key? l.text).isSome then
      (blockEntries size l.indent (l :: ls)).map fun (es, rest) => (.mapping es, rest)
    else inline parent l.text ls

/-- Reads the items of a block list that is indented by `indent`. -/
def blockItems : Nat → Nat → List Line → Option (List Document × List Line)
  | 0, _, _ => none
  | _ + 1, _, [] => some ([], [])
  | size + 1, indent, l :: ls =>
    if l.indent < indent then some ([], l :: ls)
    else if l.indent = indent then
      match l.text with
      | '-' :: after =>
        if !blankAhead after then none
        else do
          let text := after.dropWhile (· = ' ')
          let (d, rest) ←
            if endsLine after then nested size indent false ls
            else block size indent (⟨indent + 1 + (after.length - text.length), text⟩ :: ls)
          let (ds, rest) ← blockItems size indent rest
          some (d :: ds, rest)
      | _ => some ([], l :: ls)
    else none

/-- Reads the entries of a block mapping that is indented by `indent`. -/
def blockEntries : Nat → Nat → List Line → Option (List (Document × Document) × List Line)
  | 0, _, _ => none
  | _ + 1, _, [] => some ([], [])
  | size + 1, indent, l :: ls =>
    if l.indent < indent then some ([], l :: ls)
    else if l.indent = indent then do
      let (key, after) ← key? l.text
      let (d, rest) ←
        if endsLine after then nested size indent true ls
        else inline indent (after.dropWhile (· = ' ')) ls
      let (es, rest) ← blockEntries size indent rest
      some ((key, d) :: es, rest)
    else none

/-- Reads what stands below a key or an item: something indented deeper, or below a key a list
indented as the key is, or nothing. -/
def nested : Nat → Nat → Bool → List Line → Option (Document × List Line)
  | 0, _, _, _ => none
  | _ + 1, _, _, [] => some (.null, [])
  | size + 1, indent, belowKey, l :: ls =>
    if indent < l.indent then block size indent (l :: ls)
    else if belowKey ∧ l.indent = indent ∧ isItem l.text then
      (blockItems size indent (l :: ls)).map fun (ds, rest) => (.list ds, rest)
    else some (.null, l :: ls)

end

/-- Whether a line starts with a mark of three characters. -/
def isMark (mark : List Char) (l : Line) : Bool :=
  l.indent = 0 && mark.isPrefixOf l.text && blankAhead (l.text.drop mark.length)

/-- Whether a character may stand in a file. -/
def isPrintable (c : Char) : Bool :=
  c = '\t' || c = '\n' || c = '\r' || decide (0x20 ≤ c.toNat ∧ c.toNat ≤ 0x7E) || c = '\u0085'
    || decide (0xA0 ≤ c.toNat ∧ c.toNat ≤ 0xFFFD) || decide (0x10000 ≤ c.toNat)

/-- The document of some lines: a mark may open it, and another may close it. -/
def ofLines (size : Nat) (ls : List Line) : Option Document :=
  let (marked, first, body) : Bool × List Char × List Line := match ls with
    | l :: rest =>
      if isMark ['-', '-', '-'] l then (true, l.text.drop 3, rest) else (false, [], ls)
    | [] => (false, [], [])
  let (body, after) := body.span fun l => !isMark ['-', '-', '-'] l && !isMark ['.', '.', '.'] l
  let closed := match after with
    | [] => true
    | l :: rest => isMark ['.', '.', '.'] l && endsLine (l.text.drop 3) && rest.isEmpty
  if !closed then none
  else
    let result := if marked && !endsLine first then inline (-1) (first.dropWhile (· = ' ')) body
      else block size (-1) body
    match result with
    | some (d, []) => some d
    | _ => none

/-- The document of a text. -/
def read? (text : String) : Option Document :=
  let cs := match text.toList with
    | '\ufeff' :: rest => rest
    | cs => cs
  if cs.all isPrintable then ofLines (4 * cs.length + 4) (lines cs) else none

end Formulary.Yaml
