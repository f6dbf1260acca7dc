import ImportGuard.Settings.Yaml.Scalar

/-!
# Reading YAML

The reader takes the part of YAML that configuration files use: one document of scalars, plain or in
quotes, with lists and mappings in block and in flow style, and comments.  Anything else makes the
document malformed, and so do a tab between tokens, a second document, and whatever breaks the rules
of indentation.

A node in block style belongs to a parent with an indentation and must stand to the right of it; only
a list may stand right below the key it belongs to.  A key and its colon must be on one line, and a
key can only stand where a line or an entry of a list starts.
-/

namespace ImportGuard.Yaml

/-- The text to come and where it stands. -/
structure Scan where
  rest : List Char
  line : Nat := 0
  column : Nat := 0
deriving Inhabited

/-- Reads a part of a document, or finds it malformed. -/
abbrev Reader := StateT Scan Option

/-! ### Characters -/

def isBreak (c : Char) : Bool :=
  c = '\n' || c = '\x85' || c = '\u2028' || c = '\u2029'

/-- Whether a text ends here or goes on with white space. -/
def atGap : List Char → Bool
  | [] => true
  | c :: _ => c = ' ' || c = '\t' || isBreak c

def isAllowed (c : Char) : Bool :=
  let n := c.toNat
  c = '\t' || c = '\n' || (0x20 ≤ n && n ≤ 0x7E) || n = 0x85 || (0xA0 ≤ n && n ≤ 0xFFFD) ||
    0x10000 ≤ n

def Scan.step (scan : Scan) : Scan :=
  match scan.rest with
  | [] => scan
  | c :: rest =>
    if isBreak c then ⟨rest, scan.line + 1, 0⟩ else ⟨rest, scan.line, scan.column + 1⟩

def Scan.steps (scan : Scan) : Nat → Scan
  | 0 => scan
  | count + 1 => scan.step.steps count

/-- Moves over spaces, line breaks and comments; `inComment` tells whether a comment is open. -/
def skipFrom (inComment : Bool) (line column : Nat) : List Char → Scan
  | [] => ⟨[], line, column⟩
  | c :: rest =>
    if isBreak c then skipFrom false (line + 1) 0 rest
    else if inComment then skipFrom true line (column + 1) rest
    else if c = ' ' then skipFrom false line (column + 1) rest
    else if c = '#' then skipFrom true line (column + 1) rest
    else ⟨c :: rest, line, column⟩

def skip : Reader Unit :=
  modify fun scan => skipFrom false scan.line scan.column scan.rest

def take (c : Char) : Reader Unit := do
  let scan ← get
  if scan.rest.head? = some c then set scan.step else failure

def comes (c : Char) : Reader Bool := do
  return (← get).rest.head? = some c

/-- Whether a line starts with three hyphens or three points and a gap. -/
def isMarker (mark : String) (scan : Scan) : Bool :=
  scan.column = 0 && mark.toList.isPrefixOf scan.rest && atGap (scan.rest.drop 3)

def atEnd (scan : Scan) : Bool :=
  scan.rest.isEmpty || isMarker "---" scan || isMarker "..." scan

/-! ### Scalars -/

/-- A scalar, with or without quotes, and the line it starts on. -/
structure Scalar where
  text : String
  plain : Bool
  line : Nat

/-- The value of a scalar.  Two plain scalars stand for no value. -/
def Scalar.value? (scalar : Scalar) : Option Value :=
  if scalar.plain then
    if scalar.text = "=" then none else some (plainValue scalar.text)
  else some (.text scalar.text)

/-- The line breaks of a gap of several lines: one break is a space, and more keep all but one. -/
def folded (breaks : List Char) : List Char :=
  match breaks with
  | [] => []
  | [c] => if c = '\n' then [' '] else [c]
  | c :: rest => if c = '\n' then rest else c :: rest

/-- The number of characters that belong to a plain scalar on its line. -/
def plainWidth (flow : Bool) : List Char → Nat
  | [] => 0
  | c :: rest =>
    let gap := atGap rest || (flow && (rest.head?.any fun d => d ∈ [',', '[', ']', '{', '}']))
    if c = ' ' || c = '\t' || isBreak c || (c = ':' && gap) ||
        (flow && c ∈ [',', '?', '[', ']', '{', '}']) then 0
    else plainWidth flow rest + 1

/-- The gap behind a part of a plain scalar: what it stands for, and where it ends.  No gap is
found before the end of a document. -/
def plainGap (scan : Scan) : List Char × Scan :=
  let spaces := scan.rest.takeWhile (· = ' ')
  let behind := scan.steps spaces.length
  if behind.rest.head?.any isBreak then
    let width := (behind.rest.takeWhile fun c => c = ' ' || isBreak c).length
    let next := behind.steps width
    if isMarker "---" next || isMarker "..." next then ([], next)
    else (folded ((behind.rest.take width).filter isBreak), next)
  else (spaces, behind)

/-- The text of a plain scalar whose lines stand at or behind column `indent`, in at most `count`
parts. -/
def plainParts (flow : Bool) (indent : Nat) : (count : Nat) → Reader (List Char)
  | 0 => failure
  | count + 1 => do
    let scan ← get
    let width := plainWidth flow scan.rest
    if width = 0 then return []
    let (gap, next) := plainGap (scan.steps width)
    set next
    let ends := gap.isEmpty || next.rest.head? = some '#' || (!flow && next.column < indent)
    if ends || plainWidth flow next.rest = 0 then return scan.rest.take width
    else return scan.rest.take width ++ gap ++ (← plainParts flow indent count)

def plainScalar (flow : Bool) (indent : Nat) : Reader Scalar := do
  let scan ← get
  let text ← plainParts flow indent (scan.rest.length + 1)
  return ⟨String.ofList text, true, scan.line⟩

def startsPlain (flow : Bool) : List Char → Bool
  | [] => false
  | c :: rest =>
    if c ∈ ['-', '?', ':'] then !atGap rest && (c = '-' || !flow)
    else !(c = ' ' || c = '\t' || isBreak c || c ∈ [',', '[', ']', '{', '}', '#', '&', '*', '!',
      '|', '>', '\x27', '"', '%', '@', '\x60'])

/-- White space inside quotes that reaches over a line break: what it stands for. -/
def quotedGap (gap : List Char) : List Char :=
  match gap.filter isBreak with
  | [] => gap
  | breaks => folded breaks

def spanGap (text : List Char) : List Char × List Char :=
  text.span fun c => c = ' ' || c = '\t' || isBreak c

/-- The text between single quotes, where a quote is written twice: what it stands for, the number
of characters up to and with the closing quote. -/
def singleQuoted : (count : Nat) → List Char → Option (List Char × Nat)
  | 0, _ => none
  | count + 1, text =>
    match text with
    | [] => none
    | '\x27' :: '\x27' :: rest =>
      (singleQuoted count rest).map fun (found, n) => ('\x27' :: found, n + 2)
    | '\x27' :: _ => some ([], 1)
    | c :: rest =>
      let (gap, behind) := spanGap text
      if gap.isEmpty then (singleQuoted count rest).map fun (found, n) => (c :: found, n + 1)
      else
        (singleQuoted count behind).map fun (found, n) => (quotedGap gap ++ found, n + gap.length)

def escapes : List (Char × Char) :=
  [('0', '\x00'), ('a', '\x07'), ('b', '\x08'), ('t', '\t'), ('\t', '\t'), ('n', '\n'),
   ('v', '\x0B'), ('f', '\x0C'), ('r', '\r'), ('e', '\x1B'), (' ', ' '), ('"', '"'), ('\\', '\\'),
   ('/', '/'), ('N', '\x85'), ('_', '\xA0'), ('L', '\u2028'), ('P', '\u2029')]

/-- The number of digits behind an escape that writes a code. -/
def codeWidth? (c : Char) : Option Nat :=
  if c = 'x' then some 2 else if c = 'u' then some 4 else if c = 'U' then some 8 else none

/-- Reads what stands behind a backslash: the text that it stands for, and its width. -/
def escape? (text : List Char) : Option (List Char × Nat) :=
  match text with
  | [] => none
  | c :: rest =>
    match escapes.lookup c with
    | some value => some ([value], 1)
    | none =>
      match codeWidth? c with
      | some width =>
        ((Quoted.digits? 16 width rest).bind Quoted.scalar?).map fun value => ([value], width + 1)
      | none =>
        if isBreak c then
          let gap := (spanGap text).1
          some ((gap.filter isBreak).drop 1, gap.length)
        else none

/-- The text between double quotes: what it stands for, the number of characters up to and with the
closing quote. -/
def doubleQuoted : (count : Nat) → List Char → Option (List Char × Nat)
  | 0, _ => none
  | count + 1, text =>
    match text with
    | [] => none
    | '"' :: _ => some ([], 1)
    | '\\' :: rest =>
      match escape? rest with
      | none => none
      | some (value, width) =>
        (doubleQuoted count (rest.drop width)).map fun (found, n) =>
          (value ++ found, n + width + 1)
    | c :: rest =>
      let (gap, behind) := spanGap text
      if gap.isEmpty then (doubleQuoted count rest).map fun (found, n) => (c :: found, n + 1)
      else
        (doubleQuoted count behind).map fun (found, n) => (quotedGap gap ++ found, n + gap.length)

def quotedScalar : Reader Scalar := do
  let scan ← get
  let found := match scan.rest with
    | '\x27' :: rest => singleQuoted (rest.length + 1) rest
    | '"' :: rest => doubleQuoted (rest.length + 1) rest
    | _ => none
  match found with
  | none => failure
  | some (text, width) =>
    set (scan.steps (width + 1))
    return ⟨String.ofList text, false, scan.line⟩

def scalar? (flow : Bool) (indent : Nat) : Reader (Option Scalar) := do
  let rest := (← get).rest
  if rest.head? = some '\x27' || rest.head? = some '"' then some <$> quotedScalar
  else if startsPlain flow rest then some <$> plainScalar flow indent
  else return none

/-- Whether a colon behind a scalar makes it a key; white space before the colon is taken. -/
def comesColon (flow : Bool) (scalar : Scalar) : Reader Bool := do
  let scan ← get
  let behind := scan.steps (scan.rest.takeWhile (· = ' ')).length
  match behind.rest with
  | ':' :: rest =>
    if behind.line = scalar.line && (atGap rest || flow) then
      set behind
      return true
    else return false
  | _ => return false

/-! ### Nodes -/

/-- Sets a key of a mapping, the last time it is given. -/
def putEntry (entries : List (Value × Value)) (key value : Value) : List (Value × Value) :=
  match key with
  | .text name =>
    (entries.filter fun entry =>
      match entry.1 with
      | .text other => other != name
      | _ => true) ++ [(key, value)]
  | _ => entries ++ [(key, value)]

/-- Readers of nodes of one depth. -/
structure Nodes where
  /-- A node in flow style. -/
  flow : Reader Value
  /-- A node in block style below a parent with an indentation, none at the top.  `keys` tells
  whether a key can stand here, and `level` whether a list may stand at the indentation. -/
  block : (indent : Option Nat) → (keys level : Bool) → Reader Value

def collect {α : Type} (item : α → Reader (α × Bool)) : (count : Nat) → α → Reader α
  | 0, _ => failure
  | count + 1, found => do
    let (found, more) ← item found
    if more then collect item count found else return found

def flowList (nodes : Nodes) : Reader Value := do
  take '['
  skip
  let item (found : List Value) : Reader (List Value × Bool) := do
    if ← comes ']' then
      take ']'
      return (found, false)
    let scan ← get
    let value ← match ← scalar? true 0 with
      | some scalar =>
        let key ← scalar.value?
        if ← comesColon true scalar then
          take ':'
          skip
          let empty := (← comes ',') || (← comes ']')
          let value ← if empty then pure .null else nodes.flow
          pure (Value.mapping [(key, value)])
        else pure key
      | none =>
        set scan
        nodes.flow
    skip
    if ← comes ',' then
      take ','
      skip
    else unless ← comes ']' do failure
    return (found ++ [value], true)
  return .list (← collect item ((← get).rest.length + 1) [])

def flowMapping (nodes : Nodes) : Reader Value := do
  take '{'
  skip
  let item (found : List (Value × Value)) : Reader (List (Value × Value) × Bool) := do
    if ← comes '}' then
      take '}'
      return (found, false)
    match ← scalar? true 0 with
    | none => failure
    | some scalar =>
      let key ← scalar.value?
      let value ←
        if ← comesColon true scalar then
          take ':'
          skip
          let empty := (← comes ',') || (← comes '}')
          if empty then pure .null else nodes.flow
        else pure .null
      skip
      if ← comes ',' then
        take ','
        skip
      else unless ← comes '}' do failure
      return (putEntry found key value, true)
  return .mapping (← collect item ((← get).rest.length + 1) [])

def flowNode (nodes : Nodes) : Reader Value := do
  if ← comes '[' then flowList nodes
  else if ← comes '{' then flowMapping nodes
  else
    match ← scalar? true 0 with
    | some scalar => scalar.value?
    | none => failure

def entryValue (nodes : Nodes) (indent : Nat) : Reader Value := do
  take ':'
  let before := (← get).line
  skip
  nodes.block (some indent) (decide (before < (← get).line)) true

/-- A mapping in block style at a column, whose first key has been read. -/
def blockMapping (nodes : Nodes) (column : Nat) (first : Scalar) : Reader Value := do
  let key ← first.value?
  let value ← entryValue nodes column
  let item (found : List (Value × Value)) : Reader (List (Value × Value) × Bool) := do
    skip
    let scan ← get
    if atEnd scan || scan.column < column then return (found, false)
    if column < scan.column then failure
    match ← scalar? false (column + 1) with
    | none => failure
    | some scalar =>
      unless ← comesColon false scalar do failure
      let key ← scalar.value?
      return (putEntry found key (← entryValue nodes column), true)
  return .mapping (← collect item ((← get).rest.length + 1) [(key, value)])

/-- A list in block style at a column.  `level` tells whether it stands right below a key. -/
def blockList (nodes : Nodes) (column : Nat) (level : Bool) : Reader Value := do
  let item (found : List Value) : Reader (List Value × Bool) := do
    skip
    let scan ← get
    let dash := scan.rest.head? = some '-' && atGap (scan.rest.drop 1)
    if atEnd scan || scan.column < column then return (found, false)
    if column < scan.column then failure
    if !dash then
      if level then return (found, false) else failure
    take '-'
    skip
    return (found ++ [← nodes.block (some column) true false], true)
  return .list (← collect item ((← get).rest.length + 1) [])

def blockNode (nodes : Nodes) (indent : Option Nat) (keys level : Bool) : Reader Value := do
  let scan ← get
  let inside := indent.all (· < scan.column)
  let dash := scan.rest.head? = some '-' && atGap (scan.rest.drop 1)
  if atEnd scan then return .null
  else if dash && (inside || (level && keys && indent = some scan.column)) then
    if keys then blockList nodes scan.column (!inside) else failure
  else if !inside then return .null
  else if scan.rest.head? = some '[' || scan.rest.head? = some '{' then nodes.flow
  else
    match ← scalar? false ((indent.map (· + 1)).getD 0) with
    | none => failure
    | some scalar =>
      if keys then
        if ← comesColon false scalar then return (← blockMapping nodes scan.column scalar)
      scalar.value?

/-- Readers of nodes that are nested at most `depth` deep. -/
def nodesUpTo : (depth : Nat) → Nodes
  | 0 => ⟨failure, fun _ _ _ => failure⟩
  | depth + 1 =>
    let nodes := nodesUpTo depth
    ⟨flowNode nodes, blockNode nodes⟩

/-- A document: its start if that is marked, one node, and its end. -/
def document (nodes : Nodes) : Reader Value := do
  skip
  let keys ←
    if isMarker "---" (← get) then
      let line := (← get).line
      modify (·.steps 3)
      skip
      pure (decide (line < (← get).line))
    else pure true
  let value ← nodes.block none keys false
  skip
  if isMarker "..." (← get) then
    modify (·.steps 3)
    skip
  if (← get).rest.isEmpty then return value else failure

/-- The lines of a file end in line feeds, whatever they ended in. -/
def unifyBreaks : List Char → List Char
  | [] => []
  | '\r' :: '\n' :: rest => '\n' :: unifyBreaks rest
  | '\r' :: rest => '\n' :: unifyBreaks rest
  | c :: rest => c :: unifyBreaks rest

/-- **The value of a YAML text**, or `none` if it is malformed. -/
def parse? (text : String) : Option Value :=
  let chars := unifyBreaks text.toList
  let chars := if chars.head? = some '\ufeff' then chars.drop 1 else chars
  if chars.all isAllowed then
    ((document (nodesUpTo (chars.length + 2))).run ⟨chars, 0, 0⟩).map (·.1)
  else none

end ImportGuard.Yaml
