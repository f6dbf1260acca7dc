import ImportGuard.Settings.Basic
import ImportGuard.Settings.Yaml.Reader

/-!
# Writing YAML

A text is written plain where that reads back as the same text.  Otherwise it stands between single
quotes, and between double quotes if it holds a character that needs an escape.  A long text is
broken at single spaces once its line is full.
-/

namespace ImportGuard.Yaml

/-- The column behind which a line is full. -/
def fullWidth : Nat := 80

/-- How far the further lines of a text are indented. -/
def hanging : Nat := 2

/-- Characters that make a text not plain if it starts with one. -/
def indicators : List Char :=
  ['#', ',', '[', ']', '{', '}', '&', '*', '!', '|', '>', '\x27', '"', '%', '@', '\x60']

/-- Whether a mark inside a text would be taken for a token: a colon before a gap, or a hash behind
one.  `behindGap` tells whether a gap stands before the text. -/
def hasToken (behindGap : Bool) : List Char → Bool
  | [] => false
  | c :: rest =>
    (c = ':' && atGap rest) || (c = '#' && behindGap) ||
      hasToken (c = ' ' || c = '\t' || isBreak c) rest

def startsToken (text : List Char) : Bool :=
  "---".toList.isPrefixOf text || "...".toList.isPrefixOf text ||
    match text with
    | [] => false
    | c :: rest => indicators.contains c || (c ∈ ['-', '?', ':'] && atGap rest)

def needsEscape (c : Char) : Bool :=
  let n := c.toNat
  !(c = '\n' || (0x20 ≤ n && n ≤ 0x7E) || n = 0x85 || (0xA0 ≤ n && n ≤ 0xFFFD && n ≠ 0xFEFF) ||
    (0x10000 ≤ n && n < 0x10FFFF))

def hasLooseSpace : List Char → Bool
  | a :: b :: rest => (a = ' ' && isBreak b) || (isBreak a && b = ' ') || hasLooseSpace (b :: rest)
  | _ => false

def hasOuterSpace (text : List Char) : Bool :=
  let outer (c : Char) : Bool := c = ' ' || isBreak c
  text.head?.any outer || text.getLast?.any outer

def isPlain (text : List Char) : Bool :=
  readsAsText (String.ofList text) && !startsToken text && !hasToken true text &&
    !hasOuterSpace text && !text.any isBreak && !text.any needsEscape

/-- Runs of spaces, of line breaks and of other characters. -/
def runs (text : List Char) : List (List Char) :=
  let sort (c : Char) : Nat := if c = ' ' then 0 else if isBreak c then 1 else 2
  text.splitBy fun a b => sort a = sort b

/-- Writes runs from a column on; a single space becomes a line break where the line is full, unless
it stands at an edge of the text. -/
def fold (quoted : Bool) (column : Nat) (first : Bool) : List (List Char) → List Char
  | [] => []
  | run :: rest =>
    let indent := List.replicate hanging ' '
    if run = [' '] ∧ fullWidth < column ∧ ¬ (quoted ∧ (first ∨ rest = [])) then
      '\n' :: indent ++ fold quoted hanging false rest
    else if run.any isBreak then
      (if run.head? = some '\n' then ['\n'] else []) ++ run ++ indent ++
        fold quoted hanging false rest
    else
      let written := run.flatMap fun c => if quoted && c = '\x27' then ['\x27', '\x27'] else [c]
      written ++ fold quoted (column + written.length) false rest

def escaped (c : Char) : List Char :=
  if c = '"' || c = '\\' then ['\\', c]
  else if !isBreak c && !needsEscape c then [c]
  else
    match escapes.find? fun (letter, value) => value = c && letter != '\t' with
    | some (letter, _) => ['\\', letter]
    | none =>
      let n := c.toNat
      if n ≤ 0xFF then '\\' :: 'x' :: (Quoted.hex 2 n).map Char.toUpper
      else if n ≤ 0xFFFF then '\\' :: 'u' :: (Quoted.hex 4 n).map Char.toUpper
      else '\\' :: 'U' :: (Quoted.hex 8 n).map Char.toUpper

/-- **A text as a scalar** that starts at a column. -/
def writeText (column : Nat) (text : String) : String :=
  let chars := text.toList
  if isPlain chars then String.ofList (fold false column true (runs chars))
  else if chars.any needsEscape || hasLooseSpace chars then
    String.ofList (['"'] ++ chars.flatMap escaped ++ ['"'])
  else String.ofList (['\x27'] ++ fold true (column + 1) true (runs chars) ++ ['\x27'])

def textLine (key text : String) : String :=
  key ++ ": " ++ writeText (key.length + 2) text ++ "\n"

def listLines (key : String) (items : List String) : String :=
  if items.isEmpty then key ++ ": []\n"
  else
    key ++ ":\n" ++ String.join (items.map fun item => "- " ++ writeText 2 item ++ "\n")

end ImportGuard.Yaml

namespace ImportGuard.Settings

/-- The settings as a configuration file, fields in the order of their names. -/
def toYaml (settings : Settings) : String :=
  Yaml.listLines Field.excludeDirs.name settings.excludeDirs ++
    Field.ignoreTests.name ++ ": " ++ (if settings.ignoreTests then "true" else "false") ++ "\n" ++
    (match settings.logFile with
    | none => Field.logFile.name ++ ": null\n"
    | some path => Yaml.textLine Field.logFile.name path.render) ++
    Yaml.textLine Field.logLevel.name settings.logLevel.name ++
    Yaml.textLine Field.paths.name settings.paths

end ImportGuard.Settings
