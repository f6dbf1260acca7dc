import ImportGuard.Text.Blank
import ImportGuard.Text.Pieces

/-!
# Files of variables

A file of variables has lines `NAME=value`.  A value may stand in quotes, and then reach over lines
and hold escapes; without quotes it goes up to a comment or the end of the line.  Lines of other forms
are left out.  A name without `=` has no value.
-/

namespace ImportGuard.DotEnv

def isBreak (c : Char) : Bool :=
  c = '\n' || c = '\r'

def isInner (c : Char) : Bool :=
  isBlank c && !isBreak c

def doubleEscapes : List (Char × Char) :=
  [('\\', '\\'), ('\x27', '\x27'), ('"', '"'), ('a', '\x07'), ('b', '\x08'), ('f', '\x0C'),
   ('n', '\n'), ('r', '\r'), ('t', '\t'), ('v', '\x0B')]

def singleEscapes : List (Char × Char) :=
  [('\\', '\\'), ('\x27', '\x27')]

def unescape (escapes : List (Char × Char)) : List Char → List Char
  | [] => []
  | [c] => [c]
  | c :: d :: rest =>
    if c = '\\' then
      match escapes.lookup d with
      | some value => value :: unescape escapes rest
      | none => c :: unescape escapes (d :: rest)
    else c :: unescape escapes (d :: rest)

/-- Cuts at the closing quote.  A quote behind a backslash closes only if no other one does. -/
def untilQuote (quote : Char) : List Char → Option (List Char × List Char)
  | [] => none
  | [c] => if c = quote then some ([], []) else none
  | c :: d :: rest =>
    if c = quote then some ([], d :: rest)
    else if c = '\\' ∧ d = quote then
      match untilQuote quote rest with
      | some (found, behind) => some (c :: d :: found, behind)
      | none => some ([c], rest)
    else (untilQuote quote (d :: rest)).map fun (found, behind) => (c :: found, behind)

/-- The part of a line before a comment, which needs white space before its hash. -/
def beforeComment : List Char → List Char
  | [] => []
  | c :: rest =>
    if isBlank c ∧ (rest.dropWhile isBlank).head? = some '#' then []
    else c :: beforeComment rest

def spanLine (text : List Char) : List Char × List Char :=
  text.span fun c => !isBreak c

def value? (text : List Char) : Option (List Char × List Char) :=
  match text with
  | '\x27' :: rest =>
    (untilQuote '\x27' rest).map fun (found, behind) => (unescape singleEscapes found, behind)
  | '"' :: rest =>
    (untilQuote '"' rest).map fun (found, behind) => (unescape doubleEscapes found, behind)
  | text =>
    let (line, behind) := spanLine text
    some (Pieces.dropEndWhile isBlank (beforeComment line), behind)

def name? (text : List Char) : Option (List Char × List Char) :=
  match text with
  | '\x27' :: rest =>
    match rest.span (· ≠ '\x27') with
    | (name, _ :: behind) => if name = [] then none else some (name, behind)
    | (_, []) => none
  | text =>
    let (name, behind) := text.span fun c => !(c = '=' || c = '#' || isBlank c)
    if name = [] then none else some (name, behind)

def dropExport (text : List Char) : List Char :=
  let word := "export".toList
  let behind := text.drop word.length
  if word.isPrefixOf text ∧ behind.head?.any isInner then behind.dropWhile isInner else text

/-- Whether only white space or a comment stands on the rest of a line. -/
def endsLine (text : List Char) : Bool :=
  match (spanLine text).1.dropWhile isInner with
  | [] => true
  | c :: _ => c = '#'

/-- Reads one binding, and what is behind it whether it could be read or not. -/
def binding (text : List Char) : Option (String × Option String) × List Char :=
  let failed := (none, (spanLine text).2)
  match name? (dropExport text) with
  | none => failed
  | some (name, rest) =>
    match rest.dropWhile isInner with
    | '=' :: rest =>
      match value? (rest.dropWhile isInner) with
      | none => failed
      | some (value, rest) =>
        if endsLine rest then
          (some (String.ofList name, some (String.ofList value)), (spanLine rest).2)
        else failed
    | rest =>
      if endsLine rest then (some (String.ofList name, none), (spanLine rest).2) else failed

/-- The bindings of a text, at most `count` of them. -/
def bindings : (count : Nat) → List Char → List (String × Option String)
  | 0, _ => []
  | count + 1, text =>
    match text.dropWhile isBlank with
    | [] => []
    | text =>
      let (found, rest) := binding text
      found.toList ++ bindings count rest

/-- **The variables of a text**, in its order. -/
def parse (text : String) : List (String × Option String) :=
  bindings (text.length + 1) text.toList

end ImportGuard.DotEnv
