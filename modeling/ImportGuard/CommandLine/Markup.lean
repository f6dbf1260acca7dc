import ImportGuard.Text.Blank
import ImportGuard.Text.Pieces

/-!
# Markup in messages

A message on the terminal is marked up: `[style]` opens a style, `[/style]` closes the one opened last
under that name, and `[/]` the last one.  A tag starts with a small letter, a hash, a slash or an at
sign, so `[Errno 2]` is none; a backslash before a tag makes it text.  Of tags nothing is seen, and a
closing tag without its opening one is a fault.
-/

namespace ImportGuard.Markup

def startsTag (c : Char) : Bool :=
  ('a' ≤ c && c ≤ 'z') || c = '#' || c = '/' || c = '@'

/-- The inside of a tag whose bracket has been read, and what is behind it. -/
def tag? (text : List Char) : Option (List Char × List Char) :=
  match text with
  | [] => none
  | c :: rest =>
    if startsTag c then
      match rest.span fun d => d ≠ ']' ∧ d ≠ '[' with
      | (inside, ']' :: behind) => some (c :: inside, behind)
      | _ => none
    else none

def nameOf (inside : List Char) : List Char :=
  (Pieces.cutFirst '=' inside).1

/-- The name of a style, without outer white space and in small letters. -/
def styleOf (name : List Char) : List Char :=
  (Pieces.dropEndWhile isBlank (name.dropWhile isBlank)).map Char.toLower

/-- The open styles after a closing tag, the innermost first. -/
def close (styles : List (List Char)) (style : List Char) : Option (List (List Char)) :=
  if style = [] then
    match styles with
    | [] => none
    | _ :: outer => some outer
  else if styles.contains style then some (styles.erase style)
  else none

/-- What is seen of a text with some styles open, in at most `count` steps. -/
def seen (styles : List (List Char)) : (count : Nat) → List Char → Option (List Char)
  | 0, _ => some []
  | count + 1, text =>
    match text with
    | [] => some []
    | c :: rest =>
      let slashes := (text.takeWhile (· = '\\')).length
      match text.drop slashes with
      | '[' :: inner =>
        match tag? inner with
        | none =>
          -- A backslash before a bracket that opens no tag still hides itself.
          let kept := List.replicate (slashes - 1) '\\'
          (seen styles count inner).map fun found => kept ++ '[' :: found
        | some (inside, behind) =>
          let kept := List.replicate (slashes / 2) '\\'
          if slashes % 2 = 1 then
            (seen styles count behind).map fun found => kept ++ '[' :: inside ++ ']' :: found
          else
            let next :=
              match nameOf inside with
              | '/' :: name => close styles (styleOf name)
              | name => some (styleOf name :: styles)
            match next with
            | none => none
            | some styles => (seen styles count behind).map fun found => kept ++ found
      | _ => (seen styles count rest).map fun found => c :: found

/-- A character that a terminal would act on. -/
def isControl (c : Char) : Bool :=
  c = '\x07' || c = '\x08' || c = '\x0B' || c = '\x0C' || c = '\r'

/-- A text with its tabs filled up to multiples of eight columns, from a column on. -/
def expandTabs (column : Nat) : List Char → List Char
  | [] => []
  | c :: rest =>
    if c = '\t' then
      let width := 8 - column % 8
      List.replicate width ' ' ++ expandTabs (column + width) rest
    else if c = '\n' then c :: expandTabs 0 rest
    else c :: expandTabs (column + 1) rest

/-- **What is seen of a text with markup**, or `none` if its tags do not match. -/
def render (text : String) : Option String :=
  let chars := text.toList
  (seen [] (chars.length + 1) chars).map fun found =>
    String.ofList (expandTabs 0 (found.filter (!isControl ·)))

end ImportGuard.Markup
