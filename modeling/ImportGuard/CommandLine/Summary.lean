import ImportGuard.Check

/-!
# The summary

A table with the counts of a check, a line each.  Numbers have a comma before every third digit from
the right and stand at the right of their column, which is as wide as the longest of them.
-/

namespace ImportGuard.Summary

/-- Digits from the right, with a comma behind every third one. -/
def groupDigits : List Char → List Char
  | a :: b :: c :: d :: rest => a :: b :: c :: ',' :: groupDigits (d :: rest)
  | digits => digits

def commas (n : Nat) : String :=
  String.ofList (groupDigits (Nat.toDigits 10 n).reverse).reverse

def bar (c : Char) (width : Nat) : String :=
  String.ofList (List.replicate width c)

def nameWidth : Nat := 16

/-- A text in the middle of a field, the odd space to its right. -/
def centred (width : Nat) (text : String) : String :=
  let left := (width - text.length) / 2
  Pieces.padRight width (bar ' ' left ++ text)

def rows (packages files problems unreadable : Nat) : List (String × String) :=
  [("Packages", commas packages), ("Files", commas files), ("Problems", commas problems),
   ("Unreadable files", commas unreadable)]

def table (rows : List (String × String)) : List String :=
  let width := (rows.map (·.2.length)).foldl max 5
  let row (edge name value : String) : String :=
    edge ++ " " ++ Pieces.padRight nameWidth name ++ " " ++ edge ++ " " ++
      Pieces.padLeft width ' ' value ++ " " ++ edge
  let rule (left middle right : String) (c : Char) : String :=
    left ++ bar c (nameWidth + 2) ++ middle ++ bar c (width + 2) ++ right
  [centred (width + nameWidth + 7) toolName, rule "┏" "┳" "┓" '━', row "┃" "Metric" "Value",
   rule "┡" "╇" "┩" '━'] ++
    rows.map (fun (name, value) => row "│" name value) ++ [rule "└" "┴" "┘" '─']

def ofReport (report : CheckReport) : List String :=
  table (rows report.packagesChecked report.filesChecked report.findings.length
    report.unreadable.length)

end ImportGuard.Summary
