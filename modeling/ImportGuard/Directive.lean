import ImportGuard.Comment.Map
import ImportGuard.Finding

/-!
# Comment directives

A comment `//faillint:<option> <reason>` is a directive.  `ignore` suppresses findings in the node
that its comment belongs to, and `file-ignore` in the package's documentation suppresses the file.
Both need a reason.  A directive without one, and a `file-ignore` anywhere else, is a **fault**: it is
reported when an inquiry meets it, once for a file, and has no effect.

An inquiry therefore answers a question and may add findings.  It runs on the findings made so far,
which also tell what has been reported already.
-/

namespace ImportGuard

/-- What a directive comment says. -/
structure Directive where
  option : String
  reason : String
deriving DecidableEq, Repr, Inhabited

namespace Directive

/-- The option that suppresses findings in a node. -/
def ignore : String := "ignore"

/-- The option that suppresses all findings in a file. -/
def fileIgnore : String := "file-ignore"

def opening : String := "//" ++ toolName ++ ":"

/-- Reads a comment as a directive: the option goes up to the first space, and the rest is the
reason. -/
def parse? (text : String) : Option Directive :=
  if opening.toList.isPrefixOf text.toList then
    let (option, reason) := Pieces.cutFirst ' ' (text.toList.drop opening.length)
    some ⟨String.ofList option, String.ofList (reason.getD [])⟩
  else none

/-- Whether the option is one of the two. -/
def isRecognized (d : Directive) : Bool :=
  d.option = ignore || d.option = fileIgnore

/-- Whether the directive has an effect: its option is known and a reason is given. -/
def isWellFormed (d : Directive) : Bool :=
  d.isRecognized && d.reason != ""

end Directive

/-- A question that may add findings to those made so far. -/
abbrev Inquiry := StateM (List Finding)

structure Register where
  filename : String
  doc : Option CommentGroup
deriving Repr, Inhabited

namespace Register

def ofFile (file : SourceFile) : Register :=
  ⟨file.filename, file.doc⟩

/-- Reports a fault at a place, unless it has been reported there. -/
def reportOnce (register : Register) (place : Place) (fault : Cause) : Inquiry Unit :=
  modify fun findings =>
    if findings.any fun f => f.cause = fault && f.position.offset = place.offset then findings
    else findings ++ [⟨Position.ofPlace register.filename place, fault⟩]

/-- Whether a group documents the package. -/
def isDoc (register : Register) (group : CommentGroup) : Bool :=
  register.doc.any (·.number = group.number)

/-- Looks for a well-formed directive with an option among comments of a group, and reports the
faults that it meets.  `isDoc` tells whether the group documents the package. -/
def search (register : Register) (isDoc : Bool) (option : String) : List Comment → Inquiry Bool
  | [] => pure false
  | comment :: rest =>
    match Directive.parse? comment.text with
    | none => search register isDoc option rest
    | some directive => do
      if directive.isRecognized && directive.reason = "" then
        register.reportOnce comment.start .missingReason
      if directive.option = Directive.fileIgnore && option = Directive.ignore && !isDoc then
        register.reportOnce comment.start .misplacedFileIgnore
      if directive.option = option && directive.isWellFormed then pure true
      else search register isDoc option rest

/-- Whether a group has a well-formed directive with an option. -/
def hasDirective (register : Register) (group : CommentGroup) (option : String) : Inquiry Bool :=
  register.search (register.isDoc group) option group.comments

/-- **Whether the package's documentation suppresses the file.** -/
def fileIsIgnored (register : Register) : Inquiry Bool :=
  match register.doc with
  | none => pure false
  | some group => register.hasDirective group Directive.fileIgnore

/-- Whether one of several groups has an `ignore`; groups behind it are not looked at. -/
def anyIgnores (register : Register) : List CommentGroup → Inquiry Bool
  | [] => pure false
  | group :: rest => do
    if ← register.hasDirective group Directive.ignore then pure true
    else register.anyIgnores rest

/-- **Whether an `ignore` covers the node at an address, at an offset**: one in the node's own
groups, or one in the groups of a node that covers the offset. -/
def isIgnored (register : Register) (map : CommentMap) (address : Address) (offset : Nat) :
    Inquiry Bool := do
  if ← register.anyIgnores (map.groupsAt address) then pure true
  else register.anyIgnores ((map.enclosing offset).1.flatMap (·.groups))

end Register

end ImportGuard
