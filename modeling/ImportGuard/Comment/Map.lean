import ImportGuard.Source

/-!
# Comment maps

A comment map attaches comment groups to nodes.  A group at or above the package clause belongs to
the file, that is to the root.  Any other group lies between two anchors: the one that ends last
before it and the one that starts first behind it.  It belongs to the former if that ends on the
group's first line, or on the line above while an empty line separates the group from the latter;
otherwise it belongs to the latter, and to the root if there is none.

The entries of a map are listed in source order, outer nodes first.  The order is kept once it has
been worked out, until a node is added that the map does not have.
-/

namespace ImportGuard

structure MapEntry where
  site : Site
  groups : List CommentGroup
deriving Repr, Inhabited

/-- Groups attached to nodes, in the order in which the nodes were first added. -/
structure CommentMap where
  entries : List MapEntry := []
  /-- The sites in source order, if that has been worked out. -/
  order : Option (List Site) := none
deriving Repr, Inhabited

namespace CommentMap

def empty : CommentMap := {}

def size (map : CommentMap) : Nat :=
  map.entries.length

def entry? (map : CommentMap) (address : Address) : Option MapEntry :=
  map.entries.find? (·.site.address = address)

def contains (map : CommentMap) (address : Address) : Bool :=
  map.entries.any (·.site.address = address)

def groupsAt (map : CommentMap) (address : Address) : List CommentGroup :=
  ((map.entry? address).map (·.groups)).getD []

def add (map : CommentMap) (site : Site) (group : CommentGroup) : CommentMap :=
  if map.contains site.address then
    { map with
      entries := map.entries.map fun entry =>
        if entry.site.address = site.address then
          { entry with groups := entry.groups ++ [group] }
        else entry }
  else { entries := map.entries ++ [⟨site, [group]⟩], order := none }

/-- Source order of sites: by where they start, the one that ends later first. -/
def precedes (a b : Site) : Bool :=
  a.node.start < b.node.start || (a.node.start = b.node.start && b.node.stop ≤ a.node.stop)

/-- The sites of a map in source order, those of one range as they were added. -/
def sortedSites (map : CommentMap) : List Site :=
  (map.entries.map (·.site)).mergeSort precedes

def arrange (map : CommentMap) : CommentMap :=
  match map.order with
  | some _ => map
  | none => { map with order := some map.sortedSites }

def listed (map : CommentMap) (sites : List Site) : List MapEntry :=
  sites.map fun site => ⟨site, map.groupsAt site.address⟩

/-- **The entries in source order, outer nodes first**, and the map that remembers the order. -/
def items (map : CommentMap) : List MapEntry × CommentMap :=
  let arranged := map.arrange
  (arranged.listed (arranged.order.getD []), arranged)

/-- Whether a site's node covers an offset, both of its ends included. -/
def covers (offset : Nat) (site : Site) : Bool :=
  site.node.start ≤ offset && offset ≤ site.node.stop

/-- The entries whose node covers an offset, in source order. -/
def enclosing (map : CommentMap) (offset : Nat) : List MapEntry × CommentMap :=
  let arranged := map.arrange
  (arranged.listed ((arranged.order.getD []).filter (covers offset)), arranged)

/-! ### Which node a group belongs to -/

/-- The anchor that ends last at or before an offset, the first of those that end together. -/
def lastBefore (offset : Nat) (anchors : List Site) : Option Site :=
  let later (best : Option Site) (site : Site) : Option Site :=
    if site.node.stop ≤ offset then
      match best with
      | none => some site
      | some found => if found.node.stop < site.node.stop then some site else some found
    else best
  anchors.foldl later none

def firstBehind (group : CommentGroup) (anchors : List Site) : Option Site :=
  anchors.find? fun site =>
    group.start.offset < site.node.stop && group.stop.offset ≤ site.node.start

/-- Whether a group belongs to the anchor before it, given the line on which that ends and the line
on which the anchor behind the group starts, if there is one. -/
def staysAbove (group : CommentGroup) (endLine : Nat) (nextLine : Option Nat) : Bool :=
  endLine = group.start.line ||
    match nextLine with
    | none => true
    | some line => endLine + 1 = group.start.line && group.stop.line + 1 < line

def anchorOf (source : List UInt8) (anchors : List Site) (group : CommentGroup) : Option Site :=
  let next := firstBehind group anchors
  match lastBefore group.start.offset anchors with
  | none => next
  | some previous =>
    let endLine := (Place.ofOffset source previous.node.stop).line
    let nextLine := next.map fun site => (Place.ofOffset source site.node.start).line
    if staysAbove group endLine nextLine then some previous else next

/-- The anchors below the root, each before those inside it. -/
def anchorsOf (root : Node) : List Site :=
  root.sites.tail.filter (·.node.kind.isAnchor)

def homeOf (file : SourceFile) (anchors : List Site) (group : CommentGroup) : Site :=
  let root : Site := ⟨[], file.root⟩
  match SourceFile.packageClause? file.root with
  | none => (anchorOf file.source anchors group).getD root
  | some clause =>
    if group.stop.offset ≤ clause.start then root
    else (anchorOf file.source anchors group).getD root

/-- **The comment map of a file.** -/
def ofFile (file : SourceFile) : CommentMap :=
  let anchors := anchorsOf file.root
  file.comments.foldl (fun map group => map.add (homeOf file anchors group) group) empty

end CommentMap

end ImportGuard
