import EventFinder.Tree.Ignore
import EventFinder.Tree.ScanError

/-!
# Scanning a tree

A scan collects the directories that lie a given number of levels below a root. It visits the tree
depth first, siblings in the order of their names. It does not enter an ignored directory, which it
counts, nor a directory that it has collected. Files are never collected. Links are entered only
where the options say so, except that a root which is a link is always looked into.

The visit of the entries of a directory is recursion on the tree. Entering a linked directory
leaves the tree, so `visitEntries` is given the way to do it, and `enter` supplies that way once
for every link that a path may still meet. A link to a directory that is open on the way from the
root would be entered without end and is an error instead, as is a link that leads nowhere, or a
path that has grown too long where a directory is entered or a link followed. The first error ends
the scan.
-/

set_option autoImplicit false

namespace EventFinder

/-- What a scan looks for. -/
structure ScanOptions where
  /-- The number of levels below the root; with zero nothing is collected. -/
  depth : Nat
  ignore : IgnoreList := .none
  /-- Whether the name of the root is put in front of every candidate. -/
  includeParent : Bool := false
  /-- Whether links to directories are entered. -/
  followLinks : Bool := false

/-- What a part of a scan has found. -/
structure Findings where
  /-- The collected directories, in the order of the visit. -/
  candidates : List Path := []
  /-- The number of ignored directories. -/
  ignored : Nat := 0
  deriving DecidableEq, Repr

/-- What two parts of a scan have found, one after the other. -/
def Findings.append (a b : Findings) : Findings :=
  ⟨a.candidates ++ b.candidates, a.ignored + b.ignored⟩

/-- Where a scan stands. -/
structure Visit where
  /-- The path from the current directory, as it is walked. -/
  path : Path
  /-- The path as a candidate, which starts below the root or with its name. -/
  candidate : Path
  /-- The number of levels below the root. -/
  depth : Nat
  /-- The names from the top of the file system. -/
  names : List Bytes
  /-- The directories that are open on the way from the root, as names from the top. -/
  opened : List (List Bytes)
  /-- How many more links may be met on the path. -/
  linksLeft : Nat

namespace Visit

/-- The visit of an entry of the directory. -/
def child (visit : Visit) (name : Bytes) : Visit :=
  { visit with
    path := visit.path.join name
    candidate := visit.candidate.join name
    depth := visit.depth + 1
    names := visit.names ++ [name] }

/-- The visit of the directory with its entries open. -/
def openHere (visit : Visit) : Visit :=
  { visit with opened := visit.names :: visit.opened }

/-- Whether the path is longer than one that can be followed. -/
def isTooLong (visit : Visit) : Bool :=
  maxPathBytes < visit.path.length

/-- Where a link with the given target leads that stands where the visit is. -/
def follow (visit : Visit) (top : Node) (target : Path) : Except LookupError Place :=
  if visit.isTooLong then .error .nameTooLong
  else followLink top visit.linksLeft visit.names.dropLast target

/-- The visit of the place that a link leads to, under the path of the link. -/
def movedTo (visit : Visit) (place : Place) : Visit :=
  { visit with names := place.names, linksLeft := place.linksLeft }

end Visit

/-- What happens to a directory. -/
inductive Verdict where
  /-- It is counted and not entered. -/
  | ignored
  /-- It is collected and not entered. -/
  | collected
  /-- It is entered. -/
  | entered
  deriving DecidableEq, Repr

/-- What happens to the directory of a visit. Ignoring comes before collecting, and the root is
never collected. -/
def ScanOptions.verdict (options : ScanOptions) (visit : Visit) : Verdict :=
  if options.ignore.ignores visit.path then .ignored
  else if visit.depth ≠ 0 ∧ visit.depth = options.depth then .collected
  else .entered

/-- Enters a directory with entries, by the way that is given for leaving the tree through a link.
-/
abbrev Enter := Visit → List (Bytes × Node) → Except ScanError Findings

mutual

/-- Visits a node below the root. -/
def visitNode (top : Node) (options : ScanOptions) (enterLinked : Enter) (visit : Visit) :
    Node → Except ScanError Findings
  | .file _ => .ok {}
  | .link target =>
    if options.followLinks then
      match visit.follow top target with
      | .error e => .error (.ofLookup e visit.path)
      | .ok place =>
        match place.node with
        | .directory entries =>
          if place.names ∈ visit.opened then .error (.loop visit.path)
          else enterLinked (visit.movedTo place) entries
        | _ => .ok {}
    else .ok {}
  | .directory entries =>
    match options.verdict visit with
    | .ignored => .ok { ignored := 1 }
    | .collected => .ok { candidates := [visit.candidate] }
    | .entered =>
      if visit.isTooLong then .error (.ofLookup .nameTooLong visit.path)
      else visitEntries top options enterLinked visit.openHere entries

/-- Visits the entries of the directory of a visit. -/
def visitEntries (top : Node) (options : ScanOptions) (enterLinked : Enter) (visit : Visit) :
    List (Bytes × Node) → Except ScanError Findings
  | [] => .ok {}
  | (name, node) :: rest =>
    match visitNode top options enterLinked (visit.child name) node with
    | .error e => .error e
    | .ok first =>
      match visitEntries top options enterLinked visit rest with
      | .error e => .error e
      | .ok others => .ok (first.append others)

end

/-- Enters a directory, on a path that may still meet the given number of links. -/
def enter (top : Node) (options : ScanOptions) : Nat → Enter
  | 0, visit, entries =>
    visitNode top options
      (fun visit _ => .error (.ofLookup .tooManyLinks visit.path))
      visit (.directory entries)
  | linksLeft + 1, visit, entries =>
    visitNode top options (enter top options linksLeft) visit (.directory entries)

/-- What a scan has found. -/
structure ScanReport where
  /-- The collected directories, in the order of the visit. -/
  candidates : List Path
  /-- The number of ignored directories. -/
  ignored : Nat
  /-- The number of levels below the root that was looked for. -/
  depth : Nat
  deriving DecidableEq, Repr

namespace FileSystem

/-- The name of the directory that a path leads to: the last name of the path, or the name in the
file system where the path does not end with one. -/
def directoryName (root : Path) (place : Place) : Bytes :=
  root.fileName?.getD (place.names.getLast?.getD [])

/-- Collects the directories at the depth of the options below a root, which must exist. -/
def scan (files : FileSystem) (root : Path) (options : ScanOptions) :
    Except ScanError ScanReport :=
  match files.resolve root with
  | .error _ => .error (.notFound root)
  | .ok place =>
    let visit : Visit :=
      { path := root
        candidate := if options.includeParent then directoryName root place else []
        depth := 0, names := place.names, opened := [], linksLeft := place.linksLeft }
    let findings : Except ScanError Findings :=
      match place.node with
      | .directory entries =>
        if files.isLink root && !options.followLinks then
          visitEntries files.top options (enter files.top options place.linksLeft) visit.openHere
            entries
        else enter files.top options place.linksLeft visit entries
      | _ => .ok {}
    findings.map fun found => ⟨found.candidates, found.ignored, options.depth⟩

end FileSystem

end EventFinder
