import Mathlib.Data.List.Basic

/-!
# Lexical paths

A path is a root and its components.  Reading one from text drops empty components and
`.`, and keeps `..`, which only a walk through the file system can resolve.
-/

namespace FlashNext
namespace Posix

/-- What stands before the first component: nothing, one slash or two. -/
inductive Root where
  | none
  | one
  | two
  deriving DecidableEq

namespace Root

def text : Root → String
  | .none => ""
  | .one => "/"
  | .two => "//"

end Root

structure PurePath where
  root : Root
  parts : List String
  deriving DecidableEq

def splitSlash (s : String) : List String :=
  (s.toList.splitOn '/').map String.ofList

namespace PurePath

def rootOf : List Char → Root
  | '/' :: '/' :: '/' :: _ => .one
  | '/' :: '/' :: _ => .two
  | '/' :: _ => .one
  | _ => .none

def ofString (s : String) : PurePath where
  root := rootOf s.toList
  parts := (splitSlash s).filter fun part => part ≠ "" && part ≠ "."

/-- `str(path)`. -/
def str (p : PurePath) : String :=
  if p.root = .none ∧ p.parts = [] then "."
  else p.root.text ++ "/".intercalate p.parts

def isAbsolute (p : PurePath) : Bool := p.root ≠ .none

/-- `p / q`. -/
def join (p q : PurePath) : PurePath :=
  if q.isAbsolute then q else { p with parts := p.parts ++ q.parts }

def child (p : PurePath) (name : String) : PurePath := p.join (ofString name)

def isRelativeTo (p q : PurePath) : Bool := p.root = q.root && q.parts.isPrefixOf p.parts

theorem join_relative {p q : PurePath} (h : q.isAbsolute = false) :
    p.join q = { p with parts := p.parts ++ q.parts } := by
  rw [join, h]
  rfl

theorem isRelativeTo_iff {p q : PurePath} :
    p.isRelativeTo q = true ↔ p.root = q.root ∧ q.parts <+: p.parts := by
  simp [isRelativeTo, List.isPrefixOf_iff_prefix]

end PurePath

end Posix
end FlashNext
