/-!
Paths, as they are written. The name of a file is the last part of its path; slashes and parts `.`
after it do not count. The stem of a name is what stands before its last dot and the extension what
stands after; a name with no dot but at its start has no extension.
-/
namespace UnaryC.Files

structure Path where
  text : String
deriving DecidableEq, Repr

namespace Path

/-- The pieces between slashes, empty ones too. -/
def splitSlash : List Char → List (List Char)
  | [] => [[]]
  | c :: rest =>
    if c = '/' then [] :: splitSlash rest
    else
      match splitSlash rest with
      | [] => [[c]]
      | part :: parts => (c :: part) :: parts

/-- A file name with what stands before it in the path. -/
structure Leaf where
  /-- The way to the file, as written, with the slash at its end. -/
  folder : List Char
  name : List Char
deriving DecidableEq, Repr

/-- The file that a path names. A path that leads up, or nowhere, names none. -/
def leaf? (path : List Char) : Option Leaf :=
  match (splitSlash path).reverse.dropWhile fun part => part == [] || part == ['.'] with
  | [] => none
  | name :: above =>
    if name = ['.', '.'] then none
    else some { folder := above.reverse.flatMap (· ++ ['/']), name := name }

/-- Stem and extension of a name. -/
def splitName (name : List Char) : List Char × Option (List Char) :=
  match name.reverse.dropWhile (· != '.') with
  | [] => (name, none)
  | [_] => (name, none)
  | _ :: before => (before.reverse, some (name.reverse.takeWhile (· != '.')).reverse)

def extension? (path : List Char) : Option (List Char) :=
  (leaf? path).bind fun leaf => (splitName leaf.name).2

/-- The path with an extension in place of the old one, or none if `extension` is empty. The old
extension is cut off the end of the path first; what is left may name no file any more, as `..`
does, and then stays as it is. -/
def withExtension (p : Path) (extension : String) : Path :=
  let path := p.text.toList
  let base := path.take (path.length - (extension? path).elim 0 List.length)
  match leaf? base with
  | none => ⟨String.ofList base⟩
  | some leaf =>
    let ending := if extension = "" then "" else "." ++ extension
    ⟨String.ofList (leaf.folder ++ (splitName leaf.name).1) ++ ending⟩

/-- Whether the path names a file. -/
def hasStem (p : Path) : Bool :=
  (leaf? p.text.toList).isSome

end Path

end UnaryC.Files
