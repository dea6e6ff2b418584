/-!
# Paths

A path is text whose parts are separated by slashes. Empty parts and single
dots say nothing, two dots lead back to the directory above. The ending of a
file name starts behind its last dot, unless that dot is its first character.
-/
namespace PackageAssets.Path

/-- The runs of characters between slashes. There is always one more than slashes. -/
def split : List Char → List (List Char)
  | [] => [[]]
  | c :: rest =>
    if c = '/' then [] :: split rest
    else
      match split rest with
      | [] => [[c]]
      | part :: parts => (c :: part) :: parts

def parts (path : String) : List String := (split path.toList).map String.ofList

/-- Whether a part leaves a walk where it is. -/
def stays (part : String) : Bool := part = "" || part = "."

def up : String := ".."

/-- The last part that says anything, unless it leads up. -/
def fileName? (path : String) : Option String :=
  match ((parts path).filter (!stays ·)).getLast? with
  | none => none
  | some name => if name = up then none else some name

/-- The ending of the file name. -/
def extension? (path : String) : Option String :=
  match fileName? path with
  | none => none
  | some name =>
    let chars := name.toList
    let ending := (chars.reverse.takeWhile (· ≠ '.')).reverse
    if ending.length + 1 < chars.length then some (String.ofList ending) else none

end PackageAssets.Path
