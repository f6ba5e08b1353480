import Slideshow.Media.Error

/-! # Pictures in a directory

A local slideshow is made of the pictures directly inside a directory, in the order of their
names. -/

namespace Slideshow

/-- What can be found in a directory. -/
inductive EntryKind where
  | file
  | directory
deriving Repr, DecidableEq

/-- One entry of a directory. -/
structure DirectoryEntry where
  name : String
  kind : EntryKind
deriving Repr, DecidableEq

namespace DirectoryEntry

/-- The extensions of pictures. -/
def imageExtensions : List String := ["jpg", "jpeg", "png", "webp", "bmp", "gif", "tif", "tiff"]

/-- What follows the last dot of a name, if something stands before that dot. -/
def extension? (name : String) : Option String :=
  let reversed := name.toList.reverse
  match reversed.dropWhile (· ≠ '.') with
  | '.' :: before =>
    if before.isEmpty then none
    else some (String.ofList (reversed.takeWhile (· ≠ '.')).reverse)
  | _ => none

/-- Whether an entry is a file with the extension of a picture, in either case. -/
def isImage (entry : DirectoryEntry) : Bool :=
  entry.kind == .file &&
    match extension? entry.name with
    | some extension => imageExtensions.contains (String.ofList (extension.toList.map Char.toLower))
    | none => false

end DirectoryEntry

/-- The names of the pictures in a directory, sorted. -/
def imageNames (entries : List DirectoryEntry) : List String :=
  ((entries.filter DirectoryEntry.isImage).map DirectoryEntry.name).mergeSort (· ≤ ·)

end Slideshow
