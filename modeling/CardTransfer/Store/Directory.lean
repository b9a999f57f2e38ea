import CardTransfer.Fault
import CardTransfer.Json.Parser
import CardTransfer.Json.Printer

/-!
# The store's directory

A directory holds texts under paths, whose names are separated by slashes. A path that other paths
go through is a directory itself and cannot be read or written as a text; a text cannot be a
directory on the way to another. A name of more than 255 bytes is refused.

Texts are written as they are. On reading, a carriage return and a line feed, or a carriage return
alone, count as a line feed. Documents are written one member or item to a line, the members of an
object in the order of their keys.
-/

namespace CardTransfer

/-- The texts of a directory, by path. -/
structure Directory where
  files : List (String × String)
  deriving Inhabited

namespace Directory

/-- The directory without any text. -/
def empty : Directory := ⟨[]⟩

/-- The names on a path. -/
def names (path : String) : List String := (path.toList.splitOn '/').map String.ofList

/-- The paths of the directories on the way to a path. -/
def parents (path : String) : List String :=
  (List.range (names path).length).filterMap fun n =>
    if n == 0 then none else some ("/".intercalate ((names path).take n))

/-- A path without its empty names and the names that stand for the directory they are in. -/
def plainPath (path : String) : String :=
  "/".intercalate ((names path).filter fun name => name != "" && name != ".")

/-- Whether a path leads to a directory whatever texts there are: it only goes up or stays. -/
def isPlace (path : String) : Bool :=
  path != "" && (names path).all fun name => ["", ".", ".."].contains name

/-- Whether a path is a directory. -/
def isDirectory (d : Directory) (path : String) : Bool :=
  d.files.any fun f => (parents f.1).contains path

/-- Whether a text stands where a directory on the way to a path would have to be. -/
def isObstructed (d : Directory) (path : String) : Bool :=
  (parents path).any fun p => (d.files.lookup p).isSome

/-- Whether a name on a path is too long. -/
def isTooLong (path : String) : Bool := (names path).any fun name => name.utf8ByteSize > 255

/-- Line ends as they are read. -/
def readBreaks : List Char → List Char
  | [] => []
  | '\r' :: '\n' :: cs => '\n' :: readBreaks cs
  | '\r' :: cs => '\n' :: readBreaks cs
  | c :: cs => c :: readBreaks cs

/-- The fault of a name that is too long. -/
def tooLong (path : String) : Fault :=
  .fileSystem "OSError" ("[Errno 36] File name too long: " ++ Text.quoted path)

/-- The fault of a directory in the place of a text. -/
def isADirectory (path : String) : Fault :=
  .fileSystem "IsADirectoryError" ("[Errno 21] Is a directory: " ++ Text.quoted path)

/-- The text under a path, if there is one. -/
def read? (d : Directory) (path : String) : Except Fault (Option String) :=
  if isTooLong path then .error (tooLong path)
  else if d.isDirectory path then .error (isADirectory path)
  else .ok ((d.files.lookup path).map fun text => String.ofList (readBreaks text.toList))

/-- Puts a text under a path, in place if there is one already. -/
def put (files : List (String × String)) (path text : String) : List (String × String) :=
  match files with
  | [] => [(path, text)]
  | (p, old) :: rest => if p == path then (p, text) :: rest else (p, old) :: put rest path text

/-- Writes a text under a path. -/
def write (d : Directory) (path text : String) : Except Fault Directory :=
  if d.isObstructed path then
    .error (.fileSystem "FileExistsError" ("[Errno 17] File exists: " ++ Text.quoted path))
  else if isTooLong path then .error (tooLong path)
  else if d.isDirectory path then .error (isADirectory path)
  else .ok ⟨put d.files path text⟩

/-- The document under a path, if there is one. -/
def readJson? (d : Directory) (path : String) : Except Fault (Option Json) := do
  match ← d.read? path with
  | none => return none
  | some text => return some (← Json.parse text)

/-- The document under a path, or a fallback if there is none. -/
def readJson (d : Directory) (path : String) (fallback : Json) : Except Fault Json := do
  return (← d.readJson? path).getD fallback

/-- Writes a document under a path. -/
def writeJson (d : Directory) (path : String) (v : Json) : Except Fault Directory :=
  d.write path (v.write .file)

/-- After a text has been put under a path, it is found there, and every other text as before. -/
theorem lookup_put (files : List (String × String)) (path other text : String) :
    (put files path text).lookup other = if path = other then some text else files.lookup other := by
  induction files with
  | nil => by_cases h : path = other <;> simp [put, h, Ne.symm]
  | cons f files ih =>
    obtain ⟨p, old⟩ := f
    unfold put
    by_cases hp : p = path
    · subst hp
      by_cases h : p = other
      · simp [h]
      · have hb : (other == p) = false := beq_eq_false_iff_ne.2 (Ne.symm h)
        simp [List.lookup_cons, h, hb]
    · by_cases ho : p = other
      · subst ho
        simp [hp, Ne.symm hp]
      · have hb : (other == p) = false := beq_eq_false_iff_ne.2 (Ne.symm ho)
        simp [List.lookup_cons, hp, hb, ih]

end Directory
end CardTransfer
