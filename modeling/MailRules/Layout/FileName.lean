import MailRules.Path
import MailRules.Text.Case

/-! Names of artifact files. -/
namespace MailRules.FileName

/-- The part of an artifact's name that stands for a source: its path without the suffix, joined
by underscores, in upper case. Nothing if the path has no name. -/
def segment? (source : String) : Option String :=
  (Path.ofString source).withoutSuffix?.map fun p =>
    Text.upper (p.text.map fun c => if c = '/' then '_' else c)

/-- The text up to the last slash, and what follows it. -/
def splitSlash (path : List Char) : List Char × List Char :=
  let name := (path.reverse.takeWhile (· ≠ '/')).reverse
  (path.take (path.length - name.length), name)

/-- A file name cut before its extension, which starts at the last dot that has something other
than dots before it. -/
def splitExtension (name : List Char) : List Char × List Char :=
  let extension := (name.reverse.takeWhile (· ≠ '.')).reverse
  let before := name.take (name.length - extension.length - 1)
  if name.contains '.' && before.any (· ≠ '.') then (before, '.' :: extension) else (name, [])

/-- Puts `_SCORES` before the extension. -/
def scoresPath (path : String) : String :=
  let (directory, name) := splitSlash path.toList
  let (stem, extension) := splitExtension name
  String.ofList (directory ++ stem ++ "_SCORES".toList ++ extension)

/-- Writes the first underscore twice. -/
def doubleUnderscore : List Char → List Char
  | [] => []
  | c :: rest => if c = '_' then '_' :: '_' :: rest else c :: doubleUnderscore rest

/-- The directory part without the slashes at its end, unless it has nothing else. -/
def trimSlashes (directory : List Char) : List Char :=
  if directory.all (· = '/') then directory else (directory.reverse.dropWhile (· = '/')).reverse

/-- A directory and a name as one path. -/
def joinSlash (directory name : List Char) : List Char :=
  if directory.isEmpty || directory.getLast? = some '/' then directory ++ name
  else directory ++ '/' :: name

/-- Writes the first underscore of the file name twice; the directory is left alone. -/
def doubledPath (path : String) : String :=
  let (directory, name) := splitSlash path.toList
  String.ofList (joinSlash (trimSlashes directory) (doubleUnderscore name))

/-- The file name part of a path. -/
def baseName (path : String) : List Char := (splitSlash path.toList).2

/-- The candidate is loaded after the last path: it is greater, character by character. -/
def sortsAfter (candidate : String) : Option String → Bool
  | none => true
  | some last => last < candidate

end MailRules.FileName
