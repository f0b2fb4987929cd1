import RuleTransducer.Text.Segments

/-! Files of a working directory, as far as reading one goes: from a path to its octets or
to the reason why there are none. Of what lies outside the working directory only the
directories at the root and the null device are known; all else counts as missing. -/

namespace RuleTransducer

/-- Why a path leads to no file. -/
inductive FileFault
  | missing
  | isDirectory
  /-- A file stands where the path needs a directory. -/
  | notDirectory
  /-- The path or a name in it is longer than names may be. -/
  | nameTooLong
  /-- No path has a null character. -/
  | nullCharacter
  deriving DecidableEq

/-- What a path can be asked for. -/
abbrev FileContent := Except FileFault (List UInt8)

/-- The files of a working directory by their names, with a slash between the names of
directories. -/
structure WorkingDirectory where
  files : List (String × List UInt8)

/-- Where a path has led so far. -/
inductive Location
  /-- A directory, given by the names that lead to it from the working directory. -/
  | inside (names : List String)
  /-- A directory above the working directory. -/
  | above
  /-- A directory, given by the names that lead to it from the root. -/
  | system (names : List String)
  | file (octets : List UInt8)

/-- The directories that stand at the root. -/
def rootDirectories : List String :=
  ["bin", "dev", "etc", "home", "lib", "opt", "proc", "root", "sys", "tmp", "usr", "var"]

/-- What a known name leads to from a directory of the system. The null device is a file
without content. -/
def systemEntry? (names : List String) (name : String) : Option Location :=
  if names = [] && rootDirectories.contains name then some (.system [name])
  else if names = ["dev"] && name = "null" then some (.file [])
  else none

namespace WorkingDirectory

/-- One name further. -/
def follow (w : WorkingDirectory) (location : Location) (name : String) :
    Except FileFault Location :=
  if let .file _ := location then .error .notDirectory
  else if name = "" || name = "." then .ok location
  else if name = ".." then
    .ok (match location with
      | .inside names => if names.isEmpty then .above else .inside names.dropLast
      | .system names => .system names.dropLast
      | other => other)
  else if 255 < name.utf8ByteSize then .error .nameTooLong
  else
    match location with
    | .inside names =>
      let here := names ++ [name]
      match w.files.find? fun file => Text.pathSegments file.1 = here with
      | some (_, octets) => .ok (.file octets)
      | none =>
        let isDirectory := w.files.any fun file => here.isPrefixOf (Text.pathSegments file.1)
        if isDirectory then .ok (.inside here) else .error .missing
    | .system names =>
      match systemEntry? names name with
      | some entry => .ok entry
      | none => .error .missing
    | _ => .error .missing

/-- Reads the file of a path. -/
def read (w : WorkingDirectory) (path : String) : FileContent :=
  if path.toList.contains '\x00' then .error .nullCharacter
  else if path.isEmpty then .error .missing
  else if 4095 < path.utf8ByteSize then .error .nameTooLong
  else
    let start := if path.toList.head? = some '/' then Location.system [] else .inside []
    match (Text.pathSegments path).foldlM w.follow start with
    | .ok (.file octets) => .ok octets
    | .ok _ => .error .isDirectory
    | .error fault => .error fault

end WorkingDirectory

end RuleTransducer
