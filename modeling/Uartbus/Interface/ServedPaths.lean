import Uartbus.Model.Ftp

/-!
# The paths of a served directory

A path of the served directory is a list of names, none of which leads anywhere else.  `servedPath`
is how the registry writes it and `below` where it is in the file system; a request is allowed when
it is about such a place other than the list file (`AllowedRequest`).
-/

set_option autoImplicit false

namespace Uartbus.Interface

open Lib Model

/-- A name that stays in its directory. -/
structure PlainName (name : Text) : Prop where
  ne_nil : name ≠ []
  no_slash : '/' ∉ name
  ne_dot : name ≠ ['.']
  ne_dots : name ≠ ['.', '.']

/-- Each name behind a slash. -/
def slashed (names : List Text) : Text := names.flatMap fun name => '/' :: name

/-- How the registry writes the path of the names. -/
def servedPath (names : List Text) : Text := if names = [] then ['/'] else slashed names

/-- The place of the names below a directory. -/
def below (root : Text) (names : List Text) : Text := names.foldl pathJoin root

/-- The form of a registered path: plain names, and not the list file. -/
def IsServed (path : Text) : Prop :=
  ∃ names, (∀ name ∈ names, PlainName name) ∧ path = servedPath names ∧
    path ≠ '/' :: listFileName

/-- A place in the served directory, other than the list file. -/
def InsideRoot (root path : Text) : Prop :=
  ∃ names, (∀ name ∈ names, PlainName name) ∧ names ≠ [listFileName] ∧ path = below root names

/-- A request is about a place in the served directory, and what is appended to the list file is a
path of it; the list file is not opened again. -/
def AllowedRequest (root : Text) : FileRequest → Prop
  | .openList _ | .readList _ => False
  | .appendLine line => ∃ path, IsServed path ∧ line = urlEncode path
  | .exists path | .isFile path | .isDir path | .canRead path | .canWrite path | .readDir path
  | .fileLength path | .modified path | .createDir path | .createNew path | .readPart path _ _
  | .setModified path _ | .removeDir path | .removeFile path | .setLength path _ | .append path _
  | .writeAt path _ _ => InsideRoot root path

/-- All paths of the registry are served ones. -/
structure RegistryServed (root : Text) (registry : FileRegistry) : Prop where
  root_eq : registry.root = root
  paths : ∀ path ∈ registry.paths, IsServed path
  byPath : ∀ entry ∈ registry.byPath, IsServed entry.1

/-- The registry of a directory that is served for the first time. -/
def rootRegistry : FileRegistry := ⟨"/srv".toList, [['/']], [(['/'], 0)]⟩

end Uartbus.Interface
