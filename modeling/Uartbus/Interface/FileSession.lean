import Uartbus.Interface.ServedPaths

/-!
# A served directory over time

The list file keeps what is appended to it.  Everything else the file system answers is given by a
function of the time, so that the directory may change in any way between two requests.  A session
opens the registry, asks it for numbers, and opens it again.
-/

set_option autoImplicit false

namespace Uartbus.Interface

open Lib Model

/-- What the file system answers at a time. -/
abbrev Directory : Type := ℕ → FileRequest → FileAnswer

structure Disk where
  /-- The bytes of the list file. -/
  list : Bytes
  clock : ℕ
  deriving DecidableEq

/-- Writes to the list file succeed, and reading it gives what it holds. -/
def Disk.respond (directory : Directory) (request : FileRequest) (disk : Disk) :
    FileAnswer × Disk :=
  match request with
  | .appendLine line =>
    (⟨true, [], 0, []⟩, ⟨disk.list ++ (utf8Bytes line ++ [0x0A]), disk.clock + 1⟩)
  | .readList path =>
    ({ directory disk.clock (.readList path) with bytes := disk.list },
      { disk with clock := disk.clock + 1 })
  | request => (directory disk.clock request, { disk with clock := disk.clock + 1 })

/-- The registry, if it is open, and the disk. -/
structure FileSession where
  registry : Option FileRegistry
  disk : Disk

/-- Nothing has been served yet, and there is no list file. -/
def FileSession.start : FileSession := ⟨none, ⟨[], 0⟩⟩

inductive FileAction where
  /-- The registry is opened, with fuel for nested directories. -/
  | restart (fuel : ℕ)
  | numberOf (path : Text)

/-- What an opened registry is, if opening succeeded. -/
def openedRegistry (r : Except Unit Unit × FileRegistry) : Option FileRegistry :=
  match r.1 with
  | .ok _ => some r.2
  | .error _ => none

def fileStep (root : Text) (directory : Directory) (s : FileSession) :
    FileAction → Option FileSession
  | .restart fuel =>
    ((FileRegistry.openAt fuel root ⟨root, [], []⟩).exec (Disk.respond directory) s.disk).map
      fun r => ⟨openedRegistry r.1, r.2⟩
  | .numberOf path =>
    s.registry.bind fun registry =>
      ((FileRegistry.numberOf path registry).exec (Disk.respond directory) s.disk).map
        fun r => ⟨some r.1.2, r.2⟩

/-- The list file of the paths. -/
def listBytes (paths : List Text) : Bytes :=
  paths.flatMap fun path => utf8Bytes (urlEncode path) ++ [0x0A]

/-- The two tables are inverse to each other, and no path is there twice. -/
structure Inverse (registry : FileRegistry) : Prop where
  nodup : registry.paths.Nodup
  byPath : ∀ path i, registry.byPath.lookup path = some i ↔ registry.paths[i]? = some path

/-- The list file holds the paths, and an open registry has them. -/
structure Listed (s : FileSession) (paths : List Text) : Prop where
  list : s.disk.list = listBytes paths
  nodup : paths.Nodup
  registry : ∀ registry, s.registry = some registry → registry.paths = paths ∧ Inverse registry

/-- Directories are nested less deep than `depth`. -/
def NestedBelow (root : Text) (depth : ℕ) (directory : Directory) : Prop :=
  ∀ t names, depth ≤ names.length →
    (directory t (.isDir (fsPath root (slashed names)))).ok = false

end Uartbus.Interface
