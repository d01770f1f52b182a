import Uartbus.Model.Ftp

/-!
# Calls of the file service

A call as a client makes it: the parameters are written, the service reads them and works on a file
system.  Two file systems stand for what the calls are compared with: one whose directories do not
change (`StillFiles`), and one that keeps the bytes of its files (`FileDisk`), where each of the
calls behind a request may fail.
-/

set_option autoImplicit false

namespace Uartbus.Interface

open Lib Model

/-- The answer to a call with the parameters, with the registry and the file system afterwards. -/
def serviceCall {η : Type} (respond : FileRequest → η → FileAnswer × η) (index : UInt8)
    (params : List RpcValue) (registry : FileRegistry) (files : η) :
    Option (Except ServiceError Ftp.Reply × FileRegistry × η) :=
  match appendElements params with
  | .ok bytes =>
    ((Ftp.serve index ⟨⟨bytes, 0⟩, registry⟩).exec respond files).map fun r =>
      (r.1.1, r.1.2.registry, r.2)
  | .error _ => none

/-! ## Directories that do not change -/

/-- What a file system answers while nothing in its directories changes.  Whether a line can be
appended to the list file may depend on the time. -/
structure StillFiles where
  answer : FileRequest → FileAnswer
  appends : ℕ → FileAnswer
  /-- The names of a directory are collected in a vector. -/
  names_lt : ∀ path, (answer (.readDir path)).names.length < 2 ^ 64

def StillFiles.respond (files : StillFiles) (request : FileRequest) (clock : ℕ) :
    FileAnswer × ℕ :=
  match request with
  | .appendLine _ => (files.appends clock, clock + 1)
  | request => (files.answer request, clock + 1)

/-- The entries of a directory. -/
def StillFiles.entries (files : StillFiles) (dir : Text) : List FileName :=
  (files.answer (.readDir dir)).names

/-- Function 7 of file `k` in step with the size `n` and the numbers `l`. -/
structure EntriesAgree (files : StillFiles) (registry : FileRegistry) (k n : ℕ)
    (l : List RpcValue) : Prop where
  length_eq : l.length = n
  entry : ∀ i < n, ∀ clock, ∃ number clock', l[i]? = some number ∧
    serviceCall files.respond 7 [.vUnsigned k, .vUnsigned i] registry clock =
      some (.ok (.value number), registry, clock')
  beyond : ∀ i, n ≤ i → ∀ clock, ∃ err clock',
    serviceCall files.respond 7 [.vUnsigned k, .vUnsigned i] registry clock =
      some (.error err, registry, clock')

/-- What function 5 and then function 6 answer for file `k`, function 7 keeps to. -/
def DirectoryFunctionsAgree (files : StillFiles) (registry : FileRegistry) (clock k : ℕ) : Prop :=
  ∀ n l registry₅ registry₆ clock₅ clock₆,
    serviceCall files.respond 5 [.vUnsigned k] registry clock =
        some (.ok (Ftp.vu n), registry₅, clock₅) →
      serviceCall files.respond 6 [.vUnsigned k] registry₅ clock₅ =
          some (.ok (.value (.array l)), registry₆, clock₆) →
        EntriesAgree files registry₆ k n l

/-! ## Files with bytes -/

/-- The bytes of a file; its length is a `u64`. -/
structure StoredFile where
  bytes : Bytes
  length_lt : bytes.length < 2 ^ 64

/-- The bytes after a write: a gap is filled with zeros, and nothing is written without data. -/
def overwrite (bytes : Bytes) (position : ℕ) (data : Bytes) : Bytes :=
  if data = [] then bytes
  else
    (bytes ++ List.replicate (position - bytes.length) 0).take position ++ data ++
      bytes.drop (position + data.length)

def resize (bytes : Bytes) (size : ℕ) : Bytes :=
  bytes.take size ++ List.replicate (size - bytes.length) 0

/-- The file with other bytes, where there are not too many. -/
def StoredFile.ofBytes (bytes : Bytes) : Option StoredFile :=
  if h : bytes.length < 2 ^ 64 then some ⟨bytes, h⟩ else none

/-- Which of the calls of a request succeed. -/
structure CallFates where
  opens : Bool
  seeks : Bool
  /-- `write_all` or `set_len` -/
  stores : Bool
  flushes : Bool
  /-- `metadata` of the open file -/
  measures : Bool
  deriving DecidableEq, Repr

structure FileDisk where
  files : Text → StoredFile
  clock : ℕ

/-- The calls one after another: what fails has no effect, what was stored before stays. -/
def FileDisk.store (disk : FileDisk) (path : Text) (bytes : Bytes) (before behind : Bool) :
    FileAnswer × FileDisk :=
  match if before then StoredFile.ofBytes bytes else none with
  | some file =>
    (⟨behind, [], file.bytes.length, []⟩,
      ⟨Function.update disk.files path file, disk.clock + 1⟩)
  | none => (⟨false, [], 0, []⟩, { disk with clock := disk.clock + 1 })

/-- Which calls succeed is given for every time, as is what is answered to all other requests.
SOURCE: rpc/ftp.rs:405-409, 423-433 -/
def FileDisk.respond (fates : ℕ → CallFates) (other : ℕ → FileRequest → FileAnswer)
    (request : FileRequest) (disk : FileDisk) : FileAnswer × FileDisk :=
  let f := fates disk.clock
  match request with
  | .setLength path size =>
    disk.store path (resize (disk.files path).bytes size) (f.opens && f.stores) f.measures
  | .writeAt path position data =>
    disk.store path (overwrite (disk.files path).bytes position data)
      (f.opens && f.seeks && f.stores) (f.flushes && f.measures)
  | request => (other disk.clock request, { disk with clock := disk.clock + 1 })

/-- The data stand at the position, and every other byte that was there is as before. -/
structure StoredAt (before after : Bytes) (position : ℕ) (data : Bytes) : Prop where
  stored : ∀ j < data.length, after[position + j]? = data[j]?
  kept : ∀ j < before.length, (j < position ∨ position + data.length ≤ j) → after[j]? = before[j]?

/-- The length is the wanted one, and what fits in it is as before. -/
structure ResizedTo (before after : Bytes) (size : ℕ) : Prop where
  length_eq : after.length = size
  kept : after.take (min size before.length) = before.take (min size before.length)

/-- A call stores what it should in the file, or answers an error and leaves the file alone. -/
def StoresOrRefuses (stores : Bytes → Bytes → Prop) (disk : FileDisk) (file : Text)
    (outcome : Option (Except ServiceError Ftp.Reply × FileRegistry × FileDisk)) : Prop :=
  ∃ reply registry disk', outcome = some (reply, registry, disk') ∧
    (stores (disk.files file).bytes (disk'.files file).bytes ∨
      (∃ err, reply = .error err) ∧ (disk'.files file).bytes = (disk.files file).bytes)

end Uartbus.Interface
