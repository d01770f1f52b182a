import Uartbus.Analysis.RpcRoundTrip
import Uartbus.Interface.FileCalls

/-!
# Writing to served files

A call of the file service reads back the parameters its client wrote (`serviceCall_function`).
Functions 40 and 41 then make one request, with the size or the position narrowed to 64 bits.  What
does not fit is taken for 0, so that the file is emptied, or overwritten at its beginning, where the
call should have failed.
-/

set_option autoImplicit false

namespace Uartbus.Analysis

open Lib Interface Model

variable {bytes : Bytes} {v : RpcValue}

/-! ## The parameters -/

theorem readType_unsigned (k : ℕ) :
    ∃ bytes, appendValue (.vUnsigned k) = .ok bytes ∧ ∀ pre post,
      readType .vUnsigned ⟨pre ++ (bytes ++ post), pre.length⟩ =
        .value (.vUnsigned k) ⟨pre ++ (bytes ++ post), pre.length + bytes.length⟩ := by
  obtain ⟨bytes, hpack, hread⟩ := readInt_at true k (by simp)
  refine ⟨bytes, hpack, fun pre post => ?_⟩
  rw [readType, hread pre post false (.inr ⟨rfl, Int.natCast_nonneg k⟩)]
  rfl

theorem readType_signed (v : ℤ) :
    ∃ bytes, appendValue (.vSigned v) = .ok bytes ∧ ∀ pre post,
      readType .vSigned ⟨pre ++ (bytes ++ post), pre.length⟩ =
        .value (.vSigned v) ⟨pre ++ (bytes ++ post), pre.length + bytes.length⟩ := by
  obtain ⟨bytes, hpack, hread⟩ := readInt_at true v (by simp)
  refine ⟨bytes, hpack, fun pre post => ?_⟩
  rw [readType, hread pre post true (.inl rfl)]
  rfl

section Parameters

variable {reader reader' : PacketReader} (registry : FileRegistry)

theorem readParam_value {ty : RpcType} (h : readType ty reader = .value v reader') :
    Ftp.readParam ty ⟨reader, registry⟩ = .done (.ok v, ⟨reader', registry⟩) := by
  have hread : (Procedure.read : FtpProcedure FtpState) ⟨reader, registry⟩ =
      .done (.ok ⟨reader, registry⟩, ⟨reader, registry⟩) := rfl
  rw [Ftp.readParam, Procedure.bind_done hread]
  rw [h]
  rfl

theorem readNumber_unsigned {v : ℤ}
    (h : readType .vUnsigned reader = .value (.vUnsigned v) reader') :
    Ftp.readNumber .vUnsigned ⟨reader, registry⟩ = .done (.ok v, ⟨reader', registry⟩) :=
  Procedure.bind_done (readParam_value registry h)

theorem readNumber_signed {v : ℤ} (h : readType .vSigned reader = .value (.vSigned v) reader') :
    Ftp.readNumber .vSigned ⟨reader, registry⟩ = .done (.ok v, ⟨reader', registry⟩) :=
  Procedure.bind_done (readParam_value registry h)

/-- The path of the file number that was read. -/
theorem serve_path {index : UInt8} {s s' : FtpState} {fileNo : ℤ} {path : Text}
    (hnumber : Ftp.readNumber .vUnsigned s = .done (.ok fileNo, s'))
    (hpath : s'.registry.pathOf fileNo = some path) :
    Ftp.serve index s = Ftp.function index path (fsPath s'.registry.root path) s' := by
  have hread : (Procedure.read : FtpProcedure FtpState) s' = .done (.ok s', s') := rfl
  rw [Ftp.serve, Procedure.bind_done hnumber, Procedure.bind_done hread, hpath]

end Parameters

variable {registry : FileRegistry} {k : ℕ} {path : Text} {η : Type}

variable (respond : FileRequest → η → FileAnswer × η)

/-- A call reaches the function with the file of its first parameter, in front of the others. -/
theorem serviceCall_function (hpath : registry.pathOf k = some path) {params : List RpcValue}
    (hparams : appendElements params = .ok bytes) :
    ∃ pre : Bytes, ∀ (index : UInt8) (files : η),
      serviceCall respond index (.vUnsigned k :: params) registry files =
        ((Ftp.function index path (fsPath registry.root path)
          ⟨⟨pre ++ bytes, pre.length⟩, registry⟩).exec respond files).map fun r =>
            (r.1.1, r.1.2.registry, r.2) := by
  obtain ⟨pre, hfirst, hread⟩ := readType_unsigned k
  refine ⟨pre, fun index files => ?_⟩
  have hnumber := readNumber_unsigned registry (hread [] bytes)
  rw [List.nil_append, List.length_nil, Nat.zero_add] at hnumber
  rw [serviceCall, appendElements_cons hfirst hparams]
  dsimp only
  rw [serve_path hnumber hpath]

theorem appendElements_one (h : appendValue v = .ok bytes) : appendElements [v] = .ok bytes := by
  rw [appendElements_cons h rfl, List.append_nil]

/-- What a request with its answer comes to. -/
def answered (errno : FtpErrno) (registry : FileRegistry) (r : FileAnswer × η) :
    Except ServiceError Ftp.Reply × FileRegistry × η :=
  (if r.1.ok then .ok (Ftp.vu r.1.number) else .error (.posix errno.value), registry, r.2)

theorem exec_answered (request : FileRequest) (errno : FtpErrno) (state : FtpState) (files : η) :
    (((do
      let answer ← Procedure.request request
      if answer.ok then pure (Ftp.vu answer.number) else Ftp.posix errno :
        FtpProcedure Ftp.Reply) state).exec respond files).map
      (fun r : (Except ServiceError Ftp.Reply × FtpState) × η => (r.1.1, r.1.2.registry, r.2)) =
      some (answered errno state.registry (respond request files)) := by
  show (((if (respond request files).1.ok then pure (Ftp.vu (respond request files).1.number)
    else Ftp.posix errno : FtpProcedure Ftp.Reply) state).exec respond
      (respond request files).2).map _ = _
  unfold answered
  cases (respond request files).1.ok <;> rfl

theorem truncate_call (hpath : registry.pathOf k = some path) (size : ℕ) (files : η) :
    serviceCall respond 40 [.vUnsigned k, .vUnsigned size] registry files =
      some (answered .enoent registry (respond
        (.setLength (fsPath registry.root path) ((FileRegistry.toU64 size).getD 0)) files)) := by
  obtain ⟨bytes, happend, hread⟩ := readType_unsigned size
  obtain ⟨pre, hcall⟩ := serviceCall_function respond hpath (appendElements_one happend)
  have hsize := hread pre []
  rw [List.append_nil] at hsize
  rw [hcall]
  show ((Ftp.truncate _ _).exec respond files).map _ = _
  rw [Ftp.truncate, Procedure.bind_done (readNumber_unsigned registry hsize)]
  exact exec_answered respond _ .enoent _ files

/-- A call of the function 41 is one request to the file system and its answer. -/
theorem writeFile_call (hpath : registry.pathOf k = some path) (position : ℕ) (data : Bytes)
    (files : η) :
    serviceCall respond 41 [.vUnsigned k, .vSigned position, .bytes data] registry files =
      some (answered .enoent registry (respond
        (.writeAt (fsPath registry.root path) ((FileRegistry.toU64 position).getD 0) data)
          files)) := by
  obtain ⟨bytes, happend, hread⟩ := readType_signed position
  have hdata : appendElements [.bytes data] = .ok data := appendElements_one rfl
  obtain ⟨pre, hcall⟩ := serviceCall_function respond hpath
    (appendElements_cons happend hdata)
  have hblob : readType .bytes ⟨pre ++ (bytes ++ data), pre.length + bytes.length⟩ =
      .value (.bytes data) ⟨pre ++ (bytes ++ data), (pre ++ (bytes ++ data)).length⟩ := by
    rw [readType, PacketReader.readBlobRemain, ← List.append_assoc, ← List.length_append,
      List.drop_left]
  rw [hcall]
  show ((Ftp.writeFile _ _).exec respond files).map _ = _
  rw [Ftp.writeFile, Procedure.bind_done (readNumber_signed registry (hread pre data)),
    Procedure.bind_done (readParam_value registry hblob)]
  exact exec_answered respond _ .enoent _ files

/-! ## What the disk holds afterwards -/

theorem toU64_natCast_of_lt {n : ℕ} (h : n < 2 ^ 64) : FileRegistry.toU64 n = some n := by
  unfold FileRegistry.toU64
  rw [if_pos ⟨Int.natCast_nonneg n, by exact_mod_cast h⟩, Int.toNat_natCast]

theorem toU64_natCast_of_ge {n : ℕ} (h : 2 ^ 64 ≤ n) : FileRegistry.toU64 n = none := by
  unfold FileRegistry.toU64
  rw [if_neg]
  intro hlt
  omega

section Stored

variable {bytes : Bytes} {before : Bool} (behind : Bool) (disk : FileDisk) (file : Text)

/-- The bytes were stored; the answer depends on what came behind. -/
theorem store_done (hbefore : before = true) (hlength : bytes.length < 2 ^ 64) :
    ((disk.store file bytes before behind).2.files file).bytes = bytes ∧
      (disk.store file bytes before behind).1.ok = behind := by
  have hsome : StoredFile.ofBytes bytes = some ⟨bytes, hlength⟩ := dif_pos hlength
  simp [FileDisk.store, hbefore, hsome]

/-- Nothing was stored, and the request failed. -/
theorem store_refused (h : before = false ∨ 2 ^ 64 ≤ bytes.length) :
    ((disk.store file bytes before behind).2.files file).bytes = (disk.files file).bytes ∧
      (disk.store file bytes before behind).1.ok = false := by
  rcases h with rfl | hlength
  · exact ⟨rfl, rfl⟩
  · have hnone : StoredFile.ofBytes bytes = none := dif_neg (Nat.not_lt.mpr hlength)
    cases before <;> simp [FileDisk.store, hnone]

variable {behind disk file} {registry : FileRegistry} {errno : FtpErrno}
  {stores : Bytes → Bytes → Prop}

/-- A call that makes one request to store bytes does what it should when those bytes are right,
when nothing was stored, or when the same bytes were stored and a later call failed. -/
theorem storesOrRefuses_iff :
    StoresOrRefuses stores disk file
        (some (answered errno registry (disk.store file bytes before behind))) ↔
      (before = true → bytes.length < 2 ^ 64 →
        stores (disk.files file).bytes bytes ∨
          (behind = false ∧ bytes = (disk.files file).bytes)) := by
  have hunfold : StoresOrRefuses stores disk file
      (some (answered errno registry (disk.store file bytes before behind))) ↔
        (stores (disk.files file).bytes
            ((disk.store file bytes before behind).2.files file).bytes ∨
          (disk.store file bytes before behind).1.ok = false ∧
            ((disk.store file bytes before behind).2.files file).bytes =
              (disk.files file).bytes) := by
    unfold StoresOrRefuses answered
    cases (disk.store file bytes before behind).1.ok <;> simp
  rw [hunfold]
  by_cases hstored : before = true ∧ bytes.length < 2 ^ 64
  · obtain ⟨hbytes, hok⟩ := store_done behind disk file hstored.1 hstored.2
    rw [hbytes, hok]
    simp only [hstored, forall_const]
  · have hrefused : before = false ∨ 2 ^ 64 ≤ bytes.length := by
      cases before with
      | false => exact .inl rfl
      | true => exact .inr (Nat.not_lt.mp fun h => hstored ⟨rfl, h⟩)
    obtain ⟨hbytes, hok⟩ := store_refused behind disk file hrefused
    refine iff_of_true (.inr ⟨hok, hbytes⟩) fun hbefore hlength => absurd ⟨hbefore, hlength⟩ hstored

end Stored

/-! ## Bytes -/

theorem overwrite_zero (bytes data : Bytes) :
    overwrite bytes 0 data = data ++ bytes.drop data.length := by
  by_cases hdata : data = []
  · simp [hdata, overwrite]
  · simp [hdata, overwrite]

/-- A complete write is in its place. -/
theorem storedAt_overwrite (bytes : Bytes) (position : ℕ) (data : Bytes) :
    StoredAt bytes (overwrite bytes position data) position data := by
  by_cases hdata : data = []
  · subst hdata
    exact ⟨fun j hj => absurd hj (Nat.not_lt_zero j), fun _ _ _ => rfl⟩
  · have hpre : ((bytes ++ List.replicate (position - bytes.length) 0).take position).length =
        position := by
      rw [List.length_take, List.length_append, List.length_replicate]
      omega
    rw [overwrite, if_neg hdata, List.append_assoc]
    constructor
    · intro j hj
      rw [List.getElem?_append_right (by omega), hpre, Nat.add_sub_cancel_left,
        List.getElem?_append_left hj]
    · intro j hj hout
      rcases hout with hlow | hhigh
      · rw [List.getElem?_append_left (by omega), List.getElem?_take_of_lt hlow,
          List.getElem?_append_left hj]
      · rw [List.getElem?_append_right (by omega), hpre, List.getElem?_append_right (by omega),
          List.getElem?_drop]
        congr 1
        omega

theorem resizedTo_resize (bytes : Bytes) (size : ℕ) :
    ResizedTo bytes (resize bytes size) size := by
  constructor
  · rw [resize, List.length_append, List.length_take, List.length_replicate]
    omega
  · rw [resize, List.take_append_of_le_length (by rw [List.length_take]), List.take_take,
      Nat.min_eq_left (Nat.min_le_left _ _)]

/-- Data behind every byte of the file are not there. -/
theorem not_storedAt_beyond {before after data : Bytes} {position : ℕ} (hdata : data ≠ [])
    (hlength : after.length ≤ position) : ¬ StoredAt before after position data := by
  intro h
  have hpos : 0 < data.length := List.length_pos_iff.mpr hdata
  have hlast := h.stored 0 hpos
  rw [Nat.add_zero, List.getElem?_eq_none hlength] at hlast
  rw [List.getElem?_eq_getElem hpos] at hlast
  cases hlast

/-! ## Functions 40 and 41 -/

/-- A write is done where it was asked for, or not at all: the position has 64 bits, or there is
nothing to write or too much, or the file cannot be opened, moved in or written, or it begins with
the data and a call behind the write fails. -/
def WritesInPlace (f : CallFates) (bytes : Bytes) (position : ℕ) (data : Bytes) : Prop :=
  position < 2 ^ 64 ∨ data = [] ∨ 2 ^ 64 ≤ data.length ∨ (f.opens && f.seeks && f.stores) = false ∨
    (f.flushes && f.measures) = false ∧ data <+: bytes

/-- The same for a new size: it has 64 bits, or the file cannot be opened or resized, or it is
empty and its length cannot be read afterwards. -/
def ResizesInPlace (f : CallFates) (bytes : Bytes) (size : ℕ) : Prop :=
  size < 2 ^ 64 ∨ (f.opens && f.stores) = false ∨ f.measures = false ∧ bytes = []

section Disk

variable (fates : ℕ → CallFates) (other : ℕ → FileRequest → FileAnswer) (disk : FileDisk)

/-- The function 41: when its answer says what has happened to the file. -/
theorem writeFile_iff (hpath : registry.pathOf k = some path) (position : ℕ) (data : Bytes) :
    StoresOrRefuses (fun before after => StoredAt before after position data) disk
        (fsPath registry.root path)
        (serviceCall (FileDisk.respond fates other) 41
          [.vUnsigned k, .vSigned position, .bytes data] registry disk) ↔
      WritesInPlace (fates disk.clock) (disk.files (fsPath registry.root path)).bytes position
        data := by
  rw [writeFile_call _ hpath]
  refine storesOrRefuses_iff.trans ?_
  obtain ⟨bytes, hbytes⟩ := disk.files (fsPath registry.root path)
  dsimp only
  by_cases hposition : position < 2 ^ 64
  · rw [toU64_natCast_of_lt hposition]
    exact iff_of_true (fun _ _ => .inl (storedAt_overwrite _ _ _)) (.inl hposition)
  · rw [toU64_natCast_of_ge (Nat.not_lt.mp hposition), Option.getD_none, overwrite_zero]
    by_cases hdata : data = []
    · subst hdata
      refine iff_of_true (fun _ _ => .inl ?_) (.inr (.inl rfl))
      exact ⟨fun j hj => absurd hj (Nat.not_lt_zero j), fun _ _ _ => rfl⟩
    · have hlength : (data ++ bytes.drop data.length).length < 2 ^ 64 ↔ data.length < 2 ^ 64 := by
        rw [List.length_append, List.length_drop]
        omega
      have hprefix : data ++ bytes.drop data.length = bytes ↔ data <+: bytes := by
        constructor
        · exact fun h => ⟨_, h⟩
        · rintro ⟨rest, rfl⟩
          rw [List.drop_left]
      unfold WritesInPlace
      rw [hlength, hprefix]
      constructor
      · intro h
        by_cases hstores : (fates disk.clock).opens && (fates disk.clock).seeks &&
            (fates disk.clock).stores
        · by_cases hfits : data.length < 2 ^ 64
          · rcases h hstores hfits with hstored | hsame
            · refine absurd hstored (not_storedAt_beyond hdata ?_)
              omega
            · exact .inr (.inr (.inr (.inr hsame)))
          · exact .inr (.inr (.inl (Nat.not_lt.mp hfits)))
        · exact .inr (.inr (.inr (.inl (Bool.eq_false_iff.mpr hstores))))
      · rintro (h | h | h | h | h) hstores hfits
        · exact absurd h hposition
        · exact absurd h hdata
        · omega
        · rw [h] at hstores
          cases hstores
        · exact .inr h

/-- The function 40. -/
theorem truncate_iff (hpath : registry.pathOf k = some path) (size : ℕ) :
    StoresOrRefuses (fun before after => ResizedTo before after size) disk
        (fsPath registry.root path)
        (serviceCall (FileDisk.respond fates other) 40 [.vUnsigned k, .vUnsigned size] registry
          disk) ↔
      ResizesInPlace (fates disk.clock) (disk.files (fsPath registry.root path)).bytes size := by
  rw [truncate_call _ hpath]
  refine storesOrRefuses_iff.trans ?_
  obtain ⟨bytes, hbytes⟩ := disk.files (fsPath registry.root path)
  by_cases hsize : size < 2 ^ 64
  · rw [toU64_natCast_of_lt hsize]
    exact iff_of_true (fun _ _ => .inl (resizedTo_resize _ _)) (.inl hsize)
  · have hempty : resize bytes 0 = [] := by simp [resize]
    rw [toU64_natCast_of_ge (Nat.not_lt.mp hsize), Option.getD_none, hempty]
    unfold ResizesInPlace
    constructor
    · intro h
      by_cases hstores : (fates disk.clock).opens && (fates disk.clock).stores
      · rcases h hstores (by decide) with hresized | hsame
        · have hzero : 0 = size := hresized.length_eq
          omega
        · exact .inr (.inr ⟨hsame.1, hsame.2.symm⟩)
      · exact .inr (.inl (Bool.eq_false_iff.mpr hstores))
    · rintro (h | h | h) hstores -
      · exact absurd h hsize
      · rw [h] at hstores
        cases hstores
      · exact .inr ⟨h.1, h.2.symm⟩

end Disk

/-- For every file, position and data, and every size: where the calls of the file system store
exactly or fail without effect, writing and truncating happen where asked or not at all exactly
under these conditions.
SOURCE: rpc/ftp.rs:213-219, 402-437 -/
theorem file_writes_in_place_iff (fates : ℕ → CallFates) (other : ℕ → FileRequest → FileAnswer)
    (registry : FileRegistry) (k : ℕ) (path : Text) (hpath : registry.pathOf k = some path)
    (disk : FileDisk) (position : ℕ) (data : List UInt8) (size : ℕ) :
    (StoresOrRefuses (fun before after => StoredAt before after position data) disk
        (fsPath registry.root path)
        (serviceCall (FileDisk.respond fates other) 41
          [.vUnsigned k, .vSigned position, .bytes data] registry disk) ↔
      WritesInPlace (fates disk.clock) (disk.files (fsPath registry.root path)).bytes position
        data) ∧
    (StoresOrRefuses (fun before after => ResizedTo before after size) disk
        (fsPath registry.root path)
        (serviceCall (FileDisk.respond fates other) 40 [.vUnsigned k, .vUnsigned size] registry
          disk) ↔
      ResizesInPlace (fates disk.clock) (disk.files (fsPath registry.root path)).bytes size) :=
  ⟨writeFile_iff fates other disk hpath position data, truncate_iff fates other disk hpath size⟩

/-- A directory with one file, on a disk where every call succeeds. -/
def oneFileRegistry : FileRegistry :=
  ⟨"/srv".toList, [['/'], "/a".toList], [(['/'], 0), ("/a".toList, 1)]⟩

def digitsDisk : FileDisk := ⟨fun _ => ⟨[48, 49, 50, 51, 52, 53, 54, 55, 56, 57], by decide⟩, 0⟩

def allSucceed (_ : ℕ) : CallFates := ⟨true, true, true, true, true⟩

def answerNo (_ : ℕ) (_ : FileRequest) : FileAnswer := ⟨false, [], 0, []⟩

theorem oneFileRegistry_pathOf : oneFileRegistry.pathOf (1 : ℕ) = some "/a".toList := by decide

/-- Two bytes are written at position 2 of a file of digits, and the file is cut to four bytes. -/
theorem digits_written_in_place :
    StoresOrRefuses (fun before after => StoredAt before after 2 [97, 98]) digitsDisk
        (fsPath "/srv".toList "/a".toList)
        (serviceCall (FileDisk.respond allSucceed answerNo) 41
          [.vUnsigned (1 : ℕ), .vSigned (2 : ℕ), .bytes [97, 98]] oneFileRegistry digitsDisk) ∧
      StoresOrRefuses (fun before after => ResizedTo before after 4) digitsDisk
        (fsPath "/srv".toList "/a".toList)
        (serviceCall (FileDisk.respond allSucceed answerNo) 40
          [.vUnsigned (1 : ℕ), .vUnsigned (4 : ℕ)] oneFileRegistry digitsDisk) := by
  have h := file_writes_in_place_iff allSucceed answerNo oneFileRegistry 1 _ oneFileRegistry_pathOf
    digitsDisk 2 [97, 98] 4
  exact ⟨h.1.mpr (.inl (by decide)), h.2.mpr (.inl (by decide))⟩

/-- A write at 2 ^ 64 goes to the beginning of the file, and the size 2 ^ 64 empties it. -/
theorem digits_not_in_place :
    ¬ StoresOrRefuses (fun before after => StoredAt before after (2 ^ 64) [97]) digitsDisk
        (fsPath "/srv".toList "/a".toList)
        (serviceCall (FileDisk.respond allSucceed answerNo) 41
          [.vUnsigned (1 : ℕ), .vSigned ((2 ^ 64 : ℕ) : ℤ), .bytes [97]] oneFileRegistry
          digitsDisk) ∧
      ¬ StoresOrRefuses (fun before after => ResizedTo before after (2 ^ 64)) digitsDisk
        (fsPath "/srv".toList "/a".toList)
        (serviceCall (FileDisk.respond allSucceed answerNo) 40
          [.vUnsigned (1 : ℕ), .vUnsigned ((2 ^ 64 : ℕ) : ℤ)] oneFileRegistry digitsDisk) := by
  constructor
  · intro h
    have hplace := (writeFile_iff allSucceed answerNo digitsDisk oneFileRegistry_pathOf _ _).mp h
    simp [WritesInPlace, allSucceed] at hplace
  · intro h
    have hplace := (truncate_iff allSucceed answerNo digitsDisk oneFileRegistry_pathOf _).mp h
    simp [ResizesInPlace, allSucceed] at hplace

end Uartbus.Analysis
