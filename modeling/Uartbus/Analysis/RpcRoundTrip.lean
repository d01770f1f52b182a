import Mathlib.Data.List.Basic
import Uartbus.Lib.Utf8
import Uartbus.Interface.RpcTyping
import Uartbus.Analysis.PackValue

/-!
# Typed values survive the wire

`Reads` says what a type reads at the place where a value was written.  Every delimited type
reads its value whatever follows (`readType_delimited`), by induction over the type; a type at the
end of the packet reads it when nothing follows (`readType_mayEnd`).
-/

set_option autoImplicit false

namespace Uartbus.Analysis

open Lib Model Interface

/-! ## The readers at the place of a value -/

section Readers

variable (pre post : Bytes)

theorem readUbyte_at (b : UInt8) :
    PacketReader.readUbyte ⟨pre ++ ([b] ++ post), pre.length⟩ =
      some (b, ⟨pre ++ ([b] ++ post), pre.length + 1⟩) := by
  simp [PacketReader.readUbyte]

theorem fromBeBytes_toBeBytes (w : UInt16) :
    fromBeBytes (w >>> 8).toUInt8 w.toUInt8 = w := by
  have hlt := w.toNat_lt
  have hhigh : (w >>> 8).toUInt8.toNat = w.toNat / 256 := by
    rw [UInt16.toNat_toUInt8, UInt16.toNat_shiftRight, Nat.shiftRight_eq_div_pow]
    show w.toNat / 256 % 2 ^ 8 = _
    omega
  apply UInt16.toNat_inj.mp
  unfold fromBeBytes
  rw [UInt16.toNat_or, UInt16.toNat_shiftLeft, UInt8.toNat_toUInt16, UInt8.toNat_toUInt16, hhigh,
    UInt16.toNat_toUInt8]
  show (w.toNat / 256) <<< 8 % 2 ^ 16 ||| w.toNat % 256 = w.toNat
  have hshift : (w.toNat / 256) <<< 8 = w.toNat / 256 * 2 ^ 8 := Nat.shiftLeft_eq _ _
  rw [Nat.mod_eq_of_lt (by omega), ← Nat.shiftLeft_add_eq_or_of_lt (by omega), hshift]
  omega

theorem readU16Be_at (w : UInt16) :
    PacketReader.readU16Be ⟨pre ++ (toBeBytes w ++ post), pre.length⟩ =
      some (w, ⟨pre ++ (toBeBytes w ++ post), pre.length + 2⟩) := by
  simp [PacketReader.readU16Be, toBeBytes, fromBeBytes_toBeBytes]

/-- `unpackValue_packed` for a reader. -/
theorem readInt_at (signed : Bool) (v : ℤ) (hv : signed = false → 0 ≤ v) :
    ∃ bytes, packValue signed v = .ok bytes ∧ ∀ pre post (mode : Bool),
      mode = signed ∨ (mode = false ∧ 0 ≤ v) →
        PacketReader.readInt ⟨pre ++ (bytes ++ post), pre.length⟩ mode =
          .ok (v, ⟨pre ++ (bytes ++ post), pre.length + bytes.length⟩) := by
  obtain ⟨bytes, hpack, hread⟩ := unpackValue_packed signed v hv
  refine ⟨bytes, hpack, fun pre post mode hmode => ?_⟩
  have hunpack := hread pre post mode hmode
  rw [List.append_assoc] at hunpack
  simp only [PacketReader.readInt, hunpack, bind, Except.bind, pure, Except.pure]

end Readers

/-! ## Strings -/

section Strings

theorem fromUTF8?_toList (s : String) :
    String.fromUTF8? ⟨s.toUTF8.toList.toArray⟩ = some s := by
  rw [byteArray_toList, Array.toArray_toList, String.toUTF8_eq_toByteArray]
  unfold String.fromUTF8?
  rw [dif_pos s.isValidUTF8]
  rfl

/-- Only the NUL character is encoded with a zero byte. -/
theorem zero_notMem_utf8EncodeChar {c : Char} (hc : c ≠ '\x00') :
    (0 : UInt8) ∉ String.utf8EncodeChar c := by
  have hpos : c.val.toNat ≠ 0 := by
    intro h
    apply hc
    apply Char.ext
    apply UInt32.toNat_inj.mp
    exact h
  have hbyte : ∀ x, 0 < x → x < 256 → (0 : UInt8) ≠ UInt8.ofNat x := by
    intro x hx hlt h
    have := congrArg UInt8.toNat h
    rw [UInt8.toNat_ofNat', Nat.mod_eq_of_lt hlt] at this
    exact absurd this.symm (by simpa using Nat.pos_iff_ne_zero.mp hx)
  rw [String.utf8EncodeChar.eq_1]
  split
  · simp only [List.mem_singleton]
    exact hbyte _ (by omega) (by omega)
  split
  · simp only [List.mem_cons, List.not_mem_nil, or_false, not_or]
    refine ⟨?_, ?_⟩ <;> exact hbyte _ (by omega) (by omega)
  split
  · simp only [List.mem_cons, List.not_mem_nil, or_false, not_or]
    refine ⟨?_, ?_, ?_⟩ <;> exact hbyte _ (by omega) (by omega)
  · simp only [List.mem_cons, List.not_mem_nil, or_false, not_or]
    refine ⟨?_, ?_, ?_, ?_⟩ <;> exact hbyte _ (by omega) (by omega)

theorem zero_notMem_toUTF8 {s : String} (hs : '\x00' ∉ s.toList) :
    (0 : UInt8) ∉ s.toUTF8.toList := by
  rw [toUTF8_toList, utf8Bytes, List.mem_flatMap]
  rintro ⟨c, hc, hzero⟩
  exact zero_notMem_utf8EncodeChar (fun h => hs (h ▸ hc)) hzero

theorem readString_at {s : String} (hs : '\x00' ∉ s.toList) (pre post : Bytes) :
    PacketReader.readString ⟨pre ++ (s.toUTF8.toList ++ [0] ++ post), pre.length⟩ =
      .ok (s, ⟨pre ++ (s.toUTF8.toList ++ [0] ++ post),
        pre.length + (s.toUTF8.toList ++ [0]).length⟩) := by
  have hzero := zero_notMem_toUTF8 hs
  have hfind : (s.toUTF8.toList ++ [0] ++ post).findIdx (· = 0) = s.toUTF8.toList.length := by
    have hnone : s.toUTF8.toList.findIdx (· = 0) = s.toUTF8.toList.length := by
      rw [List.findIdx_eq_length]
      intro b hb
      simpa using fun h : b = 0 => hzero (h ▸ hb)
    rw [List.append_assoc, List.findIdx_append, if_neg (by omega)]
    simp [List.findIdx_cons]
  unfold PacketReader.readString
  simp only [List.drop_left, hfind]
  rw [if_pos (by simp), List.append_assoc, List.take_left, fromUTF8?_toList]
  simp [Nat.add_assoc]

end Strings

/-! ## Types -/

/-- A reader that stands at the bytes gives the value and stands behind them. -/
def Reads (ty : RpcType) (v : RpcValue) (bytes post : Bytes) : Prop :=
  ∀ pre, readType ty ⟨pre ++ (bytes ++ post), pre.length⟩ =
    .value v ⟨pre ++ (bytes ++ post), pre.length + bytes.length⟩

/-- The fields of a struct, behind the ones that were read before. -/
def ReadsFields (types : List RpcType) (values : List RpcValue) (bytes post : Bytes) : Prop :=
  ∀ pre before, readFields types ⟨pre ++ (bytes ++ post), pre.length⟩ before =
    .value (.struct (before ++ values)) ⟨pre ++ (bytes ++ post), pre.length + bytes.length⟩

theorem reads_ubyte {ty : RpcType} {wrap : UInt8 → RpcValue} {b : UInt8} (post : Bytes)
    (hread : ∀ r, readType ty r = .ofOption wrap r.readUbyte) : Reads ty (wrap b) [b] post := by
  intro pre
  rw [hread, readUbyte_at]
  rfl

theorem reads_u16 {ty : RpcType} {wrap : UInt16 → RpcValue} {w : UInt16} (post : Bytes)
    (hread : ∀ r, readType ty r = .ofOption wrap r.readU16Be) :
    Reads ty (wrap w) (toBeBytes w) post := by
  intro pre
  rw [hread, readU16Be_at]
  rfl

theorem appendElements_nil : appendElements [] = .ok [] := rfl

theorem appendElements_cons {v : RpcValue} {values : List RpcValue} {first rest : Bytes}
    (hfirst : appendValue v = .ok first) (hrest : appendElements values = .ok rest) :
    appendElements (v :: values) = .ok (first ++ rest) := by
  rw [appendElements, hfirst, hrest]
  rfl

/-- The first field is read at its place, the others behind it. -/
theorem ReadsFields.cons {ty : RpcType} {types : List RpcType} {v : RpcValue}
    {values : List RpcValue} {first rest post : Bytes}
    (hfirst : Reads ty v first (rest ++ post)) (hrest : ReadsFields types values rest post) :
    ReadsFields (ty :: types) (v :: values) (first ++ rest) post := by
  intro pre before
  have hread := hfirst pre
  have hnext := hrest (pre ++ first) (before ++ [v])
  rw [List.append_assoc, List.length_append] at hnext
  rw [List.append_assoc, readFields, hread]
  simp only [hnext, List.append_assoc, List.singleton_append, List.length_append, Nat.add_assoc]

mutual

/-- **Delimited types.**  Every value of a delimited type is written, and read back from its place
whatever follows it. -/
theorem readType_delimited : ∀ (ty : RpcType) (v : RpcValue), Delimited ty → HasType ty v →
    ∃ bytes, appendValue v = .ok bytes ∧ ∀ post, Reads ty v bytes post
  | .bool, _, _, ⟨b, rfl⟩ => by
    refine ⟨_, rfl, fun post => ?_⟩
    have hread := reads_ubyte (b := if b then 1 else 0) post
      (fun r => (rfl : readType .bool r = _))
    have hvalue : RpcValue.bool (decide ((if b then 1 else 0 : UInt8) ≠ 0)) = .bool b := by
      cases b <;> rfl
    rwa [hvalue] at hread
  | .s8, _, _, ⟨b, rfl⟩ => by
    refine ⟨_, rfl, fun post => ?_⟩
    have hread := reads_ubyte (b := b.toUInt8) post (fun r => (rfl : readType .s8 r = _))
    simpa using hread
  | .u8, _, _, ⟨b, rfl⟩ => ⟨_, rfl, fun post => reads_ubyte post fun _ => rfl⟩
  | .uint8, _, _, ⟨b, rfl⟩ => ⟨_, rfl, fun post => reads_ubyte post fun _ => rfl⟩
  | .u16, _, _, ⟨w, rfl⟩ => ⟨_, rfl, fun post => reads_u16 post fun _ => rfl⟩
  | .uint16, _, _, ⟨w, rfl⟩ => ⟨_, rfl, fun post => reads_u16 post fun _ => rfl⟩
  | .s16, _, _, ⟨w, rfl⟩ => by
    refine ⟨_, rfl, fun post => ?_⟩
    have hread := reads_u16 (w := w.toUInt16) post (fun r => (rfl : readType .s16 r = _))
    simpa using hread
  | .string, _, _, ⟨s, rfl, hs⟩ => by
    refine ⟨_, rfl, fun post pre => ?_⟩
    rw [readType, readString_at hs]
    rfl
  | .vSigned, _, _, ⟨z, rfl⟩ => by
    obtain ⟨bytes, hpack, hread⟩ := readInt_at true z (by simp)
    refine ⟨bytes, hpack, fun post pre => ?_⟩
    rw [readType, hread pre post true (.inl rfl)]
    rfl
  | .vUnsigned, _, _, ⟨z, rfl, hz⟩ => by
    -- written with a sign bit, read without
    obtain ⟨bytes, hpack, hread⟩ := readInt_at true z (by simp)
    refine ⟨bytes, hpack, fun post pre => ?_⟩
    rw [readType, hread pre post false (.inr ⟨rfl, hz⟩)]
    rfl
  | .enum values, _, _, ⟨i, rfl, hlen, hi⟩ => by
    obtain ⟨bytes, hpack, hread⟩ := readInt_at false i (fun _ => Int.natCast_nonneg i)
    refine ⟨bytes, hpack, fun post pre => ?_⟩
    rw [readType, readEnum, hread pre post false (.inl rfl)]
    have hrange : 0 ≤ (i : ℤ) ∧ (i : ℤ) < 2 ^ 64 := ⟨Int.natCast_nonneg i, by exact_mod_cast hi⟩
    simp only [if_pos hrange, Int.toNat_natCast]
    rw [if_neg (by omega)]
  | .struct types, _, hty, ⟨fields, rfl, hfields⟩ => by
    obtain ⟨bytes, hwrite, hread⟩ := readFields_delimited types fields hty hfields
    refine ⟨bytes, hwrite, fun post pre => ?_⟩
    rw [readType, hread post pre [], List.nil_append]

theorem readFields_delimited : ∀ (types : List RpcType) (values : List RpcValue),
    AllDelimited types → HaveTypes types values →
      ∃ bytes, appendElements values = .ok bytes ∧ ∀ post, ReadsFields types values bytes post
  | [], _, _, hvalues => by
    cases hvalues
    refine ⟨[], rfl, fun post pre before => ?_⟩
    rw [readFields, List.append_nil]
    rfl
  | ty :: types, _, ⟨hty, htypes⟩, ⟨v, values, rfl, hv, hvalues⟩ => by
    obtain ⟨first, hfirst, hread⟩ := readType_delimited ty v hty hv
    obtain ⟨rest, hrest, hreads⟩ := readFields_delimited types values htypes hvalues
    exact ⟨first ++ rest, appendElements_cons hfirst hrest,
      fun post => ReadsFields.cons (hread _) (hreads post)⟩

end

/-! ## The end of the packet -/

section Array

variable {readItem : PacketReader → ReadOutcome} {r next : PacketReader}

theorem readArray_done (fuel : ℕ) (before : List RpcValue) (h : r.hasUnprocessedBytes = false) :
    readArray readItem fuel r before = .value (.array before) r := by
  cases fuel <;> simp [readArray, h]

theorem readArray_round (fuel : ℕ) (before : List RpcValue) {v : RpcValue}
    (hmore : r.hasUnprocessedBytes = true) (hitem : readItem r = .value v next) :
    readArray readItem (fuel + 1) r before = readArray readItem fuel next (before ++ [v]) := by
  simp [readArray, hmore, hitem]

end Array

/-- The array loop gives back the items: each of them takes at least one byte, so as many rounds
are enough as there are bytes. -/
theorem readArray_delimited {item : RpcType} (hitem : Delimited item) (htakes : TakesBytes item)
    (values : List RpcValue) (hvalues : ∀ x ∈ values, HasType item x) :
    ∃ bytes, appendElements values = .ok bytes ∧
      ∀ pre before fuel, bytes.length ≤ fuel →
        readArray (readType item) fuel ⟨pre ++ bytes, pre.length⟩ before =
          .value (.array (before ++ values)) ⟨pre ++ bytes, pre.length + bytes.length⟩ := by
  induction values with
  | nil =>
    refine ⟨[], rfl, fun pre before fuel _ => ?_⟩
    have hdone : (PacketReader.mk (pre ++ []) pre.length).hasUnprocessedBytes = false := by
      simp [PacketReader.hasUnprocessedBytes]
    rw [readArray_done fuel before hdone, List.append_nil before]
    rfl
  | cons v values ih =>
    obtain ⟨first, hfirst, hread⟩ :=
      readType_delimited item v hitem (hvalues v (List.mem_cons_self ..))
    obtain ⟨rest, hrest, hreads⟩ := ih fun x hx => hvalues x (List.mem_cons_of_mem _ hx)
    refine ⟨first ++ rest, appendElements_cons hfirst hrest, fun pre before fuel hfuel => ?_⟩
    have hpos : 0 < first.length := by
      apply List.length_pos_of_ne_nil
      rintro rfl
      exact htakes v (hvalues v (List.mem_cons_self ..)) hfirst
    rw [List.length_append] at hfuel
    obtain ⟨fuel, rfl⟩ : ∃ k, fuel = k + 1 := ⟨fuel - 1, by omega⟩
    have hmore : (PacketReader.mk (pre ++ (first ++ rest)) pre.length).hasUnprocessedBytes =
        true := by
      simp only [PacketReader.hasUnprocessedBytes, List.length_append, decide_eq_true_eq]
      omega
    have hnext := hreads (pre ++ first) (before ++ [v]) fuel (by omega)
    rw [List.append_assoc, List.length_append] at hnext
    rw [readArray_round fuel before hmore (hread rest pre), hnext]
    simp only [List.append_assoc, List.singleton_append, List.length_append, Nat.add_assoc]

theorem reads_of_delimited {ty : RpcType} {v : RpcValue} (hty : Delimited ty) (hv : HasType ty v) :
    ∃ bytes, appendValue v = .ok bytes ∧ Reads ty v bytes [] := by
  obtain ⟨bytes, hwrite, hread⟩ := readType_delimited ty v hty hv
  exact ⟨bytes, hwrite, hread []⟩

mutual

/-- The last value of a packet is read back, and nothing is left. -/
theorem readType_mayEnd : ∀ (ty : RpcType) (v : RpcValue), MayEnd ty → HasType ty v →
    ∃ bytes, appendValue v = .ok bytes ∧ Reads ty v bytes []
  | .bytes, _, _, ⟨blob, rfl⟩ => by
    refine ⟨blob, rfl, fun pre => ?_⟩
    simp [readType, PacketReader.readBlobRemain]
  | .array item, _, ⟨hitem, htakes⟩, ⟨items, rfl, hitems⟩ => by
    obtain ⟨bytes, hwrite, hread⟩ := readArray_delimited hitem htakes items hitems
    refine ⟨bytes, hwrite, fun pre => ?_⟩
    rw [List.append_nil, readType, hread pre [] _ (by simp), List.nil_append]
  | .struct types, _, hty, ⟨fields, rfl, hfields⟩ => by
    obtain ⟨bytes, hwrite, hread⟩ := readFields_endsOpen types fields hty hfields
    refine ⟨bytes, hwrite, fun pre => ?_⟩
    rw [readType, hread pre [], List.nil_append]
  | .bool, _, _, hv => reads_of_delimited trivial hv
  | .s8, _, _, hv => reads_of_delimited trivial hv
  | .u8, _, _, hv => reads_of_delimited trivial hv
  | .uint8, _, _, hv => reads_of_delimited trivial hv
  | .u16, _, _, hv => reads_of_delimited trivial hv
  | .uint16, _, _, hv => reads_of_delimited trivial hv
  | .s16, _, _, hv => reads_of_delimited trivial hv
  | .string, _, _, hv => reads_of_delimited trivial hv
  | .vSigned, _, _, hv => reads_of_delimited trivial hv
  | .vUnsigned, _, _, hv => reads_of_delimited trivial hv
  | .enum _, _, _, hv => reads_of_delimited trivial hv

/-- The last value may take all bytes that are left. -/
theorem readFields_endsOpen : ∀ (types : List RpcType) (values : List RpcValue),
    EndsOpen types → HaveTypes types values →
      ∃ bytes, appendElements values = .ok bytes ∧ ReadsFields types values bytes []
  | [], values, _, hvalues => by
    obtain ⟨bytes, hwrite, hread⟩ := readFields_delimited [] values trivial hvalues
    exact ⟨bytes, hwrite, hread []⟩
  | [ty], _, hty, ⟨v, values, rfl, hv, hvalues⟩ => by
    obtain ⟨first, hfirst, hread⟩ := readType_mayEnd ty v hty hv
    obtain ⟨rest, hrest, hreads⟩ := readFields_delimited [] values trivial hvalues
    obtain rfl : values = [] := hvalues
    obtain rfl : [] = rest := Except.ok.inj hrest
    exact ⟨first ++ [], appendElements_cons hfirst hrest, ReadsFields.cons hread (hreads [])⟩
  | ty :: next :: types, _, ⟨hty, htypes⟩, ⟨v, values, rfl, hv, hvalues⟩ => by
    obtain ⟨first, hfirst, hread⟩ := readType_delimited ty v hty hv
    obtain ⟨rest, hrest, hreads⟩ := readFields_endsOpen (next :: types) values htypes hvalues
    exact ⟨first ++ rest, appendElements_cons hfirst hrest, ReadsFields.cons (hread _) hreads⟩

end

/-- The loop over the fields of a struct reads type by type. -/
theorem readTypes_of_readFields {types : List RpcType} {r r' : PacketReader}
    {before : List RpcValue} {v : RpcValue} (h : readFields types r before = .value v r') :
    ∃ values, v = .struct (before ++ values) ∧ readTypes types r = some (values, r') := by
  induction types generalizing r before with
  | nil =>
    rw [readFields, ReadOutcome.value.injEq] at h
    exact ⟨[], by rw [List.append_nil, h.1], by rw [readTypes, h.2]⟩
  | cons ty types ih =>
    rw [readFields] at h
    cases hread : readType ty r with
    | error err => simp [hread] at h
    | diverges => simp [hread] at h
    | value first next =>
      simp only [hread] at h
      obtain ⟨values, hv, hrest⟩ := ih h
      refine ⟨first :: values, by rw [hv, List.append_assoc, List.singleton_append], ?_⟩
      simp only [readTypes, hread, hrest, Option.map_some]

/-- **Round trip.**  A list of values that match their types, of which only the last may run to
the end of the packet, is written, and read back type by type up to the last byte.
SOURCE: rpc/tools.rs:87-121, 131-206; packet.rs:152-236 -/
theorem readTypes_appendElements (types : List RpcType) (values : List RpcValue)
    (pre : List UInt8) (hvalues : HaveTypes types values) (hends : EndsOpen types) :
    ∃ bytes, appendElements values = .ok bytes ∧
      readTypes types ⟨pre ++ bytes, pre.length⟩ =
        some (values, ⟨pre ++ bytes, (pre ++ bytes).length⟩) := by
  obtain ⟨bytes, hwrite, hread⟩ := readFields_endsOpen types values hends hvalues
  have hfields := hread pre []
  rw [List.append_nil] at hfields
  obtain ⟨read, hstruct, hreads⟩ := readTypes_of_readFields hfields
  obtain rfl : values = read := by simpa using hstruct
  refine ⟨bytes, hwrite, ?_⟩
  rw [hreads, List.length_append]

/-- A struct that ends in an array of pairs, behind an unsigned value and a string. -/
theorem readTypes_appendElements_nested :
    ∃ bytes, appendElements [.vUnsigned 64, .string "a",
        .struct [.enum 1, .array [.struct [.u8 1, .vSigned (-1)], .struct [.u8 2, .vSigned 7]]]] =
          .ok bytes ∧
      readTypes [.vUnsigned, .string,
          .struct [.enum ["off", "on"], .array (.struct [.u8, .vSigned])]] ⟨[] ++ bytes, 0⟩ =
        some ([.vUnsigned 64, .string "a",
          .struct [.enum 1, .array [.struct [.u8 1, .vSigned (-1)], .struct [.u8 2, .vSigned 7]]]],
          ⟨[] ++ bytes, ([] ++ bytes).length⟩) := by
  have hpair : ∀ b z, HasType (.struct [.u8, .vSigned]) (.struct [.u8 b, .vSigned z]) :=
    fun b z => ⟨_, rfl, _, _, rfl, ⟨b, rfl⟩, _, _, rfl, ⟨z, rfl⟩, rfl⟩
  have htakes : TakesBytes (.struct [.u8, .vSigned]) := by
    rintro _ ⟨_, rfl, _, _, rfl, ⟨b, rfl⟩, _, _, rfl, ⟨z, rfl⟩, rfl⟩ hempty
    obtain ⟨bytes, hpack, -⟩ := readInt_at true z (by simp)
    have hrest : appendElements [.vSigned z] = .ok (bytes ++ []) := appendElements_cons hpack rfl
    have hall : appendElements [.u8 b, .vSigned z] = .ok ([b] ++ (bytes ++ [])) :=
      appendElements_cons rfl hrest
    have hbytes := Except.ok.inj (hall.symm.trans hempty)
    simp at hbytes
  refine readTypes_appendElements _ _ [] ?_ ?_
  · refine ⟨_, _, rfl, ⟨64, rfl, by norm_num⟩, _, _, rfl, ⟨"a", rfl, by decide⟩, _, _, rfl,
      ⟨_, rfl, _, _, rfl, ⟨1, rfl, by decide, by norm_num⟩, _, _, rfl, ⟨_, rfl, ?_⟩, rfl⟩, rfl⟩
    intro x hx
    rcases List.mem_pair.mp hx with rfl | rfl
    · exact hpair 1 (-1)
    · exact hpair 2 7
  · exact ⟨trivial, trivial, trivial, ⟨trivial, trivial, trivial⟩, htakes⟩

end Uartbus.Analysis
