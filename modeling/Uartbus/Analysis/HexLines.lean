import Uartbus.Interface.HexRecords

/-!
# Lines of a hex file

`IntelHexLine::new` reads the bytes off the digits of a line (`new_eq_ok_iff`), and the check of
`assert_valid` holds when they sum up to a multiple of 256 (`checksum_eq_iff`).  The length byte is
stored and never compared with the number of data bytes.
-/

set_option autoImplicit false

namespace Uartbus.Analysis

open Lib Interface Model

variable {c : Char} {x : ℕ} {text line : Text} {bytes : Bytes} {l : IntelHexLine}

/-! ## Digits -/

theorem hexDigit_lt (h : HexDigit c x) : x < 16 := by
  rcases h with h | h <;> exact (List.getElem?_eq_some_iff.mp h).1

/-- What holds of every digit, from a look at each of them. -/
theorem hexDigit_induct {p : Char → ℕ → Prop}
    (hupper : ∀ x : Fin 16, p ("0123456789ABCDEF".toList[x]) x)
    (hlower : ∀ x : Fin 16, p ("0123456789abcdef".toList[x]) x) (h : HexDigit c x) : p c x := by
  have hlt := hexDigit_lt h
  rcases h with h | h
  · obtain ⟨-, rfl⟩ := List.getElem?_eq_some_iff.mp h
    exact hupper ⟨x, hlt⟩
  · obtain ⟨-, rfl⟩ := List.getElem?_eq_some_iff.mp h
    exact hlower ⟨x, hlt⟩

/-- A run of digits whose characters follow each other. -/
theorem digit_of_range (digits : String) (base offset count : ℕ)
    (hall : ∀ k : Fin count, digits.toList[offset + k.val]? = some (Char.ofNat (base + k.val)))
    (hlow : base ≤ c.toNat) (hhigh : c.toNat < base + count) :
    digits.toList[c.toNat - base + offset]? = some c := by
  have h := hall ⟨c.toNat - base, by omega⟩
  rwa [Nat.add_sub_cancel' hlow, Char.ofNat_toNat, Nat.add_comm] at h

/-- `to_digit(16)` knows the digits. -/
theorem toDigit16_eq_some_iff : toDigit16 c = some x ↔ HexDigit c x := by
  constructor
  · intro h
    unfold toDigit16 at h
    split at h
    case isTrue hrange =>
      obtain rfl := Option.some.inj h
      exact .inl (digit_of_range "0123456789ABCDEF" 0x30 0 10 (by decide) hrange.1 (by omega))
    case isFalse =>
      split at h
      case isTrue hrange =>
        obtain rfl := Option.some.inj h
        have hdigit := digit_of_range "0123456789ABCDEF" 0x41 10 6 (by decide) hrange.1 (by omega)
        rw [show c.toNat - 0x41 + 10 = c.toNat - 0x37 by omega] at hdigit
        exact .inl hdigit
      case isFalse =>
        split at h
        case isTrue hrange =>
          obtain rfl := Option.some.inj h
          have hdigit := digit_of_range "0123456789abcdef" 0x61 10 6 (by decide) hrange.1 (by omega)
          rw [show c.toNat - 0x61 + 10 = c.toNat - 0x57 by omega] at hdigit
          exact .inr hdigit
        case isFalse => exact absurd h (by simp)
  · exact hexDigit_induct (p := fun c x => toDigit16 c = some x) (by decide) (by decide)

theorem toUpper_hexDigit (h : HexDigit c x) : c.toUpper = upperHexDigit x :=
  hexDigit_induct (p := fun c x => c.toUpper = upperHexDigit x) (by decide) (by decide) h

theorem hexDigit_ascii (h : HexDigit c x) : c.toNat < 128 :=
  hexDigit_induct (p := fun c _ => c.toNat < 128) (by decide) (by decide) h

theorem hexDigit_upperHexDigit (h : x < 16) : HexDigit (upperHexDigit x) x := by
  have hall : ∀ x : Fin 16, "0123456789ABCDEF".toList[x.val]? = some (upperHexDigit x) := by decide
  exact .inl (hall ⟨x, h⟩)

/-! ## Bytes -/

/-- What holds of every digit holds of the characters of the digits. -/
theorem hexDigits_forall {p : Char → Prop} (hp : ∀ c x, HexDigit c x → p c)
    (h : HexDigits text bytes) : ∀ c ∈ text, p c := by
  induction h with
  | nil => simp
  | cons hhigh hlow _ ih =>
    intro c hc
    rcases List.mem_cons.mp hc with rfl | hc
    · exact hp _ _ hhigh
    · rcases List.mem_cons.mp hc with rfl | hc
      · exact hp _ _ hlow
      · exact ih c hc

theorem hexDigits_isDigit (h : HexDigits text bytes) :
    (text.any fun ch => (toDigit16 ch).isNone) = false := by
  rw [List.any_eq_false]
  refine hexDigits_forall (fun c x hc => ?_) h
  simp [toDigit16_eq_some_iff.mpr hc]

theorem hexDigits_length (h : HexDigits text bytes) : text.length = 2 * bytes.length := by
  induction h with
  | nil => rfl
  | cons _ _ _ ih =>
    rw [List.length_cons, List.length_cons, List.length_cons, ih]
    omega

theorem hexDigits_utf8 (h : HexDigits text bytes) : (utf8Bytes text).length = 2 * bytes.length := by
  rw [utf8Bytes_ascii (hexDigits_forall (fun _ _ => hexDigit_ascii) h), List.length_map,
      hexDigits_length h]

/-- The two digits of a byte. -/
theorem nibbles_toNat {h l : ℕ} (hh : h < 16) (hl : l < 16) :
    (UInt8.ofNat h <<< 4 ||| UInt8.ofNat l).toNat = 16 * h + l := by
  have hall : ∀ h l : Fin 16,
      (UInt8.ofNat h.val <<< 4 ||| UInt8.ofNat l.val).toNat = 16 * h.val + l.val := by decide
  exact hall ⟨h, hh⟩ ⟨l, hl⟩

/-- The loop of `from_hex` accepts the digits of bytes only. -/
theorem hexPairs_eq_ok_iff (hex : Text) : hexPairs hex text = .ok bytes ↔ HexDigits text bytes := by
  constructor
  · intro h
    induction text using hexPairs.induct generalizing bytes with
    | case1 high low rest x y hy hx ih =>
      rw [hexPairs, hx, hy] at h
      cases hrest : hexPairs hex rest with
      | error err => simp [hrest, bind, Except.bind] at h
      | ok more =>
        simp only [hrest, bind, Except.bind, pure, Except.pure, Except.ok.injEq] at h
        subst h
        have hhigh := toDigit16_eq_some_iff.mp hx
        have hlow := toDigit16_eq_some_iff.mp hy
        have hx16 := hexDigit_lt hhigh
        have hy16 := hexDigit_lt hlow
        have hbyte := nibbles_toNat hx16 hy16
        refine .cons ?_ ?_ (ih hrest)
        · rwa [hbyte, show (16 * x + y) / 16 = x by omega]
        · rwa [hbyte, show (16 * x + y) % 16 = y by omega]
    | case2 high low rest hdigits =>
      rw [hexPairs] at h
      split at h
      · rename_i x y hx hy
        exact absurd hy (hdigits x y hx)
      · exact absurd h (by simp)
    | case3 c => exact absurd h (by simp [hexPairs])
    | case4 =>
      cases h
      exact .nil
  · intro h
    induction h with
    | nil => rfl
    | @cons high low byte text bytes hhigh hlow hrest ih =>
      rw [hexPairs, toDigit16_eq_some_iff.mpr hhigh, toDigit16_eq_some_iff.mpr hlow]
      have hbyte :
          UInt8.ofNat (byte.toNat / 16) <<< 4 ||| UInt8.ofNat (byte.toNat % 16) = byte := by
        apply UInt8.toNat_inj.mp
        rw [nibbles_toNat (hexDigit_lt hhigh) (hexDigit_lt hlow)]
        omega
      simp [ih, hbyte, bind, Except.bind, pure, Except.pure]

theorem hexDigits_toHex (bytes : Bytes) : HexDigits (toHex bytes) bytes := by
  induction bytes with
  | nil => exact .nil
  | cons byte bytes ih =>
    have hlt := byte.toNat_lt
    exact .cons (hexDigit_upperHexDigit (by omega)) (hexDigit_upperHexDigit (by omega)) ih

/-- Printed and read digits differ in case only. -/
theorem map_toUpper_hexDigits (h : HexDigits text bytes) : text.map Char.toUpper = toHex bytes := by
  induction h with
  | nil => rfl
  | cons hhigh hlow _ ih =>
    rw [List.map_cons, List.map_cons, ih, toUpper_hexDigit hhigh, toUpper_hexDigit hlow]
    rfl

theorem toLineString_eq (line : IntelHexLine) : line.toLineString = ':' :: toHex line.raw := by
  rw [IntelHexLine.toLineString, map_toUpper_hexDigits (hexDigits_toHex line.raw)]

/-! ## Lines -/

/-- **What `IntelHexLine::new` reads.** -/
theorem new_eq_ok_iff :
    IntelHexLine.new line = .ok l ↔ ∃ hex bytes, trim line = ':' :: hex ∧ HexDigits hex bytes ∧
      5 ≤ bytes.length ∧ l = IntelHexLine.ofRaw bytes := by
  have hread : ∀ hex bytes, HexDigits hex bytes → fromHex hex = .ok bytes := by
    intro hex bytes h
    rw [fromHex, if_neg (by rw [hexDigits_utf8 h]; omega), (hexPairs_eq_ok_iff hex).mpr h]
  constructor
  · intro h
    unfold IntelHexLine.new at h
    dsimp only at h
    split at h
    case h_1 hex htrim =>
      split at h
      case isTrue => exact absurd h (by simp)
      case isFalse hlong =>
        unfold fromHex at h
        split at h
        · simp [bind, Except.bind] at h
        · cases hpairs : hexPairs hex hex with
          | error err => simp [hpairs, bind, Except.bind] at h
          | ok bytes =>
            have hdigits := (hexPairs_eq_ok_iff hex).mp hpairs
            simp only [hpairs, bind, Except.bind, pure, Except.pure, Except.ok.injEq] at h
            refine ⟨hex, bytes, htrim, hdigits, ?_, h.symm⟩
            have hlen := hexDigits_utf8 hdigits
            omega
    case h_2 => exact absurd h (by simp)
  · rintro ⟨hex, bytes, htrim, hdigits, hlen, rfl⟩
    have hlong : ¬ ((utf8Bytes hex).length < 10 ∨
        (hex.any fun ch => (toDigit16 ch).isNone) = true) := by
      rw [hexDigits_utf8 hdigits, hexDigits_isDigit hdigits]
      simp only [Bool.false_eq_true, or_false]
      omega
    unfold IntelHexLine.new
    simp only [htrim, if_neg hlong, hread hex bytes hdigits]
    rfl

/-- The wrapping sum of `checksum` is right in its low byte. -/
theorem foldl_sum_mod (bytes : Bytes) (start : UInt16) :
    (bytes.foldl (fun sum byte => sum + byte.toUInt16) start).toNat % 256 =
      (start.toNat + (bytes.map UInt8.toNat).sum) % 256 := by
  induction bytes generalizing start with
  | nil => simp
  | cons byte bytes ih =>
    rw [List.foldl_cons, ih, List.map_cons, List.sum_cons, UInt16.toNat_add,
      UInt8.toNat_toUInt16]
    omega

/-- The low byte of the two's complement. -/
theorem complement_toNat (sum : UInt16) :
    ((~~~sum &&& 0xff) + 1).toUInt8.toNat = (256 - sum.toNat % 256) % 256 := by
  have hmask : (~~~sum &&& 0xff).toNat = 255 - sum.toNat % 256 := by
    rw [UInt16.toNat_and, UInt16.toNat_not, show (0xff : UInt16).toNat = 2 ^ 8 - 1 from rfl,
      Nat.and_two_pow_sub_one_eq_mod]
    have hlt := sum.toNat_lt
    have hsize : UInt16.size = 2 ^ 16 := rfl
    omega
  rw [UInt16.toNat_toUInt8, UInt16.toNat_add, hmask]
  show (255 - sum.toNat % 256 + 1) % 2 ^ 16 % 2 ^ 8 = _
  omega

/-- **The check of `assert_valid`.**  The last byte is the one that completes the sum. -/
theorem checksum_eq_iff (front : Bytes) (last : UInt8) :
    last = checksum (front ++ [last]) 0 ((front ++ [last]).length - 1) ↔
      256 ∣ ((front ++ [last]).map UInt8.toNat).sum := by
  have hfront : ((front ++ [last]).take ((front ++ [last]).length - 1)).drop 0 = front := by simp
  have hsum := foldl_sum_mod front 0
  have hlast := last.toNat_lt
  unfold checksum
  rw [hfront, ← UInt8.toNat_inj, complement_toNat, List.map_append, List.sum_append]
  simp only [List.map_cons, List.map_nil, List.sum_cons, List.sum_nil, Nat.add_zero]
  rw [show (0 : UInt16).toNat = 0 from rfl, Nat.zero_add] at hsum
  omega

/-- A line that is read, and that `assert_valid` has nothing to say against. -/
def Accepted (line : Text) (l : IntelHexLine) : Prop :=
  IntelHexLine.new line = .ok l ∧ IntelHexFile.assertValid ⟨[l]⟩ = .ok ()

theorem assertValid_eq_ok_iff {file : IntelHexFile} :
    file.assertValid = .ok () ↔ ∀ l ∈ file.lines, l.checksum = l.calcChecksum := by
  unfold IntelHexFile.assertValid
  cases hfind : file.lines.find? fun line => line.checksum ≠ line.calcChecksum with
  | none =>
    simpa using hfind
  | some l =>
    have hbad := List.find?_some hfind
    have hmem := List.mem_of_find?_eq_some hfind
    simp only [decide_eq_true_eq] at hbad
    simp only [reduceCtorEq, false_iff, not_forall]
    exact ⟨l, hmem, hbad⟩

/-- The bytes of a line in their parts. -/
theorem exists_parts (h : 5 ≤ bytes.length) :
    ∃ ll ah al tt data cc, bytes = ll :: ah :: al :: tt :: (data ++ [cc]) := by
  obtain _ | ⟨ll, _ | ⟨ah, _ | ⟨al, _ | ⟨tt, _ | ⟨last, rest⟩⟩⟩⟩⟩ := bytes
  case cons.cons.cons.cons.cons =>
    refine ⟨ll, ah, al, tt, (last :: rest).dropLast, (last :: rest).getLast (by simp), ?_⟩
    rw [List.dropLast_append_getLast]
  all_goals simp at h

/-- **The lines that are accepted.** -/
theorem accepted_iff :
    Accepted line l ↔ ∃ hex bytes ll data, trim line = ':' :: hex ∧ HexDigits hex bytes ∧
      RecordBytes ll data bytes ∧ l = IntelHexLine.ofRaw bytes := by
  have hcheck : ∀ ll ah al tt cc : UInt8, ∀ data : Bytes,
      IntelHexFile.assertValid
        ⟨[IntelHexLine.ofRaw (ll :: ah :: al :: tt :: (data ++ [cc]))]⟩ = .ok () ↔
          256 ∣ ((ll :: ah :: al :: tt :: (data ++ [cc])).map UInt8.toNat).sum := by
    intro ll ah al tt cc data
    have hlast : (IntelHexLine.ofRaw (ll :: ah :: al :: tt :: (data ++ [cc]))).checksum = cc := by
      show ((ll :: ah :: al :: tt :: data) ++ [cc]).getLastD 0 = cc
      exact List.getLastD_concat
    rw [assertValid_eq_ok_iff]
    simp only [List.mem_singleton, forall_eq, hlast]
    exact checksum_eq_iff (ll :: ah :: al :: tt :: data) cc
  constructor
  · rintro ⟨hnew, hvalid⟩
    obtain ⟨hex, bytes, htrim, hdigits, hlen, rfl⟩ := new_eq_ok_iff.mp hnew
    obtain ⟨ll, ah, al, tt, data, cc, rfl⟩ := exists_parts hlen
    exact ⟨hex, _, ll, data, htrim, hdigits, ⟨⟨ah, al, tt, cc, rfl⟩, (hcheck ..).mp hvalid⟩, rfl⟩
  · rintro ⟨hex, bytes, ll, data, htrim, hdigits, ⟨⟨ah, al, tt, cc, rfl⟩, hsum⟩, rfl⟩
    refine ⟨new_eq_ok_iff.mpr ⟨hex, _, htrim, hdigits, by simp, rfl⟩, (hcheck ..).mpr hsum⟩

/-- The validation of a line is the format, and an accepted line is printed as it was but for the
case of letters. -/
structure ValidatesLine (line : Text) : Prop where
  accepted : (∃ l, Accepted line l) ↔ IsRecord (trim line)
  reproduced : ∀ l, Accepted line l → l.toLineString = (trim line).map Char.toUpper

theorem reproduced_of_accepted (h : Accepted line l) :
    l.toLineString = (trim line).map Char.toUpper := by
  obtain ⟨hex, bytes, ll, data, htrim, hdigits, -, rfl⟩ := accepted_iff.mp h
  rw [toLineString_eq, htrim, List.map_cons, map_toUpper_hexDigits hdigits]
  rfl

/-- The bytes are determined by the digits. -/
theorem hexDigits_unique {more : Bytes} (h : HexDigits text bytes) (h' : HexDigits text more) :
    bytes = more :=
  Except.ok.inj (((hexPairs_eq_ok_iff text).mpr h).symm.trans ((hexPairs_eq_ok_iff text).mpr h'))

/-- A text is not both a record and a miscounted one. -/
theorem not_isRecord_of_miscounted (h : MiscountedRecord text) : ¬ IsRecord text := by
  rintro ⟨hex', bytes', ll', data', htext', hdigits', ⟨⟨ah', al', tt', cc', hbytes'⟩, -⟩, hcount'⟩
  obtain ⟨hex, bytes, ll, data, rfl, hdigits, ⟨⟨ah, al, tt, cc, hbytes⟩, -⟩, hcount⟩ := h
  obtain ⟨-, rfl⟩ := List.cons.inj htext'
  have heq := hexDigits_unique hdigits hdigits'
  rw [hbytes, hbytes'] at heq
  simp only [List.cons.injEq] at heq
  obtain ⟨rfl, -, -, -, hrest⟩ := heq
  have hdata : data = data' := (List.append_inj' hrest rfl).1
  rw [← hdata] at hcount'
  exact hcount hcount'

/-- A miscounted record is accepted. -/
theorem ValidatesLine.not_miscounted (h : ValidatesLine line) : ¬ MiscountedRecord (trim line) := by
  intro hmis
  have hnot := not_isRecord_of_miscounted hmis
  obtain ⟨hex, bytes, ll, data, htext, hdigits, hbytes, -⟩ := hmis
  exact hnot (h.accepted.mp
    ⟨_, accepted_iff.mpr ⟨hex, bytes, ll, data, htext, hdigits, hbytes, rfl⟩⟩)

/-- **Validation of lines.**  A line is validated as the format has it, unless it is a record but
for its length byte.
SOURCE: ihex.rs:97-133, 208-223, 436-470 -/
theorem validatesLine_iff (line : Text) : ValidatesLine line ↔ ¬ MiscountedRecord (trim line) := by
  constructor
  · exact ValidatesLine.not_miscounted
  · intro h
    refine ⟨⟨?_, ?_⟩, fun l => reproduced_of_accepted⟩
    · rintro ⟨l, hl⟩
      obtain ⟨hex, bytes, ll, data, htext, hdigits, hbytes, -⟩ := accepted_iff.mp hl
      by_cases hcount : data.length = ll.toNat
      · exact ⟨hex, bytes, ll, data, htext, hdigits, hbytes, hcount⟩
      · exact absurd ⟨hex, bytes, ll, data, htext, hdigits, hbytes, hcount⟩ h
    · rintro ⟨hex, bytes, ll, data, htext, hdigits, hbytes, -⟩
      exact ⟨_, accepted_iff.mpr ⟨hex, bytes, ll, data, htext, hdigits, hbytes, rfl⟩⟩

/-- A record with one data byte that announces three. -/
theorem short_record_accepted : ¬ ValidatesLine ":0300000011EC".toList := by
  intro h
  have htrim : trim ":0300000011EC".toList = ':' :: toHex [0x03, 0x00, 0x00, 0x00, 0x11, 0xec] := by
    decide
  refine h.not_miscounted
    ⟨_, _, 0x03, [0x11], htrim, hexDigits_toHex _, ⟨⟨0, 0, 0, 0xec, rfl⟩, ?_⟩, ?_⟩
  · decide
  · decide

end Uartbus.Analysis
