import Uartbus.Analysis.ConsoleSession
import Uartbus.Analysis.FileNumbers
import Uartbus.Model.AttachProcess
import Uartbus.Model.LogFile

/-!
# Packets as text

A packet that is written with `format_colon_data` is read by `parse_colon_data` with the same bytes
(`parseColonData_formatColonData`): a printed number is read back, has no colon in it and is in the
range of `i32`.  So it goes unchanged through a process on the bus, through the lines of a log and
through the console.
-/

set_option autoImplicit false

namespace Uartbus.Analysis

open Lib Model

variable {data : Bytes} {packets : List Bytes} {c d : Char} {digits text : Text}

/-! ## Numbers -/

/-- A decimal digit. -/
def IsDecimal (c : Char) : Prop := '0' ≤ c ∧ c ≤ '9'

instance decidableIsDecimal (c : Char) : Decidable (IsDecimal c) :=
  inferInstanceAs (Decidable (_ ∧ _))

theorem toDigits_isDecimal {n : ℕ} (hc : c ∈ Nat.toDigits 10 n) : IsDecimal c := by
  have hdigit := Nat.isDigit_of_mem_toDigits (by omega) (by omega) hc
  obtain ⟨hlow, hhigh⟩ := (Bool.and_eq_true _ _).mp hdigit
  exact ⟨of_decide_eq_true hlow, of_decide_eq_true hhigh⟩

theorem isDecimal_ne (hc : IsDecimal c) (hd : ¬ IsDecimal d) : c ≠ d :=
  fun h => hd (h ▸ hc)

/-- Digits without a sign. -/
theorem parseSigned_digits (bits : ℕ) (hne : digits ≠ []) (hall : ∀ c ∈ digits, IsDecimal c)
    (hlt : Nat.ofDigitChars 10 digits 0 < 2 ^ (bits - 1)) :
    parseSigned bits digits = some (Nat.ofDigitChars 10 digits 0 : ℤ) := by
  have hhead : ∀ c, ¬ IsDecimal c → digits.head? ≠ some c :=
    fun c hc h => hc (hall c (List.mem_of_mem_head? h))
  have hgood : ∀ c ∈ digits, '0' ≤ c ∧ c ≤ '9' := hall
  have hvalue : decimalValue digits = some (Nat.ofDigitChars 10 digits 0) := by
    rw [decimalValue, if_neg (by simpa [hne] using hgood)]
    rfl
  have hrange : -2 ^ (bits - 1) ≤ (Nat.ofDigitChars 10 digits 0 : ℤ) ∧
      (Nat.ofDigitChars 10 digits 0 : ℤ) < 2 ^ (bits - 1) := by
    have hcast : (Nat.ofDigitChars 10 digits 0 : ℤ) < 2 ^ (bits - 1) := by exact_mod_cast hlt
    exact ⟨by omega, hcast⟩
  rw [parseSigned, splitSign_eq (hhead '-' (by decide)) (hhead '+' (by decide)), hvalue]
  exact if_pos hrange

theorem parseSigned_toDigits {bits n : ℕ} (hn : n < 2 ^ (bits - 1)) :
    parseSigned bits (Nat.toDigits 10 n) = some (n : ℤ) := by
  have hvalue : Nat.ofDigitChars 10 (Nat.toDigits 10 n) 0 = n := Nat.ofDigitChars_ten_toDigits
  rw [parseSigned_digits bits Nat.toDigits_ne_nil (fun c hc => toDigits_isDecimal hc)
    (hvalue.symm ▸ hn), hvalue]

/-! ## Bytes -/

theorem byteText_isDecimal {byte : UInt8} (hc : c ∈ byteText byte) : IsDecimal c :=
  toDigits_isDecimal hc

theorem parseI32_byteText (byte : UInt8) :
    parseI32 (byteText byte) = some (Int32.ofInt byte.toNat) := by
  have hlt := byte.toNat_lt
  rw [parseI32, byteText, parseSigned_toDigits (by omega)]
  rfl

/-- The low eight bits of a number that is a byte. -/
theorem lowByte_ofInt (byte : UInt8) :
    (Int32.ofInt byte.toNat &&& 0xff).toUInt32.toUInt8 = byte := by
  revert byte
  exact forall_uint8 (by decide +kernel)

theorem colon_not_mem_byteText (byte : UInt8) : ':' ∉ byteText byte :=
  fun h => isDecimal_ne (byteText_isDecimal h) (by decide) rfl

/-! ## The round trip -/

theorem splitOn_formatColonData (hne : data ≠ []) :
    (formatColonData data).splitOn ':' = data.map byteText := by
  apply List.splitOn_intercalate
  · intro text htext
    obtain ⟨byte, -, rfl⟩ := List.mem_map.mp htext
    exact colon_not_mem_byteText byte
  · rwa [ne_eq, List.map_eq_nil_iff]

/-- **Text that is printed is read back.** -/
theorem parseColonData_formatColonData (hne : data ≠ []) :
    parseColonData (formatColonData data) = some data := by
  rw [parseColonData, splitOn_formatColonData hne]
  clear hne
  induction data with
  | nil => rfl
  | cons byte data ih =>
    rw [List.map_cons, List.mapM_cons, parseI32_byteText, Option.map_some, lowByte_ofInt, ih]
    rfl

/-- What is read has a byte at least. -/
theorem parseColonData_ne_nil (h : parseColonData text = some data) : data ≠ [] := by
  rintro rfl
  rw [parseColonData] at h
  cases hpieces : text.splitOn ':' with
  | nil => exact List.splitOn_ne_nil ':' text hpieces
  | cons piece pieces =>
    rw [hpieces, List.mapM_cons] at h
    obtain ⟨byte, -, h⟩ := Option.bind_eq_some_iff.mp h
    obtain ⟨rest, -, h⟩ := Option.bind_eq_some_iff.mp h
    cases h

/-! ## Characters of the texts -/

/-- The characters of packets and of timestamps. -/
def IsLogChar (c : Char) : Prop := IsDecimal c ∨ c ∈ ['-', ' ', ':', '.', 'U']

theorem isLogChar_ascii (h : IsLogChar c) : c.toNat < 128 := by
  rcases h with ⟨-, hhigh⟩ | hmem
  · exact lt_of_le_of_lt hhigh (by decide)
  · simp only [List.mem_cons, List.not_mem_nil, or_false] at hmem
    rcases hmem with rfl | rfl | rfl | rfl | rfl <;> decide

/-- None of them ends a line or a field. -/
theorem isLogChar_ne (h : IsLogChar c) (hd : d = '\n' ∨ d = '\r' ∨ d = '|') : c ≠ d := by
  rintro rfl
  rcases hd with rfl | rfl | rfl <;> exact absurd h (by unfold IsLogChar; decide)

theorem formatColonData_char (data : Bytes) :
    ∀ c ∈ formatColonData data, IsDecimal c ∨ c = ':' := by
  induction data with
  | nil => exact List.forall_mem_nil _
  | cons byte data ih =>
    cases data with
    | nil =>
      intro c hc
      have hone : formatColonData [byte] = byteText byte := by
        simp [formatColonData, List.intercalate]
      exact .inl (byteText_isDecimal (hone ▸ hc))
    | cons next data =>
      intro c hc
      rcases List.mem_append.mp hc with hc | hc
      · exact .inl (byteText_isDecimal hc)
      · rcases List.mem_cons.mp hc with rfl | hc
        · exact .inr rfl
        · exact ih c hc

theorem formatColonData_isLogChar (data : Bytes) :
    ∀ c ∈ formatColonData data, IsLogChar c := by
  intro c hc
  rcases formatColonData_char data c hc with hc | rfl
  · exact .inl hc
  · exact .inr (by decide)

theorem zeroPadded_isLogChar (width : ℕ) (n : ℤ) : ∀ c ∈ zeroPadded width n, IsLogChar c := by
  have hpadded : ∀ k, ∀ c ∈ List.replicate k '0' ++ Nat.toDigits 10 n.natAbs, IsLogChar c := by
    intro k c hc
    rcases List.mem_append.mp hc with hc | hc
    · rw [List.eq_of_mem_replicate hc]
      exact .inl (by decide)
    · exact .inl (toDigits_isDecimal hc)
  unfold zeroPadded
  split
  · intro c hc
    rcases List.mem_cons.mp hc with rfl | hc
    · exact .inr (by decide)
    · exact hpadded _ c hc
  · exact hpadded _

theorem utcSqlTimestampMs_isLogChar (calendar : Calendar) (ms : Int64) :
    ∀ c ∈ utcSqlTimestampMs calendar ms, IsLogChar c := by
  have hmark : ∀ d ∈ ['-', ' ', ':', '.', 'U'], ∀ c ∈ [d], IsLogChar c := by
    intro d hd c hc
    rw [List.mem_singleton.mp hc]
    exact .inr hd
  unfold utcSqlTimestampMs
  simp only [List.forall_mem_append]
  repeat' apply And.intro
  all_goals
    first
      | exact zeroPadded_isLogChar _ _
      | exact hmark _ (by decide)

/-! ## Lines -/

/-- Text without a line end in it, written as a line. -/
theorem utf8Bytes_line (text : Text) : utf8Bytes (text ++ ['\n']) = utf8Bytes text ++ [0x0A] := by
  rw [utf8Bytes, List.flatMap_append]
  rfl

theorem utf8Bytes_not_mem (hascii : ∀ c ∈ text, c.toNat < 128) (hd : d.toNat < 128)
    (hne : ∀ c ∈ text, c ≠ d) : UInt8.ofNat d.toNat ∉ utf8Bytes text := by
  rw [utf8Bytes_ascii hascii]
  intro hmem
  obtain ⟨c, hc, heq⟩ := List.mem_map.mp hmem
  apply hne c hc
  apply Char.toNat_inj.mp
  have hnat := congrArg UInt8.toNat heq
  have hlt := hascii c hc
  simp only [UInt8.toNat_ofNat'] at hnat
  omega

/-- **Lines of text are read as they were written.** -/
theorem lines_texts {texts : List Text}
    (h : ∀ text ∈ texts, ∀ c ∈ text, c.toNat < 128 ∧ c ≠ '\n' ∧ c ≠ '\r') :
    FileRegistry.lines (texts.flatMap fun text => utf8Bytes (text ++ ['\n'])) =
      texts.map utf8Bytes := by
  have hpieces : (texts.flatMap fun text => utf8Bytes (text ++ ['\n'])) =
      (texts.map utf8Bytes).flatMap fun piece => piece ++ [0x0A] := by
    rw [List.flatMap_map]
    exact List.flatMap_congr fun text _ => utf8Bytes_line text
  rw [hpieces, lines_flatMap]
  · refine List.forall_mem_map.mpr fun text htext => ?_
    exact utf8Bytes_not_mem (fun c hc => (h text htext c hc).1) (d := '\n') (by decide)
      fun c hc => (h text htext c hc).2.1
  · refine List.forall_mem_map.mpr fun text htext hlast => ?_
    exact utf8Bytes_not_mem (fun c hc => (h text htext c hc).1) (d := '\r') (by decide)
      (fun c hc => (h text htext c hc).2.2) (List.mem_of_getLast? hlast)

/-! ## A process on the bus -/

theorem sentPackets_texts (h : ∀ packet ∈ packets, packet ≠ []) :
    AttachProcess.sentPackets (packets.map fun packet => utf8Bytes (formatColonData packet)) =
      packets := by
  induction packets with
  | nil => rfl
  | cons packet packets ih =>
    rw [List.map_cons, AttachProcess.sentPackets, utf8Text_utf8Bytes]
    dsimp only
    rw [parseColonData_formatColonData (h packet List.mem_cons_self)]
    rw [ih fun other hother => h other (List.mem_cons_of_mem packet hother)]

/-- **A process that writes what it reads** sends the packets it was given. -/
theorem fromProcess_toProcess (h : ∀ packet ∈ packets, packet ≠ []) :
    AttachProcess.fromProcess (packets.flatMap AttachProcess.toProcess) = packets := by
  have htexts : packets.flatMap AttachProcess.toProcess =
      (packets.map formatColonData).flatMap fun text => utf8Bytes (text ++ ['\n']) := by
    rw [List.flatMap_map]
    rfl
  rw [AttachProcess.fromProcess, htexts, lines_texts, List.map_map]
  · exact sentPackets_texts h
  · refine List.forall_mem_map.mpr fun packet _ c hc => ?_
    have hchar := formatColonData_isLogChar packet c hc
    exact ⟨isLogChar_ascii hchar, isLogChar_ne hchar (.inl rfl),
      isLogChar_ne hchar (.inr (.inl rfl))⟩

/-! ## Logs -/

/-- The packet of a line of a plain log: what is behind the bar. -/
def loggedPacket (line : Bytes) : Option Bytes :=
  (utf8Text line).bind fun text => parseColonData ((text.dropWhile fun c => c ≠ '|').drop 1)

/-- The text of a plain record. -/
def recordText (calendar : Calendar) (timeMs : Int64) (packet : Bytes) : Text :=
  utcSqlTimestampMs calendar timeMs ++ '|' :: formatColonData packet

theorem encode_plain (calendar : Calendar) (timeMs : Int64) (packet : Bytes) :
    LogFormat.plain.encode calendar timeMs packet =
      utf8Bytes (recordText calendar timeMs packet ++ ['\n']) := by
  simp [LogFormat.encode, recordText]

theorem recordText_char (calendar : Calendar) (timeMs : Int64) (packet : Bytes) :
    ∀ c ∈ recordText calendar timeMs packet, c.toNat < 128 ∧ c ≠ '\n' ∧ c ≠ '\r' := by
  have hlog : ∀ c, IsLogChar c → c.toNat < 128 ∧ c ≠ '\n' ∧ c ≠ '\r' := fun c hc =>
    ⟨isLogChar_ascii hc, isLogChar_ne hc (.inl rfl), isLogChar_ne hc (.inr (.inl rfl))⟩
  intro c hc
  rcases List.mem_append.mp hc with hc | hc
  · exact hlog c (utcSqlTimestampMs_isLogChar calendar timeMs c hc)
  · rcases List.mem_cons.mp hc with rfl | hc
    · decide
    · exact hlog c (formatColonData_isLogChar packet c hc)

theorem loggedPacket_recordText (calendar : Calendar) (timeMs : Int64) {packet : Bytes}
    (h : packet ≠ []) :
    loggedPacket (utf8Bytes (recordText calendar timeMs packet)) = some packet := by
  have hbar : (recordText calendar timeMs packet).dropWhile (fun c => c ≠ '|') =
      '|' :: formatColonData packet := by
    rw [recordText, List.dropWhile_append_of_pos]
    · rfl
    · intro c hc
      have hchar := utcSqlTimestampMs_isLogChar calendar timeMs c hc
      exact decide_eq_true (isLogChar_ne hchar (.inr (.inr rfl)))
  rw [loggedPacket, utf8Text_utf8Bytes, Option.bind_some, hbar]
  exact parseColonData_formatColonData h

/-- **The lines of a plain log have the packets.** -/
theorem loggedPackets (calendar : Calendar) {records : List (Int64 × Bytes)}
    (h : ∀ record ∈ records, record.2 ≠ []) :
    (FileRegistry.lines (records.flatMap fun record =>
        LogFormat.plain.encode calendar record.1 record.2)).map loggedPacket =
      records.map fun record => some record.2 := by
  have htexts : (records.flatMap fun record =>
        LogFormat.plain.encode calendar record.1 record.2) =
      (records.map fun record => recordText calendar record.1 record.2).flatMap fun text =>
        utf8Bytes (text ++ ['\n']) := by
    simp only [encode_plain, List.flatMap_map]
  rw [htexts, lines_texts, List.map_map, List.map_map]
  · refine List.map_congr_left fun record hrecord => ?_
    rw [Function.comp_apply, Function.comp_apply,
      loggedPacket_recordText calendar record.1 (h record hrecord)]
  · exact List.forall_mem_map.mpr fun record _ => recordText_char calendar record.1 record.2

/-! ## The console -/

theorem formatColonData_not_whitespace (data : Bytes) :
    ∀ c ∈ formatColonData data, isRustWhitespace c = false := by
  have hrange : ∀ c : Char, 48 ≤ c.toNat → c.toNat ≤ 58 → isRustWhitespace c = false := by
    intro c hlow hhigh
    simp only [isRustWhitespace, Bool.or_eq_false_iff, Bool.and_eq_false_imp, decide_eq_true_eq,
      decide_eq_false_iff_not, beq_eq_false_iff_ne]
    omega
  intro c hc
  rcases formatColonData_char data c hc with ⟨hlow, hhigh⟩ | rfl
  · exact hrange c hlow (Nat.le_succ_of_le hhigh)
  · decide

/-- A packet that is typed in. -/
theorem feed_formatColonData (env : UartbusConsoleEnv) (h : data ≠ []) :
    env.feed (formatColonData data) = (ConsoleResponse.withAddresses .sendPacket (some data) none
      env.addressFrom env.addressTo, env) := by
  apply (lineFed _ _).packet
  rw [packetLine, trim_eq_self (formatColonData_not_whitespace data)]
  exact parseColonData_formatColonData h

/-- A packet that is shown; a wrong checksum is marked in front of it. -/
theorem shown_eq (data : Bytes) :
    (formatColonDataWithValidation data).dropWhile (fun c => c = '!') = formatColonData data := by
  have hmark : ∀ text : Text, (∀ c ∈ text, c ≠ '!') → text.dropWhile (fun c => c = '!') = text := by
    intro text htext
    cases text with
    | nil => rfl
    | cons c text =>
      simpa using htext c List.mem_cons_self
  have hformat : ∀ c ∈ formatColonData data, c ≠ '!' := by
    intro c hc
    rcases formatColonData_char data c hc with hc | rfl
    · exact isDecimal_ne hc (by decide)
    · decide
  unfold formatColonDataWithValidation
  split
  · exact hmark _ hformat
  · rw [List.dropWhile_cons_of_pos (by rfl), hmark _ hformat]

/-! ## The whole of it -/

/-- **Packets keep their bytes as text.**  What is printed is read back, and what is read is printed
so that it is read again; so a process on the bus, a plain log and the console have the bytes of the
packets.
SOURCE: tools.rs:91-104, apps/attach_process.rs:102-123 -/
theorem colonText_keepsBytes (calendar : Calendar) (env : UartbusConsoleEnv) :
    (∀ data, data ≠ [] → parseColonData (formatColonData data) = some data) ∧
      (∀ text data, parseColonData text = some data →
        parseColonData (formatColonData data) = some data) ∧
      (∀ packets, (∀ packet ∈ packets, packet ≠ []) →
        AttachProcess.fromProcess (packets.flatMap AttachProcess.toProcess) = packets) ∧
      (∀ records : List (Int64 × List UInt8), (∀ record ∈ records, record.2 ≠ []) →
        (FileRegistry.lines (records.flatMap fun record =>
          LogFormat.plain.encode calendar record.1 record.2)).map loggedPacket =
            records.map fun record => some record.2) ∧
      ∀ data, data ≠ [] →
        env.feed (formatColonData data) =
          (ConsoleResponse.withAddresses .sendPacket (some data) none env.addressFrom
            env.addressTo, env) ∧
        parseColonData ((formatColonDataWithValidation data).dropWhile fun c => c = '!') =
          some data := by
  refine ⟨fun data h => parseColonData_formatColonData h,
    fun text data h => parseColonData_formatColonData (parseColonData_ne_nil h),
    fun packets h => fromProcess_toProcess h, fun records h => loggedPackets calendar h,
    fun data h => ⟨feed_formatColonData env h, ?_⟩⟩
  rw [shown_eq, parseColonData_formatColonData h]

/-- A clock that stands still. -/
def stoppedCalendar : Calendar :=
  { localtime := fun _ => ⟨0, 0, 0, 1, 0, 70, 0⟩
    gmtime := fun _ => ⟨0, 0, 0, 1, 0, 70, 0⟩
    mktime := fun _ => 0 }

/-- Signed numbers and one above 255: what is read is kept by a process, by a log of two records
and by the console. -/
theorem signedNumbers_keepBytes :
    parseColonData "-1:+02:300".toList = some [255, 2, 44] ∧
      parseColonData (formatColonData [255, 2, 44]) = some [255, 2, 44] ∧
      AttachProcess.fromProcess ([[255, 2, 44], [1]].flatMap AttachProcess.toProcess) =
        [[255, 2, 44], [1]] ∧
      (FileRegistry.lines ([((5 : Int64), [255, 2, 44]), (7, [1])].flatMap fun record =>
        LogFormat.plain.encode stoppedCalendar record.1 record.2)).map loggedPacket =
          [some [255, 2, 44], some [1]] ∧
      (UartbusConsoleEnv.new.feed (formatColonData [255, 2, 44])).1.data = some [255, 2, 44] := by
  obtain ⟨-, hagain, hprocess, hlog, hconsole⟩ :=
    colonText_keepsBytes stoppedCalendar UartbusConsoleEnv.new
  have hread : parseColonData "-1:+02:300".toList = some [255, 2, 44] := by decide +kernel
  refine ⟨hread, hagain _ _ hread, hprocess _ (by decide), hlog _ (by decide), ?_⟩
  rw [(hconsole _ (by decide)).1]
  rfl

end Uartbus.Analysis
