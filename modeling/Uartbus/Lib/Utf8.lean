import Uartbus.Lib.Bytes
import Mathlib.Data.List.Basic

/-!
# Text and its bytes

Text is a list of Unicode characters, and `utf8Bytes` is how it is stored.  `utf8Lossy` reads any
bytes as text: where they are no character, the longest part that could have begun one is replaced
by U+FFFD.  Text survives being stored and read (`utf8Lossy_utf8Bytes`, `utf8Text_utf8Bytes`).
-/

set_option autoImplicit false

namespace Uartbus.Lib

abbrev Text := List Char

def utf8Bytes (text : Text) : Bytes := text.flatMap String.utf8EncodeChar

/-- A byte that goes on with a character. -/
def isContinuation (b : UInt8) : Bool := 0x80 ≤ b && b < 0xC0

/-- The first two bytes of a character of three bytes. -/
def beginsThree (b c : UInt8) : Bool :=
  (b = 0xE0 && 0xA0 ≤ c && c < 0xC0) || (0xE1 ≤ b && b ≤ 0xEC && isContinuation c) ||
    (b = 0xED && 0x80 ≤ c && c < 0xA0) || (0xEE ≤ b && b ≤ 0xEF && isContinuation c)

/-- The first two bytes of a character of four bytes. -/
def beginsFour (b c : UInt8) : Bool :=
  (b = 0xF0 && 0x90 ≤ c && c < 0xC0) || (0xF1 ≤ b && b ≤ 0xF3 && isContinuation c) ||
    (b = 0xF4 && 0x80 ≤ c && c < 0x90)

/-- How many bytes are replaced where no character is. -/
def brokenLength : Bytes → ℕ
  | b :: c :: rest =>
    if beginsFour b c then (if rest.head?.any isContinuation then 3 else 2)
    else if beginsThree b c then 2 else 1
  | _ => 1

theorem brokenLength_pos (bytes : Bytes) : 0 < brokenLength bytes := by
  unfold brokenLength
  split
  · split
    · split <;> omega
    · split <;> omega
  · omega

/-- Bytes read as text, with U+FFFD for what is no character. -/
def utf8Lossy : Bytes → Text
  | [] => []
  | b :: bytes =>
    match (b :: bytes).toByteArray.utf8DecodeChar? 0 with
    | some c => c :: utf8Lossy ((b :: bytes).drop c.utf8Size)
    | none => '�' :: utf8Lossy ((b :: bytes).drop (brokenLength (b :: bytes)))
termination_by bytes => bytes.length
decreasing_by
  · have := c.utf8Size_pos
    simp only [List.length_drop, List.length_cons]
    omega
  · have := brokenLength_pos (b :: bytes)
    simp only [List.length_drop, List.length_cons]
    omega

/-- Bytes read as text, if they are. -/
def utf8Text (bytes : Bytes) : Option Text :=
  (String.fromUTF8? bytes.toByteArray).map String.toList

theorem utf8Bytes_cons (c : Char) (text : Text) :
    utf8Bytes (c :: text) = String.utf8EncodeChar c ++ utf8Bytes text :=
  List.flatMap_cons

/-- The bytes of ASCII text are its characters. -/
theorem utf8Bytes_ascii {text : Text} (h : ∀ c ∈ text, c.toNat < 128) :
    utf8Bytes text = text.map fun c => UInt8.ofNat c.toNat := by
  induction text with
  | nil => rfl
  | cons c text ih =>
    have hc : c.val.toNat ≤ 127 := Nat.le_of_lt_succ (h c List.mem_cons_self)
    have hchar : String.utf8EncodeChar c = [UInt8.ofNat c.toNat] := by
      unfold String.utf8EncodeChar
      exact if_pos hc
    rw [utf8Bytes_cons, hchar, ih fun d hd => h d (List.mem_cons_of_mem c hd)]
    rfl

theorem byteArray_toList (bytes : ByteArray) : bytes.toList = bytes.data.toList := by
  have hloop : ∀ i r, ByteArray.toList.loop bytes i r = r.reverse ++ bytes.data.toList.drop i := by
    intro i r
    fun_induction ByteArray.toList.loop bytes i r with
    | case1 i r hlt ih =>
      have hget : bytes.get! i = bytes.data.toList[i] := getElem!_pos bytes.data i hlt
      rw [ih, hget, List.reverse_cons, List.append_assoc, List.singleton_append,
        ← List.drop_eq_getElem_cons]
    | case2 i r hge => rw [List.drop_eq_nil_of_le (Nat.not_lt.mp hge), List.append_nil]
  rw [ByteArray.toList, hloop]
  rfl

/-- The bytes of a string are those of its characters. -/
theorem toUTF8_toList (text : String) : text.toUTF8.toList = utf8Bytes text.toList := by
  rw [byteArray_toList, String.toUTF8_eq_toByteArray, ← String.utf8Encode_toList]
  exact List.toList_data_toByteArray

/-- A character in front of other bytes. -/
theorem utf8Lossy_char (c : Char) (rest : Bytes) :
    utf8Lossy (String.utf8EncodeChar c ++ rest) = c :: utf8Lossy rest := by
  have hdecode : (String.utf8EncodeChar c ++ rest).toByteArray.utf8DecodeChar? 0 = some c := by
    rw [List.toByteArray_append]
    exact ByteArray.utf8DecodeChar?_utf8EncodeChar_append
  have hdrop : (String.utf8EncodeChar c ++ rest).drop c.utf8Size = rest := by
    rw [← String.length_utf8EncodeChar, List.drop_left]
  cases hbytes : String.utf8EncodeChar c ++ rest with
  | nil => exact absurd (List.append_eq_nil_iff.mp hbytes).1 String.utf8EncodeChar_ne_nil
  | cons b bytes =>
    rw [hbytes] at hdecode hdrop
    rw [utf8Lossy, hdecode]
    dsimp only
    rw [hdrop]

/-- **Text survives being stored and read.** -/
theorem utf8Lossy_utf8Bytes (text : Text) : utf8Lossy (utf8Bytes text) = text := by
  induction text with
  | nil => rw [utf8Bytes, List.flatMap_nil, utf8Lossy]
  | cons c text ih => rw [utf8Bytes_cons, utf8Lossy_char, ih]

theorem utf8Text_utf8Bytes (text : Text) : utf8Text (utf8Bytes text) = some text := by
  have hbytes : (utf8Bytes text).toByteArray = (String.ofList text).toByteArray := rfl
  unfold utf8Text String.fromUTF8?
  rw [hbytes, dif_pos (String.ofList text).isValidUTF8]
  exact congrArg some String.toList_ofList

end Uartbus.Lib
