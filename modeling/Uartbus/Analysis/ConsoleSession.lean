import Uartbus.Analysis.RemoteCall
import Uartbus.Model.Console

/-!
# The addresses of a console session

`HELP_LINES` says that `>` sets the destination and `<` the source.  `feed` does it the other way
round: a session leaves in `address_from` the number of its last `>` line and in `address_to` that
of its last `<` line (`feedAll_addresses`).  So a packet has the addresses of the help exactly where
the two do not differ.
-/

set_option autoImplicit false

namespace Uartbus.Analysis

open Lib Model

variable {c : Char} {rest : Text} {data : Bytes}

/-! ## Kinds of lines -/

/-- The number of a line that sets an address, where it has one. -/
def addressLine (mark : Char) (line : Text) : Option Int32 :=
  match trim line with
  | [] => none
  | c :: rest => if c = mark then parseI32 (trim rest) else none

/-- The last number that was set with the mark. -/
def lastSet (mark : Char) (lines : List Text) : Option Int32 :=
  (lines.filterMap (addressLine mark)).getLast?

/-- The bytes of a line that is a packet. -/
def packetLine (line : Text) : Option Bytes := parseColonData (trim line)

/-- A number starts with a digit or a sign. -/
theorem parseI32_cons_none (hdigit : ¬ ('0' ≤ c ∧ c ≤ '9')) (hminus : c ≠ '-') (hplus : c ≠ '+')
    (rest : Text) : parseI32 (c :: rest) = none := by
  have hsign : splitSign (c :: rest) = (false, c :: rest) :=
    splitSign_eq (by simpa using hminus) (by simpa using hplus)
  have hnone : decimalValue (c :: rest) = none := by
    rw [decimalValue, List.all_cons, decide_eq_false hdigit]
    rfl
  rw [parseI32, parseSigned, hsign, hnone]
  rfl

/-- So do colon separated numbers. -/
theorem parseColonData_cons_none (hcolon : c ≠ ':') (hnone : ∀ rest, parseI32 (c :: rest) = none)
    (rest : Text) : parseColonData (c :: rest) = none := by
  rw [parseColonData, List.splitOn_cons_eq_if_modifyHead, if_neg (by simpa using hcolon)]
  cases hsplit : List.splitOn ':' rest with
  | nil => exact absurd hsplit (List.splitOn_ne_nil ':' rest)
  | cons first others => simp [List.modifyHead, List.mapM_cons, hnone]

theorem parseColonData_nil : parseColonData [] = none := by
  rfl

theorem packetLine_of_mark {line : Text} (hline : trim line = c :: rest)
    (hc : c = '>' ∨ c = '<' ∨ c = '?') : packetLine line = none := by
  rw [packetLine, hline]
  rcases hc with rfl | rfl | rfl <;>
    exact parseColonData_cons_none (by decide)
      (parseI32_cons_none (by decide) (by decide) (by decide)) rest

/-! ## One line -/

variable (env : UartbusConsoleEnv) (line : Text)

theorem feedRest_from :
    env.feedRest ['?', '>'] = ConsoleResponse.new .queryAddressFrom none
      (some (UartbusConsoleEnv.addressText env.addressFrom)) := rfl

theorem feedRest_to :
    env.feedRest ['?', '<'] = ConsoleResponse.new .queryAddressTo none
      (some (UartbusConsoleEnv.addressText env.addressTo)) := rfl

theorem answerQuestion_inquiry : (env.answerQuestion line).inquiry ≠ .sendPacket := by
  unfold UartbusConsoleEnv.answerQuestion
  repeat' split
  all_goals exact fun h => ConsoleInquiry.noConfusion h

/-- What a line comes to: a `>` line sets `address_from`, a `<` line sets `address_to`, a packet
leaves both as they are and so does a line that is not known. -/
structure LineFed : Prop where
  addresses : (env.feed line).2 =
    ⟨(addressLine '>' line).getD env.addressFrom, (addressLine '<' line).getD env.addressTo⟩
  packet : ∀ data, packetLine line = some data → env.feed line =
    (ConsoleResponse.withAddresses .sendPacket (some data) none env.addressFrom env.addressTo, env)
  noPacket : packetLine line = none → (env.feed line).1.inquiry ≠ .sendPacket
  unknown : (env.feed line).1.inquiry = .unknownCommand → (env.feed line).2 = env

variable {env line}

theorem lineFed_marked (hline : trim line = c :: rest) (hmark : c = '>' ∨ c = '<') :
    LineFed env line := by
  have hpacket := packetLine_of_mark hline (hmark.imp_right .inl)
  -- the number behind the mark is the new address, or the line is not known
  rcases hmark with rfl | rfl <;> cases hnumber : parseI32 (trim rest) <;>
    refine ⟨?_, fun data hdata => absurd (hpacket.symm.trans hdata) (by simp), fun _ => ?_, ?_⟩ <;>
    simp [UartbusConsoleEnv.feed, addressLine, hline, hnumber, feedRest_from, feedRest_to,
      UartbusConsoleEnv.unrecognisedCmd, UartbusConsoleEnv.setFromAddress,
      UartbusConsoleEnv.setToAddress, ConsoleResponse.new]

/-- A line without a mark in front is fed to the rest of `feed`. -/
theorem feed_unmarked (hline : trim line = c :: rest) (hgreater : c ≠ '>') (hless : c ≠ '<') :
    env.feed line = (env.feedRest (c :: rest), env) := by
  unfold UartbusConsoleEnv.feed
  rw [hline]
  split
  · rename_i heq
    cases heq
  · rename_i heq
    exact absurd (List.cons.inj heq).1 hgreater
  · rename_i heq
    exact absurd (List.cons.inj heq).1 hless
  · rfl

theorem lineFed_unmarked (hline : trim line = c :: rest) (hgreater : c ≠ '>') (hless : c ≠ '<') :
    LineFed env line := by
  have hfeed : env.feed line = _ := feed_unmarked hline hgreater hless
  refine ⟨?_, fun data hpacket => ?_, fun hpacket => ?_, fun _ => by rw [hfeed]⟩
  · simp [hfeed, addressLine, hline, hgreater, hless]
  · have hquestion : (c :: rest).head? ≠ some '?' := by
      intro hc
      rw [packetLine_of_mark hline (.inr (.inr (Option.some.inj hc)))] at hpacket
      cases hpacket
    rw [packetLine, hline] at hpacket
    rw [hfeed, UartbusConsoleEnv.feedRest, if_neg hquestion, hpacket]
  · rw [packetLine, hline] at hpacket
    rw [hfeed, UartbusConsoleEnv.feedRest, hpacket]
    split
    · exact answerQuestion_inquiry env (c :: rest)
    · exact fun h => ConsoleInquiry.noConfusion h

variable (env line)

theorem lineFed : LineFed env line := by
  cases hline : trim line with
  | nil =>
    have hfeed : env.feed line = (ConsoleResponse.new .noOp none none, env) := by
      simp [UartbusConsoleEnv.feed, hline]
    refine ⟨?_, fun data hpacket => ?_, fun _ => ?_, fun _ => by rw [hfeed]⟩
    · simp [hfeed, addressLine, hline]
    · rw [packetLine, hline, parseColonData_nil] at hpacket
      cases hpacket
    · simp [hfeed, ConsoleResponse.new]
  | cons c rest =>
    by_cases hmark : c = '>' ∨ c = '<'
    · exact lineFed_marked hline hmark
    · rw [not_or] at hmark
      exact lineFed_unmarked hline hmark.1 hmark.2

/-! ## Sessions -/

theorem lastSet_concat (mark : Char) (lines : List Text) :
    lastSet mark (lines ++ [line]) = (addressLine mark line).or (lastSet mark lines) := by
  cases hset : addressLine mark line with
  | none => simp [lastSet, hset]
  | some address => simp [lastSet, hset]

/-- The addresses a session leaves. -/
theorem feedAll_addresses (lines : List Text) :
    env.feedAll lines =
      ⟨(lastSet '>' lines).getD env.addressFrom, (lastSet '<' lines).getD env.addressTo⟩ := by
  induction lines using List.reverseRecOn with
  | nil => rfl
  | append_singleton lines line ih =>
    have hlast : env.feedAll (lines ++ [line]) = ((env.feedAll lines).feed line).2 :=
      List.foldl_concat ..
    rw [hlast, (lineFed _ _).addresses, ih, lastSet_concat, lastSet_concat]
    cases addressLine '>' line <;> cases addressLine '<' line <;> rfl

theorem isPacketCrc8Valid_of_getValidPacket {body : Bytes}
    (h : getValidPacket data = some body) : isPacketCrc8Valid data = true := by
  unfold getValidPacket at h
  split at h
  · assumption
  · cases h

/-- The packet of a response: its checksum is right and its parts are read back. -/
theorem toPacket_parses (data : Bytes) (fromAddress toAddress : Int32) :
    ∃ packet body,
      (ConsoleResponse.withAddresses .sendPacket (some data) none fromAddress toAddress).toPacket =
          .ok packet ∧
        isPacketCrc8Valid packet = true ∧ getValidPacket packet = some body ∧
        ParsedUartBusPacket.new body = .ok ⟨body, fromAddress.toInt, toAddress.toInt, data⟩ := by
  obtain ⟨toField, fromField, hto, hfrom, hwrite⟩ :=
    writeAddressing_eq fromAddress.toInt toAddress.toInt
  refine ⟨_, toField ++ fromField ++ data, ?_, ?_, getValidPacket_appendCrc8 _,
    parse_fields hto hfrom ⟨toAddress.le_toInt, toAddress.toInt_lt⟩
      ⟨fromAddress.le_toInt, fromAddress.toInt_lt⟩ data⟩
  · simp only [ConsoleResponse.toPacket, ConsoleResponse.withAddresses, bind, Except.bind, hwrite,
      pure, Except.pure]
  · exact isPacketCrc8Valid_of_getValidPacket (getValidPacket_appendCrc8 _)

/-- What the help says of a line behind others: a packet goes to the last number behind `>`, comes
from the last number behind `<` and carries the bytes of the line, and a line that is not known
changes neither address. -/
structure AsHelped (before : List Text) (line : Text) : Prop where
  packet : ((env.feedAll before).feed line).1.inquiry = .sendPacket →
    ∃ data packet body, packetLine line = some data ∧
      ((env.feedAll before).feed line).1.toPacket = .ok packet ∧
      isPacketCrc8Valid packet = true ∧ getValidPacket packet = some body ∧
      ParsedUartBusPacket.new body =
        .ok ⟨body, ((lastSet '<' before).getD env.addressFrom).toInt,
          ((lastSet '>' before).getD env.addressTo).toInt, data⟩
  unknown : ((env.feedAll before).feed line).1.inquiry = .unknownCommand →
    ((env.feedAll before).feed line).2 = env.feedAll before

/-- Every line of the session does what the help says. -/
def SessionAsHelped (lines : List Text) : Prop :=
  ∀ before line after, lines = before ++ line :: after → AsHelped env before line

/-- The last numbers behind `>` and `<` do not differ, an address that was not set counting as the
one the console started with. -/
def SameNumbers (lines : List Text) : Prop :=
  (lastSet '>' lines).getD env.addressTo = (lastSet '<' lines).getD env.addressTo ∧
    (lastSet '>' lines).getD env.addressFrom = (lastSet '<' lines).getD env.addressFrom

/-- A line does what the help says unless it sends a packet between different numbers. -/
theorem asHelped_iff (before : List Text) :
    AsHelped env before line ↔ ((packetLine line).isSome → SameNumbers env before) := by
  cases hpacket : packetLine line with
  | none =>
    refine ⟨by simp, fun _ => ⟨fun h => ?_, (lineFed _ line).unknown⟩⟩
    exact absurd h ((lineFed _ line).noPacket hpacket)
  | some data =>
    have hfeed := (lineFed (env.feedAll before) line).packet data hpacket
    obtain ⟨packet, body, hto, hcrc, hbody, hparse⟩ :=
      toPacket_parses data (env.feedAll before).addressFrom (env.feedAll before).addressTo
    constructor
    · rintro ⟨hhelped, -⟩ -
      rw [hfeed] at hhelped
      obtain ⟨data', packet', body', hdata, hto', -, hbody', hparse'⟩ := hhelped rfl
      cases hto.symm.trans hto'
      cases hbody.symm.trans hbody'
      have hsame := Except.ok.inj (hparse.symm.trans hparse')
      simp only [ParsedUartBusPacket.mk.injEq, Int32.toInt_inj, feedAll_addresses] at hsame
      exact ⟨hsame.2.2.1.symm, hsame.2.1⟩
    · intro hsame
      refine ⟨fun _ => ⟨data, packet, body, hpacket, ?_, hcrc, hbody, ?_⟩, (lineFed _ line).unknown⟩
      · rw [hfeed]
        exact hto
      · rw [hparse, feedAll_addresses, (hsame rfl).1, (hsame rfl).2]

/-- The sessions that do what the help says are those that, wherever a packet is sent, have set the
same number with both marks.
SOURCE: console.rs:6-14, 74-82, 105-176; packet.rs:107-119 -/
theorem sessionAsHelped_iff (env : UartbusConsoleEnv) (lines : List Text) :
    SessionAsHelped env lines ↔ ∀ before line after, lines = before ++ line :: after →
      (packetLine line).isSome → SameNumbers env before := by
  constructor
  · intro h before line after hlines
    exact (asHelped_iff env line before).mp (h before line after hlines)
  · intro h before line after hlines
    exact (asHelped_iff env line before).mpr (h before line after hlines)

/-- `>3` and then a packet: it goes to address 0, from address 3. -/
theorem firstDestination_not_helped :
    ¬ SessionAsHelped UartbusConsoleEnv.new [">3".toList, "1:2:3".toList] := by
  intro h
  have hline := h [">3".toList] "1:2:3".toList [] rfl
  have hsame := (asHelped_iff _ _ _).mp hline (by decide)
  exact absurd hsame.1 (by decide)

end Uartbus.Analysis
