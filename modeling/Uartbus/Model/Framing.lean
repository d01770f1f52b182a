import Uartbus.Lib.Bytes
import Uartbus.Lib.Transducer

/-!
# Packets in a byte stream

The framing between the PC and the bus gateway, as the Rust tools have it (framing.rs): an
escape byte inside a packet is doubled, and a packet ends with the escape byte and its
complement.
-/

set_option autoImplicit false

namespace Uartbus.Model

open Lib

/-- SOURCE: framing.rs:6-19 -/
def frameBytes (data : Bytes) (escape : UInt8) : Bytes :=
  (data.flatMap fun byte => if byte = escape then [escape, byte] else [byte]) ++
    [escape, ~~~escape]

/-- SOURCE: framing.rs:23-27 -/
structure FramedPacketCutter where
  escape : UInt8
  mayCut : Bool
  packet : Bytes
  deriving DecidableEq, Repr

namespace FramedPacketCutter

/-- SOURCE: framing.rs:30-36 -/
def new (escape : UInt8) : FramedPacketCutter :=
  { escape := escape, mayCut := false, packet := [] }

/-- SOURCE: framing.rs:38-41 -/
def clear (cutter : FramedPacketCutter) : FramedPacketCutter := { cutter with packet := [] }

/-- The body of the loop; the packet given to `on_packet`, if there is one.
SOURCE: framing.rs:44-57 -/
def feedByte (cutter : FramedPacketCutter) (byte : UInt8) :
    FramedPacketCutter × List Bytes :=
  if cutter.mayCut then
    if byte = cutter.escape then
      ({ cutter with packet := cutter.packet ++ [cutter.escape], mayCut := false }, [])
    else ({ cutter with packet := [], mayCut := false }, [cutter.packet])
  else if byte = cutter.escape then ({ cutter with mayCut := true }, [])
  else ({ cutter with packet := cutter.packet ++ [byte] }, [])

/-- The cutter afterwards and the packets given to `on_packet`.
SOURCE: framing.rs:43-58 -/
def feedBytes (cutter : FramedPacketCutter) (bytes : Bytes) :
    FramedPacketCutter × List Bytes :=
  transduce feedByte cutter bytes

end FramedPacketCutter

end Uartbus.Model
