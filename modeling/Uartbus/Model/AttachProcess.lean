import Uartbus.Model.Console
import Uartbus.Model.Ftp

/-!
# A process on the bus

`ub attachProcess` gives the packets of the bus to a process, one line each, and sends the lines the
process writes (attach_process.rs).
-/

set_option autoImplicit false

namespace Uartbus.Model.AttachProcess

open Lib

/-- What is written to the standard input of the process for a packet.
SOURCE: apps/attach_process.rs:104-108 -/
def toProcess (packet : Bytes) : Bytes := utf8Bytes (formatColonData packet ++ ['\n'])

/-- The packets that are handed to `send_packet` for the lines of the process.  A line that is no
text ends the loop, and one that is no packet is reported and passed over.
SOURCE: apps/attach_process.rs:115-123 -/
def sentPackets : List Bytes → List Bytes
  | [] => []
  | line :: lines =>
    match utf8Text line with
    | none => []
    | some line =>
      match parseColonData line with
      | some packet => packet :: sentPackets lines
      | none => sentPackets lines

/-- The packets sent for what the process writes to its standard output.
SOURCE: apps/attach_process.rs:113-123 -/
def fromProcess (stdout : Bytes) : List Bytes :=
  sentPackets (FileRegistry.lines stdout)

end Uartbus.Model.AttachProcess
