import Uartbus.Model.Bootloader

/-!
# What a flash session is for

Seen from the bus, programming a device builds up an image: a start request empties it, each
push that is answered with 0 appends its data, and a commit that is answered with 0 says that
the image is in the program memory.  `eventOf` reads a request and its answers this way, and
`imageOf` is the image after a sequence of them.  Nothing here looks at the state of the
device.
-/

set_option autoImplicit false

namespace Uartbus.Interface

open Lib Model

/-- A request of 2:4 together with its answers. -/
inductive FlashEvent where
  /-- A start request. -/
  | started
  /-- A push that was answered with 0. -/
  | accepted (data : Bytes)
  /-- A commit that was answered with 0. -/
  | committed
  /-- Anything else. -/
  | other
  deriving DecidableEq, Repr

/-- The only answer has the error number 0 behind the path. -/
def answeredZero (answers : List Packet) : Bool :=
  match answers with
  | [answer] => answer.payload[4]? = some 0
  | _ => false

def eventOf (packet : Packet) (answers : List Packet) : FlashEvent :=
  match packet.payload with
  | 2 :: 4 :: 1 :: _ => if answers = [] then .other else .started
  | 2 :: 4 :: 3 :: _ :: _ :: data => if answeredZero answers then .accepted data else .other
  | 2 :: 4 :: 4 :: _ => if answeredZero answers then .committed else .other
  | _ => .other

/-- The image after one more request. -/
def extendImage (image : Bytes) : FlashEvent → Bytes
  | .started => []
  | .accepted data => image ++ data
  | .committed | .other => image

/-- The data of the pushes accepted since the last start request, in order. -/
def imageOf (events : List FlashEvent) : Bytes := events.foldl extendImage []

theorem imageOf_concat (events : List FlashEvent) (e : FlashEvent) :
    imageOf (events ++ [e]) = extendImage (imageOf events) e := by
  simp [imageOf]

/-- A device with what it has been asked so far. -/
structure Served (p : Platform) where
  flash : Flash p
  /-- The highest value `flash_crnt_address` has had. -/
  highest : ℕ
  events : List FlashEvent

variable {p : Platform}

/-- The device handles a packet. -/
def serve (s : Served p) (packet : Packet) : Option (Served p) :=
  let r := s.flash.dispatch packet
  some
    { flash := r.1
      highest := max s.highest r.1.flashCrntAddress.toNat
      events := s.events ++ [eventOf packet r.2] }

/-- The address that the request leads to is at most `0xFFFF`. -/
def StaysInRange (s : Served p) (packet : Packet) : Prop :=
  match eventOf packet (s.flash.dispatch packet).2 with
  | .started => p.appStartAddress ≤ 0xFFFF
  | .accepted data => s.flash.flashCrntAddress.toNat + data.length ≤ 0xFFFF
  | .committed | .other => True

instance decidableStaysInRange (s : Served p) (packet : Packet) :
    Decidable (StaysInRange s packet) := by
  unfold StaysInRange
  split <;> infer_instance

namespace Served

def powerOn (tmp : Vector UInt8 p.pageSize) (appRun : Bool) : Served p :=
  { flash := Flash.powerOn tmp appRun, highest := 0, events := [] }

def memory (s : Served p) (initial : ℕ → UInt8) : ℕ → UInt8 :=
  programMemory initial s.flash.pages

end Served

end Uartbus.Interface
