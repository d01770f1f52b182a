import Uartbus.Model.Ihex

/-!
# The interrupt vectors of a program

`ub ihex replace_interrupts` redirects the vectors of a boot loader into the vector table of the
application (apps/ihex.rs).  A table entry is a `jmp` of four bytes whose destination is given in
words; `u32` values that cannot overflow are natural numbers.  Modelled is the reading and the
rewriting of the table; which destination is rewritten is an argument.
-/

set_option autoImplicit false

namespace Uartbus.Model

/-- SOURCE: apps/ihex.rs:35 -/
def firstVector : ℕ := 4

/-- The loop over the table; every round takes four bytes, so `data.length` rounds are enough.
SOURCE: apps/ihex.rs:41-49 -/
def vectorsFrom (data : Bytes) : ℕ → ℕ → List (ℕ × ℕ)
  | 0, _ => []
  | fuel + 1, addr =>
    if addr + 4 ≤ data.length then
      if data.getD addr 0 ≠ 0x0c ∨ data.getD (addr + 1) 0 ≠ 0x94 then []
      else
        let dst := ((data.getD (addr + 3) 0).toNat <<< 8 ||| (data.getD (addr + 2) 0).toNat) * 2
        (addr, dst) :: vectorsFrom data fuel (addr + 4)
    else []

/-- SOURCE: apps/ihex.rs:38-51 -/
def vectorDestinations (data : Bytes) : List (ℕ × ℕ) :=
  vectorsFrom data data.length firstVector

/-- The loop body: the data and the number of changed vectors.
SOURCE: apps/ihex.rs:82-90 -/
def redirect (rewrite offset : ℕ) (s : Bytes × ℕ) (vector : ℕ × ℕ) : Bytes × ℕ :=
  if vector.2 = rewrite then
    let jmp := (vector.1 % 2 ^ 32 + offset) % 2 ^ 32 / 2
    ((s.1.set (vector.1 + 2) (UInt8.ofNat (jmp &&& 0xff))).set (vector.1 + 3)
      (UInt8.ofNat ((jmp >>> 8) &&& 0xff)), s.2 + 1)
  else s

/-- SOURCE: apps/ihex.rs:80-92 -/
def rewriteVectors (data : Bytes) (rewrite offset : ℕ) : Bytes × ℕ :=
  (vectorDestinations data).foldl (redirect rewrite offset) (data, 0)

end Uartbus.Model
