/-!
# Powers and widths

Powers of two and of ten, and the first numbers that need more than a fixed number of bits.
-/
namespace Lispbox

/-- A power of two. -/
def twoTo (k : Nat) : Nat := Nat.pow 2 k

/-- A power of ten. -/
def tenTo (k : Nat) : Nat := Nat.pow 10 k

/-- The first number of more than 16 bits. -/
def word16 : Nat := 65536

/-- The first number of more than 31 bits. -/
def word31 : Nat := 2147483648

/-- The first number of more than 32 bits. -/
def word32 : Nat := 4294967296

/-- The first number of more than 63 bits. -/
def word63 : Nat := 9223372036854775808

/-- The first number of more than 64 bits. -/
def word64 : Nat := 18446744073709551616

end Lispbox
