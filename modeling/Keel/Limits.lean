-- SUMMARY: The limits of the C integer types.

/-! The largest values of the integer types that the source names, on a 64-bit platform. -/

def INT_MAX : Nat := 2147483647
def UINT64_MAX : Nat := 18446744073709551615
def SIZE_MAX : Nat := 18446744073709551615
