import Mathlib.Algebra.Group.Int.Defs
import Mathlib.Algebra.GroupWithZero.Nat
import Mathlib.Data.Nat.Notation
import Mathlib.Data.Fintype.Basic

/-! # Byte strings, hashes and addresses -/
namespace GoCoupe

abbrev Bytes:=List UInt8

/-- `common.Hash`, read as the big-endian number its 32 bytes spell. -/
abbrev Hash:=Fin (2^256)

/-- `common.Address`, read as the big-endian number its 20 bytes spell. -/
abbrev Address:=Fin (2^160)

instance neZero_hashes:NeZero (2^256):=⟨Nat.pos_iff_ne_zero.1 (Nat.two_pow_pos 256)⟩

instance neZero_addresses:NeZero (2^160):=⟨Nat.pos_iff_ne_zero.1 (Nat.two_pow_pos 160)⟩

instance lawfulBEq_hashes:LawfulBEq Hash:=inferInstance

instance lawfulBEq_addresses:LawfulBEq Address:=inferInstance

end GoCoupe
