import MariaDB.Lib.Buffer
import MariaDB.Lib.BigEndian

/-
  Reading a buffer with a record of what is read.

  `Traced α` is a value together with the indices of the buffer that were read to compute it:
  the writer monad over lists of indices. `readByte buf i` reads one byte and `readLE buf i n`
  an `n`-byte little-endian number; a byte past the end of the buffer reads as 0, and its
  index is still recorded. A computation reads within a buffer of length `n` when every index
  it records is below `n`; a read outside is what C calls an out-of-bounds access.
-/

namespace MariaDB.Lib

/-- A value and the indices read to compute it. -/
structure Traced (α : Type) where
  value : α
  reads : List Nat

namespace Traced

instance : Monad Traced where
  pure a := ⟨a, []⟩
  bind x f := ⟨(f x.value).value, x.reads ++ (f x.value).reads⟩

/-- Every index read is below `n`. -/
def ReadsWithin {α : Type} (n : Nat) (x : Traced α) : Prop := ∀ i ∈ x.reads, i < n

instance {α : Type} (n : Nat) (x : Traced α) : Decidable (x.ReadsWithin n) :=
  inferInstanceAs (Decidable (∀ i ∈ x.reads, i < n))

end Traced

/-- `buf[i]`. -/
def readByte (buf : List UInt8) (i : Nat) : Traced UInt8 := ⟨buf.getD i 0, [i]⟩

/-- The little-endian number in the `n` bytes from `i` (`uint2korr` .. `uint5korr`). -/
def readLE (buf : List UInt8) (i n : Nat) : Traced Nat :=
  ⟨beVal ((List.range' i n).map (fun j => buf.getD j 0)).reverse, List.range' i n⟩

end MariaDB.Lib
