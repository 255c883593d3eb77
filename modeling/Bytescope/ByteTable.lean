/-!
# Tables indexed by bytes

## Main definitions

* `ByteTable`: one value for each of the 256 byte values.
* `ByteTable.lookup`, `ByteTable.update`: read and write the value of one byte.

## Main results

* `lookup_update`: an update changes the value of its own byte and of no other.
-/

namespace Bytescope

/-- One value for each byte value. -/
abbrev ByteTable (α : Type) := Vector α 256

namespace ByteTable

variable {α β : Type}

/-- The same value for every byte. -/
def uniform (value : α) : ByteTable α := Vector.replicate 256 value

/-- The value of a byte. -/
def lookup (t : ByteTable α) (byte : UInt8) : α := t[byte.toFin]

/-- Replaces the value of a byte. -/
def update (t : ByteTable α) (byte : UInt8) (value : α) : ByteTable α :=
  t.set byte.toFin value byte.toFin.isLt

@[simp]
theorem lookup_uniform (value : α) (byte : UInt8) : (uniform value).lookup byte = value := by
  simp [lookup, uniform]

@[simp]
theorem lookup_map (f : α → β) (t : ByteTable α) (byte : UInt8) :
    lookup (t.map f) byte = f (t.lookup byte) := by
  simp [lookup]

/-- An update changes the value of its own byte and of no other. -/
theorem lookup_update (t : ByteTable α) (byte other : UInt8) (value : α) :
    (t.update byte value).lookup other = if byte = other then value else t.lookup other := by
  by_cases heq : byte = other
  · subst heq
    simp [lookup, update]
  · have hne : byte.toNat ≠ other.toNat := fun h => heq (UInt8.toNat_inj.mp h)
    simp [lookup, update, heq, hne]

end ByteTable

end Bytescope
