import TapProject.Lib.Slices

set_option autoImplicit false

/-! # Reading numbers from memory

Memory is a function from offsets to bytes. The host is little-endian; the fields of a frame are
in network order, most significant byte first. `bytes16` and `bytes32` are the bytes of a number as
the host stores it, and reading gives the number back. -/

namespace TapProject

open Slices

/-- The 16-bit number at `off`. -/
def le16 (mem : Nat → UInt8) (off : Nat) : Nat := (mem off).toNat + 256 * (mem (off + 1)).toNat

/-- The 16-bit number at `off` in network order, `ntohs` of the host's. -/
def be16 (mem : Nat → UInt8) (off : Nat) : Nat := 256 * (mem off).toNat + (mem (off + 1)).toNat

/-- The 32-bit number at `off`. -/
def le32 (mem : Nat → UInt8) (off : Nat) : Nat := le16 mem off + 65536 * le16 mem (off + 2)

theorem le16_congr {mem mem' : Nat → UInt8} {off : Nat}
    (h : ∀ i, off ≤ i → i < off + 2 → mem i = mem' i) : le16 mem off = le16 mem' off := by
  rw [le16, le16, h off (by omega) (by omega), h (off + 1) (by omega) (by omega)]

theorem le32_congr {mem mem' : Nat → UInt8} {off : Nat}
    (h : ∀ i, off ≤ i → i < off + 4 → mem i = mem' i) : le32 mem off = le32 mem' off := by
  have hlow : le16 mem off = le16 mem' off := le16_congr fun i hi hi' => h i hi (by omega)
  have hhigh : le16 mem (off + 2) = le16 mem' (off + 2) :=
    le16_congr fun i hi hi' => h i (by omega) (by omega)
  rw [le32, le32, hlow, hhigh]

/-! ## Bytes of a number -/

def bytes16 (n : Nat) : List UInt8 := [UInt8.ofNat n, UInt8.ofNat (n / 256)]

def bytes32 (n : Nat) : List UInt8 := bytes16 n ++ bytes16 (n / 65536)

@[simp] theorem bytes16_length (n : Nat) : (bytes16 n).length = 2 := rfl

@[simp] theorem bytes32_length (n : Nat) : (bytes32 n).length = 4 := rfl

variable {mem : Nat → UInt8} {off n : Nat}

theorem le16_of_holds (h : Holds mem off (bytes16 n)) : le16 mem off = n % 65536 := by
  obtain ⟨hlow, hhigh⟩ := holds_cons.mp h
  rw [le16, hlow, (holds_cons.mp hhigh).1, UInt8.toNat_ofNat', UInt8.toNat_ofNat']
  omega

theorem le32_of_holds (h : Holds mem off (bytes32 n)) : le32 mem off = n % 2 ^ 32 := by
  obtain ⟨hlow, hhigh⟩ := holds_append.mp h
  rw [bytes16_length] at hhigh
  rw [le32, le16_of_holds hlow, le16_of_holds hhigh]
  omega

end TapProject
