import PicAssembly.Text.Basic

/-!
# `PicAssembly.Device.Basic`: the registers of a device

A device has registers at addresses, and named fields of bits in them. A
register of sixteen bits shares its address with the lower of its two halves.
-/

set_option autoImplicit false

namespace PicAssembly

/-- A register, with its width in bits. -/
structure Register where
  name : Text
  address : Nat
  size : Nat
  deriving DecidableEq, Repr

/-- Neighbouring bits of the register at an address, from a bit up. -/
structure Field where
  name : Text
  address : Nat
  bit : Nat
  size : Nat
  deriving DecidableEq, Repr

/-- What is known of a device, in the order of its description. -/
structure Device where
  registers : List Register
  fields : List Field
  deriving DecidableEq, Repr

end PicAssembly
