import HudsonSandbox.Library.Codec
import HudsonSandbox.Library.Framed
import HudsonSandbox.Library.Utf8
import HudsonSandbox.Protocol.Display
import HudsonSandbox.Protocol.GuestWire

/-!
# Bootstrap devices

The identity of a guest on a block device of a fixed size: a marker, the length of the body, the body, and
zeros. The guest reads the body back, whatever comes after it.
-/

namespace HudsonSandbox.Device
open Checked GuestModel

structure Bootstrap where
  version : ℕ
  allocation : AllocationId
  generation : ℤ
  validUntilUnixMs : ℤ
  caPem : String
  guestCertPem : String
  guestKeyPem : String
  hostPin : Digest
  deriving DecidableEq

/-- The members of the JSON object, the identity as its text. -/
structure Body where
  version : ℕ
  allocation : String
  generation : ℤ
  validUntilUnixMs : ℤ
  caPem : String
  guestCertPem : String
  guestKeyPem : String
  hostPin : Digest
  deriving DecidableEq

def Bootstrap.body (self : Bootstrap) : Body :=
  { version := self.version, allocation := self.allocation.toString, generation := self.generation,
    validUntilUnixMs := self.validUntilUnixMs, caPem := self.caPem, guestCertPem := self.guestCertPem,
    guestKeyPem := self.guestKeyPem, hostPin := self.hostPin }

def Bootstrap.validate (self : Bootstrap) : Except String Unit := do
  ensure (self.version = 1 ∧ 0 < self.generation ∧ 0 < self.validUntilUnixMs) "invalid bootstrap identity"
  ensure (∀ value ∈ [self.caPem, self.guestCertPem, self.guestKeyPem], value ≠ "" ∧ value.utf8ByteSize ≤ 16384)
    "invalid bootstrap credential size"
  ensure (self.hostPin ≠ Vector.replicate 32 0) "missing bootstrap peer identity"

/-- The JSON text of the members, as bytes. -/
abbrev Encoding := Codec Body (List UInt8)

variable {json : Encoding} {bootstrap : Bootstrap}

section DeviceSample

def identity : Bootstrap :=
  { version := 1, allocation := ⟨0x01900000000070008000000000000001#128⟩, generation := 1, validUntilUnixMs := 1000,
    caPem := "CA", guestCertPem := "CERT", guestKeyPem := "KEY", hostPin := Vector.replicate 32 1 }

end DeviceSample

end HudsonSandbox.Device
