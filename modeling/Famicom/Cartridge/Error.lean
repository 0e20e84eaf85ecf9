/-!
# Why a cartridge image is refused

Each cause is a constructor; the wording is in one place.
-/

namespace Famicom

/-- A reason to refuse a cartridge image. -/
inductive CartridgeError where
  | invalidMagic
  | truncated (expected actual : Nat)
  | trainerUnsupported
  | unsupportedConsole (kind : Nat)
  | nes2Unsupported
  | unsupportedMapper (number : Nat)
  deriving DecidableEq, Repr

namespace CartridgeError

/-- The reason in words. -/
def message : CartridgeError → String
  | invalidMagic => "invalid iNES magic, expected \"NES\\x1A\""
  | truncated expected actual =>
    s!"image truncated: expected at least {expected} bytes, got {actual}"
  | trainerUnsupported => "trainer data is not supported"
  | unsupportedConsole kind =>
    s!"unsupported console type {kind} (only the baseline NES/Famicom is emulated)"
  | nes2Unsupported => "NES 2.0 headers are not supported"
  | unsupportedMapper number => s!"unsupported mapper {number}"

/-- The reason as the program reports it. -/
def report (e : CartridgeError) : String := "ROM load failed: " ++ e.message

end CartridgeError

end Famicom
