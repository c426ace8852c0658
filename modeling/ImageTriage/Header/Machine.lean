import ImageTriage.Text.Numeral

/-!
# Machines and subsystems

The processor an image is built for and the environment it runs in are 16-bit codes. Known codes
have a name; the others keep their number, so that no code is lost: `Machine.word_ofWord` and
`Subsystem.word_ofWord`.
-/

namespace ImageTriage

/-- The processor an image is built for. -/
inductive Machine where
  | unknown
  | x86
  | x64
  | arm
  | arm64
  | armThumb2
  | itanium
  | efiByteCode
  | other (code : UInt16)
  deriving DecidableEq, Repr

namespace Machine

/-- The codes that have a name. -/
def known : List (UInt16 × Machine) :=
  [(0, unknown), (0x014c, x86), (0x8664, x64), (0x01c0, arm), (0xaa64, arm64),
    (0x01c4, armThumb2), (0x0200, itanium), (0x0ebc, efiByteCode)]

/-- The machine with the given code. -/
def ofWord (w : UInt16) : Machine :=
  match known.find? (·.1 == w) with
  | some (_, machine) => machine
  | none => other w

/-- The code of a machine. -/
def word : Machine → UInt16
  | unknown => 0
  | x86 => 0x014c
  | x64 => 0x8664
  | arm => 0x01c0
  | arm64 => 0xaa64
  | armThumb2 => 0x01c4
  | itanium => 0x0200
  | efiByteCode => 0x0ebc
  | other code => code

theorem word_ofWord (w : UInt16) : (ofWord w).word = w := by
  have hknown : ∀ p ∈ known, p.2.word = p.1 := by decide
  unfold ofWord
  split
  · next h =>
    have := hknown _ (List.mem_of_find?_eq_some h)
    simpa [this] using List.find?_some h
  · rfl

/-- The name of a machine in a report. -/
def name : Machine → String
  | unknown => "Unknown"
  | x86 => "x86"
  | x64 => "x86-64"
  | arm => "ARM"
  | arm64 => "ARM64"
  | armThumb2 => "ARM Thumb-2"
  | itanium => "IA-64"
  | efiByteCode => "EFI byte code"
  | other code => Text.hexMarked 4 code.toNat

end Machine

/-- The environment an image runs in. -/
inductive Subsystem where
  | unknown
  | native
  | windowsGui
  | windowsConsole
  | os2Console
  | posixConsole
  | windowsCeGui
  | efiApplication
  | efiBootDriver
  | efiRuntimeDriver
  | efiRom
  | xbox
  | bootApplication
  | other (code : UInt16)
  deriving DecidableEq, Repr

namespace Subsystem

/-- The codes that have a name. -/
def known : List (UInt16 × Subsystem) :=
  [(0, unknown), (1, native), (2, windowsGui), (3, windowsConsole), (5, os2Console),
    (7, posixConsole), (9, windowsCeGui), (10, efiApplication), (11, efiBootDriver),
    (12, efiRuntimeDriver), (13, efiRom), (14, xbox), (16, bootApplication)]

/-- The subsystem with the given code. -/
def ofWord (w : UInt16) : Subsystem :=
  match known.find? (·.1 == w) with
  | some (_, subsystem) => subsystem
  | none => other w

/-- The code of a subsystem. -/
def word : Subsystem → UInt16
  | unknown => 0
  | native => 1
  | windowsGui => 2
  | windowsConsole => 3
  | os2Console => 5
  | posixConsole => 7
  | windowsCeGui => 9
  | efiApplication => 10
  | efiBootDriver => 11
  | efiRuntimeDriver => 12
  | efiRom => 13
  | xbox => 14
  | bootApplication => 16
  | other code => code

theorem word_ofWord (w : UInt16) : (ofWord w).word = w := by
  have hknown : ∀ p ∈ known, p.2.word = p.1 := by decide
  unfold ofWord
  split
  · next h =>
    have := hknown _ (List.mem_of_find?_eq_some h)
    simpa [this] using List.find?_some h
  · rfl

/-- The name of a subsystem in a report. -/
def name : Subsystem → String
  | unknown => "Unknown"
  | native => "Native"
  | windowsGui => "Windows GUI"
  | windowsConsole => "Windows console"
  | os2Console => "OS/2 console"
  | posixConsole => "POSIX console"
  | windowsCeGui => "Windows CE GUI"
  | efiApplication => "EFI application"
  | efiBootDriver => "EFI boot service driver"
  | efiRuntimeDriver => "EFI runtime driver"
  | efiRom => "EFI ROM"
  | xbox => "Xbox"
  | bootApplication => "Windows boot application"
  | other code => toString code.toNat

end Subsystem

end ImageTriage
