/-!
The sixteen keys of the hexadecimal keypad.
-/

namespace Chip8

/-- A key, by its digit. -/
structure Key where
  code : Fin 16
  deriving DecidableEq, Repr

/-- A code that belongs to no key. -/
structure InvalidKey where
  code : UInt8
  deriving DecidableEq, Repr

/-- The wording of a refused code. -/
def InvalidKey.message (e : InvalidKey) : String :=
  "keycode must be in range 0 <= keycode < 16, got " ++ toString e.code.toNat

namespace Key

/-- The keys in the order of their digits. -/
def all : List Key :=
  (List.finRange 16).map Key.mk

/-- The key of a code. -/
def ofCode (code : UInt8) : Except InvalidKey Key :=
  if h : code.toNat < 16 then .ok ⟨⟨code.toNat, h⟩⟩ else .error ⟨code⟩

/-- The code of a key, as a register holds it. -/
def toByte (k : Key) : UInt8 :=
  UInt8.ofNat k.code.val

/-- The name of a key: `k` and its digit in lower case. -/
def name (k : Key) : String :=
  String.ofList ['k', Nat.digitChar k.code.val]

@[simp] theorem ofCode_toByte (k : Key) : ofCode k.toByte = .ok k := by
  obtain ⟨c, hc⟩ := k
  have h : (UInt8.ofNat c).toNat = c := by simp; omega
  simp [ofCode, toByte, h, hc]

end Key

end Chip8
