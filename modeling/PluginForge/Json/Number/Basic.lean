import PluginForge.Decimal.Shortest

namespace PluginForge.Json

/-- A number: an integer that fits 64 bits, signed or unsigned, or a double. -/
inductive Number where
  | int (value : Int)
  | float (value : Float)

namespace Number

/-- Doubles are written plainly from a hundred-thousandth up to ten quadrillions. -/
def floatLayout : Decimal.Layout :=
  ⟨-5, 16⟩

def writeInt : Int → Text
  | .ofNat n => Text.ofNat n
  | .negSucc n => '-' :: Text.ofNat (n + 1)

def writeFloat (value : Float) : Text :=
  let bits := value.toBits
  let magnitude := bits &&& 0x7FFFFFFFFFFFFFFF
  let sign : Text := if bits = magnitude then [] else ['-']
  let digits : Decimal.Scaled :=
    if magnitude = 0 then ⟨0, 0⟩ else (Decimal.Binary.ofBits magnitude).shortest
  sign ++ floatLayout.write digits

/-- The text of a number: its decimal digits, or the shortest decimal that reads back. -/
def write : Number → Text
  | .int value => writeInt value
  | .float value => writeFloat value

end Number

end PluginForge.Json
