/-! Latin-1 text: every byte is the character of the same code. -/

namespace CompactFont.Text

def latinCharacter (byte : UInt8) : Char := Char.ofNat byte.toNat

def latin (bytes : List UInt8) : String := String.ofList (bytes.map latinCharacter)

end CompactFont.Text
