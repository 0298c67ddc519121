import Scripting.Decimal.Shortest
import Scripting.RuntimeError
import Scripting.Text.Utf8

/-!
# Keys of hashes

A hash finds its entries by a `Key`: the kind of the value and a digest of 64 bits. An integer is
its own digest; a text is digested byte by byte, and a float through its text.
-/

namespace Scripting

/-- What a hash tells its entries apart by. -/
structure Key where
  kind : Kind
  digest : UInt64
deriving DecidableEq, Hashable, Repr

/-- The digest of a row of bytes: starting from an offset, each byte is mixed in by exclusive or and
spread by a multiplication modulo 2^64. -/
def digest (bytes : List UInt8) : UInt64 :=
  bytes.foldl (fun d b => (d ^^^ b.toUInt64) * 0x100000001b3) 0xcbf29ce484222325

/-- The key of a value. Only numbers, truth values and texts have one. -/
def Value.key : Value → Except RuntimeError Key
  | .integer n => .ok ⟨.integer, n.toUInt64⟩
  | .boolean b => .ok ⟨.boolean, if b then 1 else 0⟩
  | .float x => .ok ⟨.float, digest (Text.bytes (Decimal.floatText x))⟩
  | .text s => .ok ⟨.string, digest (Text.bytes s)⟩
  | v => .error (.notHashable v.kind)

end Scripting
