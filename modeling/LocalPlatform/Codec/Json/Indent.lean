/-
# LocalPlatform.Codec.Json.Indent — JSON written over several lines.

The layout of `json.MarshalIndent(v, "", "  ")`: what stands between brackets has a line for each part, two blanks deeper;
empty brackets stay together.
-/
import LocalPlatform.Codec.Json.Object

namespace LocalPlatform.Codec.Json.Indent

/-- A new line, indented by two blanks a level. -/
def newline (level : Nat) : Bytes := 0x0a :: List.replicate (2 * level) 0x20

/-- Texts with a separator between them. -/
def joinWith (sep : Bytes) : List Bytes → Bytes
  | [] => []
  | [x] => x
  | x :: y :: xs => x ++ sep ++ joinWith sep (y :: xs)

/-- Texts between brackets, each on a line of its own. -/
def block (opening closing : UInt8) (level : Nat) (texts : List Bytes) : Bytes :=
  if texts = [] then [opening, closing]
  else [opening] ++ newline (level + 1) ++ joinWith (ascii "," ++ newline (level + 1)) texts ++ newline level ++ [closing]

/-- A field of a struct. -/
def field (name : String) (value : Bytes) : Bytes := keyLiteral name ++ ascii ": " ++ value

end LocalPlatform.Codec.Json.Indent
