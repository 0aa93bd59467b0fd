/-
# LocalPlatform.Python.Shlex — a command line split as a shell splits it.

`shlex.split` in its POSIX mode: white space separates words, single quotes keep everything, double quotes
everything but a backslash before a quote or another backslash, and a backslash outside quotes keeps what
follows it.
-/
import LocalPlatform.Python.Text

namespace LocalPlatform.Python.Shlex

/-- Where the reader is: between words, in one, in quotes, or behind a backslash; `back` is the quote the
backslash stands in. -/
inductive State where
  | blank
  | word
  | quoted (quote : Nat)
  | escape (back : Option Nat)
  deriving DecidableEq, Repr

def whitespace (c : Nat) : Bool := c == 0x20 || c == 0x09 || c == 0x0d || c == 0x0a

def isQuote (c : Nat) : Bool := c == 0x22 || c == 0x27

/-- A word, if there is one: an empty one has to have been quoted. -/
def finish (token : Str) (quotes : Bool) : List Str := if token ≠ [] ∨ quotes then [token] else []

/-- The words from a state on, with the word at hand and whether it had quotes; the text of the `ValueError` where the
text ends too early. -/
def read : State → Str → Bool → Str → Except Str (List Str)
  | .quoted _, _, _, [] => .error (lit "No closing quotation")
  | .escape _, _, _, [] => .error (lit "No escaped character")
  | _, token, quotes, [] => .ok (finish token quotes)
  | .blank, token, quotes, c :: r =>
    if whitespace c then read .blank token quotes r
    else if c = 0x5c then read (.escape none) token quotes r
    else if isQuote c then read (.quoted c) token quotes r
    else read .word [c] quotes r
  | .quoted q, token, _, c :: r =>
    if c = q then read .word token true r
    else if c = 0x5c ∧ q = 0x22 then read (.escape (some q)) token true r
    else read (.quoted q) (token ++ [c]) true r
  | .escape none, token, quotes, c :: r => read .word (token ++ [c]) quotes r
  | .escape (some q), token, quotes, c :: r =>
    read (.quoted q) (token ++ (if c ≠ 0x5c ∧ c ≠ q then [0x5c, c] else [c])) quotes r
  | .word, token, quotes, c :: r =>
    if whitespace c then (read .blank [] false r).map (finish token quotes ++ ·)
    else if isQuote c then read (.quoted c) token quotes r
    else if c = 0x5c then read (.escape none) token quotes r
    else read .word (token ++ [c]) quotes r

/-- **`shlex.split`** -/
def split (s : Str) : Except Str (List Str) := read .blank [] false s

example : split (lit "-var 'enable_eks=true' -out=\"a b\"") =
    .ok [lit "-var", lit "enable_eks=true", lit "-out=a b"] := rfl

end LocalPlatform.Python.Shlex
