/-
# LocalPlatform.Relay.Error — errors as the code uses them.

The code does two things with an error value: it asks `errors.Is` for one of three sentinels, and it
prints the error into a record somebody reads later.  An error here is these two, and wrapping and
joining act on both.
-/
import LocalPlatform.Codec.Bytes

namespace LocalPlatform.Relay

open Codec

/-- The error values the code compares with. -/
inductive Sentinel where
  | canceled
  | deadlineExceeded
  | eventNotFound
  deriving DecidableEq, Repr

/-- An error: what it prints, and the sentinels in its tree. -/
structure Err where
  text : Bytes
  chain : List Sentinel
  deriving DecidableEq, Repr

namespace Err

/-- `errors.New`. -/
def new (text : Bytes) : Err := ⟨text, []⟩

/-- `errors.Is`. -/
def is (e : Err) (s : Sentinel) : Bool := e.chain.contains s

/-- `fmt.Errorf` with the error at the end, under `%w`. -/
def wrap (what : Bytes) (e : Err) : Err := ⟨what ++ e.text, e.chain⟩

/-- `errors.Join` of errors that are not nil; nil when there are none. -/
def join : List Err → Option Err
  | [] => none
  | es => some ⟨[0x0a].intercalate (es.map text), es.flatMap chain⟩

/-- The context was cancelled or its deadline has passed. -/
def ofContext (e : Err) : Bool := e.is .canceled || e.is .deadlineExceeded

theorem is_wrap (what : Bytes) (e : Err) (s : Sentinel) : (e.wrap what).is s = e.is s := rfl

theorem join_eq_none {es : List Err} : join es = none ↔ es = [] := by
  cases es <;> simp [join]

end Err

/-- `ErrEventNotFound`. -/
def errEventNotFound : Err := ⟨ascii "history: event not found", [.eventNotFound]⟩

end LocalPlatform.Relay
