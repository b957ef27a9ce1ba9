/-!
# What ends a handler early

An exception that nothing inside the handler catches, a failed `ASSERT`, a null
pointer that is dereferenced, or a loop that runs past the fuel the model gives
it.  The first of these has a text, `Fault.what`.
-/

namespace WarheadDiscord

inductive Fault where
  /-- `ByteBufferPositionException(add, pos, size, valueSize)`. -/
  | byteBufferPosition (add : Bool) (pos size valueSize : Nat)
  /-- `ByteBufferInvalidValueException(type, value)`. -/
  | byteBufferInvalidValue (type : String) (value : List UInt8)
  /-- `ByteBufferException()`, without a text. -/
  | byteBuffer
  /-- `std::out_of_range(what)`. -/
  | outOfRange (what : String)
  /-- `ASSERT(cond, ...)` with a false condition. -/
  | assertion (cond : String)
  /-- A member access through a null pointer. -/
  | nullPointer (member : String)
  /-- An access that the language gives no meaning to. -/
  | undefinedBehaviour (what : String)
  /-- A loop of the model is out of fuel. -/
  | outOfFuel
  deriving DecidableEq, Repr

/-- The text of `what()`, for the faults that are exceptions. -/
def Fault.what : Fault → Option String
  | byteBufferPosition add pos size valueSize =>
    some ("Attempted to " ++ (if add then "put" else "get") ++ " value with size: " ++
      toString valueSize ++ " in ByteBuffer (pos: " ++ toString pos ++
      " size: " ++ toString size ++ ")")
  -- An octet of the value is shown as the character of its number.
  | byteBufferInvalidValue type value =>
    some ("Invalid " ++ type ++ " value (" ++
      String.ofList (value.map fun oc => Char.ofNat oc.toNat) ++ ") found in ByteBuffer")
  | byteBuffer => some ""
  | outOfRange what => some what
  | _ => none

end WarheadDiscord
