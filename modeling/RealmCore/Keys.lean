import Mathlib

/-!
# Object keys and logic errors

An `ObjKey` is a signed 64-bit key, unique within its table; `ObjKey()`, the null key,
is `-1`. Tables and columns are named by `TableKey` and `ColKey` values, here plain
numbers.

The setters of `Obj` and `Lst` report a misuse by throwing; `LogicError` names the kinds
they throw.
-/

namespace RealmCore

/-- `ObjKey()` (also `null_key`): the key of no object, value `-1`. -/
def nullKey : Int := -1

/-- What a setter throws: `KeyNotFound` from `get_object`, an index past the end of a
list, and the kinds of `LogicError`. -/
inductive LogicError
  | keyNotFound
  | indexOutOfRange
  | illegalType
  | targetRowIndexOutOfRange
  | columnNotNullable
  | illegalCombination
  | stringTooBig
  | binaryTooBig
  deriving DecidableEq, Repr

end RealmCore
