import MolangCompiler.Text.Integer
import MolangCompiler.Text.LowerCase

/-!
# Names

Names in a source are case-insensitive, and the part before the first point says what they stand
for: `v` an actor variable, `t` a temp, `c` a context value and `q` a query.  Each of these heads
has a long form.  A variable that holds several values carries their number in front of its name,
separated by a dollar sign: `3$pos` has three values.
-/

namespace MolangCompiler

/-- A text cut at the first separator, which belongs to neither part; the second part is empty
if there is none. -/
def cutAt (separator : Char) (cs : List Char) : List Char × List Char :=
  (cs.takeWhile (· != separator), (cs.dropWhile (· != separator)).drop 1)

/-! ## Heads of names -/

/-- The short form of a name's head. -/
def shortHead (head : List Char) : List Char :=
  if head = "variable".toList then ['v']
  else if head = "temp".toList then ['t']
  else if head = "context".toList then ['c']
  else if head = "query".toList then ['q']
  else head

/-- A name in lower case and with the short form of its head. -/
def canonicalName (name : String) : String :=
  let cs := (lowerText name).toList
  String.ofList (shortHead (cs.takeWhile (· != '.')) ++ cs.dropWhile (· != '.'))

/-- The head of a canonical name and what follows the first point. -/
def nameParts (name : String) : String × String :=
  let parts := cutAt '.' name.toList
  (String.ofList parts.1, String.ofList parts.2)

/-- The name of a context value without the head that marks it as one. -/
def contextKey (name : String) : String :=
  match (canonicalName name).toList with
  | 'c' :: '.' :: rest => String.ofList rest
  | cs => String.ofList cs

/-! ## Sizes in names -/

/-- The size that a variable's name announces: `none` without a dollar sign, and -1 if what
stands before it is no integer. -/
def encodedSize? (name : String) : Option Int :=
  if name.toList.contains '$' then some ((readInteger? (cutAt '$' name.toList).1).getD (-1))
  else none

/-- The name under which a variable of the given size is kept. -/
def sizedName (base : String) (size : Int) : String :=
  if size = 1 then base else toString size ++ "$" ++ base

/-- A variable's name without the size in front of it. -/
def baseName (name : String) : String :=
  match (cutAt '$' name.toList).2 with
  | [] => name
  | rest => String.ofList rest

end MolangCompiler
