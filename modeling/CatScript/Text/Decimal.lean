/-! # Decimal text

Integers of 64 bits as text. -/
set_option autoImplicit false
namespace CatScript.Text

/-- The decimal digits of `value`, after a minus sign if it is negative. -/
def decimal (value : Int64) : String :=
  toString value.toInt

def truth (value : Bool) : String :=
  if value then "true" else "false"

end CatScript.Text
