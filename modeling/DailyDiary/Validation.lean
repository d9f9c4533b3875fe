/-
The two validators of `registrationViewController`, as the matches their
`NSPredicate(format: "SELF MATCHES %@", …)` performs: `SELF MATCHES` asks for a
match of the whole string, over Unicode code points.
-/
import DailyDiary.RegExp

set_option autoImplicit false

namespace DailyDiary

open RegExp

/-! ## Character classes -/

/-- The class `[lo-hi]`. -/
def range (lo hi c : Char) : Bool :=
  lo ≤ c && c ≤ hi

/-- `[A-Z]` -/
def isUpper (c : Char) : Bool := range 'A' 'Z' c

/-- `[a-z]` -/
def isLower (c : Char) : Bool := range 'a' 'z' c

/-- `[0-9]` -/
def isDigit (c : Char) : Bool := range '0' '9' c

/-- `[A-Za-z0-9]` -/
def isAlphanumeric (c : Char) : Bool := isUpper c || isDigit c || isLower c

/-- The characters `.` does not match: the line terminators of ICU, U+000A to
U+000D, U+0085, U+2028 and U+2029. -/
def isLineTerminator (c : Char) : Bool :=
  range '\n' '\r' c || c = '\u0085' || c = '\u2028' || c = '\u2029'

/-- `.` -/
def dot : Expr Char :=
  .set fun c => !isLineTerminator c

/-! ## `isValidEmail` -/

/-- `[A-Z0-9a-z._%+-]` -/
def isLocalPart (c : Char) : Bool :=
  isAlphanumeric c || c ∈ ['.', '_', '%', '+', '-']

/-- `[A-Za-z0-9.-]` -/
def isHostPart (c : Char) : Bool :=
  isAlphanumeric c || c ∈ ['.', '-']

/-- `[A-Za-z]` -/
def isLetter (c : Char) : Bool := isUpper c || isLower c

/-- `[A-Z0-9a-z._%+-]+@[A-Za-z0-9.-]+\.[A-Za-z]{2,}` -/
def emailRegEx : Expr Char :=
  seqs [plus (.set isLocalPart), lit '@', plus (.set isHostPart), lit '.',
    atLeast 2 (.set isLetter)]

def isValidEmail (email : String) : Bool :=
  isMatch emailRegEx email.toList

/-! ## `isValidPassword` -/

/-- `(?=.*[c])` -/
def somewhereAhead (c : Char → Bool) : Expr Char :=
  .ahead (.seq (.star dot) (.set c))

/-- `(?=.*[A-Z])(?=.*[0-9])(?=.*[a-z]).{8,}` -/
def passwordRegEx : Expr Char :=
  seqs [somewhereAhead isUpper, somewhereAhead isDigit, somewhereAhead isLower, atLeast 8 dot]

def isValidPassword (testStr : Option String) : Bool :=
  match testStr with
  | none => false
  | some testStr => isMatch passwordRegEx testStr.toList

example : isValidPassword (some "Abcdefg1") = true := by decide

example : isValidEmail "a.b@c-d.e.org" = true := by decide

end DailyDiary
