/-
  Text/Quoted.lean --- names as messages quote them.

  A quoted text stands between single quotes, or between double quotes when it
  holds a single quote and no double one.  The backslash, the quote in use and
  the characters without a printed form are escaped.
-/
import Recourse.Text.Unprintable

set_option autoImplicit false

namespace Recourse.Text

/-- The single quotation mark. -/
def singleQuote : Char := Char.ofNat 39

/-- The double quotation mark. -/
def doubleQuote : Char := Char.ofNat 34

/-- A number in hexadecimal, filled up with zeros to a width. -/
def hex (width n : Nat) : List Char :=
  let cs := Nat.toDigits 16 n
  List.replicate (width - cs.length) '0' ++ cs

/-- A character without a printed form, by its code point. -/
def escapeCode (n : Nat) : List Char :=
  if n < 0x100 then '\\' :: 'x' :: hex 2 n
  else if n < 0x10000 then '\\' :: 'u' :: hex 4 n
  else '\\' :: 'U' :: hex 8 n

/-- One character between the given quotes. -/
def escape (quote c : Char) : List Char :=
  if c = quote ∨ c = '\\' then ['\\', c]
  else if c = '\n' then ['\\', 'n']
  else if c = '\r' then ['\\', 'r']
  else if c = '\t' then ['\\', 't']
  else if isUnprintable c then escapeCode c.toNat
  else [c]

/-- The quotes a text is written between. -/
def quoteFor (cs : List Char) : Char :=
  if cs.contains singleQuote && !cs.contains doubleQuote then doubleQuote else singleQuote

/-- A text between quotes. -/
def quoted (s : String) : String :=
  let cs := s.toList
  let q := quoteFor cs
  String.ofList (q :: cs.flatMap (escape q) ++ [q])

/-- A name between quotes, or `None` where there is none. -/
def quotedName : Option String → String
  | none => "None"
  | some s => quoted s

/-- Texts with a comma and a blank between them. -/
def commaSeparated (parts : List String) : String := ", ".intercalate parts

/-- A list in square brackets. -/
def bracketed (parts : List String) : String := "[" ++ commaSeparated parts ++ "]"

/-- Entries in curly brackets. -/
def braced (parts : List String) : String := "\x7b" ++ commaSeparated parts ++ "\x7d"

end Recourse.Text
