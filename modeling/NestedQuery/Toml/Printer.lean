import NestedQuery.Text.Numeral

/-!
# TOML strings, written

A string is written in the first of several forms that fits it: on one line or on several, with
escapes or without.
-/

namespace NestedQuery.Toml

open Text

/-- The length of the longest run of a character. -/
def longestRun (c : Char) (s : List Char) : Nat := go 0 0 s
where
  go (best run : Nat) : List Char → Nat
    | [] => best
    | d :: rest =>
      if d = c then go (max best (run + 1)) (run + 1) rest else go best 0 rest

/-- A control character that only an escape can write. -/
def needsEscape (c : Char) : Bool :=
  (c.toNat < 0x20 || c.toNat == 0x7F) && c != '\t' && c != '\n'

/-- A character other than a quote or a line end in a form with escapes. -/
def escaped (c : Char) : List Char :=
  match c with
  | '\x08' => ['\\', 'b']
  | '\t' => ['\\', 't']
  | '\x0C' => ['\\', 'f']
  | '\r' => ['\\', 'r']
  | '\\' => ['\\', '\\']
  | c =>
    if c.toNat < 0x20 || c.toNat == 0x7F then
      ['\\', 'u', '0', '0', hexDigitUpper (c.toNat / 16), hexDigitUpper (c.toNat % 16)]
    else [c]

/-- The characters of a string of one line with escapes. -/
def lineEscaped (s : List Char) : List Char :=
  s.flatMap fun c =>
    if c = '"' then ['\\', '"'] else if c = '\n' then ['\\', 'n'] else escaped c

/-- The characters of a string of several lines; of a run of quotes every third is escaped. -/
def blockEscaped (run : Nat) : List Char → List Char
  | [] => []
  | c :: rest =>
    if c = '"' then
      if run = 2 then '\\' :: '"' :: blockEscaped 0 rest else '"' :: blockEscaped (run + 1) rest
    else if c = '\n' then '\n' :: blockEscaped 0 rest
    else escaped c ++ blockEscaped 0 rest

/-- The text of a string. -/
def writeString (s : String) : String :=
  let cs := s.toList
  let escapes := cs.any needsEscape
  let backslash := cs.contains '\\'
  let lines := cs.contains '\n'
  let singles := longestRun '\'' cs
  let doubles := longestRun '"' cs
  let lead := if lines then ['\n'] else []
  let text :=
    if !escapes && !backslash && doubles == 0 && !lines then '"' :: lineEscaped cs ++ ['"']
    else if !escapes && singles == 0 && !lines then '\'' :: cs ++ ['\'']
    else if !escapes && !backslash && doubles ≤ 2 then
      "\"\"\"".toList ++ lead ++ blockEscaped 0 cs ++ "\"\"\"".toList
    else if !escapes && singles ≤ 2 then "'''".toList ++ lead ++ cs ++ "'''".toList
    else if lines then "\"\"\"".toList ++ lead ++ blockEscaped 0 cs ++ "\"\"\"".toList
    else '"' :: lineEscaped cs ++ ['"']
  .ofList text

/-- The text of a list of strings; more than one stand on lines of their own. -/
def writeStrings : List String → String
  | [] => "[]"
  | [s] => "[" ++ writeString s ++ "]"
  | items => "[\n" ++ String.join (items.map fun s => "    " ++ writeString s ++ ",\n") ++ "]"

/-- A line with a key and a value. -/
def writeLine (key value : String) : String := key ++ " = " ++ value ++ "\n"

end NestedQuery.Toml
