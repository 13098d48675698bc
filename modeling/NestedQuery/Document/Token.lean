import NestedQuery.Document.Flat

/-!
# Tokens

A flat document is cut at its marked braces and at blanks. What stands between them are words: the
names of fields, and the headings of nodes.
-/

namespace NestedQuery

inductive Token where
  | word (w : List Char)
  | opening
  | closing
  deriving DecidableEq, Repr, Inhabited

namespace Token

open Text Document

-- the braces of a flat document
def openingMark : List Char := startMark ++ ['\x7b']
def closingMark : List Char := '\x7d' :: endMark

/-- The word whose characters were read, the last one first. -/
def ofRead (read : List Char) : List Token := if read.isEmpty then [] else [.word read.reverse]

/-- The tokens of a text, before which the characters in `read` are the beginning of a word. -/
def scanFrom (read : List Char) : List Char → List Token
  | [] => ofRead read
  | c :: rest =>
    if openingMark.isPrefixOf (c :: rest) then
      ofRead read ++ .opening :: scanFrom [] (rest.drop (openingMark.length - 1))
    else if closingMark.isPrefixOf (c :: rest) then
      ofRead read ++ .closing :: scanFrom [] (rest.drop (closingMark.length - 1))
    else if isBlank c then ofRead read ++ scanFrom [] rest
    else scanFrom (c :: read) rest
termination_by s => s.length
decreasing_by all_goals simp only [List.length_drop, List.length_cons]; omega

def scan (flat : List Char) : List Token := scanFrom [] flat

end Token

end NestedQuery
