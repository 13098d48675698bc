import NestedQuery.Text.Blank

/-!
# Flat documents

A query document is flattened to one line before it is cut into tokens. The brace that opens the
document goes; every other brace gets a mark at its side; blanks and commas become one space between
words, or one comma between the arguments in parentheses, and none beside a colon or a parenthesis.
-/

namespace NestedQuery.Document

open Text

-- the marks stand before an opening brace and behind a closing one
def startMark : List Char := "@@start@@".toList
def endMark : List Char := "@@end@@".toList

/-- A character of the document, a brace with its mark. -/
def markBrace (c : Char) : List Char :=
  if c = '\x7b' then startMark ++ ['\x7b'] else if c = '\x7d' then '\x7d' :: endMark else [c]

/-- The text behind the brace that opens a document; without such a brace all of it. -/
def body (raw : List Char) : List Char :=
  match trimStart raw with
  | '\x7b' :: rest => rest
  | s => s

/-- A flat text as far as it is written. -/
structure Line where
  -- the last character first
  written : List Char
  -- how many parentheses are open
  depth : Nat
  -- whether a separator stands before the next word
  pending : Bool
  deriving DecidableEq, Repr

namespace Line

def empty : Line := ⟨[], 0, false⟩

def endsWith (c : Char) (line : Line) : Bool := line.written.head? == some c

def dropCommas (written : List Char) : List Char := written.dropWhile (· == ',')

/-- Writes the next character of a document, or keeps in mind what it separates. -/
def push (line : Line) (c : Char) : Line :=
  if c = '(' then ⟨'(' :: line.written, line.depth + 1, false⟩
  -- a comma before a closing parenthesis separates nothing
  else if c = ')' then ⟨')' :: dropCommas line.written, line.depth - 1, false⟩
  else if isBlank c || c == ',' then
    -- arguments are kept apart by one comma, which is written at once
    if 0 < line.depth then
      if line.endsWith '(' || line.endsWith ',' || line.endsWith ':' then line
      else { line with written := ',' :: line.written }
    -- words are kept apart by one space, which waits for the second of them
    else { line with pending := !line.written.isEmpty }
  else if c = ':' then
    ⟨':' :: (if 0 < line.depth then dropCommas line.written else line.written), line.depth, false⟩
  -- a separator behind a colon is dropped: the word goes on
  else if line.pending && !line.endsWith ':' then ⟨c :: ' ' :: line.written, line.depth, false⟩
  else ⟨c :: line.written, line.depth, false⟩

end Line

def flatten (raw : List Char) : List Char :=
  trim (((body raw).flatMap markBrace).foldl Line.push .empty).written.reverse

end NestedQuery.Document
