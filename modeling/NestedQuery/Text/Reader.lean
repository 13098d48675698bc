/-!
# Readers

A reader takes a value off the front of a text and gives the rest of the text, or refuses. Readers
of lists are bounded by a number of items, for which the length of the text is always enough, since
an item takes at least one character.
-/

namespace NestedQuery.Text

/-- Takes a value off the front of a text, or refuses. -/
abbrev Reader (α : Type) := List Char → Option (α × List Char)

namespace Reader

variable {α β : Type}

/-- The text behind `word`, if it starts with it. -/
def word (word : String) (a : α) : Reader α := fun s =>
  if word.toList.isPrefixOf s then some (a, s.drop word.length) else none

/-- The longest beginning of characters that satisfy `p`. -/
def span (p : Char → Bool) (s : List Char) : List Char × List Char := (s.takeWhile p, s.dropWhile p)

/-- As `span`, and at least one character. -/
def span1 (p : Char → Bool) : Reader (List Char) := fun s =>
  match span p s with
  | ([], _) => none
  | parts => some parts

/-- Skips before reading. -/
def after (skip : List Char → List Char) (r : Reader α) : Reader α := fun s => r (skip s)

/-- At most `fuel` items, a comma between each and the next, and `close` behind the last. -/
def itemsUntil (close : Char) (skip : List Char → List Char) (item : Reader α) :
    Nat → Reader (List α)
  | 0, _ => none
  | fuel + 1, s => do
    let (a, s) ← item (skip s)
    match skip s with
    | c :: s =>
      if c = ',' then
        let (more, s) ← itemsUntil close skip item fuel s
        return (a :: more, s)
      else if c = close then return ([a], s)
      else none
    | [] => none

/-- No item or several with commas between them, and `close` behind them. -/
def listUntil (close : Char) (skip : List Char → List Char) (item : Reader α) :
    Reader (List α) := fun s =>
  match skip s with
  | [] => none
  | c :: rest => if c = close then some ([], rest) else itemsUntil close skip item s.length s

/-- The value of a reader that takes the whole text but for what is skipped at its end. -/
def all (skip : List Char → List Char) (r : Reader α) (s : List Char) : Option α := do
  let (a, rest) ← r s
  if (skip rest).isEmpty then some a else none

end Reader

end NestedQuery.Text
