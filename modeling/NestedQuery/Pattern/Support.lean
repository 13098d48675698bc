import NestedQuery.Pattern.Basic

/-!
# Patterns that can be searched for

A pattern is searched for without tables of characters beyond ASCII, and only in whole characters.
So kinds of characters and equality in any case are known among the bytes of ASCII alone, and sets
of bytes must not go beyond ASCII. The boundaries of words beyond ASCII can be read, but not
searched for.
-/

namespace NestedQuery.Pattern

/-- How a part of a pattern is read. -/
structure Mode where
  -- letters are equal in any case
  foldsCase : Bool
  -- characters are those of Unicode, and not bytes
  isUnicode : Bool
  deriving DecidableEq, Repr

namespace Mode

def initial : Mode := ⟨false, true⟩

def set (m : Mode) (flag : Flag) : Mode :=
  if flag.letter = 'i' then { m with foldsCase := flag.isOn }
  else if flag.letter = 'u' then { m with isUnicode := flag.isOn }
  else m

end Mode

/-- Whether a pattern can be searched for. -/
inductive Verdict where
  | fine
  -- only the boundaries of words are in the way
  | boundary
  | refused
  deriving DecidableEq, Repr

namespace Verdict

def ofBool (isFine : Bool) : Verdict := if isFine then fine else refused

/-- The verdict on two parts together. -/
def and : Verdict → Verdict → Verdict
  | fine, v => v
  | boundary, fine => boundary
  | boundary, v => v
  | refused, _ => refused

end Verdict

def Letter.isAscii (l : Letter) : Bool := l.char.toNat < 0x80

def Atom.verdict (m : Mode) : Atom → Verdict
  | letter l => .ofBool (if m.isUnicode then !m.foldsCase else !l.isByte || l.isAscii)
  | dot => .ofBool m.isUnicode
  | anchor => .fine
  | boundary => if m.isUnicode then .boundary else .fine
  | kind negated => .ofBool (!m.isUnicode && !negated)

namespace CharSet

mutual

def isFine (m : Mode) : CharSet → Bool
  | empty => true
  | letter l => if m.isUnicode then !m.foldsCase else l.isAscii
  | range first last =>
    if m.isUnicode then !m.foldsCase else first.isAscii && last.isAscii
  | named negated => if m.isUnicode then !m.foldsCase else !negated
  | kind negated => !m.isUnicode && !negated
  | union members => areFine m members
  | bracket negated content => (m.isUnicode || !negated) && isFine m content
  | combined left right => isFine m left && isFine m right

def areFine (m : Mode) : List CharSet → Bool
  | [] => true
  | s :: rest => isFine m s && areFine m rest

end

end CharSet

mutual

/-- The verdict on a pattern, and how what follows it in its group is read. -/
def verdict (m : Mode) : Pattern → Mode × Verdict
  | empty => (m, .fine)
  | atom a => (m, a.verdict m)
  | set s => (m, .ofBool (s.isFine m))
  | flags fs => (fs.foldl Mode.set m, .fine)
  | repeated p => verdict m p
  | group _ fs content => (m, (verdict (fs.foldl Mode.set m) content).2)
  | sequence items => verdictOfAll m items
  | choice branches => verdictOfAll m branches

def verdictOfAll (m : Mode) : List Pattern → Mode × Verdict
  | [] => (m, .fine)
  | p :: rest =>
    let (m, first) := verdict m p
    let (m, others) := verdictOfAll m rest
    (m, first.and others)

end

end NestedQuery.Pattern
