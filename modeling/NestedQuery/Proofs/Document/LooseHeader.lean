import Mathlib.Data.List.TakeWhile
import NestedQuery.Proofs.Document.Header
import NestedQuery.Proofs.Keyed

/-!
# Headings with gaps and open lists

In the list of a heading commas may stand side by side, with nothing or only blanks between them,
and the parenthesis at the end of the list may be missing. Such a heading is taken apart into the
same parts as one without gaps (`Heading.ofWord_loose`). A closing parenthesis inside a value is
taken for the end of a list only where no other follows, so it is harmless as long as the list is
closed.
-/

namespace NestedQuery

open Text

namespace Header

/-- What stands between two commas of a list: an argument, or nothing but blanks. -/
inductive Item where
  | argument (a : String × Option String)
  | gap (blanks : List Char) (is_blank : ∀ c ∈ blanks, isBlank c)

namespace Item

def text : Item → List Char
  | argument a => Header.argument a
  | gap blanks _ => blanks

def argument? : Item → Option (String × Option String)
  | argument a => some a
  | gap _ _ => none

def list (items : List Item) : List Char := [','].intercalate (items.map text)

end Item

end Header

/-- A heading with a list of arguments, in which there may be gaps, and which may be open. -/
structure LooseHeader where
  outputKey : Option String
  name : String
  items : List Header.Item
  closed : Bool

namespace LooseHeader

def arguments (h : LooseHeader) : List (String × Option String) :=
  h.items.filterMap Header.Item.argument?

/-- The heading without gaps and with a closed list. -/
def header (h : LooseHeader) : Header := ⟨h.outputKey, h.name, some h.arguments⟩

def word (h : LooseHeader) : List Char :=
  h.header.title ++ '(' :: (Header.Item.list h.items ++ if h.closed then [')'] else [])

structure Legible (h : LooseHeader) : Prop where
  header : h.header.Legible
  -- where nothing else closes the list, a parenthesis in an argument would
  unclosed : h.closed = false → ∀ a ∈ h.arguments, ')' ∉ Header.argument a

end LooseHeader

namespace Arguments

theorem written_blank {blanks : List Char} (h : ∀ c ∈ blanks, isBlank c) : written blanks = [] := by
  have hcomma : ',' ∉ blanks := fun hmem => absurd (h ',' hmem) (by decide)
  have htrim : trim blanks = [] := by
    have hstart : trimStart blanks = [] := List.dropWhile_eq_nil_iff.mpr h
    rw [trim, hstart]
    rfl
  rw [written_of_not_mem hcomma, htrim]
  rfl

end Arguments

namespace LooseHeader

variable {h : LooseHeader}

theorem mem_arguments {a : String × Option String} (ha : .argument a ∈ h.items) :
    a ∈ h.arguments := List.mem_filterMap.mpr ⟨_, ha, rfl⟩

theorem Legible.comma_not_mem (legible : h.Legible) :
    ∀ part ∈ h.items.map Header.Item.text, ',' ∉ part := by
  intro part hpart
  obtain ⟨item, hitem, rfl⟩ := List.mem_map.mp hpart
  cases item with
  | argument a =>
    have ha := mem_arguments hitem
    exact Arguments.comma_not_mem_argument (legible.header.keys _ rfl a ha).2.2.1
      fun value hvalue => (legible.header.values _ rfl a ha value hvalue).2
  | gap blanks is_blank => exact fun hmem => absurd (is_blank ',' hmem) (by decide)

/-- An item is read as its argument, and a gap as nothing. -/
theorem Legible.map_pair_written (legible : h.Legible) {item : Header.Item}
    (hitem : item ∈ h.items) :
    (Arguments.written item.text).map Arguments.pair = item.argument?.toList := by
  cases item with
  | argument a =>
    have ha := mem_arguments hitem
    exact Arguments.map_pair_written (legible.header.keys _ rfl a ha)
      (legible.header.values _ rfl a ha)
  | gap blanks is_blank =>
    rw [Header.Item.text, Arguments.written_blank is_blank]
    rfl

theorem Legible.ofText_list (legible : h.Legible) :
    Arguments.ofText (Header.Item.list h.items) = .ofList h.arguments := by
  rw [Header.Item.list, Arguments.ofText_intercalate legible.comma_not_mem, List.flatMap_map,
    List.flatMap_congr fun _ hitem => legible.map_pair_written hitem, arguments,
    List.filterMap_eq_flatMap_toList]

theorem Legible.closing_not_mem (legible : h.Legible) (hopen : h.closed = false) :
    ')' ∉ Header.Item.list h.items := by
  have hparts : ∀ part ∈ h.items.map Header.Item.text, ∀ c ∈ part, c ≠ ')' := by
    rw [List.forall_mem_map]
    rintro (a | ⟨blanks, is_blank⟩) hitem c hc rfl
    · exact legible.unclosed hopen a (mem_arguments hitem) hc
    · exact absurd (is_blank ')' hc) (by decide)
  exact fun hmem => Header.forall_mem_intercalate (by decide) hparts ')' hmem rfl

theorem Legible.ofWord (legible : h.Legible) :
    Heading.ofWord h.word = ⟨h.outputKey.getD h.name, h.name, .ofList h.arguments⟩ := by
  rw [word, ← legible.ofText_list]
  cases hclosed : h.closed with
  | true =>
    rw [if_pos rfl]
    exact Heading.ofWord_closed legible.header _
  | false =>
    rw [if_neg Bool.false_ne_true, List.append_nil]
    exact Heading.ofWord_open legible.header (legible.closing_not_mem hclosed)

end LooseHeader

/-- The parts of a heading are read back: its output key, which is its name if it has none, its
name, and at every key the last argument that has it. -/
theorem Heading.ofWord_loose {h : LooseHeader} (legible : h.Legible) :
    (ofWord h.word).outputKey = h.outputKey.getD h.name ∧
      (ofWord h.word).name = h.name ∧
      ∀ key, (ofWord h.word).arguments.find? key =
        (h.arguments.filter fun a => a.1 == key).getLast? := by
  rw [legible.ofWord]
  exact ⟨rfl, rfl, fun key => Ordered.find?_ofList h.arguments key⟩

-- In an open list a parenthesis in a value ends the list, and what follows goes to the name.
example : Heading.ofWord "Event(At:(9),Open".toList =
    ⟨"Event,Open", "Event,Open", .ofList [("At", some "(9")]⟩ := by decide +kernel

/-! ### Two appointments -/

namespace LooseHeader

/-- Two times, with colons and parentheses that have no partner, a bare key, and an empty value. -/
def appointment : LooseHeader where
  outputKey := some "mine"
  name := "Event"
  items := [.gap [] (by simp), .argument ("At", some "12:30"), .argument ("Open", none),
    .gap [' ', '\t'] (by simp; decide), .argument ("At", some "(9) :-)"),
    .argument ("Place", some "")]
  closed := true

/-- No output key, and nothing behind the last key, which had a value before. -/
def reminder : LooseHeader where
  outputKey := none
  name := "Event"
  items := [.argument ("At", some "(9:00"), .gap [] (by simp), .argument ("At", none)]
  closed := false

theorem legible_appointment : appointment.Legible where
  header := ⟨by decide, by decide, by decide, by decide⟩
  unclosed h := nomatch h

theorem legible_reminder : reminder.Legible where
  header := ⟨by decide, by decide, by decide, by decide⟩
  unclosed _ := by decide

end LooseHeader

theorem Heading.ofWord_appointments :
    let mine := ofWord "mine:Event(,At:12:30,Open, \t,At:(9) :-),Place:)".toList
    let short := ofWord "Event(At:(9:00,,At".toList
    (mine.outputKey = "mine" ∧ mine.name = "Event" ∧
      mine.arguments.find? "At" = some ("At", some "(9) :-)") ∧
      mine.arguments.find? "Open" = some ("Open", none) ∧
      mine.arguments.find? "Place" = some ("Place", some "") ∧
      mine.arguments.find? "Day" = none) ∧
    short.outputKey = "Event" ∧ short.name = "Event" ∧
      short.arguments.find? "At" = some ("At", none) := by
  constructor
  · obtain ⟨hkey, hname, hfind⟩ := Heading.ofWord_loose LooseHeader.legible_appointment
    exact ⟨hkey, hname, hfind "At", hfind "Open", hfind "Place", hfind "Day"⟩
  · obtain ⟨hkey, hname, hfind⟩ := Heading.ofWord_loose LooseHeader.legible_reminder
    exact ⟨hkey, hname, hfind "At"⟩

end NestedQuery
