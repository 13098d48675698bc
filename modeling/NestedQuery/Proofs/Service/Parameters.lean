import NestedQuery.Proofs.Document.Parameters
import NestedQuery.Proofs.Service.Outcome

/-!
# Requests with parameters

What a request asks for is fixed in its text, and values are handed to it in variables. A value can
hold any characters, but it should not decide what the request asks for: every variable should reach
its own argument and no other.

## Main result

`Parameter.ofText_request`: the arguments that are read are those of `Parameter.read`, whatever the
values are. They are the arguments that are meant just if no value is empty but the last one. An
empty value removes the argument behind it, whose text becomes the value
(`Parameter.arguments_lost`).
-/

namespace NestedQuery.Parameter

open Text Document

variable {entity field : String} {ps : List Parameter}

/-! ### What is read and what is meant -/

theorem read_eq_map (h : ∀ p ∈ ps.dropLast, p.value ≠ "") : read ps = ps.map argument := by
  induction ps with
  | nil => rfl
  | cons p ps ih =>
    cases ps with
    | nil =>
      rw [read, List.map_singleton]
      split
      · next hempty => rw [argument, encoded_eq_nil.mpr hempty]; rfl
      · rfl
    | cons q ps =>
      rw [List.dropLast_cons_cons, List.forall_mem_cons] at h
      rw [read, if_neg h.1, ih h.2]
      rfl

theorem sublist_keys_read (ps : List Parameter) :
    ((read ps).map Prod.fst).Sublist (ps.map (·.key)) := by
  induction ps with
  | nil => exact .slnil
  | cons p ps ih =>
    rw [read]
    split
    · cases hread : read ps with
      | nil => exact (List.nil_sublist _).cons_cons p.key
      | cons a rest =>
        -- the key of the argument that is taken in is lost
        rw [hread] at ih
        exact ((List.sublist_cons_self a.1 _).trans ih).cons_cons p.key
    · exact ih.cons_cons p.key

theorem length_read_le (ps : List Parameter) : (read ps).length ≤ ps.length := by
  have hlength := (sublist_keys_read ps).length_le
  rwa [List.length_map, List.length_map] at hlength

theorem length_takeIn (key : String) {arguments : List (String × Option String)}
    (h : arguments ≠ []) : (takeIn key arguments).length = arguments.length := by
  cases arguments with
  | nil => exact absurd rfl h
  | cons a rest => rfl

/-- An empty value costs an argument, unless it is the last value. -/
theorem length_read_lt {p : Parameter} (hp : p ∈ ps.dropLast) (hempty : p.value = "") :
    (read ps).length < ps.length := by
  induction ps with
  | nil => cases hp
  | cons q ps ih =>
    cases ps with
    | nil => cases hp
    | cons r ps =>
      rw [read, List.length_cons]
      split
      · rw [length_takeIn _ (read_ne_nil r ps)]
        exact Nat.lt_succ_of_le (length_read_le _)
      next hne =>
      rw [List.dropLast_cons_cons] at hp
      have hrest : p ∈ (r :: ps).dropLast :=
        (List.mem_cons.mp hp).resolve_left fun heq => hne (heq ▸ hempty)
      exact Nat.succ_lt_succ (ih hrest)

/-- All arguments are as they are meant to be just if no value is empty but the last one. -/
theorem ofList_read_iff (distinct : (ps.map (·.key)).Nodup) :
    (.ofList (read ps) : Arguments) = .ofList (ps.map argument) ↔
      ∀ p ∈ ps.dropLast, p.value ≠ "" := by
  constructor
  · intro heq p hp hempty
    have hread : (Ordered.ofList (read ps) : Arguments).toList.Perm (read ps) :=
      Ordered.perm_ofList ((sublist_keys_read ps).nodup distinct)
    have hmeant : (Ordered.ofList (ps.map argument) : Arguments).toList.Perm (ps.map argument) :=
      Ordered.perm_ofList (by simpa [argument, Function.comp_def] using distinct)
    have hlength := hread.length_eq.symm.trans ((congrArg (·.toList.length) heq).trans
      hmeant.length_eq)
    rw [List.length_map] at hlength
    exact absurd hlength (Nat.ne_of_lt (length_read_lt hp hempty))
  · exact fun h => congrArg _ (read_eq_map h)

/-! ### The request -/

/-- The request for `{ entity(key:$name key:$name) { field } }`. -/
def request (entity field : String) (ps : List Parameter) : Request :=
  ⟨.ofList (text entity field reference ps), bindings ps⟩

theorem outlines_request (fits : Fits entity field ps) {maxDepth : Nat} (depth : 0 < maxDepth) :
    (selection entity field ps).Outlines maxDepth (request entity field ps).document := by
  have hdocument : (request entity field ps).document = text entity field encoded ps := by
    rw [Request.document, request, String.toList_ofList, substitute_text fits]
  have hscan := scan_flatten_text fits.entity.word fits.field.word fun p hp => (fits.keys p hp).word
  have htrim : trim (text entity field encoded ps) = text entity field encoded ps := trim_braced _
  rw [hdocument]
  constructor
  · rw [htrim]
    rfl
  · exact ⟨rfl, by simp [selection], depth⟩
  · rw [htrim, hscan]

theorem resolve_header {catalog : Metadata} {entity : Entity}
    (described : catalog.describe entity.name = some entity) (entity_word : IsWord entity.name)
    (keys : ∀ p ∈ ps, IsWord p.key) :
    Node.resolve catalog none (header entity.name ps).word =
      .ok (.asked entity.name entity.name entity (.ofList (read ps))) := by
  have hname : entity.name.isEmpty = false := by simpa using entity_word.ne_empty
  have hheading : Heading.ofWord (header entity.name ps).word =
      ⟨entity.name, entity.name, .ofList (read ps)⟩ :=
    Heading.ofWord_word (legible_header entity_word keys)
  simp only [Node.resolve, hheading, hname, described, Bool.false_eq_true, ↓reduceIte]

/-- A request with parameters is read as one node, and its arguments are those that are meant just
if no value is empty but the last one. -/
theorem ofText_request {catalog : Metadata} {entity : Entity}
    (described : catalog.describe entity.name = some entity) (fits : Fits entity.name field ps)
    {maxDepth : Nat} (depth : 0 < maxDepth) :
    ∃ n : Node,
      Forest.ofText catalog maxDepth (request entity.name field ps).document =
        .ok ([.node n []], []) ∧
      n.entity = entity ∧ n.requested = [field] ∧ n.arguments = .ofList (read ps) ∧
      (n.arguments = .ofList (ps.map argument) ↔ ∀ p ∈ ps.dropLast, p.value ≠ "") := by
  let n := { Node.asked entity.name entity.name entity (.ofList (read ps)) with
    requested := [field] }
  have hresolve := resolve_header described fits.entity.word fun p hp => (fits.keys p hp).word
  have hforest : (selection entity.name field ps).forest catalog = [.node n []] := by
    rw [Selection.forest, selection, Selection.trees, hresolve, ← Keyed.ofList_eq_lastOfEach]
    rfl
  have herrors : (selection entity.name field ps).errors catalog none = [] := by
    rw [selection, Selection.errors, hresolve]
    rfl
  refine ⟨n, ?_, rfl, rfl, rfl, ofList_read_iff fits.keys_distinct⟩
  rw [(outlines_request fits depth).ofText_eq catalog, hforest, herrors]

end NestedQuery.Parameter

/-! ### Players by name -/

namespace NestedQuery

namespace Roster

/-- A name that looks like structure, and an empty value behind it. -/
def named : List Parameter := [⟨"Name", "who", "a) \x7b$team"⟩, ⟨"TeamId", "team", ""⟩]

/-- An empty value before another one. -/
def unnamed : List Parameter := [⟨"Name", "who", ""⟩, ⟨"limit", "most", "5"⟩]

theorem fits_named : Parameter.Fits player.name "Name" named :=
  ⟨by decide, by decide, by decide, by decide, by decide +kernel, by decide, by decide⟩

theorem fits_unnamed : Parameter.Fits player.name "Name" unnamed :=
  ⟨by decide, by decide, by decide, by decide, by decide +kernel, by decide, by decide⟩

end Roster

open Roster in
theorem Parameter.ofText_request_named :
    ∃ n : Node,
      Forest.ofText catalog 1 (Parameter.request player.name "Name" named).document =
        .ok ([.node n []], []) ∧
      n.arguments =
        .ofList [("Name", some "a%29%20%7B%24team"), ("TeamId", some "")] := by
  have described : catalog.metadata.describe player.name = some player := by decide +kernel
  obtain ⟨n, hread, -, -, -, hmeant⟩ :=
    Parameter.ofText_request described fits_named (Nat.one_pos)
  exact ⟨n, hread, (hmeant.mpr (by decide)).trans (by decide +kernel)⟩

open Roster in
/-- The limit is lost: the players are asked for by the name `limit:5`. -/
theorem Parameter.arguments_lost :
    ∃ n : Node,
      Forest.ofText catalog 1 (Parameter.request player.name "Name" unnamed).document =
        .ok ([.node n []], []) ∧
      n.arguments = .ofList [("Name", some "limit:5")] ∧
      n.arguments ≠ .ofList (unnamed.map Parameter.argument) := by
  have hread := (Parameter.outlines_request fits_unnamed Nat.one_pos).ofText_eq catalog
  refine ⟨{ Node.asked "Player" "Player" player (.ofList [("Name", some "limit:5")]) with
    requested := ["Name"] }, hread.trans ?_, rfl, by decide +kernel⟩
  rfl

end NestedQuery
