import NestedQuery.Proofs.Keyed
import NestedQuery.Proofs.Request.Endings
import NestedQuery.Request.Assembly

/-!
# The shape of the data

The object of a record has a member for every output field, and behind these one for every child.
The two kinds of keys come from different hands: fields are named by the catalog, children by the
request. A child with the key of an output field takes the place of the field.

## Main result

`Forest.assemble_shape`: the data of a forest that was run has the output keys of the roots, in
order, and the object of every record at every depth has the shape that is asked for, the keys of
the children apart that are those of fields (`Tree.Shaped`).
-/

namespace NestedQuery

namespace Tree

/-- The member of a child in the object of a record. -/
def childMember (parent : Node) (r : Record) (c : Tree Node) : String × Json :=
  (c.label.outputKey, .arr ((parent.matching r c.label).map fun child => .obj (c.assemble child)))

variable {parent : Node} {r : Record} {cs : List (Tree Node)}

/-- The children are put one after the other, whatever stands before them. -/
theorem assembleBelow_eq_foldl (parent : Node) (r : Record) (cs : List (Tree Node))
    (members : Members) :
    assembleBelow parent r cs members =
      (cs.map (childMember parent r)).foldl (fun acc a => Keyed.put Prod.fst a acc) members := by
  induction cs generalizing members with
  | nil => rfl
  | cons c cs ih => exact ih _

theorem assembleBelow_of_nodup {members : Members}
    (h : ((members ++ cs.map (childMember parent r)).map Prod.fst).Nodup) :
    assembleBelow parent r cs members = members ++ cs.map (childMember parent r) := by
  rw [assembleBelow_eq_foldl, Keyed.foldl_put_of_nodup h]

theorem map_fst_fieldMembers (n : Node) (r : Record) :
    (n.fieldMembers r).map Prod.fst = n.outputFields := by
  simp [Node.fieldMembers, Function.comp_def]

theorem map_fst_childMember (parent : Node) (r : Record) (cs : List (Tree Node)) :
    (cs.map (childMember parent r)).map Prod.fst = cs.map fun c => c.label.outputKey := by
  simp [childMember, Function.comp_def]

theorem find?_fieldMembers {n : Node} {field : String} (h : field ∈ n.outputFields) (r : Record) :
    Keyed.find? Prod.fst field (n.fieldMembers r) = some (field, r.json field) := by
  rw [Node.fieldMembers, Keyed.find?]
  generalize n.outputFields = fields at h ⊢
  induction fields with
  | nil => cases h
  | cons f rest ih =>
    rw [List.map_cons, List.find?_cons]
    by_cases heq : f = field
    · simp [heq]
    · have hne : (f == field) = false := by simpa using heq
      simp only [hne]
      exact ih ((List.mem_cons.mp h).resolve_left (Ne.symm heq))

/-- The object of a record of a node with children. -/
structure Shaped (n : Node) (cs : List (Tree Node)) (r : Record) (object : Members) : Prop where
  -- the output fields, then the children; a key that is both stands where the field does
  keys : object.map Prod.fst =
    n.outputFields ++ (cs.map fun c => c.label.outputKey).removeAll n.outputFields
  distinct : (object.map Prod.fst).Nodup
  field : ∀ f ∈ n.outputFields, f ∉ cs.map (fun c => c.label.outputKey) →
    Keyed.find? Prod.fst f object = some (f, r.json f)
  child : ∀ c ∈ cs, Keyed.find? Prod.fst c.label.outputKey object = some (childMember n r c)
  -- the object is all that is asked for just if no child has the key of a field
  whole : object = n.fieldMembers r ++ cs.map (childMember n r) ↔
    ∀ c ∈ cs, c.label.outputKey ∉ n.outputFields

theorem shaped_assemble {n : Node} (h : (cs.map fun c => c.label.outputKey).Nodup) (r : Record) :
    Shaped n cs r ((Tree.node n cs).assemble r) := by
  have hnodup : ((cs.map (childMember n r)).map Prod.fst).Nodup := by
    rwa [map_fst_childMember]
  have hkeys : ((Tree.node n cs).assemble r).map Prod.fst =
      n.outputFields ++ (cs.map fun c => c.label.outputKey).removeAll n.outputFields := by
    rw [assemble, assembleBelow_eq_foldl, Keyed.map_foldl_put_of_nodup hnodup,
      map_fst_fieldMembers, map_fst_childMember]
  have hdistinct : (((Tree.node n cs).assemble r).map Prod.fst).Nodup := by
    rw [hkeys, List.nodup_append]
    refine ⟨n.nodup_outputFields, h.filter _, ?_⟩
    rintro f hf key hkey rfl
    have hnot := (List.mem_filter.mp hkey).2
    simp [hf] at hnot
  constructor
  case keys => exact hkeys
  case distinct => exact hdistinct
  case field =>
    intro f hf hnot
    rw [← map_fst_childMember n r] at hnot
    rw [assemble, assembleBelow_eq_foldl, Keyed.find?_foldl_put_of_not_mem hnot]
    exact find?_fieldMembers hf r
  case child =>
    intro c hc
    rw [assemble, assembleBelow_eq_foldl]
    exact Keyed.find?_foldl_put_of_mem hnodup (List.mem_map_of_mem hc) _
  case whole =>
    constructor
    · intro hwhole c hc hmem
      rw [hwhole, List.map_append, map_fst_fieldMembers, map_fst_childMember,
        List.nodup_append] at hdistinct
      exact hdistinct.2.2 _ hmem _ (List.mem_map_of_mem hc) rfl
    · intro hapart
      apply assembleBelow_of_nodup
      rw [List.map_append, map_fst_fieldMembers, map_fst_childMember, List.nodup_append]
      refine ⟨n.nodup_outputFields, h, ?_⟩
      rintro f hf key hkey rfl
      obtain ⟨c, hc, rfl⟩ := List.mem_map.mp hkey
      exact hapart c hc hf

end Tree

namespace Forest

theorem assemble_of_nodup {forest : Forest} (h : (forest.map fun t => t.label.outputKey).Nodup) :
    forest.assemble = forest.map fun t => (t.label.outputKey, t.assembleAll) := by
  apply Keyed.ofList_of_nodup
  simpa [Function.comp_def] using h

theorem find?_assemble {forest : Forest} (h : (forest.map fun t => t.label.outputKey).Nodup)
    {t : Tree Node} (ht : t ∈ forest) :
    Keyed.find? Prod.fst t.label.outputKey forest.assemble =
      some (t.label.outputKey, t.assembleAll) := by
  have hnodup : ((forest.map fun t => (t.label.outputKey, t.assembleAll)).map Prod.fst).Nodup := by
    simpa [Function.comp_def] using h
  exact Keyed.find?_foldl_put_of_mem hnodup (List.mem_map_of_mem ht) []

theorem outputKey_unanswered (forest : Forest) :
    (forest.map (Tree.map Node.unanswered)).map (fun t => t.label.outputKey) =
      forest.map fun t => t.label.outputKey := by
  rw [List.map_map]
  refine List.map_congr_left fun t _ => ?_
  obtain ⟨n, cs⟩ := t
  rfl

theorem outputKey_run {catalog : Metadata} {forest : Forest} (read : forest.IsRead catalog)
    (engine : Engine) :
    (Forest.run engine forest).1.map (fun t => t.label.outputKey) =
      forest.map fun t => t.label.outputKey := by
  rw [← outputKey_unanswered (Forest.run engine forest).1, unanswered_run read engine]

theorem shaped_run {catalog : Metadata} {forest : Forest} (read : forest.IsRead catalog)
    (engine : Engine) :
    ∀ t ∈ (Forest.run engine forest).1, t.Everywhere fun n cs =>
      ∀ r, Tree.Shaped n cs r ((Tree.node n cs).assemble r) := by
  intro t ht
  refine (resolved_run read engine t ht).mono fun n cs resolved r => ?_
  apply Tree.shaped_assemble
  rw [← outputKey_unanswered cs]
  exact resolved.distinct

/-- The data of a forest has the roots as keys, each with an object for every record, and every
object has the shape that its node asks for. -/
theorem assemble_shape {catalog : Metadata} {forest : Forest} (read : forest.IsRead catalog)
    (engine : Engine) :
    let found := (Forest.run engine forest).1
    found.map (Tree.map Node.unanswered) = forest ∧
    found.assemble = found.map (fun t =>
      (t.label.outputKey, .arr (t.label.records.map fun r => .obj (t.assemble r)))) ∧
    found.assemble.map Prod.fst = forest.map (fun t => t.label.outputKey) ∧
    ∀ t ∈ found, t.Everywhere fun n cs =>
      ∀ r, Tree.Shaped n cs r ((Tree.node n cs).assemble r) := by
  intro found
  have hkeys : found.map (fun t => t.label.outputKey) = forest.map fun t => t.label.outputKey :=
    outputKey_run read engine
  have hroots : found.assemble = found.map fun t => (t.label.outputKey, t.assembleAll) :=
    assemble_of_nodup (hkeys ▸ read.resolved.distinct)
  refine ⟨unanswered_run read engine, hroots, ?_, shaped_run read engine⟩
  rw [hroots, List.map_map]
  exact hkeys

end Forest

/-! ### The city of a team -/

namespace Roster

def oslo : Record := .ofList [("Id", .int 1), ("City", .text "Oslo")]

def cities : Engine := fun _ s => if s.table = team.name then .ok [oslo] else .ok []

/-- The players have the key of the city. -/
def clashing : Forest :=
  [.node teams [.node { players "Players" .empty with outputKey := "City" } []]]

end Roster

open Roster in
theorem Forest.assemble_shape_roster :
    (Forest.run cities forest).1.assemble.map Prod.fst = ["Team", "Player"] ∧
    ∀ t ∈ (Forest.run cities forest).1, ∀ r,
      Tree.Shaped t.label t.children r (t.assemble r) := by
  obtain ⟨-, -, hkeys, shaped⟩ := Forest.assemble_shape isRead cities
  refine ⟨hkeys, fun t ht r => ?_⟩
  obtain ⟨n, cs⟩ := t
  exact (shaped _ ht).here r

open Roster in
/-- The players take the place of the city, of which nothing is left. -/
theorem Forest.assemble_clash :
    clashing.IsRead catalog ∧
    ∃ t ∈ (Forest.run cities clashing).1, oslo ∈ t.label.records ∧
      "City" ∈ t.label.outputFields ∧
      (t.assemble oslo).map Prod.fst ≠
        t.label.outputFields ++ t.children.map (fun c => c.label.outputKey) ∧
      Keyed.find? Prod.fst "City" (t.assemble oslo) ≠ some ("City", oslo.json "City") := by
  refine ⟨⟨32, [.word "Team".toList, .opening, .word "City".toList,
    .word "City:Players".toList, .opening, .word "Name".toList, .closing, .closing, .closing], [],
    by decide +kernel⟩, ?_⟩
  have hrun : (Forest.run cities clashing).1 =
      [.node (teams.answered [oslo])
        [.node ({ players "Players" .empty with outputKey := "City" }.answered []) []]] := by
    rfl
  rw [hrun]
  refine ⟨_, List.mem_singleton_self _, List.mem_singleton_self _, by decide +kernel,
    by decide +kernel, ?_⟩
  rintro ⟨⟩

end NestedQuery
