import NestedQuery.Select.OfNode

/-!
# Selected fields and pages

The fields that a node puts out are distinct, and a statement for the node selects all of them, the
field of its join, and the identifier of a node with children, each once. Nothing but fields of the
entity, the join and the identifier are selected.

`Node.compile_ok` says what a node compiles to, unless its arguments are at fault (`Node.fault?`).
-/

namespace NestedQuery.Node

theorem nodup_eraseDups (fields : List String) : fields.eraseDups.Nodup := by
  match fields with
  | [] => exact .nil
  | field :: rest =>
    rw [List.eraseDups_cons]
    refine List.nodup_cons.mpr ⟨fun hmem => ?_, nodup_eraseDups _⟩
    simp [List.mem_eraseDups] at hmem
termination_by fields.length
decreasing_by exact Nat.lt_succ_of_le (List.length_filter_le _ _)

theorem nodup_outputFields (n : Node) : n.outputFields.Nodup := nodup_eraseDups _

theorem mem_addField {fields : List String} {field x : String} :
    x ∈ addField fields field ↔ x ∈ fields ∨ x = field := by
  unfold addField
  split
  · next h => exact ⟨.inl, fun h' => h'.elim id fun hx => hx ▸ List.contains_iff_mem.mp h⟩
  · simp

theorem mem_joinedFields_of_mem {n : Node} {joinField : Option String} {field : String}
    (h : field ∈ n.outputFields) : field ∈ n.joinedFields joinField := by
  cases joinField with
  | none => exact h
  | some join => exact mem_addField.mpr (.inl h)

theorem joinField_mem_joinedFields (n : Node) (field : String) :
    field ∈ n.joinedFields (some field) := mem_addField.mpr (.inr rfl)

variable {n : Node} {hasChildren : Bool} {joinField : Option String} {field : String}

theorem mem_selectFields_of_mem (h : field ∈ n.joinedFields joinField) :
    field ∈ n.selectFields hasChildren joinField := by
  unfold selectFields
  simp only
  split
  · exact mem_addField.mpr (.inl h)
  · exact h

theorem idField_mem_selectFields (n : Node) (joinField : Option String) :
    n.entity.idField ∈ n.selectFields true joinField := by
  simp [selectFields, mem_addField]

theorem nodup_addField {fields : List String} (h : fields.Nodup) (field : String) :
    (addField fields field).Nodup := by
  unfold addField
  split
  · exact h
  · next hnew =>
    rw [List.contains_iff_mem] at hnew
    rw [List.nodup_append]
    refine ⟨h, by simp, ?_⟩
    rintro a ha b hb rfl
    exact hnew (List.mem_singleton.mp hb ▸ ha)

theorem nodup_selectFields (n : Node) (hasChildren : Bool) (joinField : Option String) :
    (n.selectFields hasChildren joinField).Nodup := by
  have hjoined : (n.joinedFields joinField).Nodup := by
    cases joinField with
    | none => exact n.nodup_outputFields
    | some field => exact nodup_addField n.nodup_outputFields field
  unfold selectFields
  simp only
  split
  · exact nodup_addField hjoined _
  · exact hjoined

theorem selectFields_ne_nil (n : Node) (hasChildren : Bool) (joinField : Option String) :
    n.selectFields hasChildren joinField ≠ [] := by
  unfold selectFields
  simp only
  split
  · exact List.ne_nil_of_mem (mem_addField.mpr (.inr rfl))
  · next h =>
    rw [Bool.or_eq_true, not_or, List.isEmpty_iff] at h
    exact h.1

theorem mem_fields_of_mem_outputFields (h : field ∈ n.outputFields) :
    field ∈ n.entity.fields.toList := by
  rw [outputFields, List.mem_eraseDups, List.mem_filter, Ordered.contains, List.any_eq_true] at h
  obtain ⟨_, x, hx, heq⟩ := h
  exact beq_iff_eq.mp heq ▸ hx

theorem mem_of_mem_joinedFields (h : field ∈ n.joinedFields joinField) :
    field ∈ n.entity.fields.toList ∨ joinField = some field := by
  cases joinField with
  | none => exact .inl (mem_fields_of_mem_outputFields h)
  | some join =>
    exact (mem_addField.mp h).imp mem_fields_of_mem_outputFields fun h => congrArg some h.symm

/-- A node selects its identifier only where there are children, or where it has no join field. -/
theorem mem_joinedFields_or_of_mem_selectFields (h : field ∈ n.selectFields hasChildren joinField) :
    field ∈ n.joinedFields joinField ∨
      (hasChildren = true ∨ joinField = none) ∧ field = n.entity.idField := by
  unfold selectFields at h
  simp only [Bool.or_eq_true] at h
  split at h
  · next hasked =>
    refine (mem_addField.mp h).imp_right fun hid => ⟨?_, hid⟩
    rcases hasked with hempty | hchildren
    · right
      cases joinField with
      | none => rfl
      | some join =>
        have hjoin := n.joinField_mem_joinedFields join
        rw [List.isEmpty_iff.mp hempty] at hjoin
        cases hjoin
    · exact .inl hchildren
  · exact .inl h

theorem mem_of_mem_selectFields (h : field ∈ n.selectFields hasChildren joinField) :
    field ∈ n.entity.fields.toList ∨ joinField = some field ∨ field = n.entity.idField := by
  rcases mem_joinedFields_or_of_mem_selectFields h with h | ⟨-, h⟩
  · exact (mem_of_mem_joinedFields h).imp_right .inl
  · exact .inr (.inr h)

/-- An argument asks for one text or for null. -/
theorem eq_of_condition? {field : String} {c : Condition} (h : n.condition? field = some c) :
    c = .isNull field ∨ ∃ content, c = .equals field content := by
  unfold condition? at h
  split at h
  · cases h
  · obtain ⟨⟨key, value⟩, -, rfl⟩ := Option.map_eq_some_iff.mp h
    cases value with
    | none => exact .inl rfl
    | some raw => exact .inr ⟨_, rfl⟩

theorem column_of_condition? {field : String} {c : Condition} (h : n.condition? field = some c) :
    c.column = field := by
  obtain rfl | ⟨content, rfl⟩ := eq_of_condition? h <;> rfl

/-- The values of a join have literals, and there are some. -/
theorem literals_ne_nil_of_mem_joinConditions {link : Option Link} {column : String}
    {values : List Value} (h : .isIn column values ∈ joinConditions link) :
    Condition.literals values ≠ [] := by
  cases link with
  | none => cases h
  | some l =>
    rw [joinConditions] at h
    split at h
    · cases h
    · next hne =>
      obtain ⟨rfl, rfl⟩ : column = l.joinField ∧ values = l.values := by simpa using h
      intro hnil
      apply hne
      rw [List.isEmpty_iff, List.eq_nil_iff_forall_not_mem]
      intro v hv
      obtain ⟨literal, hliteral⟩ := Option.isSome_iff_exists.mp (List.mem_filter.mp hv).2
      have hmem : literal ∈ Condition.literals l.values := List.mem_filterMap.mpr ⟨v, hv, hliteral⟩
      rw [hnil] at hmem
      cases hmem

/-! ### Pages -/

theorem page_of_argument? {key : String} (h : n.argument? key = none) : n.page key = .ok none := by
  rw [page, h]

/-- The number that an argument gives for a page. -/
def pageNumber? (n : Node) (key : String) : Option Nat := (n.page key).toOption.join

variable {link : Option Link} {compiled : Compiled}

theorem compile_ok (h : n.compile hasChildren link = .ok compiled) :
    compiled.select =
      ⟨n.selectFields hasChildren (link.map (·.joinField)), n.entity.name,
        joinConditions link ++ (n.joinedFields (link.map (·.joinField))).filterMap n.condition?,
        n.pageNumber? limitKey, n.pageNumber? offsetKey⟩ := by
  unfold compile at h
  cases hlimit : n.page limitKey with
  | error e => simp [hlimit] at h
  | ok limit =>
    cases hoffset : n.page offsetKey with
    | error e => simp [hlimit, hoffset] at h
    | ok offset =>
      simp only [hlimit, hoffset, Except.ok.injEq] at h
      subst h
      simp [pageNumber?, hlimit, hoffset, Except.toOption]

/-- What is wrong with the arguments of a node. The limit is looked at first. -/
def fault? (n : Node) : Option RequestError :=
  match n.page limitKey, n.page offsetKey with
  | .error e, _ => some e
  | .ok _, .error e => some e
  | .ok _, .ok _ => none

theorem eq_invalidArgument_of_page {key : String} {e : RequestError} (h : n.page key = .error e) :
    ∃ reason, e = .invalidArgument n.entity.name key reason := by
  unfold page at h
  split at h
  · cases h
  · simp only at h
    split at h
    · cases h
    · cases h
      exact ⟨_, rfl⟩

theorem eq_invalidArgument_of_fault? {e : RequestError} (h : n.fault? = some e) :
    ∃ key reason, e = .invalidArgument n.entity.name key reason := by
  unfold fault? at h
  split at h
  · next hlimit =>
    cases h
    exact ⟨limitKey, eq_invalidArgument_of_page hlimit⟩
  · next hoffset =>
    cases h
    exact ⟨offsetKey, eq_invalidArgument_of_page hoffset⟩
  · cases h

/-- A node compiles unless its arguments are at fault, whatever it is joined to. -/
theorem fault?_eq_compile (hasChildren : Bool) (link : Option Link) (n : Node) :
    n.fault? = match n.compile hasChildren link with
      | .error e => some e
      | .ok _ => none := by
  unfold fault? compile
  cases n.page limitKey with
  | error e => rfl
  | ok limit =>
    cases n.page offsetKey with
    | error e => rfl
    | ok offset => rfl

theorem fault?_of_compile_error {e : RequestError} (h : n.compile hasChildren link = .error e) :
    n.fault? = some e := by
  rw [fault?_eq_compile hasChildren link, h]

theorem fault?_of_compile_ok {compiled : Compiled} (h : n.compile hasChildren link = .ok compiled) :
    n.fault? = none := by
  rw [fault?_eq_compile hasChildren link, h]

theorem exists_compiled (h : n.fault? = none) (hasChildren : Bool) (link : Option Link) :
    ∃ compiled, n.compile hasChildren link = .ok compiled := by
  cases hcompile : n.compile hasChildren link with
  | error e =>
    rw [fault?_of_compile_error hcompile] at h
    cases h
  | ok compiled => exact ⟨compiled, rfl⟩

end NestedQuery.Node
