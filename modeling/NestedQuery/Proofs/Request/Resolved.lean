import NestedQuery.Request.Reading

/-!
# Resolved forests

Reading tokens gives a resolved forest: every root is an entity of the catalog, every other node a
child of the entity around it, siblings have different output keys, and nothing was run yet.

The open nodes and the closed ones are in order after every token (`Reading.Sound`), from which
`Forest.IsRead.resolved` follows for the whole run.
-/

namespace NestedQuery

namespace Tree

variable {α : Type} {P Q : α → List (Tree α) → Prop}

/-- `P` holds of every label together with the trees below it. -/
inductive Everywhere (P : α → List (Tree α) → Prop) : Tree α → Prop where
  | node {a : α} {cs : List (Tree α)} (root : P a cs) (children : ∀ c ∈ cs, Everywhere P c) :
      Everywhere P (.node a cs)

theorem Everywhere.here {a : α} {cs : List (Tree α)} (h : Everywhere P (.node a cs)) : P a cs := by
  cases h with
  | node root _ => exact root

theorem Everywhere.inside {a : α} {cs : List (Tree α)} (h : Everywhere P (.node a cs)) :
    ∀ c ∈ cs, Everywhere P c := by
  cases h with
  | node _ children => exact children

theorem Everywhere.and {t : Tree α} (hp : Everywhere P t) (hq : Everywhere Q t) :
    Everywhere (fun a cs => P a cs ∧ Q a cs) t := by
  induction t using Tree.induction with
  | node a cs ih =>
    exact .node ⟨hp.here, hq.here⟩ fun c hc => ih c hc (hp.inside c hc) (hq.inside c hc)

theorem Everywhere.mono {t : Tree α} (h : Everywhere P t) (imp : ∀ a cs, P a cs → Q a cs) :
    Everywhere Q t := by
  induction t using Tree.induction with
  | node a cs ih => exact .node (imp a cs h.here) fun c hc => ih c hc (h.inside c hc)

end Tree

namespace Node

/-- The node asks for an entity of the catalog: one of that name, or a child of `parent`. -/
inductive Under (catalog : Metadata) : Option Entity → Node → Prop where
  | top {n : Node} (described : catalog.describe n.name = some n.entity) : Under catalog none n
  | child {parent : Entity} {n : Node} {r : Relationship}
      (related : parent.relationship? n.name = some r)
      (described : catalog.describe r.entity = some n.entity) : Under catalog (some parent) n

structure Fresh (n : Node) : Prop where
  records : n.records = []
  identifiers : n.identifiers = []

theorem Under.described {catalog : Metadata} (named : catalog.Named) {parent : Option Entity}
    {n : Node} (h : Under catalog parent n) :
    catalog.describe n.entity.name = some n.entity := by
  cases h with
  | top described => rwa [named _ _ described]
  | child _ described => rwa [named _ _ described]

/-- Only the name and the entity of a node decide where it belongs. -/
theorem Under.congr {catalog : Metadata} {parent : Option Entity} {m n : Node}
    (h : Under catalog parent m) (name : m.name = n.name) (entity : m.entity = n.entity) :
    Under catalog parent n := by
  cases h with
  | top described => exact .top (by rwa [← name, ← entity])
  | child related described => exact .child (by rwa [← name]) (by rwa [← entity])

theorem resolve_ok {catalog : Metadata} {parent : Option Node} {word : List Char} {n : Node}
    (h : resolve catalog parent word = .ok n) :
    Under catalog (parent.map (·.entity)) n ∧ Fresh n := by
  unfold resolve at h
  simp only at h
  split at h
  · cases h
  · cases parent with
    | none =>
      simp only at h
      split at h
      · cases h
      · next entity described =>
        cases h
        exact ⟨.top described, rfl, rfl⟩
    | some parent =>
      cases related : parent.entity.relationship? (Heading.ofWord word).name with
      | none =>
        cases known : (catalog.describe (Heading.ofWord word).name).isSome <;>
          simp [related, known] at h
      | some r =>
        simp only [related] at h
        split at h
        · cases h
        · next entity described =>
          cases h
          exact ⟨.child related described, rfl, rfl⟩

end Node

namespace Forest

/-- A node with its children is as it was read. -/
structure ResolvedAt (catalog : Metadata) (n : Node) (cs : Forest) : Prop where
  fresh : n.Fresh
  distinct : (cs.map fun t => t.label.outputKey).Nodup
  children : ∀ c ∈ cs, c.label.Under catalog (some n.entity)

/-- Siblings under `parent`, or roots, as they were read. -/
structure Resolved (catalog : Metadata) (parent : Option Entity) (forest : Forest) : Prop where
  distinct : (forest.map fun t => t.label.outputKey).Nodup
  under : ∀ t ∈ forest, t.label.Under catalog parent
  everywhere : ∀ t ∈ forest, t.Everywhere (ResolvedAt catalog)

variable {catalog : Metadata} {parent : Option Entity} {forest : Forest}

theorem Resolved.nil : Resolved catalog parent [] := ⟨.nil, by simp, by simp⟩

theorem Resolved.put {n : Node} {cs : Forest} (h : Resolved catalog parent forest)
    (under : n.Under catalog parent) (fresh : n.Fresh)
    (below : Resolved catalog (some n.entity) cs) :
    Resolved catalog parent (Forest.put (.node n cs) forest) where
  distinct := Keyed.nodup_map_put h.distinct
  under t ht := by
    rcases Keyed.mem_of_mem_put ht with rfl | ht
    · exact under
    · exact h.under t ht
  everywhere t ht := by
    rcases Keyed.mem_of_mem_put ht with rfl | ht
    · exact .node ⟨fresh, below.distinct, below.under⟩ below.everywhere
    · exact h.everywhere t ht

end Forest

namespace Reading

variable {catalog : Metadata}

/-- An open node below `parent` and its children so far. -/
structure SoundOpen (catalog : Metadata) (parent : Option Entity) (o : OpenNode) : Prop where
  under : o.node.Under catalog parent
  fresh : o.node.Fresh
  children : Forest.Resolved catalog (some o.node.entity) o.children

/-- Every open node lies below the next one on the stack. -/
def SoundStack (catalog : Metadata) : List OpenNode → Prop
  | [] => True
  | o :: outer => SoundOpen catalog (outer.head?.map (·.node.entity)) o ∧ SoundStack catalog outer

structure Sound (catalog : Metadata) (r : Reading) : Prop where
  stack : SoundStack catalog r.stack
  roots : Forest.Resolved catalog none r.roots

theorem sound_start : Sound catalog start := ⟨trivial, .nil⟩

theorem Sound.enter {r : Reading} {word : List Char} {n : Node} (h : Sound catalog r)
    (resolved : Node.resolve catalog r.parent? word = .ok n) : Sound catalog (r.enter n) := by
  obtain ⟨under, fresh⟩ := Node.resolve_ok resolved
  refine ⟨⟨⟨?_, fresh, .nil⟩, h.stack⟩, h.roots⟩
  simpa [parent?, Function.comp_def] using under

theorem Sound.fail {r : Reading} (e : RequestError) (h : Sound catalog r) :
    Sound catalog (r.fail e) := ⟨h.stack, h.roots⟩

/-- A field changes neither the entity of a node nor its children. -/
theorem Sound.field {r : Reading} (word : List Char) (h : Sound catalog r) :
    Sound catalog (r.field word) := by
  obtain ⟨stack, roots, errors⟩ := r
  cases stack with
  | nil => exact h
  | cons o outer =>
    obtain ⟨⟨under, fresh, children⟩, houter⟩ := h.stack
    exact ⟨⟨⟨under.congr rfl rfl, ⟨fresh.records, fresh.identifiers⟩, children⟩, houter⟩, h.roots⟩

theorem Sound.leave {r : Reading} (h : Sound catalog r) : Sound catalog r.leave := by
  obtain ⟨stack, roots, errors⟩ := r
  match stack, h with
  | [], h => exact h
  | [o], h =>
    obtain ⟨⟨under, fresh, children⟩, _⟩ := h.stack
    exact ⟨trivial, h.roots.put under fresh children⟩
  | o :: p :: outer, h =>
    obtain ⟨⟨under, fresh, children⟩, hp, houter⟩ := h.stack
    exact ⟨⟨⟨hp.under, hp.fresh, hp.children.put under fresh children⟩, houter⟩, h.roots⟩

/-- Reading keeps the open nodes and the roots in order. -/
theorem Sound.read {r : Reading} (tokens : List Token) (h : Sound catalog r) :
    Sound catalog (r.read catalog tokens) := by
  fun_induction Reading.read catalog r tokens with
  | case1 r => exact h
  | case2 r w rest n resolved ih => exact ih (h.enter resolved)
  | case3 r w rest e _ ih => exact ih (h.fail e)
  | case4 r w rest _ ih => exact ih (h.field w)
  | case5 r rest ih => exact ih h.leave
  | case6 r rest ih => exact ih h

end Reading

namespace Forest

/-- The forest was read from the tokens of some document. -/
def IsRead (catalog : Metadata) (forest : Forest) : Prop :=
  ∃ maxDepth tokens errors, ofTokens catalog maxDepth tokens = .ok (forest, errors)

theorem IsRead.resolved {catalog : Metadata} {forest : Forest} (h : forest.IsRead catalog) :
    Resolved catalog none forest := by
  obtain ⟨maxDepth, tokens, errors, h⟩ := h
  unfold ofTokens at h
  split at h
  · cases h
  · cases h
    exact (Reading.sound_start.read tokens).roots

end Forest

end NestedQuery
