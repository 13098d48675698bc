import NestedQuery.Proofs.Document.Layout
import NestedQuery.Proofs.Request.Meaning
import NestedQuery.Proofs.Request.Resolved

/-!
# Reading a laid out forest

A resolved forest that is written as a document, in any layout, is read back as it is
(`Forest.ofText_of_spells`): reading the tokens of a selection adds its fields and its trees to the
innermost open node, whatever was read before and whatever follows.
-/

namespace NestedQuery

/-! ### What a selection shows -/

/-- The heading is one of the node. -/
structure Header.Shows (h : Header) (n : Node) : Prop where
  outputKey : n.outputKey = h.outputKey.getD h.name
  name : n.name = h.name
  arguments : n.arguments = .ofList (h.arguments.getD [])

/-- A selection asks for the fields and the trees, in their orders. -/
inductive Selection.Shows : Selection Header → List String → Forest → Prop where
  | nil : Shows .nil [] []
  | field {name : String} {rest : Selection Header} {fields : List String} {forest : Forest}
      (rest_shows : Shows rest fields forest) : Shows (.field name rest) (name :: fields) forest
  | node {h : Header} {inner rest : Selection Header} {n : Node} {children : Forest}
      {fields : List String} {forest : Forest} (heading_shows : h.Shows n)
      (inner_shows : Shows inner n.requested children) (rest_shows : Shows rest fields forest) :
      Shows (.node h inner rest) fields (.node n children :: forest)

namespace Selection

variable {s : Selection Header} {fields : List String} {forest : Forest}

theorem Shows.fields_eq (shows : s.Shows fields forest) : s.fields = fields := by
  induction shows with
  | nil => rfl
  | field _ ih => rw [Selection.fields, ih]
  | node _ _ _ _ ih => exact ih

theorem Shows.height_eq (shows : s.Shows fields forest) : s.height = Tree.heightAll forest := by
  induction shows with
  | nil => rfl
  | field _ ih => exact ih
  | node _ _ _ ihinner ih => rw [Selection.height, Tree.heightAll, Tree.height, ihinner, ih]

end Selection

/-! ### Headings -/

namespace Node

variable {catalog : Metadata} {n : Node} {h : Header}

/-- The heading of a node that is in its place in the catalog is resolved to that node, as long as
no fields were read. -/
theorem resolve_word {parent : Option Node} (words : h.OfWords) (shows : h.Shows n)
    (under : n.Under catalog (parent.map (·.entity))) (fresh : n.Fresh) :
    Node.resolve catalog parent h.word = .ok { n with requested := [] } := by
  have hheading : Heading.ofWord h.word = ⟨n.outputKey, n.name, n.arguments⟩ := by
    rw [Heading.ofWord_word words.legible, shows.outputKey, shows.name, shows.arguments]
  have hname : n.name.isEmpty = false := by
    simpa [shows.name] using words.name.ne_empty
  have hkey : n.outputKey.isEmpty = false := by
    rw [shows.outputKey]
    cases hkey : h.outputKey with
    | none => simpa using words.name.ne_empty
    | some key => simpa using (words.outputKey key hkey).ne_empty
  have hasked : asked n.outputKey n.name n.entity n.arguments = { n with requested := [] } := by
    simp [asked, fresh.records, fresh.identifiers]
  cases parent with
  | none =>
    cases under with
    | top described => simp [resolve, hheading, hname, hkey, described, hasked]
  | some parent =>
    cases under with
    | child related described =>
      simp [resolve, hheading, hname, hkey, related, described, hasked]

end Node

/-! ### The reading of a selection -/

/-- A selection that shows a resolved forest means that forest, and costs no error. -/
theorem Selection.Shows.trees_eq {catalog : Metadata} {s : Selection Header} {fields : List String}
    {forest : Forest} (shows : s.Shows fields forest) (words : s.Each Header.OfWords)
    {parent : Option Node} (under : ∀ t ∈ forest, t.label.Under catalog (parent.map (·.entity)))
    (everywhere : ∀ t ∈ forest, t.Everywhere (Forest.ResolvedAt catalog)) :
    (s.map Header.word).trees catalog parent = forest ∧
      (s.map Header.word).errors catalog parent = [] := by
  induction shows generalizing parent with
  | nil => exact ⟨rfl, rfl⟩
  | field _ ih => exact ih words under everywhere
  | @node h inner s n children fields forest heading_shows inner_shows _ ihinner ih =>
    obtain ⟨hwords, innerWords, restWords⟩ := words
    have htree := everywhere _ List.mem_cons_self
    have hat : Forest.ResolvedAt catalog n children := htree.here
    have hresolve := Node.resolve_word hwords heading_shows (under _ List.mem_cons_self) hat.fresh
    have hfields : (inner.map Header.word).fields = n.requested := by
      rw [fields_map, inner_shows.fields_eq]
    obtain ⟨htrees, herrors⟩ : (inner.map Header.word).trees catalog (some n) = children ∧
        (inner.map Header.word).errors catalog (some n) = [] :=
      ihinner innerWords hat.children htree.inside
    obtain ⟨hrest, hrestErrors⟩ := ih restWords (fun t ht => under t (List.mem_cons_of_mem _ ht))
      fun t ht => everywhere t (List.mem_cons_of_mem _ ht)
    -- siblings have different output keys, so that none of them is replaced
    have hchildren : Keyed.lastOfEach (fun t => t.label.outputKey) children = children := by
      rw [← Keyed.ofList_eq_lastOfEach, Keyed.ofList_of_nodup hat.distinct]
    rw [map, trees, errors, hresolve]
    simp only [hfields, htrees, herrors, hrest, hrestErrors, hchildren, List.append_nil]
    trivial

namespace Reading

variable {catalog : Metadata}

/-- The nodes next to what is read next. -/
def siblings (r : Reading) : Forest :=
  match r.stack with
  | [] => r.roots
  | o :: _ => o.children

/-- Adds fields and trees to the innermost open node, and trees to the roots if there is none. -/
def add (fields : List String) (trees : Forest) (r : Reading) : Reading :=
  match r.stack with
  | [] => { r with roots := r.roots ++ trees }
  | ⟨node, children⟩ :: outer =>
    { r with
      stack := ⟨{ node with requested := node.requested ++ fields }, children ++ trees⟩ :: outer }

/-- Trees whose output keys are new go behind their siblings. -/
theorem take_eq_add (r : Reading) (fields : List String) {trees : Forest}
    (distinct : ((r.siblings ++ trees).map fun t => t.label.outputKey).Nodup) :
    r.take fields trees [] = r.add fields trees := by
  have hput : trees.foldl (fun acc t => Forest.put t acc) r.siblings = r.siblings ++ trees :=
    Keyed.foldl_put_of_nodup distinct
  obtain ⟨stack, roots, errors⟩ := r
  cases stack with
  | nil => simpa [take, add, siblings] using hput
  | cons o outer => simpa [take, add, siblings] using hput

/-- The tokens of a selection add what it shows to the innermost open node. -/
theorem read_tokens {s : Selection Header} {fields : List String} {forest : Forest}
    (shows : s.Shows fields forest) (words : s.Each Header.OfWords) (r : Reading)
    (under : ∀ t ∈ forest, t.label.Under catalog (r.parent?.map (·.entity)))
    (everywhere : ∀ t ∈ forest, t.Everywhere (Forest.ResolvedAt catalog))
    (distinct : ((r.siblings ++ forest).map fun t => t.label.outputKey).Nodup)
    (rest : List Token) :
    r.read catalog ((s.map Header.word).tokens ++ .closing :: rest) =
      (r.add fields forest).read catalog (.closing :: rest) := by
  obtain ⟨htrees, herrors⟩ := shows.trees_eq words under everywhere
  rw [read_tokens_eq_take, htrees, herrors, Selection.fields_map, shows.fields_eq,
    take_eq_add r fields distinct]

end Reading

namespace Forest

/-- A resolved forest that is not nested too deep is read back from every document in which it is
laid out, without an error. -/
theorem ofText_of_spells {catalog : Metadata} {maxDepth : Nat} {forest : Forest}
    {s : Selection Header} {text : List Char} (resolved : Resolved catalog none forest)
    (hne : forest ≠ []) (height : Tree.heightAll forest ≤ maxDepth) (shows : s.Shows [] forest)
    (spelled : s.SpellsDocument text) :
    ofText catalog maxDepth text = .ok (forest, []) := by
  -- the text becomes the tokens of the selection and of the last brace
  obtain ⟨rest, htrim, htokens⟩ := spelled.tokens
  have hheight : (s.map Header.word).height ≤ maxDepth := by
    rwa [Selection.height_map, shows.height_eq]
  have hnodes : (s.map Header.word).height ≠ 0 := by
    rw [Selection.height_map, shows.height_eq]
    cases forest with
    | nil => exact absurd rfl hne
    | cons t forest =>
      cases t
      simp [Tree.heightAll, Tree.height]
  have hfields : (s.map Header.word).fields = [] := by
    rw [Selection.fields_map, shows.fields_eq]
  -- which form an outline, and are read from the empty stack
  have hcheck := Outline.check_tokens _ hheight hfields hnodes
  have hread := Reading.read_tokens shows spelled.ofWords .start resolved.under
    resolved.everywhere resolved.distinct []
  rw [ofText, htrim]
  simp only [↓reduceIte, ofFlat, htokens, ofTokens, hcheck, hread]
  rw [Reading.read, Reading.read]
  rfl

end Forest

/-! ### Teams and their members -/

namespace Teams

def person : Entity := ⟨"Person", .ofList ["Id", "Name"], "Id", []⟩

def team : Entity :=
  ⟨"Team", .ofList ["Id", "Title"], "Id", [⟨"Members", person.name, "TeamId"⟩]⟩

def catalog : Catalog := .ofList [person, team]

def members : Node := { Node.asked "Members" "Members" person .empty with requested := ["Name"] }

def teams : Node :=
  { Node.asked "all" "Team" team (.ofList [("limit", some "2"), ("open", none)]) with
    requested := ["Title", "Title"] }

def forest : Forest := [.node teams [.node members []]]

/-- A key is given twice, a field stands behind a node, and a key has no value. -/
def selection : Selection Header :=
  .node ⟨some "all", "Team", some [("limit", some "1"), ("open", none), ("limit", some "2")]⟩
    (.field "Title" (.node ⟨none, "Members", none⟩ (.field "Name" .nil) (.field "Title" .nil))) .nil

theorem resolved : Forest.Resolved catalog none forest := by
  have hmembers : Forest.ResolvedAt catalog members [] := ⟨⟨rfl, rfl⟩, .nil, by simp⟩
  have hteams : Forest.ResolvedAt catalog teams [.node members []] := by
    refine ⟨⟨rfl, rfl⟩, by decide, ?_⟩
    intro t ht
    rw [List.mem_singleton.mp ht]
    have hrelated : team.relationship? "Members" = some ⟨"Members", "Person", "TeamId"⟩ := by
      decide +kernel
    exact .child hrelated (by decide +kernel)
  constructor
  case distinct => decide
  case under =>
    intro t ht
    rw [List.mem_singleton.mp ht]
    exact .top (by decide +kernel)
  case everywhere =>
    intro t ht
    rw [List.mem_singleton.mp ht]
    refine .node hteams fun c hc => ?_
    rw [List.mem_singleton.mp hc]
    exact .node hmembers fun _ h => nomatch h

theorem shows : selection.Shows [] forest := by
  have hteams : Header.Shows
      ⟨some "all", "Team", some [("limit", some "1"), ("open", none), ("limit", some "2")]⟩ teams :=
    ⟨rfl, rfl, by decide +kernel⟩
  have hmembers : Header.Shows ⟨none, "Members", none⟩ members := ⟨rfl, rfl, rfl⟩
  exact .node hteams (.field (.node hmembers (.field .nil) (.field .nil))) .nil

def text : String :=
  "\x7b all ,:Team (limit: 1, open limit:2 )\x7bTitle Members\n\x7bName\x7dTitle\x7d\x7d\n"

theorem spelled : selection.SpellsDocument text.toList := by
  have hlimit1 : Header.SpellsArgument ("limit", some "1")
      ("limit".toList ++ [] ++ ':' :: ([' '] ++ "1".toList)) :=
    .pair (by decide) (by decide) (by decide) (by decide)
  have hlimit2 : Header.SpellsArgument ("limit", some "2")
      ("limit".toList ++ [] ++ ':' :: ([] ++ "2".toList)) :=
    .pair (by decide) (by decide) (by decide) (by decide)
  have hlist :
      Header.SpellsArguments [("limit", some "1"), ("open", none), ("limit", some "2")] _ :=
    .cons hlimit1 (show IsGap [',', ' '] by decide) (by simp) <|
      .cons (.bare (by decide)) (show IsGap [' '] by decide) (by simp) <|
        .cons hlimit2 (show IsGap [' '] by decide) (by simp) .nil
  have htitle : Header.SpellsTitle (some "all") "Team"
      ("all".toList ++ [' ', ','] ++ ':' :: ([] ++ "Team".toList)) :=
    .keyed (by decide) (by decide) (by decide) (by decide)
  have hname : Selection.Spells (.field "Name" .nil) _ :=
    .field (by decide) (show IsGap [] by decide) (by simp) .nil
  have hlast : Selection.Spells (.field "Title" .nil) _ :=
    .field (by decide) (show IsGap [] by decide) (by simp) .nil
  have hmembers : Selection.Spells
      (.node ⟨none, "Members", none⟩ (.field "Name" .nil) (.field "Title" .nil)) _ :=
    .node (.title (.name (by decide))) (show IsGap ['\n'] by decide) (show IsGap [] by decide) hname
      (show IsGap [] by decide) hlast
  have hteams : selection.Spells _ :=
    .node (.list htitle (show IsGap [' '] by decide) (show IsGap [] by decide) hlist)
      (show IsGap [] by decide) (show IsGap [] by decide)
      (.field (by decide) (show IsGap [' '] by decide) (by simp) hmembers)
      (show IsGap [] by decide) .nil
  exact .braces (show ∀ c ∈ [], Text.isBlank c by simp) (show IsGap [' '] by decide) hteams
    (show ∀ c ∈ ['\n'], Text.isBlank c by simp; decide)

end Teams

theorem Forest.ofText_teams :
    Forest.ofText Teams.catalog 2 Teams.text.toList = .ok (Teams.forest, []) :=
  Forest.ofText_of_spells Teams.resolved (by decide) (by decide) Teams.shows Teams.spelled

end NestedQuery
