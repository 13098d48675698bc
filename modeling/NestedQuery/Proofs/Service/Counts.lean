import Mathlib.Algebra.BigOperators.Group.List.Basic
import Mathlib.Algebra.Order.Ring.Nat
import NestedQuery.Proofs.Request.Shape
import NestedQuery.Proofs.Service.Outcome
import NestedQuery.Session

/-!
# What the counters of a session count

The counters go up at four places of the pipeline, one of which is inside of the run of a forest.
`Call.ofLog_log` says what one call adds to them, in terms of its response: one document read, one
query compiled or refused for every node that was read, the statements that the store received, and
one piece of data if there is any. A step of a session moves counts from the counters into a
snapshot, or adds those of a call, and loses none (`Session.step_counts`).

## Main result

`Session.run_counts`: what the counters hold at the end of a session and what was taken from them on
the way add up to the counts of all its calls.
-/

namespace NestedQuery

/-! ### Profiles -/

namespace Profile

instance : Zero Profile := ⟨zero⟩

theorem mk_add_mk (p c e a p' c' e' a' : Nat) :
    (⟨p, c, e, a⟩ + ⟨p', c', e', a'⟩ : Profile) = ⟨p + p', c + c', e + e', a + a'⟩ := rfl

instance : AddCommMonoid Profile where
  add_assoc := by
    rintro ⟨⟩ ⟨⟩ ⟨⟩
    simp only [mk_add_mk, Nat.add_assoc]
  zero_add := by
    rintro ⟨⟩
    change mk (0 + _) (0 + _) (0 + _) (0 + _) = _
    simp only [Nat.zero_add]
  add_zero := by
    rintro ⟨⟩
    rfl
  add_comm := by
    rintro ⟨⟩ ⟨⟩
    simp only [mk_add_mk, Nat.add_comm]
  nsmul := nsmulRec

/-- No count is too great for 64 bits. -/
structure Fits (p : Profile) : Prop where
  parsed : p.parsed < 2 ^ 64
  compiled : p.compiled < 2 ^ 64
  executed : p.executed < 2 ^ 64
  assembled : p.assembled < 2 ^ 64

theorem Fits.of_add_left {a b : Profile} (h : (a + b).Fits) : a.Fits where
  parsed := Nat.lt_of_le_of_lt (Nat.le_add_right _ _) h.parsed
  compiled := Nat.lt_of_le_of_lt (Nat.le_add_right _ _) h.compiled
  executed := Nat.lt_of_le_of_lt (Nat.le_add_right _ _) h.executed
  assembled := Nat.lt_of_le_of_lt (Nat.le_add_right _ _) h.assembled

theorem Fits.of_add_right {a b : Profile} (h : (a + b).Fits) : b.Fits :=
  Fits.of_add_left (add_comm a b ▸ h)

end Profile

namespace Counters

@[simp] theorem profile_zero : zero.profile = 0 := rfl

/-- A counter does not start over on the way to a number of 64 bits. -/
theorem toNat_succ {n : UInt64} (h : n.toNat + 1 < 2 ^ 64) : (n + 1).toNat = n.toNat + 1 := by
  rw [UInt64.toNat_add, UInt64.toNat_one, Nat.mod_eq_of_lt h]

/-- An event counts as in the log, as long as no counter starts over. -/
theorem profile_record {c : Counters} {event : Event}
    (h : (c.profile + Profile.ofLog [event]).Fits) :
    (c.record event).profile = c.profile + Profile.ofLog [event] := by
  cases event with
  | parsed =>
    have hnext : (c.parsed + 1).toNat = c.parsed.toNat + 1 := toNat_succ h.parsed
    rw [record, profile, hnext]
    rfl
  | visited =>
    have hnext : (c.compiled + 1).toNat = c.compiled.toNat + 1 := toNat_succ h.compiled
    rw [record, profile, hnext]
    rfl
  | sent q =>
    have hnext : (c.executed + 1).toNat = c.executed.toNat + 1 := toNat_succ h.executed
    rw [record, profile, hnext]
    rfl
  | assembled =>
    have hnext : (c.assembled + 1).toNat = c.assembled.toNat + 1 := toNat_succ h.assembled
    rw [record, profile, hnext]
    rfl
  | compiled q => rfl
  | failed e => rfl

theorem profile_foldl {c : Counters} {log : Log} (h : (c.profile + Profile.ofLog log).Fits) :
    (log.foldl record c).profile = c.profile + Profile.ofLog log := by
  induction log generalizing c with
  | nil => rfl
  | cons event log ih =>
    have hcons : Profile.ofLog (event :: log) = Profile.ofLog [event] + Profile.ofLog log :=
      Profile.ofLog_append [event] log
    rw [hcons, ← add_assoc] at h ⊢
    have hevent := profile_record h.of_add_left
    rw [List.foldl_cons, ih (hevent ▸ h), hevent]

end Counters

/-! ### What a run of a forest counts -/

/-- A stretch of a run counts its nodes and the statements that the store receives. -/
def Log.Counts (before : List Select) (nodes : List Node) (log : Log) (after : List Select) :
    Prop :=
  ∃ statements, after = before ++ statements ∧
    Profile.ofLog log = ⟨0, nodes.length, statements.length, 0⟩

theorem Log.counts_composes : Stretch.Composes Log.Counts where
  nil received := ⟨[], (List.append_nil received).symm, rfl⟩
  append := by
    rintro r s t ns ms a b ⟨first, rfl, hfirst⟩ ⟨rest, rfl, hrest⟩
    refine ⟨first ++ rest, List.append_assoc _ _ _, ?_⟩
    rw [Profile.ofLog_append, hfirst, hrest, Profile.mk_add_mk, List.length_append,
      List.length_append]

/-- A visit takes up one node, and sends one statement at most. -/
theorem Node.counts_run (engine : Engine) (received : List Select) (link : Option Link)
    (hasChildren : Bool) (n : Node) :
    Log.Counts received [n] (n.run engine received link hasChildren).log
      (n.run engine received link hasChildren).received := by
  obtain ⟨e, -, hrun⟩ | ⟨compiled, -, -, hrun⟩ | ⟨compiled, records, -, -, -, hrun⟩ |
    ⟨compiled, message, -, -, -, hrun⟩ := n.run_cases engine received link hasChildren
  · rw [hrun]
    exact ⟨[], (List.append_nil received).symm, rfl⟩
  · rw [hrun]
    exact ⟨[], (List.append_nil received).symm, rfl⟩
  · rw [hrun]
    exact ⟨[compiled.select], rfl, rfl⟩
  · rw [hrun]
    exact ⟨[compiled.select], rfl, rfl⟩

/-- A run takes up every node of a forest that was read, and reads and assembles nothing. -/
theorem Forest.ofLog_run {catalog : Metadata} {forest : Forest} (read : forest.IsRead catalog)
    (engine : Engine) :
    Profile.ofLog (Forest.run engine forest).2 =
      ⟨0, (Tree.preorderAll forest).length, (forest.received engine).length, 0⟩ := by
  obtain ⟨statements, hreceived, hcounts⟩ := stretch_run_of_step read Log.counts_composes
    fun n received link _ => n.counts_run engine received link _
  rw [hcounts, hreceived, List.nil_append]

namespace Service

/-- The errors of headings are counted nowhere. -/
theorem ofLog_map_failed (errors : List RequestError) :
    Profile.ofLog (errors.map .failed) = 0 := by
  induction errors with
  | nil => rfl
  | cons e rest ih =>
    rw [List.map_cons, ← List.singleton_append, Profile.ofLog_append, ih]
    rfl

/-- Data is put together once, behind the run, and only if there is a root. -/
theorem ofLog_answer {catalog : Metadata} {forest : Forest} (read : forest.IsRead catalog)
    (service : Service) :
    Profile.ofLog (service.answer forest).2 =
      ⟨0, (Tree.preorderAll forest).length, (forest.received service.engine).length,
        if (service.answer forest).1.isSome then 1 else 0⟩ := by
  have hrun := Forest.ofLog_run read service.engine
  cases forest with
  | nil => rfl
  | cons t rest =>
    simp only [answer, List.isEmpty_cons, Bool.false_eq_true, if_false, Profile.ofLog_append, hrun]
    rfl

end Service

/-! ### What a call counts -/

namespace Call

/-- The trees that are left once the text of a call was read. -/
def forest (c : Call) : Forest :=
  match Forest.ofText c.service.catalog c.service.maxDepth c.request.document with
  | .error _ => []
  | .ok (forest, _) => forest

def nodes (c : Call) : List Node := Tree.preorderAll c.forest

/-- All that the store of a call is sent. -/
def received (c : Call) : List Select := c.service.received c.request

/-- How many errors of a call are about an argument. -/
def faults (c : Call) : Nat := c.log.errors.countP fun e => e.code == "InvalidArgument"

/-- What some calls demand of the pipeline: one document is read for each, every node is compiled of
the trees that were read, every statement is executed that a store receives, and data is put
together for every response that has any. -/
def work (calls : List Call) : Profile where
  parsed := calls.length
  compiled := (calls.map fun c => c.nodes.length).sum
  executed := (calls.map fun c => c.received.length).sum
  assembled := calls.countP fun c => c.response.data.isSome

theorem work_append (calls calls' : List Call) :
    work (calls ++ calls') = work calls + work calls' := by
  simp [work, Profile.mk_add_mk]

variable {c : Call}

theorem nodes_of_error {fault : DocumentFault}
    (h : Forest.ofText c.service.catalog c.service.maxDepth c.request.document = .error fault) :
    c.nodes = [] := by
  rw [nodes, forest, h]
  rfl

theorem nodes_of_ok {forest : Forest} {errors : List RequestError}
    (h : Forest.ofText c.service.catalog c.service.maxDepth c.request.document =
      .ok (forest, errors)) : c.nodes = Tree.preorderAll forest := by
  rw [nodes, Call.forest, h]

theorem work_singleton (c : Call) :
    work [c] =
      ⟨1, c.nodes.length, c.received.length, if c.response.data.isSome then 1 else 0⟩ := by
  simp [work, List.countP_singleton]

/-- What happens during a call counts as what there is to do. -/
theorem ofLog_log (c : Call) : Profile.ofLog c.log = work [c] := by
  rw [work_singleton]
  cases hread : Forest.ofText c.service.catalog c.service.maxDepth c.request.document with
  | error fault =>
    rw [nodes_of_error hread, received, Service.received_of_error hread, log, response,
      Service.serve_of_error hread, Service.handle_of_error hread]
    rfl
  | ok result =>
    obtain ⟨forest, errors⟩ := result
    obtain ⟨s, hs, rfl, rfl⟩ := Forest.exists_outlines hread
    have hanswer := Service.ofLog_answer (hs.isRead c.service.catalog) c.service
    rw [nodes_of_ok hread, received, Service.received_of_ok hread, log, response,
      Service.handle_of_ok hread, Service.serve_of_ok hread, Profile.ofLog_append,
      Service.ofLog_map_failed, zero_add, ← List.singleton_append, Profile.ofLog_append, hanswer]
    change (⟨1, 0, 0, 0⟩ + _ : Profile) = _
    simp only [Profile.mk_add_mk, Nat.zero_add]

/-- Every node that was read leaves a query in the response, or an error about an argument. -/
theorem length_nodes (c : Call) : c.nodes.length = c.response.queries.length + c.faults := by
  cases hread : Forest.ofText c.service.catalog c.service.maxDepth c.request.document with
  | error fault =>
    rw [nodes_of_error hread, faults, log, response, Service.serve_of_error hread,
      Service.handle_of_error hread]
    rfl
  | ok result =>
    obtain ⟨forest, errors⟩ := result
    obtain ⟨s, hs, rfl, rfl⟩ := Forest.exists_outlines hread
    have hrun := Forest.accounted_run (hs.isRead c.service.catalog) c.service.engine
    have hheadings : ((s.errors c.service.catalog none).countP
        fun e => e.code == "InvalidArgument") = 0 := by
      rw [List.countP_eq_zero]
      intro e he
      obtain hcode | hcode := Selection.code_of_mem_errors he <;> rw [hcode] <;> decide
    rw [nodes_of_ok hread, faults, log, response, Service.errors_serve_of_ok hread,
      Service.handle_of_ok hread, List.countP_append, hheadings, Nat.zero_add, ← hrun]
    rfl

end Call

/-! ### Sessions -/

namespace Session

def Step.calls : Step → List Call
  | .call c => [c]
  | .snapshot _ => []

def Answer.responses : Answer → List Response
  | .response r => [r]
  | .snapshot _ _ => []

/-- What a snapshot takes from the counters, which are reset behind it. -/
def Answer.taken : Answer → Profile
  | .snapshot true (some p) => p
  | _ => 0

/-- What a step takes from the counters and what it leaves in them is what they held, and what the
step had to do. -/
theorem step_counts {counters : Counters} {next : Step}
    (h : (counters.profile + Call.work next.calls).Fits) :
    ∃ counters', ((⟨some counters⟩ : Session).step next).2 = ⟨some counters'⟩ ∧
      ((⟨some counters⟩ : Session).step next).1.taken + counters'.profile =
        counters.profile + Call.work next.calls := by
  cases next with
  | call c =>
    refine ⟨c.log.foldl Counters.record counters, rfl, ?_⟩
    rw [Step.calls, ← c.ofLog_log] at h ⊢
    rw [Counters.profile_foldl h]
    exact zero_add _
  | snapshot reset =>
    cases reset with
    | true => exact ⟨.zero, rfl, rfl⟩
    | false => exact ⟨counters, rfl, zero_add _⟩

theorem responses_step (s : Session) (next : Step) :
    (s.step next).1.responses = next.calls.map Call.response := by
  cases next <;> rfl

/-- A session answers every call as its service answers the request alone. -/
theorem responses_run (s : Session) (steps : List Step) :
    (s.run steps).1.flatMap Answer.responses = (steps.flatMap Step.calls).map Call.response := by
  induction steps generalizing s with
  | nil => rfl
  | cons next steps ih =>
    simp only [run, List.flatMap_cons, List.map_append, responses_step, ih]

theorem run_cons (s : Session) (next : Step) (steps : List Step) :
    s.run (next :: steps) =
      ((s.step next).1 :: ((s.step next).2.run steps).1, ((s.step next).2.run steps).2) := rfl

/-- No step of a session loses a count. -/
theorem run_conserves (counters : Counters) (steps : List Step)
    (h : (counters.profile + Call.work (steps.flatMap Step.calls)).Fits) :
    ∃ counters', ((⟨some counters⟩ : Session).run steps).2 = ⟨some counters'⟩ ∧
      (((⟨some counters⟩ : Session).run steps).1.map Answer.taken).sum + counters'.profile =
        counters.profile + Call.work (steps.flatMap Step.calls) := by
  induction steps generalizing counters with
  | nil => exact ⟨counters, rfl, add_comm _ _⟩
  | cons next steps ih =>
    rw [List.flatMap_cons, Call.work_append, ← add_assoc] at h ⊢
    obtain ⟨counters', hstep, htaken⟩ := step_counts h.of_add_left
    rw [← htaken, add_assoc] at h ⊢
    obtain ⟨counters'', hrun, hsum⟩ := ih counters' h.of_add_right
    rw [run_cons, hstep]
    refine ⟨counters'', hrun, ?_⟩
    rw [← hsum, ← add_assoc, List.map_cons, List.sum_cons]

/-- The counters of a session that starts with them at zero are exact, whatever catalogs and stores
its calls meet and whenever a snapshot resets them: what the snapshots took on the way and what is
read at the end add up to the work of all calls, of which each was answered. The nodes that were
compiled are those with a query in a response, and those with an error about an argument. -/
theorem run_counts (steps : List Step) (fits : (Call.work (steps.flatMap Step.calls)).Fits) :
    let calls := steps.flatMap Step.calls
    let answers := ((start true).run steps).1
    let responses := answers.flatMap Answer.responses
    responses = calls.map Call.response ∧
    (∃ last, (∀ reset, (((start true).run steps).2.snapshot reset).1 = some last) ∧
      (answers.map Answer.taken).sum + last = Call.work calls) ∧
    (Call.work calls).compiled =
      (responses.map fun r => r.queries.length).sum + (calls.map Call.faults).sum := by
  intro calls answers responses
  have hresponses : responses = calls.map Call.response := responses_run (start true) steps
  refine ⟨hresponses, ?_, ?_⟩
  · obtain ⟨counters, hrun, hsum⟩ :=
      run_conserves .zero steps (by rwa [Counters.profile_zero, zero_add])
    refine ⟨counters.profile, fun reset => congrArg (fun s => (snapshot s reset).1) hrun, ?_⟩
    exact hsum.trans (zero_add _)
  · rw [hresponses, List.map_map, ← List.sum_map_add]
    exact congrArg List.sum (List.map_congr_left fun c _ => c.length_nodes)

end Session

/-! ### Counting calls for teams -/

namespace Roster

/-- A store that has a team and refuses to say who plays for it. -/
def closed : Engine := fun _ s => if s.table = team.name then .ok [oslo] else .error "closed"

def call (query : String) : Call := ⟨⟨catalog, closed, 32⟩, ⟨query, .empty⟩⟩

/-- One limit cannot be read, the players at the top are refused, and no coach is known. -/
def mixed : String :=
  "\x7bTeam \x7bCity Players(limit:all) \x7bName\x7d\x7d Player \x7bName\x7d Coach \x7bName\x7d\x7d"

def mixedSelection : Selection (List Char) :=
  .node "Team".toList
    (.field "City" (.node "Players(limit:all)".toList (.field "Name" .nil) .nil))
    (.node "Player".toList (.field "Name" .nil) (.node "Coach".toList (.field "Name" .nil) .nil))

def unknown : String := "\x7bCoach \x7bName\x7d\x7d"

def unknownSelection : Selection (List Char) :=
  .node "Coach".toList (.field "Name" .nil) .nil

def steps : List Session.Step :=
  [.call (call mixed), .snapshot true, .call (call unknown), .snapshot false, .call (call "Team"),
    .call (call mixed)]

variable {query : String}

theorem work_call {s : Selection (List Char)} (h : s.Outlines 32 query.toList) :
    Call.work [call query] =
      Profile.ofLog ((s.errors catalog none).map .failed ++
        .parsed :: (Service.answer ⟨catalog, closed, 32⟩ (s.forest catalog)).2) := by
  have hread : Forest.ofText (call query).service.catalog (call query).service.maxDepth
      (call query).request.document = .ok (s.forest catalog, s.errors catalog none) :=
    h.ofText_eq catalog
  rw [← Call.ofLog_log, Call.log, Service.serve_of_ok hread]
  rfl

/-- A text without a brace is read and comes to nothing. -/
theorem work_unbraced : Call.work [call "Team"] = ⟨1, 0, 0, 0⟩ := by
  have hread : Forest.ofText (call "Team").service.catalog (call "Team").service.maxDepth
      (call "Team").request.document = .error .noOpeningBrace := rfl
  rw [← Call.ofLog_log, Call.log, Service.serve_of_error hread]
  rfl

end Roster

open Roster in
theorem Session.run_counts_roster :
    ∃ last, (((start true).run steps).2.snapshot false).1 = some last ∧
      (((start true).run steps).1.map Answer.taken).sum + last = ⟨4, 6, 4, 2⟩ := by
  have hmixed : mixedSelection.Outlines 32 mixed.toList :=
    ⟨by decide +kernel, ⟨rfl, nofun, by decide⟩, by decide +kernel⟩
  have hunknown : unknownSelection.Outlines 32 unknown.toList :=
    ⟨by decide +kernel, ⟨rfl, nofun, by decide⟩, by decide +kernel⟩
  have hwork : Call.work (steps.flatMap Step.calls) = ⟨4, 6, 4, 2⟩ := by
    change Call.work ([call mixed] ++ ([call unknown] ++ ([call "Team"] ++ [call mixed]))) = _
    rw [Call.work_append, Call.work_append, Call.work_append, work_call hmixed, work_call hunknown,
      work_unbraced]
    decide +kernel
  have fits : (Call.work (steps.flatMap Step.calls)).Fits := by
    rw [hwork]
    exact ⟨by decide, by decide, by decide, by decide⟩
  obtain ⟨-, ⟨last, hlast, hsum⟩, -⟩ := Session.run_counts steps fits
  exact ⟨last, hlast false, hsum.trans hwork⟩

end NestedQuery
