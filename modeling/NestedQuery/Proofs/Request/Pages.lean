import Mathlib.Data.List.Induction
import Mathlib.Data.Nat.Digits.Defs
import NestedQuery.Proofs.Keyed
import NestedQuery.Proofs.Select.Text
import NestedQuery.Request.Execution

/-!
# Pages

A node asks for a page of its records by two arguments, the limit and the offset. Each of them has
to be a decimal numeral of 64 bits (`Text.Denotes`) if it has a value at all. If one has not, nothing
is compiled and one error names it, the limit before the offset; otherwise the statement is put on
record, and its text is that of the node without the two arguments with the numbers behind it.

## Main result

- `Node.recorded_compileIn`: how compiling ends, and what it leaves in the log.
-/

namespace NestedQuery

/-! ### Numerals -/

namespace Text

def valueOfDigit (c : Char) : Nat := c.toNat - '0'.toNat

/-- The text is a decimal numeral of the given value. A plus sign may stand before its digits. -/
def Denotes (s : List Char) (value : Nat) : Prop :=
  ∃ digits, (s = digits ∨ s = '+' :: digits) ∧ digits ≠ [] ∧ (∀ c ∈ digits, '0' ≤ c ∧ c ≤ '9') ∧
    value = Nat.ofDigits 10 (digits.reverse.map valueOfDigit)

theorem digitValue?_of_digit {c : Char} (h : '0' ≤ c ∧ c ≤ '9') :
    digitValue? 10 c = some (valueOfDigit c) := by
  have hlt : c.toNat - 0x30 < 10 := by
    have hle : c.toNat ≤ 57 := UInt32.le_iff_toNat_le.mp h.2
    omega
  rw [digitValue?, if_pos h]
  simp only [Option.filter, hlt, decide_true, ↓reduceIte]
  rfl

theorem valueOfDigits_eq_ofDigits {digits : List Char} (h : ∀ c ∈ digits, '0' ≤ c ∧ c ≤ '9') :
    valueOfDigits 10 digits = Nat.ofDigits 10 (digits.reverse.map valueOfDigit) := by
  -- the last step of the fold reads the last digit, which is the first one of the reverse
  induction digits using List.reverseRecOn with
  | nil => rfl
  | append_singleton digits c ih =>
    have hc : digitValue? 10 c = some (valueOfDigit c) :=
      digitValue?_of_digit (h c (List.mem_append_right _ List.mem_cons_self))
    have hdigits := ih fun d hd => h d (List.mem_append_left _ hd)
    rw [valueOfDigits] at hdigits ⊢
    rw [List.foldl_append, hdigits, List.reverse_append, List.reverse_singleton,
      List.singleton_append, List.map_cons, Nat.ofDigits_cons]
    simp only [List.foldl_cons, List.foldl_nil, hc, Option.getD_some]
    ring

def behindSign (s : List Char) : List Char :=
  match s with
  | '+' :: rest => rest
  | _ => s

/-- A sign is no digit, so that the text alone decides where the digits begin. -/
theorem behindSign_eq {s digits : List Char} (h : s = digits ∨ s = '+' :: digits)
    (hdigits : ∀ c ∈ digits, '0' ≤ c ∧ c ≤ '9') : behindSign s = digits := by
  rcases h with rfl | rfl
  · unfold behindSign
    split
    · exact absurd (hdigits '+' List.mem_cons_self) (by decide)
    · rfl
  · rfl

theorem eq_or_eq_cons_behindSign (s : List Char) :
    s = behindSign s ∨ s = '+' :: behindSign s := by
  unfold behindSign
  split
  · exact .inr rfl
  · exact .inl rfl

theorem naturalBelow?_eq (bound : Nat) (s : List Char) :
    naturalBelow? bound s =
      if (behindSign s).isEmpty then none
      else if (behindSign s).all isDigit then
        if valueOfDigits 10 (behindSign s) < bound then some (valueOfDigits 10 (behindSign s))
        else none
      else none := rfl

theorem naturalBelow?_eq_some_iff {bound : Nat} {s : List Char} {value : Nat} :
    naturalBelow? bound s = some value ↔ value < bound ∧ Denotes s value := by
  rw [naturalBelow?_eq]
  constructor
  case mp =>
    intro h
    split at h
    · cases h
    · next hne =>
      split at h
      · next hall =>
        have hdigits : ∀ c ∈ behindSign s, '0' ≤ c ∧ c ≤ '9' := by simpa [isDigit] using hall
        split at h
        · next hlt =>
          cases h
          exact ⟨hlt, _, eq_or_eq_cons_behindSign s, by simpa using hne, hdigits,
            valueOfDigits_eq_ofDigits hdigits⟩
        · cases h
      · cases h
  case mpr =>
    rintro ⟨hlt, digits, hs, hne, hdigits, rfl⟩
    have hall : digits.all isDigit := by simpa [isDigit] using hdigits
    rw [behindSign_eq hs hdigits, if_neg (by simpa using hne), if_pos hall,
      valueOfDigits_eq_ofDigits hdigits, if_pos hlt]

end Text

/-- The numbers of a page are the end of the text. -/
theorem Select.render_eq_append (s : Select) :
    s.render = { s with limit := none, offset := none }.render ++ numbered " LIMIT " s.limit ++
      numbered " OFFSET " s.offset := by
  have hbare : { s with limit := none, offset := none }.render =
      s.renderHead ++ renderConditions true s.conditions := by
    simp [render, renderHead, renderLimit, renderOffset]
  rw [hbare]
  rfl

/-! ### What is asked for -/

namespace Node

/-- An argument asks for no number, or for one of 64 bits. -/
inductive Asks (n : Node) (key : String) : Option Nat → Prop where
  | nothing (given : n.argument? key = none) : Asks n key none
  | number {raw : String} {value : Nat} (given : n.argument? key = some raw)
      (denotes : Text.Denotes (Argument.content raw).toList value) (bounded : value < 2 ^ 64) :
      Asks n key (some value)

/-- An argument has a value that is no numeral of 64 bits. -/
structure BadPage (n : Node) (key raw : String) : Prop where
  given : n.argument? key = some raw
  not_denotes : ∀ value < 2 ^ 64, ¬ Text.Denotes (Argument.content raw).toList value

def pageFault (n : Node) (key raw : String) : RequestError :=
  .invalidArgument n.entity.name key
    ("must be a non-negative integer (got '" ++ Argument.content raw ++ "')")

theorem page_cases (n : Node) (key : String) :
    (∃ number, n.page key = .ok number ∧ n.Asks key number) ∨
      ∃ raw, n.page key = .error (n.pageFault key raw) ∧ n.BadPage key raw := by
  rw [page]
  cases hgiven : n.argument? key with
  | none => exact .inl ⟨none, rfl, .nothing hgiven⟩
  | some raw =>
    simp only
    cases hnumber : Text.naturalBelow? (twoTo 64) (Argument.content raw).toList with
    | some value =>
      obtain ⟨bounded, denotes⟩ := Text.naturalBelow?_eq_some_iff.mp hnumber
      exact .inl ⟨some value, rfl, .number hgiven denotes bounded⟩
    | none =>
      refine .inr ⟨raw, rfl, hgiven, fun value bounded denotes => ?_⟩
      have hsome : Text.naturalBelow? (twoTo 64) (Argument.content raw).toList = some value :=
        Text.naturalBelow?_eq_some_iff.mpr ⟨bounded, denotes⟩
      rw [hsome] at hnumber
      cases hnumber

theorem Asks.not_bad {n : Node} {key raw : String} {number : Option Nat} (h : n.Asks key number) :
    ¬ n.BadPage key raw := by
  intro hbad
  cases h with
  | nothing given => cases given.symm.trans hbad.given
  | number given denotes bounded =>
    obtain rfl : _ = raw := Option.some.inj (given.symm.trans hbad.given)
    exact hbad.not_denotes _ bounded denotes

/-! ### Nodes without a page -/

def isPageKey (key : String) : Bool := key == limitKey || key == offsetKey

/-- The node without the arguments that ask for a page. -/
def unpaged (n : Node) : Node :=
  { n with arguments := n.arguments.restrict fun key => !isPageKey key }

theorem page_unpaged (n : Node) {key : String} (h : isPageKey key) :
    n.unpaged.page key = .ok none := by
  apply page_of_argument?
  rw [argument?, Arguments.value?, unpaged, Ordered.find?_restrict, h]
  rfl

/-- The arguments for a page are no conditions. -/
theorem condition?_unpaged (n : Node) : n.unpaged.condition? = n.condition? := by
  funext field
  rw [condition?, condition?]
  by_cases h : isPageKey field
  · rw [isPageKey] at h
    rw [if_pos h, if_pos h]
  · rw [unpaged, Ordered.find?_restrict]
    simp [h]

theorem compile_of_page {n : Node} {limit offset : Option Nat} (hlimit : n.page limitKey = .ok limit)
    (hoffset : n.page offsetKey = .ok offset) (hasChildren : Bool) (link : Option Link) :
    n.compile hasChildren link =
      .ok ⟨⟨n.selectFields hasChildren (link.map (·.joinField)), n.entity.name,
        joinConditions link ++ (n.joinedFields (link.map (·.joinField))).filterMap n.condition?,
        limit, offset⟩, link.any fun link => link.values.isEmpty⟩ := by
  rw [compile, hlimit]
  simp only [hoffset]

/-! ### Compiling within a request -/

/-- The fault of a page that is reported. The limit is looked at first. -/
inductive Faulty (n : Node) : RequestError → Prop where
  | limit {raw : String} (bad : n.BadPage limitKey raw) : Faulty n (n.pageFault limitKey raw)
  | offset {raw : String} (good : ∀ raw, ¬ n.BadPage limitKey raw) (bad : n.BadPage offsetKey raw) :
      Faulty n (n.pageFault offsetKey raw)

/-- Nothing was compiled, and the log says why and nothing else. -/
structure Refused (n : Node) (before after : Log) : Prop where
  errors : ∃ e, n.Faulty e ∧ after.errors = before.errors ++ [e]
  queries : after.queries = before.queries

/-- The statement of a node is on record. Its text ends with the numbers of the page, and the
arguments that give them are nowhere else in it. -/
structure Recorded (n : Node) (hasChildren : Bool) (link : Option Link) (compiled : Compiled)
    (before after : Log) : Prop where
  errors : after.errors = before.errors
  queries : after.queries = before.queries ++ [compiled.text]
  text : ∃ bare limit offset, n.unpaged.compile hasChildren link = .ok bare ∧
    n.Asks limitKey limit ∧ n.Asks offsetKey offset ∧
    compiled.text =
      bare.text ++ Select.numbered " LIMIT " limit ++ Select.numbered " OFFSET " offset
  filters : ∀ c ∈ compiled.select.conditions,
    c ∈ joinConditions link ∨ ¬ isPageKey c.column

variable {n : Node} {hasChildren : Bool} {link : Option Link} {before after : Log}

theorem not_isPageKey_of_condition? {field : String} {c : Condition}
    (h : n.condition? field = some c) : ¬ isPageKey c.column := by
  rw [column_of_condition? h]
  intro hkey
  rw [isPageKey] at hkey
  rw [condition?, if_pos hkey] at h
  cases h

theorem recorded_of_page {limit offset : Option Nat} (hlimit : n.page limitKey = .ok limit)
    (hoffset : n.page offsetKey = .ok offset) (asksLimit : n.Asks limitKey limit)
    (asksOffset : n.Asks offsetKey offset) {compiled : Compiled}
    (hcompile : n.compile hasChildren link = .ok compiled) :
    n.Recorded hasChildren link compiled before (before ++ [.compiled compiled.text]) := by
  obtain rfl := Except.ok.inj (hcompile.symm.trans (compile_of_page hlimit hoffset hasChildren link))
  constructor
  case errors => simp [Log.errors]
  case queries => simp [Log.queries]
  case text =>
    -- without the two arguments the statement is the same but for its page
    have hbare := compile_of_page (n.page_unpaged rfl) (n.page_unpaged rfl) hasChildren link
    rw [condition?_unpaged] at hbare
    exact ⟨_, limit, offset, hbare, asksLimit, asksOffset, Select.render_eq_append _⟩
  case filters =>
    intro c hc
    rcases List.mem_append.mp hc with hc | hc
    · exact .inl hc
    · obtain ⟨field, -, hc⟩ := List.mem_filterMap.mp hc
      exact .inr (not_isPageKey_of_condition? hc)

/-- A node is compiled just if its limit and its offset are numerals of 64 bits or not given. Its
statement is then the only thing that the log gains; otherwise that is one error, which names the
limit if it is at fault. A run compiles every node in this way before it sends anything. -/
theorem recorded_compileIn (n : Node) (hasChildren : Bool) (link : Option Link) (before : Log) :
    (∀ engine received, n.run engine received link hasChildren =
      n.send engine received (n.compileIn hasChildren link [.visited])) ∧
    ((n.compileIn hasChildren link before).1 = none ↔
      ∃ raw, n.BadPage limitKey raw ∨ n.BadPage offsetKey raw) ∧
    match n.compileIn hasChildren link before with
    | (none, after) => n.Refused before after
    | (some compiled, after) => n.Recorded hasChildren link compiled before after := by
  refine ⟨fun _ _ => rfl, ?_⟩
  obtain ⟨limit, hlimit, asksLimit⟩ | ⟨raw, hlimit, badLimit⟩ := n.page_cases limitKey
  · obtain ⟨offset, hoffset, asksOffset⟩ | ⟨raw, hoffset, badOffset⟩ := n.page_cases offsetKey
    · have hcompile := compile_of_page hlimit hoffset hasChildren link
      rw [compileIn, hcompile]
      refine ⟨iff_of_false nofun ?_, recorded_of_page hlimit hoffset asksLimit asksOffset hcompile⟩
      rintro ⟨raw, bad | bad⟩
      · exact asksLimit.not_bad bad
      · exact asksOffset.not_bad bad
    · have hcompile : n.compile hasChildren link = .error (n.pageFault offsetKey raw) := by
        rw [compile, hlimit]
        simp only [hoffset]
      -- the offset is named only where the limit is no fault
      rw [compileIn, hcompile]
      refine ⟨iff_of_true rfl ⟨raw, .inr badOffset⟩, ?_, ?_⟩
      · exact ⟨_, .offset (fun _ => asksLimit.not_bad) badOffset, by simp [Log.errors]⟩
      · simp [Log.queries]
  · have hcompile : n.compile hasChildren link = .error (n.pageFault limitKey raw) := by
      rw [compile, hlimit]
    rw [compileIn, hcompile]
    refine ⟨iff_of_true rfl ⟨raw, .inl badLimit⟩, ?_, ?_⟩
    · exact ⟨_, .limit badLimit, by simp [Log.errors]⟩
    · simp [Log.queries]

end Node

end NestedQuery
