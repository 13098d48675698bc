import Mathlib.Data.List.Chain
import Mathlib.Data.List.Find
import Mathlib.Data.List.MinMax
import NestedQuery.Proofs.Document.Substitution
import NestedQuery.Proofs.Keyed

/-!
# References

The variables of a query are replaced one after the other, those with longer names first. Nothing
that a replacement writes is a reference, so that this comes to one pass over the query, in which
every reference stands for the variable with the longest name behind its dollar sign.

## Main result

`Variables.substitute_eq_onePass`: the two agree on all texts in which no dollar sign stands right
behind another one or behind a character of a name. Without this condition a value may become part
of a name: with `$z$id` and the value `x` for `id` the second replacement finds `$zx`.
-/

namespace NestedQuery

open Text Document

namespace Variables

variable {name value : List Char}

/-! ### Single references -/

theorem replace_eq_self {s : List Char} (h : '$' ∉ s) : replace name value s = s := by
  induction s with
  | nil => exact replace_nil name value
  | cons c rest ih =>
    rw [List.mem_cons, not_or] at h
    rw [replace, if_neg fun hc => h.1 hc.1.symm, ih h.2]

theorem replace_reference (name value : List Char) : replace name value ('$' :: name) = value := by
  rw [replace, if_pos ⟨rfl, List.prefix_refl name⟩, List.drop_length, replace_nil, List.append_nil]

theorem replace_other {other : List Char} (hdollar : '$' ∉ other) (h : ¬name <+: other) :
    replace name value ('$' :: other) = '$' :: other := by
  rw [replace, if_neg fun hc => h hc.2, replace_eq_self hdollar]

/-- Replaces the references to several variables, one variable after the other. -/
def replaceAll (vs : List (String × Json)) (query : List Char) : List Char :=
  vs.foldl (fun q v => replace v.1.toList (encoded v.2) q) query

theorem substitute_eq_replaceAll (vars : Variables) (query : List Char) :
    vars.substitute query = replaceAll vars.longestFirst query := rfl

theorem replaceAll_eq_self (vs : List (String × Json)) {s : List Char} (h : '$' ∉ s) :
    replaceAll vs s = s := by
  induction vs with
  | nil => rfl
  | cons v vs ih =>
    rw [replaceAll, List.foldl_cons, replace_eq_self h]
    exact ih

/-- A reference is replaced by the value of its variable if no other name begins like it. -/
theorem replaceAll_reference {vs : List (String × Json)} {v : String × Json} (hv : v ∈ vs)
    (hdollar : '$' ∉ v.1.toList) (apart : ∀ w ∈ vs, w.1.toList <+: v.1.toList → w = v) :
    replaceAll vs ('$' :: v.1.toList) = encoded v.2 := by
  induction vs with
  | nil => cases hv
  | cons w vs ih =>
    rw [replaceAll, List.foldl_cons]
    by_cases hw : w = v
    · -- no reference is left, nor is one in the value
      rw [hw, replace_reference]
      exact replaceAll_eq_self vs (encoding_percent.no_reference _)
    · rw [replace_other hdollar fun hstarts => hw (apart w List.mem_cons_self hstarts)]
      exact ih ((List.mem_cons.mp hv).resolve_left (Ne.symm hw))
        fun u hu => apart u (List.mem_cons_of_mem _ hu)

/-! ### One pass -/

/-- Goes through a text once: behind a dollar sign `pick` says for which variable it stands, and
what is written for a reference is not looked at again. -/
def passWith (pick : List Char → Option (String × Json)) : List Char → List Char
  | [] => []
  | c :: rest =>
    if c = '$' then
      match pick rest with
      | some v => encoded v.2 ++ passWith pick (rest.drop v.1.toList.length)
      | none => '$' :: passWith pick rest
    else c :: passWith pick rest
termination_by s => s.length
decreasing_by all_goals simp only [List.length_drop, List.length_cons]; omega

/-- The text begins with the name of the variable. -/
def standsAt (text : List Char) (v : String × Json) : Bool := v.1.toList.isPrefixOf text

theorem standsAt_iff {text : List Char} {v : String × Json} :
    standsAt text v ↔ v.1.toList <+: text := List.isPrefixOf_iff_prefix

/-- The variable with the longest name with which the text begins. -/
def longest? (vars : Variables) (text : List Char) : Option (String × Json) :=
  (vars.toList.filter (standsAt text)).argmax fun v => v.1.length

/-- The query with the longest name behind every dollar sign replaced by its value, and a dollar
sign with no name behind it left alone. -/
def onePass (vars : Variables) (query : List Char) : List Char := passWith vars.longest? query

variable {pick : List Char → Option (String × Json)}

theorem passWith_nil (pick : List Char → Option (String × Json)) : passWith pick [] = [] := by
  rw [passWith]

theorem passWith_cons {c : Char} (hc : c ≠ '$') (rest : List Char) :
    passWith pick (c :: rest) = c :: passWith pick rest := by
  rw [passWith, if_neg hc]

theorem passWith_some {rest : List Char} {v : String × Json} (h : pick rest = some v) :
    passWith pick ('$' :: rest) = encoded v.2 ++ passWith pick (rest.drop v.1.toList.length) := by
  rw [passWith, if_pos rfl, h]

theorem passWith_none {rest : List Char} (h : pick rest = none) :
    passWith pick ('$' :: rest) = '$' :: passWith pick rest := by
  rw [passWith, if_pos rfl, h]

theorem passWith_append {u : List Char} (h : '$' ∉ u) (s : List Char) :
    passWith pick (u ++ s) = u ++ passWith pick s := by
  induction u with
  | nil => rfl
  | cons c u ih =>
    rw [List.mem_cons, not_or] at h
    rw [List.cons_append, passWith_cons (Ne.symm h.1), ih h.2, List.cons_append]

theorem passWith_eq_self (h : ∀ text, pick text = none) (s : List Char) : passWith pick s = s := by
  induction s with
  | nil => exact passWith_nil pick
  | cons c rest ih =>
    by_cases hc : c = '$'
    · rw [hc, passWith_none (h rest), ih]
    · rw [passWith_cons hc, ih]

/-! ### Dollar signs that stand apart -/

/-- No dollar sign stands right behind another one or behind a character of a name. -/
def DollarsApart (query : List Char) : Prop :=
  query.IsChain fun c d => d = '$' → c ≠ '$' ∧ isNameChar c = false

instance (query : List Char) : Decidable (DollarsApart query) :=
  inferInstanceAs (Decidable (query.IsChain _))

/-- A name as variables have it. -/
structure IsName (name : List Char) : Prop where
  ne_nil : name ≠ []
  all : ∀ c ∈ name, isNameChar c

theorem IsName.dollar_not_mem (h : IsName name) : '$' ∉ name := by
  intro hmem
  have hall := h.all '$' hmem
  revert hall
  decide

theorem DollarsApart.tail {c : Char} {rest : List Char} (h : DollarsApart (c :: rest)) :
    DollarsApart rest := (List.isChain_cons.mp h).2

theorem DollarsApart.of_not_mem {s : List Char} (h : '$' ∉ s) : DollarsApart s := by
  induction s with
  | nil => exact .nil
  | cons c rest ih =>
    rw [List.mem_cons, not_or] at h
    refine List.isChain_cons.mpr ⟨fun d hd hdollar => ?_, ih h.2⟩
    exact absurd (List.mem_of_head? (hdollar ▸ hd)) h.2

theorem DollarsApart.behind_name (hname : IsName name) {rest : List Char}
    (h : DollarsApart (name ++ rest)) : rest.head? ≠ some '$' ∧ DollarsApart rest := by
  obtain ⟨-, hrest, hseam⟩ := List.isChain_append.mp h
  refine ⟨fun hhead => ?_, hrest⟩
  obtain ⟨before, c, rfl⟩ := List.eq_nil_or_concat' name |>.resolve_left hname.ne_nil
  have hc : isNameChar c := hname.all c (by simp)
  obtain ⟨-, hno⟩ := hseam c (by simp) '$' hhead rfl
  rw [hc] at hno
  cases hno

/-- A replacement puts no dollar sign at the start of a text. -/
theorem head?_of_head?_replace {s : List Char} (h : (replace name value s).head? = some '$') :
    s.head? = some '$' := by
  cases s with
  | nil =>
    rw [replace_nil] at h
    cases h
  | cons c rest =>
    rw [replace] at h
    split at h
    · next href => rw [href.1, List.head?_cons]
    · exact h

theorem replace_append_of_not_mem {u : List Char} (h : '$' ∉ u) (s : List Char) :
    replace name value (u ++ s) = u ++ replace name value s := by
  induction u with
  | nil => rfl
  | cons c u ih =>
    rw [List.mem_cons, not_or] at h
    rw [List.cons_append, replace, if_neg fun hc => h.1 hc.1.symm, ih h.2, List.cons_append]

/-- Behind a replacement the dollar signs stand apart as before. -/
theorem DollarsApart.replace (hname : IsName name) (hvalue : '$' ∉ value) {s : List Char}
    (h : DollarsApart s) : DollarsApart (replace name value s) := by
  fun_induction Variables.replace name value s with
  | case1 => exact h
  | case2 c rest href ih =>
    obtain ⟨behind, rfl⟩ := href.2
    rw [List.drop_left] at ih ⊢
    obtain ⟨hhead, hbehind⟩ := h.tail.behind_name hname
    -- neither the value nor what follows it begins with a dollar sign
    refine List.isChain_append.mpr ⟨DollarsApart.of_not_mem hvalue, ih hbehind, ?_⟩
    intro c _ d hd hdollar
    rw [hdollar] at hd
    exact absurd (head?_of_head?_replace hd) hhead
  | case3 c rest _ ih =>
    refine List.isChain_cons.mpr ⟨fun d hd hdollar => ?_, ih h.tail⟩
    rw [hdollar] at hd
    exact (List.isChain_cons.mp h).1 '$' (head?_of_head?_replace hd) rfl

/-- The names behind a dollar sign are the same before and after a replacement. -/
theorem isPrefix_replace_iff {other rest : List Char} (hother : IsName other)
    (h : DollarsApart ('$' :: rest)) : other <+: replace name value rest ↔ other <+: rest := by
  constructor
  · intro hstarts
    have hhead : rest.head? ≠ some '$' := by
      intro hhead
      exact ((List.isChain_cons.mp h).1 '$' hhead rfl).1 rfl
    have hchars := hother.all
    have hrest := h.tail
    clear h hother
    -- a character of the name is one of the text, and no dollar sign follows it
    induction other generalizing rest with
    | nil => exact List.nil_prefix
    | cons c other ih =>
      cases rest with
      | nil =>
        rw [replace_nil] at hstarts
        exact hstarts
      | cons d rest =>
        have hd : d ≠ '$' := fun hd => hhead (congrArg some hd)
        rw [replace, if_neg fun hc => hd hc.1, List.cons_prefix_cons] at hstarts
        rw [List.cons_prefix_cons]
        refine ⟨hstarts.1, ih hstarts.2 (fun hnext => ?_) (fun e he => ?_) hrest.tail⟩
        · have hc : isNameChar c := hchars c List.mem_cons_self
          have hno := ((List.isChain_cons.mp hrest).1 '$' hnext rfl).2
          rw [← hstarts.1, hc] at hno
          cases hno
        · exact hchars e (List.mem_cons_of_mem c he)
  · rintro ⟨behind, rfl⟩
    rw [replace_append_of_not_mem hother.dollar_not_mem]
    exact List.prefix_append _ _

/-! ### One variable after the other -/

/-- The first of the variables with whose name the text begins. -/
def first? (vs : List (String × Json)) (text : List Char) : Option (String × Json) :=
  vs.find? (standsAt text)

theorem first?_eq_some {vs : List (String × Json)} {text : List Char} {v : String × Json}
    (h : first? vs text = some v) : v ∈ vs ∧ ∃ behind, text = v.1.toList ++ behind := by
  obtain ⟨behind, hbehind⟩ := standsAt_iff.mp (List.find?_some h)
  exact ⟨List.mem_of_find?_eq_some h, behind, hbehind.symm⟩

theorem first?_replace {vs : List (String × Json)} (hnames : ∀ w ∈ vs, IsName w.1.toList)
    {rest : List Char} (apart : DollarsApart ('$' :: rest)) :
    first? vs (replace name value rest) = first? vs rest := by
  apply List.find?_congr
  intro w hw
  rw [Bool.eq_iff_iff, standsAt_iff, standsAt_iff]
  exact isPrefix_replace_iff (hnames w hw) apart

/-- To replace one variable before the others is to look for its name first. -/
theorem passWith_replace {v : String × Json} {vs : List (String × Json)}
    (hnames : ∀ w ∈ v :: vs, IsName w.1.toList) {s : List Char} (apart : DollarsApart s) :
    passWith (first? vs) (replace v.1.toList (encoded v.2) s) = passWith (first? (v :: vs)) s := by
  have hvs : ∀ w ∈ vs, IsName w.1.toList := fun w hw => hnames w (List.mem_cons_of_mem v hw)
  have hvalue : '$' ∉ encoded v.2 := encoding_percent.no_reference _
  fun_induction replace v.1.toList (encoded v.2) s with
  | case1 => rw [passWith_nil, passWith_nil]
  | case2 c rest href ih =>
    obtain ⟨rfl, behind, rfl⟩ := href
    have hfirst : first? (v :: vs) (v.1.toList ++ behind) = some v := by
      simp [first?, standsAt]
    rw [List.drop_left] at ih ⊢
    rw [passWith_append hvalue, passWith_some hfirst, List.drop_left,
      ih (apart.tail.behind_name (hnames v List.mem_cons_self)).2]
  | case3 c rest href ih =>
    by_cases hc : c = '$'
    · subst hc
      have hno : standsAt rest v = false := by
        rw [Bool.eq_false_iff]
        exact fun hv => href ⟨rfl, standsAt_iff.mp hv⟩
      have hskip : first? (v :: vs) rest = first? vs rest := by simp [first?, hno]
      have hsame : first? vs (replace v.1.toList (encoded v.2) rest) = first? vs rest :=
        first?_replace hvs apart
      have hrest := ih apart.tail
      cases hfirst : first? vs rest with
      | none =>
        rw [passWith_none (hsame.trans hfirst), passWith_none (hskip.trans hfirst), hrest]
      | some w =>
        obtain ⟨hw, behind, rfl⟩ := first?_eq_some hfirst
        have hdollar := (hvs w hw).dollar_not_mem
        rw [passWith_some (hsame.trans hfirst), passWith_some (hskip.trans hfirst),
          replace_append_of_not_mem hdollar, List.drop_left, List.drop_left]
        -- the rest begins with the name, and a name is passed over as it is
        rw [replace_append_of_not_mem hdollar, passWith_append hdollar,
          passWith_append hdollar] at hrest
        rw [List.append_cancel_left hrest]
    · rw [passWith_cons hc, passWith_cons hc, ih apart.tail]

theorem replaceAll_eq_passWith {vs : List (String × Json)}
    (hnames : ∀ v ∈ vs, IsName v.1.toList) {s : List Char} (apart : DollarsApart s) :
    replaceAll vs s = passWith (first? vs) s := by
  induction vs generalizing s with
  | nil => exact (passWith_eq_self (fun _ => rfl) s).symm
  | cons v vs ih =>
    have hvs : ∀ w ∈ vs, IsName w.1.toList := fun w hw => hnames w (List.mem_cons_of_mem v hw)
    have hreplace : DollarsApart (replace v.1.toList (encoded v.2) s) :=
      apart.replace (hnames v List.mem_cons_self) (encoding_percent.no_reference _)
    rw [← passWith_replace hnames apart, ← ih hvs hreplace]
    rfl

/-! ### The longest name -/

/-- One variable stands before another one if its name is no shorter. -/
theorem pairwise_insertByLength {v : String × Json} {vs : List (String × Json)}
    (h : vs.Pairwise fun a b => b.1.utf8ByteSize ≤ a.1.utf8ByteSize) :
    (insertByLength v vs).Pairwise fun a b => b.1.utf8ByteSize ≤ a.1.utf8ByteSize := by
  induction vs with
  | nil => simp [insertByLength]
  | cons w rest ih =>
    obtain ⟨hw, hrest⟩ := List.pairwise_cons.mp h
    rw [insertByLength]
    split
    · next hlt =>
      refine List.pairwise_cons.mpr ⟨fun x hx => ?_, h⟩
      rcases List.mem_cons.mp hx with rfl | hx
      · exact Nat.le_of_lt hlt
      · exact Nat.le_trans (hw x hx) (Nat.le_of_lt hlt)
    · next hle =>
      refine List.pairwise_cons.mpr ⟨fun x hx => ?_, ih hrest⟩
      rcases mem_insertByLength.mp hx with rfl | hx
      · exact Nat.le_of_not_lt hle
      · exact hw x hx

theorem pairwise_longestFirst (vars : Variables) :
    vars.longestFirst.Pairwise fun a b => b.1.utf8ByteSize ≤ a.1.utf8ByteSize := by
  have hfold : ∀ vs acc : List (String × Json),
      (acc.Pairwise fun a b => b.1.utf8ByteSize ≤ a.1.utf8ByteSize) →
      (vs.foldl (fun acc v => insertByLength v acc) acc).Pairwise
        fun a b => b.1.utf8ByteSize ≤ a.1.utf8ByteSize := by
    intro vs
    induction vs with
    | nil => exact fun _ h => h
    | cons v vs ih => exact fun acc h => ih _ (pairwise_insertByLength h)
  exact hfold _ [] .nil

/-- Of two names with which one text begins, the one with no more bytes is not the longer one. -/
theorem eq_of_isPrefix {s t : String} (hstarts : s.toList <+: t.toList)
    (hsize : t.utf8ByteSize ≤ s.utf8ByteSize) : s = t := by
  obtain ⟨behind, hbehind⟩ := hstarts
  have ht : t = s ++ String.ofList behind := by
    rw [← String.toList_inj, String.toList_append, String.toList_ofList, hbehind]
  rw [ht, String.utf8ByteSize_append] at hsize
  have hempty : String.ofList behind = "" := String.utf8ByteSize_eq_zero_iff.mp (by omega)
  rw [ht, hempty, String.append_empty]

/-- A variable has the longest name if no other name that stands there has more bytes. -/
theorem longest?_eq_some {vars : Variables} {text : List Char} {v : String × Json}
    (hv : v ∈ vars.toList) (hstands : standsAt text v)
    (hmost : ∀ w ∈ vars.toList, standsAt text w → w ≠ v → w.1.utf8ByteSize ≤ v.1.utf8ByteSize) :
    vars.longest? text = some v := by
  have hmem : v ∈ vars.toList.filter (standsAt text) := List.mem_filter.mpr ⟨hv, hstands⟩
  cases hlongest : vars.longest? text with
  | none =>
    rw [longest?, List.argmax_eq_none] at hlongest
    rw [hlongest] at hmem
    cases hmem
  | some w =>
    obtain ⟨hw, hwstands⟩ := List.mem_filter.mp (List.argmax_mem hlongest)
    have hlength := List.le_of_mem_argmax hmem hlongest
    have hstarts : v.1.toList <+: w.1.toList := by
      apply List.prefix_of_prefix_length_le (standsAt_iff.mp hstands) (standsAt_iff.mp hwstands)
      rw [String.length_toList, String.length_toList]
      exact hlength
    by_contra hne
    have hsize := hmost w hw hwstands fun heq => hne (congrArg some heq)
    have hname := eq_of_isPrefix hstarts hsize
    -- two variables have different names
    have hfind := Ordered.find?_eq_some_of_mem hv
    rw [hname, Ordered.find?_eq_some_of_mem hw] at hfind
    exact hne hfind

/-- The first of the variables in their order is the one with the longest name. -/
theorem first?_longestFirst (vars : Variables) (text : List Char) :
    first? vars.longestFirst text = vars.longest? text := by
  cases hfirst : first? vars.longestFirst text with
  | none =>
    have hnone : vars.toList.filter (standsAt text) = [] := by
      rw [List.filter_eq_nil_iff]
      intro v hv
      exact List.find?_eq_none.mp hfirst v (mem_longestFirst.mpr hv)
    rw [longest?, hnone]
    rfl
  | some v =>
    obtain ⟨hv, before, behind, horder, hbefore⟩ := List.find?_eq_some_iff_append.mp hfirst
    have hsorted := vars.pairwise_longestFirst
    rw [horder, List.pairwise_append, List.pairwise_cons] at hsorted
    have hmem : ∀ w, w ∈ vars.toList ↔ w ∈ before ++ v :: behind := by
      intro w
      rw [← mem_longestFirst, horder]
    refine (longest?_eq_some ((hmem v).mpr (by simp)) hv fun w hw hstands hne => ?_).symm
    rcases List.mem_append.mp ((hmem w).mp hw) with hw | hw
    · -- it would have been found earlier
      have hno := hbefore w hw
      rw [hstands] at hno
      cases hno
    · exact hsorted.2.1.1 w ((List.mem_cons.mp hw).resolve_left hne)

/-- If no dollar sign stands behind another one or behind a name, then to replace the variables one
after the other is to replace every reference once, by the value of the longest name there. -/
theorem substitute_eq_onePass {vars : Variables} (hnames : ∀ v ∈ vars.toList, IsName v.1.toList)
    {query : List Char} (apart : DollarsApart query) :
    vars.substitute query = vars.onePass query := by
  have hsorted : ∀ v ∈ vars.longestFirst, IsName v.1.toList :=
    fun v hv => hnames v (mem_longestFirst.mp hv)
  have hpick : first? vars.longestFirst = vars.longest? := funext (first?_longestFirst vars)
  rw [substitute_eq_replaceAll, replaceAll_eq_passWith hsorted apart, hpick, onePass]

/-- A value that becomes part of a name, where a dollar sign stands behind one. -/
example :
    let vars : Variables := .ofList [("id", .str "x"), ("zx", .str "lost")]
    vars.substitute "$z$id".toList = "lost".toList ∧ vars.onePass "$z$id".toList = "$zx".toList := by
  constructor
  · decide +kernel
  · decide +kernel

/-- Three names of which each begins like the next, and values that look like a reference or are
empty. -/
def nested : Variables := .ofList [("i", .str ""), ("id", .str "$idx"), ("idx", .int 5)]

theorem isName_nested : ∀ v ∈ nested.toList, IsName v.1.toList := by
  have hlist : nested.toList = [("i", .str ""), ("id", .str "$idx"), ("idx", .int 5)] := rfl
  simp only [hlist, List.forall_mem_cons]
  refine ⟨?_, ?_, ?_, fun _ hv => nomatch hv⟩
  all_goals exact ⟨by simp, by simp [isNameChar]⟩

theorem substitute_nested :
    DollarsApart "$idx,$idy-$i:$ $x".toList ∧
      nested.substitute "$idx,$idy-$i:$ $x".toList = "5,%24idxy-:$ $x".toList := by
  have apart : DollarsApart "$idx,$idy-$i:$ $x".toList := by decide +kernel
  exact ⟨apart, (substitute_eq_onePass isName_nested apart).trans (by decide +kernel)⟩

end Variables

end NestedQuery
