import ContentModel.Proofs.Validation.Absence
import ContentModel.Proofs.Validation.Ordering

/-!
This module contains the exact verdict of an order check: which element orders it accepts, and what
it reports about each of the others. The check takes elements from the left as long as they match,
and with distinct names that finds the runs of the children wherever there are any.
-/

namespace ContentModel

namespace OrderCheck

/--
`Consumes attributes names left`: the names match the attributes one after the other, and `left` is
what stands behind them. A scalar takes one name and a collection takes all of its names that follow
each other.
-/
inductive Consumes : List Attribute → List String → List String → Prop where
  | nil {names : List String} : Consumes [] names names
  | scalar {a : Attribute} {rest : List Attribute} {names left : List String} :
      a.isCollection = false → Consumes rest names left → Consumes (a :: rest) (a.name :: names) left
  | collection {a : Attribute} {rest : List Attribute} {names left : List String} (n : Nat) :
      a.isCollection = true → names.head? ≠ some a.name → Consumes rest names left →
        Consumes (a :: rest) (List.replicate (n + 1) a.name ++ names) left

/--
From the first occurrence of the first attribute on, the names hold one run for each attribute, in
their order.
-/
def Splits (attributes : List Attribute) (names : List String) : Prop :=
  ∃ before runs after, names = before ++ runs ++ after
    ∧ (∀ first, attributes.head? = some first → first.name ∉ before)
    ∧ Runs (fun _ => True) attributes runs

/--
The first attribute does not occur among the names and the anchor is strict, or some attribute is the
first that is not matched by the names from the first occurrence of the first attribute on.
-/
inductive Breaks (anchor : Anchor) (names : List String) : List Attribute → Failure → Prop where
  | unanchored {first : Attribute} {rest : List Attribute} :
      first.name ∉ names → anchor = .strict →
        Breaks anchor names (first :: rest) (.incorrectSequence first.name names.head?)
  | unmatched {first a : Attribute} {matched rest : List Attribute}
      {before remaining left : List String} :
      (matched ++ a :: rest).head? = some first → names = before ++ remaining →
        first.name ∉ before → remaining.head? = some first.name →
          Consumes matched remaining left → left.head? ≠ some a.name →
            Breaks anchor names (matched ++ a :: rest) (.incorrectSequence a.name left.head?)

theorem dropWhile_of_head?_ne {name : String} {names : List String} (h : names.head? ≠ some name) :
    names.dropWhile (· == name) = names := by
  cases names with
  | nil => rfl
  | cons other names =>
    apply List.dropWhile_cons_of_neg
    simpa using h

theorem mismatch_append_of_consumes {matched : List Attribute} {names left : List String}
    (h : Consumes matched names left) (others : List Attribute) :
    mismatch (matched ++ others) names = mismatch others left := by
  induction h with
  | nil => rfl
  | @scalar a rest names left hscalar _ ih =>
    rw [List.cons_append, mismatch, if_pos rfl, hscalar, if_neg Bool.false_ne_true]
    exact ih
  | @collection a rest names left n hcollection hne _ ih =>
    rw [List.replicate_succ, List.cons_append, List.cons_append]
    rw [mismatch, if_pos rfl, hcollection, if_pos rfl]
    rw [List.dropWhile_append_of_pos (by simp), dropWhile_of_head?_ne hne]
    exact ih

theorem mismatch_cons_of_ne {a : Attribute} {rest : List Attribute} {names : List String}
    (h : names.head? ≠ some a.name) : mismatch (a :: rest) names = some (a.name, names.head?) := by
  cases names with
  | nil => rfl
  | cons found names =>
    rw [mismatch, if_neg (by simpa using h)]
    rfl

theorem exists_consumes_of_mismatch {declared : List Attribute} {names : List String}
    {expected : String} {found : Option String}
    (h : mismatch declared names = some (expected, found)) :
    ∃ matched a rest left, declared = matched ++ a :: rest ∧ Consumes matched names left
      ∧ left.head? ≠ some a.name ∧ expected = a.name ∧ found = left.head? := by
  fun_induction mismatch declared names with
  | case1 => cases h
  | case2 a rest =>
    cases h
    exact ⟨[], a, rest, [], rfl, .nil, by simp, rfl, rfl⟩
  | case3 a rest remaining ih =>
    rcases ih h with ⟨matched, b, others, left, rfl, hconsumes, hleft⟩
    refine ⟨a :: matched, b, others, left, rfl, ?_, hleft⟩
    cases hcollection : a.isCollection with
    | false =>
      rw [hcollection, if_neg Bool.false_ne_true] at hconsumes
      exact .scalar hcollection hconsumes
    | true =>
      rw [hcollection, if_pos rfl] at hconsumes
      rcases exists_dropWhile_eq a.name remaining with ⟨n, hn⟩
      rw [hn, ← List.cons_append, ← List.replicate_succ]
      exact .collection n hcollection (head?_dropWhile_ne a.name remaining) hconsumes
  | case4 a rest name remaining hne =>
    cases h
    exact ⟨[], a, rest, name :: remaining, rfl, .nil, by simpa using hne, rfl, rfl⟩

theorem dropWhile_of_split {first : String} {before remaining : List String}
    (hbefore : first ∉ before) (hremaining : remaining.head? = some first) :
    (before ++ remaining).dropWhile (· != first) = remaining := by
  have hskip : ∀ name ∈ before, (name != first) = true := by
    intro name hmem
    rw [bne_iff_ne]
    rintro rfl
    apply hbefore hmem
  rw [List.dropWhile_append_of_pos hskip]
  cases remaining with
  | nil => rfl
  | cons name names =>
    cases hremaining
    apply List.dropWhile_cons_of_neg
    simp

theorem exists_split_of_mem {first : String} {names : List String} (h : first ∈ names) :
    ∃ before remaining, names = before ++ remaining ∧ first ∉ before
      ∧ remaining.head? = some first := by
  rcases List.eq_append_cons_of_mem h with ⟨before, after, hnames, hbefore⟩
  exact ⟨before, first :: after, hnames, hbefore, rfl⟩

end OrderCheck

open OrderCheck

section Verdict

variable {anchor : Anchor} {recorded : ElementOrder} {declared rest : List Attribute}
  {first : Attribute}

theorem failure?_checkOrder_of_not_mem
    (h : expected declared (actual declared recorded) = first :: rest)
    (hmem : first.name ∉ actual declared recorded) :
    (checkOrder anchor (some recorded) declared).failure?
      = match anchor with
        | .lenient => none
        | .strict => some (.incorrectSequence first.name (actual declared recorded).head?) := by
  have hdrop : (actual declared recorded).dropWhile (· != first.name) = [] := by
    rw [List.dropWhile_eq_nil_iff]
    intro name hname
    rw [bne_iff_ne]
    rintro rfl
    apply hmem hname
  unfold checkOrder
  dsimp only
  rw [h]
  dsimp only
  rw [hdrop]
  cases anchor <;> rfl

theorem failure?_checkOrder_of_split {before remaining : List String}
    (h : expected declared (actual declared recorded) = first :: rest)
    (hnames : actual declared recorded = before ++ remaining) (hbefore : first.name ∉ before)
    (hremaining : remaining.head? = some first.name) :
    (checkOrder anchor (some recorded) declared).failure?
      = (mismatch (first :: rest) remaining).map fun (name, found) =>
          .incorrectSequence name found := by
  have hdrop : (actual declared recorded).dropWhile (· != first.name) = remaining := by
    rw [hnames, dropWhile_of_split hbefore hremaining]
  unfold checkOrder
  dsimp only
  rw [h]
  dsimp only
  rw [hdrop]
  cases remaining with
  | nil => cases hremaining
  | cons name names =>
    dsimp only
    cases mismatch (first :: rest) (name :: names) <;> rfl

theorem breaks_of_failure?_eq_some {failure : Failure}
    (h : (checkOrder anchor (some recorded) declared).failure? = some failure) :
    Breaks anchor (actual declared recorded) (expected declared (actual declared recorded))
      failure := by
  cases hexpected : expected declared (actual declared recorded) with
  | nil =>
    unfold checkOrder at h
    dsimp only at h
    rw [hexpected] at h
    cases h
  | cons first rest =>
    by_cases hmem : first.name ∈ actual declared recorded
    . rcases exists_split_of_mem hmem with ⟨before, remaining, hnames, hbefore, hremaining⟩
      rw [failure?_checkOrder_of_split hexpected hnames hbefore hremaining] at h
      rw [Option.map_eq_some_iff] at h
      rcases h with ⟨⟨name, found⟩, hmismatch, rfl⟩
      rcases exists_consumes_of_mismatch hmismatch
        with ⟨matched, a, others, left, heq, hconsumes, hleft, rfl, rfl⟩
      have hfirst : (matched ++ a :: others).head? = some first := by
        rw [← heq]
        rfl
      rw [heq]
      exact .unmatched hfirst hnames hbefore hremaining hconsumes hleft
    . rw [failure?_checkOrder_of_not_mem hexpected hmem] at h
      cases anchor with
      | lenient => cases h
      | strict =>
        cases h
        exact .unanchored hmem rfl

theorem failure?_checkOrder_of_breaks {attributes : List Attribute} {failure : Failure}
    (h : Breaks anchor (actual declared recorded) attributes failure)
    (hexpected : expected declared (actual declared recorded) = attributes) :
    (checkOrder anchor (some recorded) declared).failure? = some failure := by
  cases h with
  | unanchored hmem hstrict => rw [failure?_checkOrder_of_not_mem hexpected hmem, hstrict]
  | @unmatched first a matched rest before remaining left hfirst hnames hbefore hremaining
      hconsumes hleft =>
    rcases List.head?_eq_some_iff.mp hfirst with ⟨others, heq⟩
    rw [heq] at hexpected
    rw [failure?_checkOrder_of_split hexpected hnames hbefore hremaining, ← heq]
    rw [mismatch_append_of_consumes hconsumes, mismatch_cons_of_ne hleft]
    rfl

end Verdict

theorem failure?_checkOrder_eq_some_iff {anchor : Anchor} {recorded : ElementOrder}
    {declared : List Attribute} {failure : Failure} :
    (checkOrder anchor (some recorded) declared).failure? = some failure
      ↔ Breaks anchor (actual declared recorded) (expected declared (actual declared recorded))
          failure := by
  constructor
  . intro h
    exact breaks_of_failure?_eq_some h
  . intro h
    exact failure?_checkOrder_of_breaks h rfl

theorem failure?_checkOrder_eq_none_of_distinct_iff {anchor : Anchor} {recorded : ElementOrder}
    {declared : List Attribute} (hdistinct : (declared.map (·.name)).Nodup) :
    (checkOrder anchor (some recorded) declared).failure? = none
      ↔ let names := actual declared recorded
        let needed := expected declared names
        needed = []
          ∨ (∃ first, needed.head? = some first ∧ first.name ∉ names ∧ anchor = .lenient)
          ∨ Splits needed names := by
  constructor
  . intro h
    rcases exists_runs_of_failure?_eq_none h
      with ⟨hlenient, first, hfirst, hmem⟩ | ⟨before, runs, after, hnames, hruns, hbefore, _⟩
    . exact .inr (.inl ⟨first, hfirst, hmem, hlenient⟩)
    . exact .inr (.inr ⟨before, runs, after, hnames, hbefore, hruns⟩)
  . rintro (hnil | ⟨first, hfirst, hmem, rfl⟩ | ⟨before, runs, after, hnames, hbefore, hruns⟩)
    . unfold checkOrder
      dsimp only
      rw [hnil]
      rfl
    . rcases List.head?_eq_some_iff.mp hfirst with ⟨rest, hexpected⟩
      rw [failure?_checkOrder_of_not_mem hexpected hmem]
    . exact failure?_checkOrder_of_runs hdistinct hnames hruns hbefore anchor

theorem OrderCheck.actual_eq_names (declared : List Attribute) (recorded : ElementOrder) :
    actual declared recorded = recorded.names.filter fun name =>
      name ≠ "text" ∧ name ≠ "cdata" ∧ name ∈ declared.map (·.name) := by
  unfold actual ElementOrder.elements
  rw [List.filter_filter]
  apply List.filter_congr
  intro name _
  rw [Bool.eq_iff_iff]
  simp only [Bool.and_eq_true, List.any_eq_true, beq_iff_eq, bne_iff_ne, decide_eq_true_eq,
    List.mem_map]
  exact and_comm.trans and_assoc

theorem OrderCheck.expected_eq_needed (declared : List Attribute) (names : List String) :
    expected declared names = declared.filter fun a => a.occurs.min ≠ 0 ∨ a.name ∈ names := by
  unfold expected
  apply List.filter_congr
  intro a _
  rw [Bool.eq_iff_iff]
  simp only [Bool.or_eq_true, List.contains_iff_mem, Bool.not_eq_true', ← Bool.not_eq_true,
    Attribute.isOptional_iff, decide_eq_true_eq]
  exact or_comm

/--
The verdict of the order check of a sequence that no other sequence stands around, on the leaves that
its visit has placed. Of the element order it sees the names that are no markers and belong to these
leaves, and it needs the leaves that may not be left out or occur among the names.
-/
theorem Declaration.checkOrder_iff_of_build {declaration : Declaration} {model : Model}
    (h : declaration.build.value = .ok model) {around children : List Content}
    (hstands : model.Stands around (.particle .sequence children)) (inst : Instance)
    (anchor : Anchor) (inChoice : Bool) (n : Nat) :
    let v := Content.visit inst anchor false inChoice n (.particle .sequence children)
    let verdict := (checkOrder anchor inst.order v.placed).failure?
    (v.placed.map (·.name)).Nodup ∧ v.pending = verdict.toList
      ∧ (inst.order = none → verdict = none)
      ∧ ∀ recorded, inst.order = some recorded →
        let names := recorded.names.filter fun name =>
          name ≠ "text" ∧ name ≠ "cdata" ∧ name ∈ v.placed.map (·.name)
        let needed := v.placed.filter fun a => a.occurs.min ≠ 0 ∨ a.name ∈ names
        (verdict = none
            ↔ needed = []
              ∨ (∃ first, needed.head? = some first ∧ first.name ∉ names ∧ anchor = .lenient)
              ∨ Splits needed names)
          ∧ ∀ failure, verdict = some failure ↔ Breaks anchor names needed failure := by
  intro v verdict
  have hnested : Content.WellNestedAll children := by
    rcases hstands with ⟨root, hroot, hbelow⟩
    have hroots := Content.wellNestedAll_iff.mp (wellNested_of_build h)
    have hinner := hbelow.wellNested (hroots root hroot)
    rw [Content.WellNested] at hinner
    exact hinner.2
  have hplaced : v.placed = Content.placedAll inst children := by
    unfold v
    rw [Content.visit_sequence_of_false, Visit.placed_settle, Content.visit_sequence_of_true]
    rw [Content.placed_visitRow children hnested]
  have hdistinct : (v.placed.map (·.name)).Nodup := by
    rw [hplaced]
    apply List.Nodup.sublist _ (hstands.nodup (distinct_of_build h))
    apply List.Sublist.map
    apply Content.placedAll_sublist
  have hpending : v.pending = verdict.toList := by
    unfold verdict
    rw [hplaced]
    apply Content.pending_visit_sequence hnested
  refine ⟨hdistinct, hpending, ?_, ?_⟩
  . intro hnone
    unfold verdict
    rw [hnone]
    rfl
  . intro recorded horder names needed
    have hnames : actual v.placed recorded = names := actual_eq_names ..
    have hneeded : expected v.placed names = needed := expected_eq_needed ..
    unfold verdict
    rw [horder, ← hneeded, ← hnames]
    constructor
    . apply failure?_checkOrder_eq_none_of_distinct_iff hdistinct
    . intro failure
      apply failure?_checkOrder_eq_some_iff

/--
The stamp is no leaf and does not end the run of the stops, but a stop behind the rail is one too many.
-/
theorem parcel_broken_behind_rail :
    let inst := (Declaration.parcel.model.newInstance).set "rail" (toValue "R1")
    let order : ElementOrder := ⟨["from", "text", "via", "stamp", "via", "rail", "via", "to"], true⟩
    let ordered := { inst with order := some order }
    let v := Content.visit ordered .lenient false false 0
      (.particle .sequence (Block.contentAll Block.stops))
    let names := order.names.filter fun name =>
      name ≠ "text" ∧ name ≠ "cdata" ∧ name ∈ v.placed.map (·.name)
    let needed := v.placed.filter fun a => a.occurs.min ≠ 0 ∨ a.name ∈ names
    names = ["from", "via", "via", "rail", "via", "to"]
      ∧ needed.map (·.name) = ["from", "via", "rail", "to"]
      ∧ v.pending = [.incorrectSequence "to" (some "via")]
      ∧ Breaks .lenient names needed (.incorrectSequence "to" (some "via"))
      ∧ ¬ Splits needed names := by
  intro inst order ordered v names needed
  have hbuild : Declaration.parcel.build.value = .ok Declaration.parcel.model := rfl
  have hstands : Declaration.parcel.model.Stands []
      (.particle .sequence (Block.contentAll Block.stops)) :=
    ⟨_, List.mem_singleton_self _, .self⟩
  rcases Declaration.checkOrder_iff_of_build hbuild hstands ordered .lenient false 0
    with ⟨_, hpending, _, hordered⟩
  rcases hordered order rfl with ⟨hnone, hsome⟩
  have hverdict : (checkOrder .lenient ordered.order v.placed).failure?
      = some (.incorrectSequence "to" (some "via")) := by decide
  refine ⟨by decide, by decide, ?_, ?_, ?_⟩
  . rw [hpending, hverdict]
    rfl
  . exact (hsome _).mp hverdict
  . intro hsplits
    have hkept := hnone.mpr (.inr (.inr hsplits))
    rw [hverdict] at hkept
    cases hkept

end ContentModel
