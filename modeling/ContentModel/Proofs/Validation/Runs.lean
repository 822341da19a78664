import Mathlib.Data.List.Nodup
import Mathlib.Data.List.TakeWhile
import ContentModel.Proofs.Validation.Report

/-!
This module contains the element orders that an order check accepts. From the first expected child
on they hold one run of names for each expected child, in the order of the children.
-/

namespace ContentModel

namespace OrderCheck

/--
The names are those of the attributes, one run for each and in their order. A scalar has at most one
name in its run, and an attribute that is needed has at least one.
-/
inductive Runs (needed : Attribute → Prop) : List Attribute → List String → Prop where
  | nil : Runs needed [] []
  | cons {a : Attribute} {rest : List Attribute} {names : List String} (n : Nat) :
      (a.isCollection = false → n ≤ 1) → (needed a → n ≠ 0) → Runs needed rest names →
        Runs needed (a :: rest) (List.replicate n a.name ++ names)

namespace Runs

variable {needed : Attribute → Prop} {declared : List Attribute} {names : List String}

theorem subset (h : Runs needed declared names) : names ⊆ declared.map (·.name) := by
  induction h with
  | nil => apply List.Subset.refl
  | cons n _ _ _ ih =>
    rw [List.map_cons, List.append_subset]
    refine ⟨?_, List.subset_cons_of_subset _ ih⟩
    intro name hname
    rw [List.eq_of_mem_replicate hname]
    apply List.mem_cons_self

theorem exists_cons {a : Attribute} (h : Runs needed (a :: declared) names) (ha : needed a) :
    ∃ others, names = a.name :: others := by
  cases h with
  | cons n _ hn _ =>
    cases n with
    | zero => exact absurd rfl (hn ha)
    | succ n => exact ⟨_, rfl⟩

theorem filter {p : String → Bool} (h : Runs needed declared names)
    (hp : ∀ a ∈ declared, needed a → p a.name = true) :
    Runs needed declared (names.filter p) := by
  induction h with
  | nil => exact .nil
  | @cons a rest names n hscalar hn _ ih =>
    rw [List.forall_mem_cons] at hp
    rw [List.filter_append, List.filter_replicate]
    split
    . exact .cons n hscalar hn (ih hp.2)
    . next hname =>
      rw [← List.replicate_zero (a := a.name)]
      refine .cons 0 ?_ ?_ (ih hp.2)
      . intro _
        omega
      . intro hneeded
        exact absurd (hp.1 hneeded) hname

end Runs

theorem head?_dropWhile_ne (name : String) (names : List String) :
    (names.dropWhile (· == name)).head? ≠ some name := by
  intro heq
  have hstop := List.head?_dropWhile_not (· == name) names
  rw [heq] at hstop
  simp at hstop

theorem exists_dropWhile_eq (name : String) (names : List String) :
    ∃ n, names = List.replicate n name ++ names.dropWhile (· == name) := by
  refine ⟨(names.takeWhile (· == name)).length, ?_⟩
  have hrun : names.takeWhile (· == name)
      = List.replicate (names.takeWhile (· == name)).length name := by
    apply List.eq_replicate_of_mem
    intro other hmem
    simpa using List.mem_takeWhile_imp hmem
  rw [← hrun, List.takeWhile_append_dropWhile]

theorem exists_runs_of_mismatch {declared : List Attribute} {actual : List String}
    (h : mismatch declared actual = none) :
    ∃ runs rest, actual = runs ++ rest ∧ Runs (fun _ => True) declared runs
      ∧ ∀ last, declared.getLast? = some last → last.isCollection = true →
          rest.head? ≠ some last.name := by
  fun_induction mismatch declared actual with
  | case1 actual => exact ⟨[], actual, rfl, .nil, by simp⟩
  | case2 => cases h
  | case3 a declared remaining ih =>
    rcases ih h with ⟨runs, rest, heq, hruns, hlast⟩
    have hsplit : ∃ n, (a.isCollection = false → n = 0)
        ∧ remaining = List.replicate n a.name ++ (runs ++ rest) := by
      cases hcollection : a.isCollection with
      | false =>
        rw [hcollection, if_neg Bool.false_ne_true] at heq
        exact ⟨0, fun _ => rfl, heq⟩
      | true =>
        rw [hcollection, if_pos rfl] at heq
        rw [← heq]
        rcases exists_dropWhile_eq a.name remaining with ⟨n, hn⟩
        exact ⟨n, by simp, hn⟩
    rcases hsplit with ⟨n, hscalar, hsplit⟩
    refine ⟨List.replicate (n + 1) a.name ++ runs, rest, ?_, .cons (n + 1) ?_ (by simp) hruns, ?_⟩
    . rw [hsplit, List.replicate_succ, List.cons_append, List.cons_append, List.append_assoc]
    . intro hfalse
      rw [hscalar hfalse]
    . intro last hsome hcollection
      cases declared with
      | nil =>
        -- What is left over is left over by the run of the last child itself.
        cases hruns
        rw [List.getLast?_singleton, Option.some.injEq] at hsome
        rw [← hsome] at hcollection ⊢
        rw [hcollection, if_pos rfl, List.nil_append] at heq
        rw [← heq]
        apply head?_dropWhile_ne
      | cons b others =>
        rw [List.getLast?_cons_cons] at hsome
        apply hlast last hsome hcollection
  | case4 => cases h

theorem mismatch_append_of_runs {declared : List Attribute} {runs : List String}
    (h : Runs (fun _ => True) declared runs) (hdistinct : (declared.map (·.name)).Nodup)
    (rest : List String) : mismatch declared (runs ++ rest) = none := by
  induction h with
  | nil => rfl
  | @cons a declared names n hscalar hn hnames ih =>
    rw [List.map_cons, List.nodup_cons] at hdistinct
    have ih := ih hdistinct.2
    cases n with
    | zero => exact absurd rfl (hn trivial)
    | succ n =>
      rw [List.replicate_succ, List.cons_append, List.cons_append, List.append_assoc]
      rw [mismatch, if_pos rfl]
      cases hcollection : a.isCollection with
      | false =>
        have hzero : n = 0 := by
          have hle := hscalar hcollection
          omega
        rw [if_neg Bool.false_ne_true, hzero]
        exact ih
      | true =>
        rw [if_pos rfl, List.dropWhile_append_of_pos (by simp)]
        -- The run ends where the next one begins, which has another name.
        cases declared with
        | nil => rfl
        | cons b declared =>
          rcases hnames.exists_cons trivial with ⟨others, heq⟩
          have hne : b.name ≠ a.name := by
            intro hname
            apply hdistinct.1
            rw [← hname, List.map_cons]
            apply List.mem_cons_self
          rw [heq] at ih ⊢
          rw [List.cons_append, List.dropWhile_cons_of_neg (by simpa using hne)]
          exact ih

theorem Runs.expected {declared : List Attribute} {names : List String}
    (h : Runs (·.occurs.min ≠ 0) declared names) (hdistinct : (declared.map (·.name)).Nodup) :
    Runs (fun _ => True) (expected declared names) names := by
  induction h with
  | nil => exact .nil
  | @cons a rest names n hscalar hn hrest ih =>
    rw [List.map_cons, List.nodup_cons] at hdistinct
    have ih := ih hdistinct.2
    have hothers : OrderCheck.expected rest (List.replicate n a.name ++ names)
        = OrderCheck.expected rest names := by
      apply List.filter_congr
      intro b hb
      have hne : b.name ≠ a.name := by
        intro heq
        apply hdistinct.1
        rw [← heq]
        apply List.mem_map_of_mem hb
      simp [hne]
    have habsent : a.name ∉ names := by
      intro hmem
      apply hdistinct.1 (hrest.subset hmem)
    rw [← hothers] at ih
    unfold OrderCheck.expected at ih ⊢
    cases n with
    | zero =>
      have hoptional : a.isOptional = true := by
        rw [Attribute.isOptional_iff]
        apply not_not.mp
        intro hmin
        apply hn hmin rfl
      rw [List.filter_cons_of_neg (by simp [habsent, hoptional])]
      exact ih
    | succ n =>
      rw [List.filter_cons_of_pos (by simp)]
      exact .cons (n + 1) hscalar (fun _ => Nat.succ_ne_zero n) ih

end OrderCheck

open OrderCheck in
/--
An element order that passes has the runs of the expected children from the first occurrence of the
first one on, unless that child does not occur and the anchor is lenient.
-/
theorem exists_runs_of_failure?_eq_none {anchor : Anchor} {order : ElementOrder}
    {declared : List Attribute}
    (h : (checkOrder anchor (some order) declared).failure? = none) :
    let names := actual declared order
    (anchor = .lenient ∧ ∃ first, (expected declared names).head? = some first ∧ first.name ∉ names)
      ∨ ∃ before runs after, names = before ++ runs ++ after
          ∧ Runs (fun _ => True) (expected declared names) runs
          ∧ (∀ first, (expected declared names).head? = some first → first.name ∉ before)
          ∧ ∀ last, (expected declared names).getLast? = some last → last.isCollection = true →
              after.head? ≠ some last.name := by
  intro names
  unfold checkOrder at h
  dsimp only at h
  split at h
  . next hnone =>
    rw [hnone]
    exact .inr ⟨[], [], names, rfl, .nil, by simp, by simp⟩
  . next first rest hsome =>
    rw [hsome]
    split at h
    . next habsent =>
      cases anchor with
      | lenient =>
        rw [List.dropWhile_eq_nil_iff] at habsent
        refine .inl ⟨rfl, first, rfl, ?_⟩
        intro hmem
        simpa using habsent first.name hmem
      | strict => cases h
    . split at h
      . next hmismatch =>
        rcases exists_runs_of_mismatch hmismatch with ⟨runs, after, heq, hruns, hlast⟩
        refine .inr ⟨names.takeWhile (· != first.name), runs, after, ?_, hruns, ?_, hlast⟩
        . rw [List.append_assoc, ← heq, List.takeWhile_append_dropWhile]
        . intro other hother hmem
          cases hother
          simpa using List.mem_takeWhile_imp hmem
      . cases h

open OrderCheck in
theorem failure?_checkOrder_of_runs {declared : List Attribute}
    (hdistinct : (declared.map (·.name)).Nodup) {order : ElementOrder}
    {before runs after : List String} (hnames : actual declared order = before ++ runs ++ after)
    (hruns : Runs (fun _ => True) (expected declared (actual declared order)) runs)
    (hfirst : ∀ first, (expected declared (actual declared order)).head? = some first →
      first.name ∉ before)
    (anchor : Anchor) : (checkOrder anchor (some order) declared).failure? = none := by
  unfold checkOrder
  dsimp only
  split
  . rfl
  . next first rest hsome =>
    rw [hsome] at hruns hfirst
    have hdrop : (actual declared order).dropWhile (· != first.name) = runs ++ after := by
      rcases hruns.exists_cons trivial with ⟨others, heq⟩
      have hbefore : ∀ name ∈ before, (name != first.name) = true := by
        intro name hmem
        rw [bne_iff_ne]
        intro hname
        apply hfirst first rfl
        rw [← hname]
        exact hmem
      rw [hnames, List.append_assoc, List.dropWhile_append_of_pos hbefore, heq]
      rw [List.cons_append, List.dropWhile_cons_of_neg (by simp)]
    rw [hdrop]
    split
    . next hnil =>
      rw [List.append_eq_nil_iff] at hnil
      rw [hnil.1] at hruns
      rcases hruns.exists_cons trivial with ⟨others, heq⟩
      cases heq
    . have hexpected : ((first :: rest).map (·.name)).Nodup := by
        rw [← hsome]
        apply (List.filter_sublist.map _).nodup hdistinct
      rw [mismatch_append_of_runs hruns hexpected]
      rfl

end ContentModel
