import Mathlib.Data.List.Forall2

/-!
# List facts

Facts about lists that the standard library does not state.
-/

namespace Canyon.Lib

variable {α β : Type} {related stronger : α → β → Prop}

/-- A pairing of two lists may be weakened with the membership of its left part. -/
theorem forall₂_imp_of_mem {lefts : List α} {rights : List β}
    (paired : List.Forall₂ stronger lefts rights)
    (implies : ∀ left ∈ lefts, ∀ right, stronger left right → related left right) :
    List.Forall₂ related lefts rights := by
  induction paired with
  | nil => exact List.Forall₂.nil
  | cons pair rest ih =>
    exact List.Forall₂.cons (implies _ List.mem_cons_self _ pair)
      (ih fun left leftIn => implies left (List.mem_cons_of_mem _ leftIn))

/-- In a pairing of two lists every left member has a right member. -/
theorem forall₂_right_of_mem {lefts : List α} {rights : List β}
    (paired : List.Forall₂ related lefts rights) {left : α} (leftIn : left ∈ lefts) :
    ∃ right ∈ rights, related left right := by
  induction paired with
  | nil => cases leftIn
  | cons pair rest ih =>
    rcases List.mem_cons.mp leftIn with rfl | later
    · exact ⟨_, List.mem_cons_self, pair⟩
    · obtain ⟨right, rightIn, found⟩ := ih later
      exact ⟨right, List.mem_cons_of_mem _ rightIn, found⟩

/-- A change of the last element. -/
theorem modify_concat_length (change : α → α) (list : List α) (last : α) :
    (list ++ [last]).modify list.length change = list ++ [change last] := by
  induction list with
  | nil => rfl
  | cons first rest ih => exact congrArg (first :: ·) ih

/-- The numbers below a bound that is within the range. -/
theorem filter_lt_range {bound total : Nat} (within : bound ≤ total) :
    ((List.range total).filter fun number => decide (number < bound)) = List.range bound := by
  obtain ⟨rest, rfl⟩ := Nat.exists_eq_add_of_le within
  rw [List.range_add, List.filter_append, List.filter_eq_self.mpr, List.filter_eq_nil_iff.mpr,
    List.append_nil]
  · simp
  · simp

/-- Parts between separators have no separator. -/
theorem not_mem_of_mem_splitOn [DecidableEq α] {separator : α} {list part : List α}
    (partIn : part ∈ list.splitOn separator) : separator ∉ part := by
  induction list generalizing part with
  | nil =>
    rw [List.splitOn_nil, List.mem_singleton] at partIn
    rw [partIn]
    exact List.not_mem_nil
  | cons first rest ih =>
    rw [List.splitOn_cons_eq_if_modifyHead] at partIn
    split at partIn
    · rcases List.mem_cons.mp partIn with rfl | later
      · exact List.not_mem_nil
      · exact ih later
    · rename_i different
      cases parts : rest.splitOn separator with
      | nil => exact absurd parts (List.splitOn_ne_nil separator rest)
      | cons head tail =>
        rw [parts, List.modifyHead_cons] at partIn
        rcases List.mem_cons.mp partIn with rfl | later
        · have headClean := ih (parts ▸ List.mem_cons_self)
          intro isIn
          rcases List.mem_cons.mp isIn with same | inHead
          · exact different (by rw [same]; exact beq_self_eq_true first)
          · exact headClean inHead
        · exact ih (parts ▸ List.mem_cons_of_mem _ later)

section Folds

variable {ε σ ι : Type} {step : σ → ι → Except ε σ} {items : List ι} {init : σ}

/-- What returned in two parts, where the first may fail. -/
theorem exists_of_bind_ok {first : Except ε σ} {rest : σ → Except ε ι} {value : ι}
    (ran : (first >>= rest) = .ok value) :
    ∃ middle, first = .ok middle ∧ rest middle = .ok value := by
  cases first with
  | error error => cases ran
  | ok middle => exact ⟨middle, rfl, ran⟩

/-- Two parts return when the first does and then the second. -/
theorem bind_ok_iff {first : Except ε σ} {rest : σ → Except ε ι} {value : ι} :
    (first >>= rest) = .ok value ↔ ∃ middle, first = .ok middle ∧ rest middle = .ok value := by
  constructor
  · exact exists_of_bind_ok
  · rintro ⟨middle, rfl, ran⟩
    exact ran

/-- A part that returned gives its value to the rest. -/
@[simp]
theorem ok_bind {value : σ} {rest : σ → Except ε ι} : (Except.ok value >>= rest) = rest value :=
  rfl

/-- Two loops whose rounds are the same. -/
theorem foldlM_congr {other : σ → ι → Except ε σ}
    (same : ∀ state, ∀ item ∈ items, step state item = other state item) :
    items.foldlM step init = items.foldlM other init := by
  induction items generalizing init with
  | nil => rfl
  | cons item rest ih =>
    rw [List.foldlM_cons, List.foldlM_cons, same init item List.mem_cons_self]
    congr 1
    funext next
    exact ih fun state item itemIn => same state item (List.mem_cons_of_mem _ itemIn)

/-- A loop that may fail returns when every round does, from the states that it reaches. -/
theorem exists_foldlM_ok (kept : σ → Prop)
    (advance : ∀ state, ∀ item ∈ items, kept state →
      ∃ next, step state item = .ok next ∧ kept next) (start : kept init) :
    ∃ final, items.foldlM step init = .ok final ∧ kept final := by
  induction items generalizing init with
  | nil => exact ⟨init, rfl, start⟩
  | cons item rest ih =>
    obtain ⟨next, ran, keptNext⟩ := advance init item List.mem_cons_self start
    obtain ⟨final, ranRest, keptFinal⟩ :=
      ih (fun state item itemIn => advance state item (List.mem_cons_of_mem _ itemIn)) keptNext
    refine ⟨final, ?_, keptFinal⟩
    rw [List.foldlM_cons, ran]
    exact ranRest

/-- A loop that returned has kept what every round keeps. -/
theorem kept_of_foldlM_ok {final : σ} (kept : σ → Prop)
    (advance : ∀ state, ∀ item ∈ items, ∀ next, kept state → step state item = .ok next →
      kept next) (start : kept init) (ran : items.foldlM step init = .ok final) :
    kept final := by
  induction items generalizing init with
  | nil =>
    obtain rfl := Except.ok.inj ran
    exact start
  | cons item rest ih =>
    rw [List.foldlM_cons] at ran
    obtain ⟨next, first, ranRest⟩ := exists_of_bind_ok ran
    exact ih (fun state item itemIn => advance state item (List.mem_cons_of_mem _ itemIn))
      (advance init item List.mem_cons_self next start first) ranRest

/-- A counted loop whose rounds are known runs through the known states, and returns when every
round may. -/
theorem foldlM_range_ok_iff {step : σ → Nat → Except ε σ} {count : Nat} (state : Nat → σ)
    (allowed : Nat → Prop) (first : state 0 = init) (round : ∀ index < count, ∀ next,
      step (state index) index = .ok next ↔ allowed index ∧ next = state (index + 1)) (final : σ) :
    (List.range count).foldlM step init = .ok final ↔
      (∀ index < count, allowed index) ∧ final = state count := by
  subst first
  induction count generalizing final with
  | zero =>
    rw [List.range_zero, List.foldlM_nil]
    constructor
    · intro same
      exact ⟨fun index below => absurd below (Nat.not_lt_zero index), (Except.ok.inj same).symm⟩
    · rintro ⟨-, rfl⟩
      rfl
  | succ count ih =>
    have earlier := ih fun index below => round index (Nat.lt_succ_of_lt below)
    rw [List.range_succ, List.foldlM_append]
    constructor
    · intro ran
      obtain ⟨middle, ranEarlier, ranLast⟩ := exists_of_bind_ok ran
      obtain ⟨allowedEarlier, rfl⟩ := (earlier middle).mp ranEarlier
      rw [List.foldlM_cons] at ranLast
      obtain ⟨next, ranRound, ranNil⟩ := exists_of_bind_ok ranLast
      obtain ⟨allowedLast, rfl⟩ := (round count (Nat.lt_succ_self count) next).mp ranRound
      refine ⟨fun index below => ?_, (Except.ok.inj ranNil).symm⟩
      rcases Nat.lt_succ_iff_lt_or_eq.mp below with smaller | rfl
      · exact allowedEarlier index smaller
      · exact allowedLast
    · rintro ⟨allowedAll, rfl⟩
      rw [(earlier _).mpr ⟨fun index below => allowedAll index (Nat.lt_succ_of_lt below), rfl⟩]
      have ranRound := (round count (Nat.lt_succ_self count) _).mpr
        ⟨allowedAll count (Nat.lt_succ_self count), rfl⟩
      show [count].foldlM step (state count) = _
      rw [List.foldlM_cons, ranRound]
      rfl

end Folds

end Canyon.Lib
