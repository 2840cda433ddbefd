import Mathlib
import TournamentScoring.Proofs.Binary64.WholeNumbers
import TournamentScoring.Proofs.Scoring.InputErrors

/-!
# Exact penalty totals

A total is summed in floats, rule by rule.  As long as all calls together are worth at
most `2 ^ 53` points, every partial sum is a whole number up to this bound, so no step
rounds: the totals are the exact sums, and the order of the rules does not matter.
-/

namespace TournamentScoring

open TournamentScoring.Binary64

/-! ## Exact amounts -/

namespace PenaltyRule

variable (rule : PenaltyRule) (occurrences : KeyedTable UInt32)

/-- How many points the calls of a rule are worth. -/
def amount : ℕ :=
  rule.points.toNat * ((occurrences.get? rule.id).getD 0).toNat

/-- What the calls of a rule add to the total of its target. -/
def change : ℤ :=
  match rule.direction with
  | .add => rule.amount occurrences
  | .subtract => -rule.amount occurrences

theorem abs_change : |rule.change occurrences| = rule.amount occurrences := by
  rw [change]
  cases rule.direction with
  | add => exact Nat.abs_cast _
  | subtract => exact (abs_neg _).trans (Nat.abs_cast _)

variable {rule occurrences}

theorem isWhole_contribution (hamount : rule.amount occurrences ≤ 2 ^ 53) :
    IsWhole (rule.line occurrences).contribution (rule.change occurrences) := by
  have hbound : |(rule.amount occurrences : ℤ)| ≤ 2 ^ 53 := by
    rw [Nat.abs_cast]
    exact_mod_cast hamount
  have hproduct := (isWhole_toFloat rule.points).mul
    (isWhole_toFloat ((occurrences.get? rule.id).getD 0))
    (by rwa [← Nat.cast_mul])
  rw [← Nat.cast_mul] at hproduct
  change IsWhole _ (rule.amount occurrences : ℤ) at hproduct
  rw [line, change]
  cases rule.direction with
  | add =>
    have hsigned := hproduct.mul isWhole_one (by rwa [mul_one])
    rwa [mul_one] at hsigned
  | subtract =>
    have hsigned := hproduct.mul isWhole_one.neg (by rwa [mul_neg_one, abs_neg])
    rwa [mul_neg_one] at hsigned

/-- The line of a rule in the breakdown. -/
structure Gets (rule : PenaltyRule) (occurrences : KeyedTable UInt32)
    (line : PenaltyLine) : Prop where
  id_eq : line.id = rule.id
  count_eq : line.count = (occurrences.get? rule.id).getD 0
  target_eq : line.target = rule.target
  contribution : rule.amount occurrences ≤ 2 ^ 53 →
    IsWhole line.contribution (rule.change occurrences)

theorem gets_line : rule.Gets occurrences (rule.line occurrences) :=
  ⟨rfl, rfl, rfl, isWhole_contribution⟩

end PenaltyRule

/-- The points of all calls, whatever they do to a total. -/
def totalAmount (rules : List PenaltyRule) (occurrences : KeyedTable UInt32) : ℕ :=
  (rules.map fun rule => rule.amount occurrences).sum

/-- The exact total of a target. -/
def exactTotal (target : PenaltyTarget) (rules : List PenaltyRule)
    (occurrences : KeyedTable UInt32) : ℤ :=
  ((rules.filter fun rule => rule.target = target).map
    fun rule => rule.change occurrences).sum

section Sums

variable {occurrences : KeyedTable UInt32}

theorem totalAmount_cons (rule : PenaltyRule) (rules : List PenaltyRule) :
    totalAmount (rule :: rules) occurrences =
      rule.amount occurrences + totalAmount rules occurrences :=
  List.sum_cons

theorem exactTotal_cons (target : PenaltyTarget) (rule : PenaltyRule)
    (rules : List PenaltyRule) :
    exactTotal target (rule :: rules) occurrences =
      (if rule.target = target then rule.change occurrences else 0) +
        exactTotal target rules occurrences := by
  rw [exactTotal, List.filter_cons]
  by_cases htarget : rule.target = target
  · rw [if_pos (decide_eq_true htarget), if_pos htarget, List.map_cons, List.sum_cons]
    rfl
  · rw [if_neg (by simpa using htarget), if_neg htarget, zero_add]
    rfl

/-- Each call counts for one of the two targets. -/
theorem abs_exactTotal_add_le (rules : List PenaltyRule)
    (occurrences : KeyedTable UInt32) :
    |exactTotal .self rules occurrences| + |exactTotal .opponent rules occurrences| ≤
      totalAmount rules occurrences := by
  induction rules with
  | nil => simp [exactTotal, totalAmount]
  | cons rule rules ih =>
    have hchange := rule.abs_change occurrences
    rw [exactTotal_cons, exactTotal_cons, totalAmount_cons, Nat.cast_add]
    cases rule.target with
    | self =>
      have hsum := abs_add_le (rule.change occurrences) (exactTotal .self rules occurrences)
      simp only [if_true, reduceCtorEq, if_false, zero_add]
      linarith
    | opponent =>
      have hsum := abs_add_le (rule.change occurrences)
        (exactTotal .opponent rules occurrences)
      simp only [if_true, reduceCtorEq, if_false, zero_add]
      linarith

theorem totalAmount_eq_of_perm {rules others : List PenaltyRule}
    (hperm : rules.Perm others) :
    totalAmount rules occurrences = totalAmount others occurrences :=
  (hperm.map _).sum_eq

theorem exactTotal_eq_of_perm (target : PenaltyTarget) {rules others : List PenaltyRule}
    (hperm : rules.Perm others) :
    exactTotal target rules occurrences = exactTotal target others occurrences :=
  ((hperm.filter _).map _).sum_eq

/-! ## Partial sums -/

/-- The total after one more line. -/
theorem isWhole_step {target : PenaltyTarget} {total : Float} {exact : ℤ}
    (htotal : IsWhole total exact) {rule : PenaltyRule}
    (hbound : |exact| + rule.amount occurrences ≤ 2 ^ 53) :
    IsWhole
      (if (rule.line occurrences).target = target
        then total + (rule.line occurrences).contribution else total)
      (exact + if rule.target = target then rule.change occurrences else 0) := by
  have htarget : (rule.line occurrences).target = rule.target := rfl
  have hchange := rule.abs_change occurrences
  have hexact := abs_nonneg exact
  rw [htarget]
  by_cases hsame : rule.target = target
  · rw [if_pos hsame, if_pos hsame]
    have hsum := abs_add_le exact (rule.change occurrences)
    exact htotal.add (PenaltyRule.isWhole_contribution (by omega)) (by linarith)
  · rw [if_neg hsame, if_neg hsame, add_zero]
    exact htotal

/-- Every partial sum stays within the bound, so none of them is rounded. -/
theorem isWhole_foldl (target : PenaltyTarget) (rules : List PenaltyRule) {total : Float}
    {exact : ℤ} (htotal : IsWhole total exact)
    (hbound : |exact| + totalAmount rules occurrences ≤ 2 ^ 53) :
    IsWhole
      ((rules.map fun rule => rule.line occurrences).foldl
        (fun total line =>
          if line.target = target then total + line.contribution else total) total)
      (exact + exactTotal target rules occurrences) := by
  induction rules generalizing total exact with
  | nil => simpa [exactTotal] using htotal
  | cons rule rules ih =>
    rw [totalAmount_cons, Nat.cast_add] at hbound
    have hchange := rule.abs_change occurrences
    have hstep : |exact + if rule.target = target then rule.change occurrences else 0| ≤
        |exact| + rule.amount occurrences := by
      split
      · exact hchange ▸ abs_add_le _ _
      · rw [add_zero]
        omega
    rw [List.map_cons, List.foldl_cons, exactTotal_cons, ← add_assoc]
    exact ih (isWhole_step htotal (by omega)) (by omega)

theorem isWhole_totalOf (target : PenaltyTarget) {rules : List PenaltyRule}
    (hamount : totalAmount rules occurrences ≤ 2 ^ 53) :
    IsWhole (totalOf target (rules.map fun rule => rule.line occurrences))
      (exactTotal target rules occurrences) := by
  have hbound : |(0 : ℤ)| + totalAmount rules occurrences ≤ 2 ^ 53 := by
    rw [abs_zero, zero_add]
    exact_mod_cast hamount
  have hfold := isWhole_foldl target rules isWhole_zero hbound
  rwa [zero_add] at hfold

/-! ## Totals -/

/-- Totals that are exact, the difference included. -/
structure PenaltyTotals.AreExact (totals : PenaltyTotals) (own opponent : ℤ) : Prop where
  selfTotal : IsWhole totals.selfTotal own
  opponentTotal : IsWhole totals.opponentTotal opponent
  net : IsWhole totals.net (opponent - own)

/-- Totals with the same numbers; a zero may differ in its sign. -/
structure PenaltyTotals.Same (totals others : PenaltyTotals) : Prop where
  selfTotal : (totals.selfTotal == others.selfTotal) = true
  opponentTotal : (totals.opponentTotal == others.opponentTotal) = true
  net : (totals.net == others.net) = true

theorem PenaltyTotals.AreExact.same {totals others : PenaltyTotals} {own opponent : ℤ}
    (htotals : totals.AreExact own opponent) (hothers : others.AreExact own opponent) :
    totals.Same others :=
  ⟨htotals.selfTotal.beq hothers.selfTotal,
    htotals.opponentTotal.beq hothers.opponentTotal, htotals.net.beq hothers.net⟩

theorem areExact_ofLines {rules : List PenaltyRule}
    (hamount : totalAmount rules occurrences ≤ 2 ^ 53) :
    (PenaltyTotals.ofLines (rules.map fun rule => rule.line occurrences)).AreExact
      (exactTotal .self rules occurrences) (exactTotal .opponent rules occurrences) where
  selfTotal := isWhole_totalOf .self hamount
  opponentTotal := isWhole_totalOf .opponent hamount
  net := by
    refine (isWhole_totalOf .opponent hamount).sub (isWhole_totalOf .self hamount) ?_
    have hsum := abs_exactTotal_add_le rules occurrences
    have hdifference := abs_sub (exactTotal .opponent rules occurrences)
      (exactTotal .self rules occurrences)
    omega

end Sums

/-! ## Aggregation -/

/-- The keys that belong to no rule, in key order. -/
def unknownKeys (rules : List PenaltyRule) (occurrences : KeyedTable UInt32) :
    List String :=
  occurrences.keys.filter fun id => id ∉ rules.map PenaltyRule.id

theorem unknownPenalties_eq_map (rules : List PenaltyRule)
    (occurrences : KeyedTable UInt32) :
    unknownPenalties rules occurrences =
      (unknownKeys rules occurrences).map .unknownPenaltyId := by
  rw [unknownPenalties, unknownKeys]
  congr 2
  funext id
  rw [Bool.eq_iff_iff, decide_eq_true_iff, Bool.not_eq_true', List.any_eq_false,
    List.mem_map]
  simp only [beq_iff_eq, not_exists, not_and]

theorem mem_unknownKeys {rules : List PenaltyRule} {occurrences : KeyedTable UInt32}
    {id : String} :
    id ∈ unknownKeys rules occurrences ↔
      id ∈ occurrences.keys ∧ id ∉ rules.map PenaltyRule.id := by
  rw [unknownKeys, List.mem_filter, decide_eq_true_iff]

theorem aggregatePenalties_of_unknown {rules : List PenaltyRule}
    {occurrences : KeyedTable UInt32} (hunknown : unknownKeys rules occurrences ≠ []) :
    aggregatePenalties rules occurrences =
      .error ((unknownKeys rules occurrences).map .unknownPenaltyId) := by
  rw [aggregatePenalties, unknownPenalties_eq_map]
  obtain ⟨first, rest, heq⟩ := List.exists_cons_of_ne_nil hunknown
  rw [heq]
  rfl

theorem aggregatePenalties_of_known {rules : List PenaltyRule}
    {occurrences : KeyedTable UInt32}
    (hknown : ∀ id ∈ occurrences.keys, id ∈ rules.map PenaltyRule.id) :
    aggregatePenalties rules occurrences =
      .ok (PenaltyTotals.ofLines (rules.map fun rule => rule.line occurrences),
        rules.map fun rule => rule.line occurrences) := by
  have hnone : unknownKeys rules occurrences = [] :=
    List.eq_nil_iff_forall_not_mem.mpr fun id hid =>
      (mem_unknownKeys.mp hid).2 (hknown id (mem_unknownKeys.mp hid).1)
  rw [aggregatePenalties, unknownPenalties_eq_map, hnone]
  rfl

/-- Occurrences of unknown rules are reported in key order, whatever their counts are.
Otherwise every rule gets its line.  Where all calls together are worth at most `2 ^ 53`
points, the totals are the exact sums and their exact difference, and reordered rules
have the same totals. -/
theorem aggregatePenalties_is_exact (rules : List PenaltyRule)
    (occurrences : KeyedTable UInt32) :
    ((∃ id ∈ occurrences.keys, id ∉ rules.map PenaltyRule.id) →
      ∃ unknown : List String,
        aggregatePenalties rules occurrences =
          .error (unknown.map ScoringError.unknownPenaltyId) ∧
        unknown.Pairwise (· < ·) ∧
        ∀ id, id ∈ unknown ↔ id ∈ occurrences.keys ∧ id ∉ rules.map PenaltyRule.id) ∧
    ((∀ id ∈ occurrences.keys, id ∈ rules.map PenaltyRule.id) →
      ∃ totals lines,
        aggregatePenalties rules occurrences = .ok (totals, lines) ∧
        List.Forall₂ (fun rule line => rule.Gets occurrences line) rules lines ∧
        (totalAmount rules occurrences ≤ 2 ^ 53 →
          totals.AreExact (exactTotal .self rules occurrences)
            (exactTotal .opponent rules occurrences) ∧
          ∀ reordered : List PenaltyRule, reordered.Perm rules →
            ∃ others lines, aggregatePenalties reordered occurrences =
              .ok (others, lines) ∧ others.Same totals)) := by
  refine ⟨fun hunknown => ?_, fun hknown => ?_⟩
  · obtain ⟨id, hkey, hid⟩ := hunknown
    have hne : unknownKeys rules occurrences ≠ [] :=
      List.ne_nil_of_mem (mem_unknownKeys.mpr ⟨hkey, hid⟩)
    exact ⟨unknownKeys rules occurrences, aggregatePenalties_of_unknown hne,
      occurrences.pairwise_keys.filter _, fun id => mem_unknownKeys⟩
  · refine ⟨_, _, aggregatePenalties_of_known hknown, ?_, fun hamount => ?_⟩
    · exact List.forall₂_map_right_iff.mpr
        (List.forall₂_same.mpr fun rule _ => rule.gets_line)
    · refine ⟨areExact_ofLines hamount, fun reordered hperm => ?_⟩
      have hreordered : ∀ id ∈ occurrences.keys, id ∈ reordered.map PenaltyRule.id :=
        fun id hid => (hperm.map _).mem_iff.mpr (hknown id hid)
      refine ⟨_, _, aggregatePenalties_of_known hreordered, ?_⟩
      have hexact := areExact_ofLines (totalAmount_eq_of_perm hperm ▸ hamount)
      rw [exactTotal_eq_of_perm _ hperm, exactTotal_eq_of_perm _ hperm] at hexact
      exact hexact.same (areExact_ofLines hamount)


/-- Both directions for both targets. -/
def mixedRules : List PenaltyRule :=
  [⟨"foul", "Foul", none, 5, .opponent, .add⟩,
    ⟨"major", "Major", none, 15, .opponent, .subtract⟩,
    ⟨"tech", "Tech", none, 3, .self, .subtract⟩,
    ⟨"yellow", "Yellow", none, 7, .self, .add⟩]

def mixedCalls : KeyedTable UInt32 :=
  .ofList [("foul", 1), ("major", 1), ("tech", 2), ("yellow", 1)]

/-- A key without a rule is refused although nothing was called; the other calls are worth
one point and minus ten, and minus eleven between them, in either order of the rules. -/
theorem mixedRules_totals :
    ((∃ id ∈ (mixedCalls.insert "bogus" 0).keys, id ∉ mixedRules.map PenaltyRule.id) ∧
      ∃ unknown : List String,
        aggregatePenalties mixedRules (mixedCalls.insert "bogus" 0) =
          .error (unknown.map ScoringError.unknownPenaltyId) ∧ "bogus" ∈ unknown) ∧
    (∀ id ∈ mixedCalls.keys, id ∈ mixedRules.map PenaltyRule.id) ∧
    totalAmount mixedRules mixedCalls ≤ 2 ^ 53 ∧
    mixedRules.reverse.Perm mixedRules ∧
    ∃ totals lines, aggregatePenalties mixedRules mixedCalls = .ok (totals, lines) ∧
      totals.AreExact 1 (-10) ∧
      ∃ others lines, aggregatePenalties mixedRules.reverse mixedCalls =
        .ok (others, lines) ∧ others.Same totals :=
  have hbogus : "bogus" ∈ (mixedCalls.insert "bogus" 0).keys ∧
      "bogus" ∉ mixedRules.map PenaltyRule.id := by decide +kernel
  have hknown : ∀ id ∈ mixedCalls.keys, id ∈ mixedRules.map PenaltyRule.id := by
    decide +kernel
  have hamount : totalAmount mixedRules mixedCalls ≤ 2 ^ 53 := by decide +kernel
  have hsums : exactTotal .self mixedRules mixedCalls = 1 ∧
      exactTotal .opponent mixedRules mixedCalls = -10 := by decide +kernel
  have hperm := mixedRules.reverse_perm
  have hrefused := (aggregatePenalties_is_exact mixedRules
    (mixedCalls.insert "bogus" 0)).1 ⟨"bogus", hbogus⟩
  have ⟨unknown, herror, _, hunknown⟩ := hrefused
  have ⟨totals, lines, hok, _, hexact⟩ :=
    (aggregatePenalties_is_exact mixedRules mixedCalls).2 hknown
  have hsame := (hexact hamount).2 mixedRules.reverse hperm
  ⟨⟨⟨"bogus", hbogus⟩, unknown, herror, (hunknown "bogus").mpr hbogus⟩, hknown, hamount,
    hperm, totals, lines, hok, hsums.1 ▸ hsums.2 ▸ (hexact hamount).1, hsame⟩

end TournamentScoring
