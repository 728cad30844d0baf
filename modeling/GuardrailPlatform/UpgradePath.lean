import GuardrailPlatform.Hops
import GuardrailPlatform.PlanLookup

/-!
# Where the offers lead

A request that a plan refuses comes with an offer: the plan after it, or none at
the top.  The gateway sends the offer with its refusal, and the prompt a button
turns into links to it.

A customer who takes every offer climbs the plans in the order of their ranks.
They skip no plan that would have admitted the request, and where the climb
ends without one, no plan would.
-/

namespace Guardrail

open Js Ranked

/-! ## Offers -/

namespace Registry

variable (reg : Registry)

/-- The plan a refusal offers instead. -/
def offer (resource : ResourceKey) (usage : ResourceKey → Option ℤ) (requested : ℤ)
    (plan : PlanKey) : Option PlanKey :=
  match reg.checkResourceAccess resource ⟨plan, usage⟩ requested with
  | .allowed .. => none
  | .denied _ _ _ nextPlan _ => nextPlan

/-- The plan a customer has after taking `n` offers. -/
def climbed (resource : ResourceKey) (usage : ResourceKey → Option ℤ) (requested : ℤ)
    (plan : PlanKey) (n : ℕ) : Option PlanKey :=
  Hops.after (fun _ : Unit => reg.offer resource usage requested) (fun _ => ()) plan n

variable {reg} {resource : ResourceKey} {usage : ResourceKey → Option ℤ} {requested : ℤ}
  {plan next : PlanKey}

theorem plansAscending_perm (reg : Registry) : reg.plansAscending.Perm reg.plans :=
  List.perm_insertionSort _ _

theorem plansAscending_sorted (reg : Registry) :
    reg.plansAscending.Pairwise fun a b => a.2.rank ≤ b.2.rank := by
  have : Std.Total fun a b : PlanKey × PlanDefinition => a.2.rank ≤ b.2.rank :=
    ⟨fun a b => le_total a.2.rank b.2.rank⟩
  have : IsTrans (PlanKey × PlanDefinition) fun a b => a.2.rank ≤ b.2.rank :=
    ⟨fun _ _ _ => le_trans⟩
  exact List.pairwise_insertionSort _ _

/-- The plan after a plan is the lowest that ranks above it. -/
theorem nextPlanAfter_spec (h : reg.Ladder) (hplan : plan ∈ reg.planKeys) :
    (reg.nextPlanAfter plan = none → ∀ other ∈ reg.planKeys, reg.planRank other ≤ reg.planRank plan) ∧
      ∀ found, reg.nextPlanAfter plan = some found → found.1 ∈ reg.planKeys ∧
        reg.planRank plan < reg.planRank found.1 ∧ ∀ other ∈ reg.planKeys,
          reg.planRank plan < reg.planRank other → reg.planRank found.1 ≤ reg.planRank other := by
  have hperm := plansAscending_perm reg
  obtain ⟨d, hd⟩ := mem_planKeys.mp hplan
  have hranks : (reg.plansAscending.map (·.2.rank)).Nodup := (hperm.map _).nodup_iff.mpr h.ranks
  have hnodup : (reg.plansAscending.map Prod.fst).Nodup := (hperm.map _).nodup_iff.mpr reg.plans_nodup
  obtain ⟨hnone, hsome⟩ := @nextRung_spec ℤ _ PlanKey PlanDefinition _ _ (fun entry => entry.2.rank)
    _ _ (plansAscending_sorted reg) hranks hnodup (hperm.mem_iff.mpr hd)
  have hof : ∀ other ∈ reg.planKeys, ∃ d', (other, d') ∈ reg.plansAscending ∧
      reg.planRank other = d'.rank := by
    intro other hother
    obtain ⟨d', hd'⟩ := mem_planKeys.mp hother
    exact ⟨d', hperm.mem_iff.mpr hd', planRank_eq hd'⟩
  constructor
  · intro hlast other hother
    obtain ⟨d', hmem, hrank⟩ := hof other hother
    rw [hrank, planRank_eq hd]
    exact hnone hlast _ hmem
  · intro found hfound
    obtain ⟨hmem, habove, hleast⟩ := hsome found hfound
    have hin : (found.1, found.2) ∈ reg.plans := hperm.mem_iff.mp hmem
    refine ⟨mem_planKeys.mpr ⟨_, hin⟩, ?_, ?_⟩
    · rw [planRank_eq hd, planRank_eq hin]
      exact habove
    · intro other hother hhigher
      obtain ⟨d', hmem', hrank⟩ := hof other hother
      rw [hrank, planRank_eq hd] at hhigher
      rw [hrank, planRank_eq hin]
      exact hleast _ hmem' hhigher

/-- No plan follows after one which the registry does not declare. -/
theorem nextPlanAfter_of_notMem (hplan : plan ∉ reg.planKeys) : reg.nextPlanAfter plan = none := by
  have hdrop : reg.plansAscending.dropWhile (fun p => p.1 != plan) = [] := by
    rw [List.dropWhile_eq_nil_iff]
    intro entry hentry
    rw [bne_iff_ne]
    intro hsame
    apply hplan
    exact List.mem_map.mpr ⟨entry, (plansAscending_perm reg).mem_iff.mp hentry, hsame⟩
  rw [nextPlanAfter, hdrop]
  rfl

/-- A refusal offers the plan that follows after, and an allowance offers nothing. -/
theorem offer_eq (reg : Registry) (resource : ResourceKey) (usage : ResourceKey → Option ℤ)
    (requested : ℤ) (plan : PlanKey) : reg.offer resource usage requested plan =
      if (reg.checkResourceAccess resource ⟨plan, usage⟩ requested).isAllowed then none
      else (reg.nextPlanAfter plan).map Prod.fst := by
  unfold offer checkResourceAccess
  cases reg.limitFor resource plan with
  | notIncluded => rfl
  | unlimited => rfl
  | atMost n =>
      by_cases h : (usage resource).getD 0 + requested > n
      · simp [h, AccessDecision.isAllowed]
      · simp [h, AccessDecision.isAllowed]

/-- A plan is offered where access is denied, and it is the next one up. -/
theorem offer_eq_some (h : reg.offer resource usage requested plan = some next) :
    (reg.checkResourceAccess resource ⟨plan, usage⟩ requested).isAllowed = false ∧
      ∃ d, reg.nextPlanAfter plan = some (next, d) := by
  rw [offer_eq] at h
  split at h
  · cases h
  · rename_i hrefused
    obtain ⟨found, hfound, rfl⟩ := Option.map_eq_some_iff.mp h
    exact ⟨Bool.eq_false_of_not_eq_true hrefused, found.2, hfound⟩

/-- A plan that is offered is the lowest above the one that refused, and is declared. -/
theorem offer_spec (hladder : reg.Ladder) (hplan : plan ∈ reg.planKeys)
    (h : reg.offer resource usage requested plan = some next) :
    ¬ (reg.checkResourceAccess resource ⟨plan, usage⟩ requested).isAllowed = true ∧
      next ∈ reg.planKeys ∧ reg.planRank plan < reg.planRank next ∧ ∀ other, other ∈ reg.planKeys →
        reg.planRank plan < reg.planRank other → reg.planRank next ≤ reg.planRank other := by
  obtain ⟨hrefused, d, hnext⟩ := offer_eq_some h
  refine ⟨?_, (nextPlanAfter_spec hladder hplan).2 _ hnext⟩
  rw [hrefused]
  exact Bool.false_ne_true

/-- The plans above a plan. -/
def plansAbove (reg : Registry) (plan : PlanKey) : Finset PlanKey :=
  reg.planKeys.toFinset.filter fun other => reg.planRank plan < reg.planRank other

theorem plansAbove_lt (hladder : reg.Ladder)
    (h : reg.offer resource usage requested plan = some next) :
    (reg.plansAbove next).card < (reg.plansAbove plan).card := by
  have hplan : plan ∈ reg.planKeys := by
    by_contra hnot
    obtain ⟨-, d, hnext⟩ := offer_eq_some h
    rw [nextPlanAfter_of_notMem hnot] at hnext
    cases hnext
  obtain ⟨-, hdeclared, habove, -⟩ := offer_spec hladder hplan h
  apply Finset.card_lt_card
  refine ⟨?_, ?_⟩
  · intro other hother
    obtain ⟨hmem, hrank⟩ := Finset.mem_filter.mp hother
    exact Finset.mem_filter.mpr ⟨hmem, habove.trans hrank⟩
  · intro hsubset
    have hin : next ∈ reg.plansAbove plan :=
      Finset.mem_filter.mpr ⟨List.mem_toFinset.mpr hdeclared, habove⟩
    exact lt_irrefl _ (Finset.mem_filter.mp (hsubset hin)).2

end Registry

/-- **Where the offers lead.**  A customer whose request a plan refuses, and who
takes every offer, ends after finitely many: with the cheapest plan, from theirs
on, that admits the request; or at the top with none offered, where no plan
there is admits it. -/
theorem offers_lead_to_cheapest (reg : Registry) (hladder : reg.Ladder) (resource : ResourceKey)
    (usage : ResourceKey → Option ℤ) (requested : ℤ) (plan : PlanKey)
    (hplan : plan ∈ reg.planKeys) :
    ∃ n last, reg.climbed resource usage requested plan n = some last ∧ last ∈ reg.planKeys ∧
      (((reg.checkResourceAccess resource ⟨last, usage⟩ requested).isAllowed = true ∧
        ∀ other ∈ reg.planKeys, reg.planRank plan ≤ reg.planRank other →
          (reg.checkResourceAccess resource ⟨other, usage⟩ requested).isAllowed = true →
          reg.planRank last ≤ reg.planRank other) ∨
      ((∃ reason limit used text, reg.checkResourceAccess resource ⟨last, usage⟩ requested =
          .denied reason limit used none text) ∧
        ∀ other ∈ reg.planKeys,
          (reg.checkResourceAccess resource ⟨other, usage⟩ requested).isAllowed = false)) := by
  have hends : reg.climbed resource usage requested plan ((reg.plansAbove plan).card + 1) = none :=
    @Hops.after_none_of_rank _ _ _ _ _ (fun _ => True) (fun plan => (reg.plansAbove plan).card)
      (fun _ _ _ _ hoffer => ⟨trivial, Registry.plansAbove_lt hladder hoffer⟩) trivial
  obtain ⟨n, -, last, hlast, hstays⟩ := Hops.last_of_after_none hends
  have hinj : ∀ a b, a ∈ reg.planKeys → b ∈ reg.planKeys → reg.planRank a = reg.planRank b → a = b :=
    fun _ _ ha hb hrank => Registry.planRank_injOn hladder ha hb hrank
  obtain ⟨hdeclared, -, hcheapest⟩ := Hops.rank_le_of_stays hinj
    (fun _ _ _ hmem hoffer => Registry.offer_spec hladder hmem hoffer) hplan hlast
  refine ⟨n, last, hlast, hdeclared, ?_⟩
  by_cases hallowed : (reg.checkResourceAccess resource ⟨last, usage⟩ requested).isAllowed = true
  · exact .inl ⟨hallowed, hcheapest⟩
  · right
    have hnone : reg.nextPlanAfter last = none := by
      have hoffer : reg.offer resource usage requested last = none := hstays
      rw [Registry.offer_eq, if_neg hallowed] at hoffer
      exact Option.map_eq_none_iff.mp hoffer
    have htop := (Registry.nextPlanAfter_spec hladder hdeclared).1 hnone
    constructor
    · cases hdecision : reg.checkResourceAccess resource ⟨last, usage⟩ requested with
      | allowed limit remaining =>
          rw [hdecision] at hallowed
          exact absurd rfl hallowed
      | denied reason limit used nextPlan text =>
          have hoffer : reg.offer resource usage requested last = none := hstays
          unfold Registry.offer at hoffer
          rw [hdecision] at hoffer
          obtain rfl : nextPlan = none := hoffer
          exact ⟨reason, limit, used, text, rfl⟩
    · intro other hother
      -- what the top refuses, every plan refuses
      by_contra hadmits
      apply hallowed
      have hloosens := Registry.limitFor_loosens hladder hother hdeclared (htop other hother) resource
      have hother' := Bool.eq_true_of_not_eq_false hadmits
      rw [Registry.isAllowed_checkResourceAccess] at hother' ⊢
      refine Limit.admits_of_loosens ?_ hloosens hother'
      intro m n hle hexceeds
      have hsum := of_decide_eq_true hexceeds
      exact decide_eq_true (by omega)

/-- A fourth project leads a free customer to the next plan of the shipped ladder. -/
theorem fourth_project_leads : str "free" ∈ registry.planKeys ∧
    ∃ n last, registry.climbed (str "project") (fun _ => some 3) 1 (str "free") n = some last ∧
      last ∈ registry.planKeys ∧
      (((registry.checkResourceAccess (str "project") ⟨last, fun _ => some 3⟩ 1).isAllowed = true ∧
        ∀ other ∈ registry.planKeys, registry.planRank (str "free") ≤ registry.planRank other →
          (registry.checkResourceAccess (str "project") ⟨other, fun _ => some 3⟩ 1).isAllowed = true →
          registry.planRank last ≤ registry.planRank other) ∨
      ((∃ reason limit used text,
          registry.checkResourceAccess (str "project") ⟨last, fun _ => some 3⟩ 1 =
            .denied reason limit used none text) ∧
        ∀ other ∈ registry.planKeys,
          (registry.checkResourceAccess (str "project") ⟨other, fun _ => some 3⟩ 1).isAllowed =
            false)) :=
  ⟨by decide, offers_lead_to_cheapest registry registry_ladder (str "project") (fun _ => some 3) 1
    (str "free") (by decide)⟩

end Guardrail
