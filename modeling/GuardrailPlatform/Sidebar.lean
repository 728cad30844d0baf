import GuardrailPlatform.Navigation
import GuardrailPlatform.RankedChoice

/-!
# The sidebar and the guard

The sidebar lists what a viewer may see and marks what their plan leaves out;
the guard decides, of the path a link leads to, whether to show it.  They are
computed from the same registry by different functions: the sidebar from an
item's own resource, the guard from the resource with the longest href the path
starts with.  Where hrefs are distinct the two are the same resource, so a link
leads where the sidebar says.
-/

namespace Guardrail

open Js

/-! ## Items and paths -/

/-- Is the path an item's, or below it? -/
def NavItem.covers (pathname : JSString) (item : NavItem) : Bool :=
  pathname == item.entry.href || (item.entry.href ++ str "/").isPrefixOf pathname

def NavItem.length (item : NavItem) : ℕ := item.entry.href.length

/-- The body of `resourceForPath`'s loop. -/
def nearer (pathname : JSString) (best : Option NavItem) (item : NavItem) : Option NavItem :=
  if item.covers pathname then
    match best with
    | none => some item
    | some current => if item.length > current.length then some item else best
  else best

/-- An item of the sidebar, with what the viewer may do about it. -/
structure NavEntryAccess where
  item : NavItem
  access : NavAccess

namespace Registry

variable (reg : Registry)

/-- `navFor`. -/
def navFor (role : OrgRole) (entitlements : Entitlements) : List NavEntryAccess :=
  (reg.navItems.map fun item => ⟨item, reg.navAccess item.resource role entitlements⟩).filter
    fun entry => entry.access.visible

/-- Where `<Sidebar>` links an item to. -/
def sidebarLink (entry : NavEntryAccess) : JSString :=
  if entry.access.locked then
    match reg.billingHref with
    | none => entry.item.entry.href
    | some href => href ++ str "?locked=" ++ entry.item.resource
  else entry.item.entry.href

/-- The denial `BillingPage` explains, if any: of the resource its URL names,
once, and the registry knows. -/
def billingPageDenial (params : JSString → JSString → List JSString) (url : Url)
    (entitlements : Entitlements) : Option AccessDecision :=
  match params url.search (str "locked") with
  | [raw] =>
    if reg.isResourceKey raw then
      match reg.checkResourceAccess raw entitlements 1 with
      | .allowed .. => none
      | denial => some denial
    else none
  | _ => none

/-- Billing is there for whoever sees an item locked. -/
def ExplainsLocks : Prop :=
  ∀ role, ∀ plan ∈ reg.planKeys, ∀ item ∈ reg.navItems,
    (reg.navAccess item.resource role ⟨plan, fun _ => none⟩).visible = true →
    (reg.navAccess item.resource role ⟨plan, fun _ => none⟩).locked = true →
    reg.guarded (str "/billing") role plan = .shown

end Registry

section Sidebar

variable {reg : Registry}

/-- An item of the sidebar covers only paths that its href is a prefix of. -/
theorem NavItem.prefix_of_covers {item : NavItem} {pathname : JSString}
    (h : item.covers pathname = true) : item.entry.href <+: pathname := by
  rcases Bool.or_eq_true_iff.mp h with h | h
  · rw [beq_iff_eq.mp h]
  · exact List.IsPrefix.trans (List.prefix_append _ _) (List.isPrefixOf_iff_prefix.mp h)

/-- The resource of a path is that of the nearest entry above it. -/
theorem resourceForPath_eq (pathname : JSString) :
    reg.resourceForPath pathname = (reg.navItems.foldl (nearer pathname) none).map (·.resource) :=
  rfl

/-- The loop, from an item it has: the longest of those that cover the path. -/
theorem foldl_nearer (pathname : JSString) (items : List NavItem) (start : NavItem) :
    items.foldl (nearer pathname) (some start) =
      some (Ranked.highest NavItem.length start (items.filter (NavItem.covers pathname))) := by
  induction items generalizing start with
  | nil => rfl
  | cons item items ih =>
      rw [List.foldl_cons]
      by_cases hcovers : item.covers pathname = true
      · have hstep : nearer pathname (some start) item =
            some (Ranked.higher NavItem.length start item) := by
          unfold nearer Ranked.higher
          rw [if_pos hcovers]
          dsimp only
          split <;> rfl
        rw [hstep, ih, List.filter_cons_of_pos hcovers, Ranked.highest_cons]
      · have hstep : nearer pathname (some start) item = some start := if_neg hcovers
        rw [hstep, ih, List.filter_cons_of_neg hcovers]

/-- The loop over the items ends with nothing when none of them covers the path. -/
theorem foldl_nearer_nil {pathname : JSString} {items : List NavItem}
    (h : items.filter (NavItem.covers pathname) = []) :
    items.foldl (nearer pathname) none = none := by
  induction items with
  | nil => rfl
  | cons item items ih =>
      have hcovers : ∀ other ∈ item :: items, ¬ other.covers pathname = true :=
        List.filter_eq_nil_iff.mp h
      have hstep : nearer pathname none item = none := if_neg (hcovers item List.mem_cons_self)
      rw [List.foldl_cons, hstep]
      rw [List.filter_cons_of_neg (hcovers item List.mem_cons_self)] at h
      exact ih h

/-- The loop from nothing: the first item that covers the path is its start. -/
theorem foldl_nearer_none {pathname : JSString} {items : List NavItem} {first : NavItem}
    {others : List NavItem} (h : items.filter (NavItem.covers pathname) = first :: others) :
    items.foldl (nearer pathname) none =
      some (Ranked.highest NavItem.length first others) := by
  induction items with
  | nil => cases h
  | cons item items ih =>
      rw [List.foldl_cons]
      by_cases hcovers : item.covers pathname = true
      · rw [List.filter_cons_of_pos hcovers] at h
        obtain ⟨rfl, rfl⟩ := List.cons.inj h
        have hstep : nearer pathname none item = some item := if_pos hcovers
        rw [hstep, foldl_nearer]
      · rw [List.filter_cons_of_neg hcovers] at h
        have hstep : nearer pathname none item = none := if_neg hcovers
        rw [hstep, ih h]

/-- Where no two items share an href, items that cover a path are told apart by
the length of theirs. -/
theorem covers_injective (hdistinct : (reg.navItems.map fun item => item.entry.href).Nodup)
    {pathname : JSString} {a b : NavItem} (ha : a ∈ reg.navItems) (hb : b ∈ reg.navItems)
    (hpa : a.covers pathname = true) (hpb : b.covers pathname = true)
    (hlength : a.length = b.length) : a = b := by
  obtain ⟨atail, hatail⟩ := NavItem.prefix_of_covers hpa
  obtain ⟨btail, hbtail⟩ := NavItem.prefix_of_covers hpb
  have hhref : a.entry.href = b.entry.href :=
    (List.append_inj (hatail.trans hbtail.symm) hlength).1
  exact List.inj_on_of_nodup_map hdistinct ha hb hhref

/-- **The longest prefix.**  Where no two items share an href, a path belongs to
the resource of the one item that covers it and is no shorter than any other
that does; in which order the resources are declared does not matter. -/
theorem resourceForPath_eq_some_iff
    (hdistinct : (reg.navItems.map fun item => item.entry.href).Nodup) {pathname : JSString}
    {resource : ResourceKey} :
    reg.resourceForPath pathname = some resource ↔
      ∃ item ∈ reg.navItems, item.covers pathname = true ∧ item.resource = resource ∧
        ∀ other ∈ reg.navItems, other.covers pathname = true → other.length ≤ item.length := by
  rw [resourceForPath_eq]
  have hmem : ∀ item, item ∈ reg.navItems.filter (NavItem.covers pathname) ↔
      item ∈ reg.navItems ∧ item.covers pathname = true := fun item => List.mem_filter
  cases hcovering : reg.navItems.filter (NavItem.covers pathname) with
  | nil =>
      rw [foldl_nearer_nil hcovering]
      constructor
      · intro h
        cases h
      · intro h
        obtain ⟨item, hitem, hcovers, -⟩ := h
        have := (hmem item).mpr ⟨hitem, hcovers⟩
        rw [hcovering] at this
        cases this
  | cons first others =>
      rw [foldl_nearer_none hcovering]
      rw [hcovering] at hmem
      have hinj : ∀ a ∈ first :: others, ∀ b ∈ first :: others, a.length = b.length → a = b := by
        intro a ha b hb hlength
        obtain ⟨ha, hpa⟩ := (hmem a).mp ha
        obtain ⟨hb, hpb⟩ := (hmem b).mp hb
        exact covers_injective hdistinct ha hb hpa hpb hlength
      constructor
      · intro h
        have htop := (Ranked.highest_eq_iff hinj).mp
          (rfl : Ranked.highest NavItem.length first others = _)
        obtain ⟨hitem, hcovers⟩ := (hmem _).mp htop.1
        exact ⟨_, hitem, hcovers, Option.some.inj h,
          fun other hother hpo => htop.2 other ((hmem other).mpr ⟨hother, hpo⟩)⟩
      · intro h
        obtain ⟨item, hitem, hcovers, rfl, htop⟩ := h
        have hhighest := (Ranked.highest_eq_iff hinj).mpr
          ⟨(hmem item).mpr ⟨hitem, hcovers⟩, fun other hother =>
            htop other ((hmem other).mp hother).1 ((hmem other).mp hother).2⟩
        rw [hhighest]
        rfl

/-- The page at an item's own href is the item's resource, no item being listed under it
again. -/
theorem resourceForPath_href (hdistinct : (reg.navItems.map fun item => item.entry.href).Nodup)
    {item : NavItem} (hitem : item ∈ reg.navItems) :
    reg.resourceForPath item.entry.href = some item.resource := by
  apply (resourceForPath_eq_some_iff hdistinct).mpr
  refine ⟨item, hitem, by simp [NavItem.covers], rfl, ?_⟩
  intro other _ hcovers
  exact (NavItem.prefix_of_covers hcovers).length_le

/-- The entries that are shown are the registry's, each with its access, and
visible. -/
theorem mem_navFor {role : OrgRole} {entitlements : Entitlements} {entry : NavEntryAccess} :
    entry ∈ reg.navFor role entitlements ↔ entry.item ∈ reg.navItems ∧
      entry.access = reg.navAccess entry.item.resource role entitlements ∧
      entry.access.visible = true := by
  unfold Registry.navFor
  rw [List.mem_filter, List.mem_map]
  constructor
  · rintro ⟨⟨item, hitem, rfl⟩, hvisible⟩
    exact ⟨hitem, rfl, hvisible⟩
  · intro h
    obtain ⟨hitem, haccess, hvisible⟩ := h
    exact ⟨⟨entry.item, hitem, by rw [← haccess]⟩, hvisible⟩

theorem resource_mem_of_navItem {item : NavItem} (h : item ∈ reg.navItems) :
    item.resource ∈ reg.resourceKeys := by
  unfold Registry.navItems at h
  rw [List.mem_insertionSort, List.mem_filterMap] at h
  obtain ⟨⟨resource, definition⟩, hmem, hitem⟩ := h
  obtain ⟨entry, -, rfl⟩ := Option.map_eq_some_iff.mp hitem
  exact List.mem_map_of_mem hmem

/-- The billing page explains the lock of a resource that its viewer's plan leaves out. -/
theorem billingPageDenial_of_locked {params : JSString → JSString → List JSString}
    {resource : ResourceKey} {entitlements : Entitlements} (hresource : resource ∈ reg.resourceKeys)
    (hparams : params (str "locked=" ++ resource) (str "locked") = [resource])
    (hplan : reg.isInPlan resource entitlements.plan = false) :
    reg.billingPageDenial params ⟨str "/billing", str "locked=" ++ resource⟩ entitlements =
      some (.denied .notInPlan .notIncluded ((entitlements.usage resource).getD 0)
        ((reg.nextPlanAfter entitlements.plan).map Prod.fst)
        (reg.upgradeCopy resource entitlements.plan)) := by
  have hlimit : reg.limitFor resource entitlements.plan = .notIncluded := by
    simpa [Registry.isInPlan] using hplan
  have hknown : reg.isResourceKey resource = true := by
    unfold Registry.isResourceKey
    rw [List.any_eq_true]
    exact ⟨resource, hresource, beq_self_eq_true resource⟩
  unfold Registry.billingPageDenial
  dsimp only
  rw [hparams]
  dsimp only
  rw [if_pos hknown]
  unfold Registry.checkResourceAccess
  rw [hlimit]
  rfl

/-- **The sidebar and the guard agree.**  For a signed-in viewer and any item of
the navigation: if the sidebar lists it unlocked, its link is its page, and the
page is served; if it lists it locked, asking for its page as a document leads
where its link leads, which is served, and the billing page there explains the
plan's denial of that very resource; and if it does not list it, asking for its
page as a document leads to the projects. -/
theorem sidebar_agrees (reg : Registry) (router : Router) (hrouter : router.Documented)
    (hdistinct : (reg.navItems.map fun item => item.entry.href).Nodup)
    (hpages : ∀ item ∈ reg.navItems, item.entry.href ∈ dashboardPages)
    (hbilling : reg.billingHref = some (str "/billing")) (hexplains : reg.ExplainsLocks)
    (params : JSString → JSString → List JSString)
    (hparams : ∀ resource ∈ reg.resourceKeys,
      params (str "locked=" ++ resource) (str "locked") = [resource])
    (now : reg.Moment) (identity : GatewayIdentity) (hsession : hasSession now.cookies = true)
    (hidentity : now.identity = some identity) (item : NavItem) (hitem : item ∈ reg.navItems)
    (search : JSString) :
    (∀ entry ∈ reg.navFor identity.role now.entitlements, entry.item = item →
      (entry.access.locked = false ∧ reg.sidebarLink entry = item.entry.href ∧
        Registry.sentOn router now ⟨item.entry.href, search⟩ = none) ∨
      (entry.access.locked = true ∧
        (router.rendersLayout (now.request ⟨item.entry.href, search⟩) = true →
          Registry.sentOn router now ⟨item.entry.href, search⟩ =
            some (Url.ofHref (reg.sidebarLink entry))) ∧
        Registry.sentOn router now (Url.ofHref (reg.sidebarLink entry)) = none ∧
        reg.billingPageDenial params (Url.ofHref (reg.sidebarLink entry)) now.entitlements =
          some (.denied .notInPlan .notIncluded ((now.entitlements.usage item.resource).getD 0)
            ((reg.nextPlanAfter now.entitlements.plan).map Prod.fst)
            (reg.upgradeCopy item.resource now.entitlements.plan)))) ∧
    ((∀ entry ∈ reg.navFor identity.role now.entitlements, entry.item ≠ item) →
      router.rendersLayout (now.request ⟨item.entry.href, search⟩) = true →
      Registry.sentOn router now ⟨item.entry.href, search⟩ =
        some (Url.ofHref (str "/projects"))) := by
  have hnormal : router.normalized ⟨item.entry.href, search⟩ = none :=
    hrouter.leaves _ (.inr (hpages item hitem))
  have hsent : router.rendersLayout (now.request ⟨item.entry.href, search⟩) = true →
      Registry.sentOn router now ⟨item.entry.href, search⟩ =
        (reg.guarded item.entry.href identity.role now.entitlements.plan).leadsTo :=
    fun hlayout => sentOn_guarded hnormal (hpages item hitem) hlayout hsession hidentity
  have hguarded := guarded_of_resource (resourceForPath_href hdistinct hitem) identity.role
    now.entitlements.plan
  have haccess : reg.navAccess item.resource identity.role now.entitlements =
      reg.navAccess item.resource identity.role ⟨now.entitlements.plan, fun _ => none⟩ := rfl
  rw [← haccess] at hguarded
  constructor
  · rintro entry hentry rfl
    obtain ⟨-, hsame, hvisible⟩ := mem_navFor.mp hentry
    have hplan := (navAccess_visible (hsame ▸ hvisible)).1
    rw [← hsame] at hplan hguarded
    rw [if_neg (not_not_intro hvisible)] at hguarded
    cases hlocked : entry.access.locked with
    | false =>
        rw [hlocked] at hguarded
        refine .inl ⟨rfl, ?_, sentOn_shown hnormal hsession hidentity hguarded⟩
        unfold Registry.sidebarLink
        rw [if_neg (by rw [hlocked]; decide)]
    | true =>
        have hlink : reg.sidebarLink entry = str "/billing?locked=" ++ entry.item.resource := by
          unfold Registry.sidebarLink
          rw [if_pos hlocked, hbilling]
          have hsplit : str "/billing" ++ str "?locked=" = str "/billing?locked=" := by decide
          dsimp only
          rw [hsplit]
        have houtside : reg.isInPlan entry.item.resource now.entitlements.plan = false := by
          rw [hlocked] at hplan
          simpa using hplan.symm
        rw [if_pos hlocked] at hguarded
        refine .inr ⟨rfl, ?_, ?_, ?_⟩
        · intro hlayout
          rw [hsent hlayout, hguarded, hlink]
          rfl
        · rw [hlink, ofHref_locked]
          refine sentOn_shown (hrouter.leaves _ (.inr ?_)) hsession hidentity ?_
          · show str "/billing" ∈ dashboardPages
            decide
          · exact hexplains identity.role now.entitlements.plan now.declared entry.item hitem
              (haccess ▸ hsame ▸ hvisible) (haccess ▸ hsame ▸ hlocked)
        · have hresource := resource_mem_of_navItem hitem
          rw [hlink, ofHref_locked]
          exact billingPageDenial_of_locked hresource (hparams _ hresource) houtside
  · intro hmissing hlayout
    rw [hsent hlayout, hguarded, if_pos]
    · rfl
    · intro hvisible
      exact hmissing ⟨item, _⟩ (mem_navFor.mpr ⟨hitem, rfl, hvisible⟩) rfl

/-! ### The shipped navigation -/

/-- A query string whose names and values need no decoding. -/
def plainParams (search name : JSString) : List JSString :=
  (search.splitOn 38).filterMap fun pair =>
    if pair.takeWhile (· != 61) == name then some ((pair.dropWhile (· != 61)).drop 1) else none

def auditItem : NavItem :=
  ⟨{ href := str "/audit", label := str "Audit log", order := 4 }, str "auditLog"⟩

/-- In the shipped registry, whoever sees a lock in the sidebar is also shown billing. -/
theorem registry_explainsLocks : registry.ExplainsLocks := by
  have hall : (orgRoles.all fun role => registry.planKeys.all fun plan =>
      registry.navItems.all fun item =>
        !(registry.navAccess item.resource role ⟨plan, fun _ => none⟩).visible ||
        !(registry.navAccess item.resource role ⟨plan, fun _ => none⟩).locked ||
        registry.guarded (str "/billing") role plan == .shown) = true := by decide
  intro role plan hplan item hitem hvisible hlocked
  have hsome := List.all_eq_true.mp (List.all_eq_true.mp
    (List.all_eq_true.mp hall role (mem_orgRoles role)) plan hplan) item hitem
  rw [hvisible, hlocked] at hsome
  exact beq_iff_eq.mp hsome

/-- An admin on the free plan is shown the audit log locked; its page leads to
where the lock does, which is served, and names the plan that unlocks it. -/
theorem audit_log_explained : ∃ entry ∈ registry.navFor .admin freeSnapshot,
    entry.item = auditItem ∧ entry.access.locked = true ∧
      Registry.sentOn plainRouter (signedIn .admin registry.defaultPlan_mem) ⟨str "/audit", []⟩ =
        some (Url.ofHref (registry.sidebarLink entry)) ∧
      Registry.sentOn plainRouter (signedIn .admin registry.defaultPlan_mem)
        (Url.ofHref (registry.sidebarLink entry)) = none ∧
      registry.billingPageDenial plainParams (Url.ofHref (registry.sidebarLink entry))
          freeSnapshot =
        some (.denied .notInPlan .notIncluded 0 (some (str "pro"))
          (str "Audit history is not included in your plan. Pro keeps it.")) := by
  let entry : NavEntryAccess := ⟨auditItem, { visible := true, locked := true }⟩
  have hitem : auditItem ∈ registry.navItems := by
    have hlast : registry.navItems.getLast? = some auditItem := rfl
    exact List.mem_of_getLast? hlast
  have hentry : entry ∈ registry.navFor .admin freeSnapshot :=
    mem_navFor.mpr ⟨hitem, rfl, rfl⟩
  have hpages : ∀ item ∈ registry.navItems, item.entry.href ∈ dashboardPages := by
    have hall : (registry.navItems.all fun item =>
      dashboardPages.any (· == item.entry.href)) = true := by decide
    intro item hmem
    exact any_dashboardPages.mp (List.all_eq_true.mp hall item hmem)
  have hparams : ∀ resource ∈ registry.resourceKeys,
      plainParams (str "locked=" ++ resource) (str "locked") = [resource] := by
    have hall : (registry.resourceKeys.all fun resource =>
      plainParams (str "locked=" ++ resource) (str "locked") == [resource]) = true := by decide
    intro resource hmem
    exact beq_iff_eq.mp (List.all_eq_true.mp hall resource hmem)
  have hagrees := sidebar_agrees registry plainRouter plainRouter_documented (by decide) hpages
    (by decide) registry_explainsLocks plainParams hparams
    (signedIn .admin registry.defaultPlan_mem)
    { userId := str "ada", orgId := str "acme", role := .admin } (by decide) rfl auditItem hitem []
  rcases hagrees.1 entry hentry rfl with ⟨hunlocked, -⟩ | ⟨-, hleads, hserved, hdenial⟩
  · cases hunlocked
  · have hcopy : registry.upgradeCopy auditItem.resource freeSnapshot.plan =
        str "Audit history is not included in your plan. Pro keeps it." := by decide
    have hnext : (registry.nextPlanAfter freeSnapshot.plan).map Prod.fst = some (str "pro") := by
      decide
    refine ⟨entry, hentry, rfl, rfl, hleads (plainRouter_documented.renders _ rfl), hserved,
      hdenial.trans ?_⟩
    rw [← hcopy, ← hnext]
    rfl

end Sidebar

end Guardrail
