import GuardrailPlatform.ClientMirror
import GuardrailPlatform.Hops

/-!
# Getting to a page

A request passes the proxy before anything else.  The proxy sends a request
without a session cookie to the sign-in page, and forwards any other with the
path it was made for and an id it made up, whatever the client wrote there.  A
dashboard page is then guarded by its layout, which identifies the caller and
asks the registry about the resource the path belongs to.

Around both stands Next's router, which is given (`Router`): it tidies a path up
before the proxy sees it, and decides for which requests the layout is rendered.
It is for every document; a browser that has the layout already asks for the
next page alone, and such a page is served unguarded.

Each of the two may send the browser elsewhere, where both are asked again; and
between two requests a session can end, a role or a plan can change.  So the
browser hops under answers that are not the same twice, and what is proved of it
is proved for all of them.
-/

namespace Guardrail

open Js

/-! ## The proxy -/

/-- A URL of the application, up to its origin. -/
structure Url where
  pathname : JSString
  search : JSString
deriving DecidableEq

/-- The URL a link or a redirect names; 63 is the question mark. -/
def Url.ofHref (href : JSString) : Url :=
  ⟨href.takeWhile (· != 63), (href.dropWhile (· != 63)).drop 1⟩

/-- Request headers, asked for by their lower-case names. -/
abbrev Headers := JSString → Option JSString

/-- `Headers.set`. -/
def setHeader (headers : Headers) (name value : JSString) : Headers :=
  fun asked => if asked = name then some value else headers asked

structure PageRequest where
  url : Url
  headers : Headers
  cookies : List JSString

def sessionCookiePrefix : JSString := str "better-auth"

def sessionCookieBase : JSString := str "session_token"

def secureCookiePrefix : JSString := str "__Secure-"

def sessionCookieName : JSString := sessionCookiePrefix ++ str "." ++ sessionCookieBase

def sessionCookieNames : List JSString :=
  [sessionCookieName, secureCookiePrefix ++ sessionCookieName]

/-- `isPublic`: pages anybody may see. -/
def isPublic (pathname : JSString) : Bool :=
  pathname == str "/" || (str "/sign-in").isPrefixOf pathname ||
    (str "/api/auth").isPrefixOf pathname

/-- `hasSession`: is there a cookie a session could be under? -/
def hasSession (cookies : List JSString) : Bool :=
  sessionCookieNames.any fun name => cookies.any (· == name)

/-- `proxy`.  An error is the redirect, a value the forwarded headers. -/
def proxy (request : PageRequest) (uuid : JSString) : Except Url Headers :=
  let requestHeaders :=
    setHeader (setHeader request.headers (str "x-pathname") request.url.pathname)
      (str "x-request-id") uuid
  if !isPublic request.url.pathname && !hasSession request.cookies then
    .error { request.url with pathname := str "/sign-in" }
  else .ok requestHeaders

/-- The matcher: every path but those of static files. -/
def isMatched (pathname : JSString) : Bool :=
  match pathname with
  | 47 :: rest =>
    !((str "_next/static").isPrefixOf rest || (str "_next/image").isPrefixOf rest ||
      -- the dot of `favicon.ico` stands for any character
      ((str "favicon").isPrefixOf rest && (str "ico").isPrefixOf (rest.drop 8)))
  | _ => false

/-- What reaches the application: a path the proxy does not match goes by it. -/
def forwarded (request : PageRequest) (uuid : JSString) : Except Url Headers :=
  if isMatched request.url.pathname then proxy request uuid else .ok request.headers

/-! ## What a caller's request becomes -/

structure GatewayContext where
  requestId : JSString
  ip : JSString
deriving DecidableEq

/-- `createContext`, with `requestIdOf`'s throw as `none`. -/
def createContext (headers : Headers) : Option GatewayContext :=
  (headers (str "x-request-id")).map fun requestId =>
    { requestId,
      ip := ((headers (str "x-forwarded-for")).bind fun addresses =>
        (addresses.splitOn 44).head?.map trim).getD (str "unknown") }

/-- A header that was set has the value it was set to, whatever the client sent. -/
theorem setHeader_same (headers : Headers) (name value : JSString) :
    setHeader headers name value name = some value := if_pos rfl

/-- Setting one header leaves all the others as the client has sent them. -/
theorem setHeader_other {headers : Headers} {name value asked : JSString} (h : asked ≠ name) :
    setHeader headers name value asked = headers asked := if_neg h

/-- The two headers that the application relies on, the request id and the path, are the
proxy's. -/
theorem proxy_headers {request : PageRequest} {uuid : JSString} {headers : Headers}
    (h : proxy request uuid = .ok headers) :
    headers (str "x-request-id") = some uuid ∧
      headers (str "x-pathname") = some request.url.pathname := by
  unfold proxy at h
  split at h
  · cases h
  · obtain rfl := Except.ok.inj h
    constructor
    · exact setHeader_same _ _ _
    · rw [setHeader_other (by decide), setHeader_same]

/-- The proxy stops a request only for want of a session cookie. -/
theorem proxy_error {request : PageRequest} {uuid : JSString} {url : Url}
    (h : proxy request uuid = .error url) :
    isPublic request.url.pathname = false ∧ hasSession request.cookies = false ∧
      url.pathname = str "/sign-in" := by
  unfold proxy at h
  split at h
  · rename_i hstopped
    obtain rfl := Except.error.inj h
    obtain ⟨hpublic, hsession⟩ := Bool.and_eq_true_iff.mp hstopped
    exact ⟨by simpa using hpublic, by simpa using hsession, rfl⟩
  · cases h

/-- Where the proxy ran, the id of a call is the one it made up. -/
theorem createContext_forwarded {request : PageRequest} {uuid : JSString} {headers : Headers}
    (hmatched : isMatched request.url.pathname = true)
    (h : forwarded request uuid = .ok headers) :
    (createContext headers).map (·.requestId) = some uuid := by
  have hproxied : proxy request uuid = .ok headers := by
    rw [← h]
    exact (if_pos hmatched).symm
  unfold createContext
  rw [(proxy_headers hproxied).1]
  rfl

/-! ## The guard -/

/-- The layout's answer about a page. -/
inductive Guarded
  | shown
  | hidden
  | locked (resource : ResourceKey)
deriving DecidableEq

def Guarded.isHidden : Guarded → Bool
  | .hidden => true
  | _ => false

def Guarded.isLocked : Guarded → Bool
  | .locked _ => true
  | _ => false

/-- Where the answer sends the browser. -/
def Guarded.leadsTo : Guarded → Option Url
  | .shown => none
  | .hidden => some (.ofHref (str "/projects"))
  | .locked resource => some (.ofHref (str "/billing?locked=" ++ resource))

/-- Where a page's outcome sends the browser. -/
def PageOutcome.sendsTo : PageOutcome → Option Url
  | .redirect href => some (.ofHref href)
  | .render => none

/-- The paths with a page under the dashboard's layout. -/
def dashboardPages : List JSString :=
  [str "/projects", str "/team", str "/billing", str "/audit"]

/-- What Next's router decides by itself. -/
structure Router where
  /-- The tidier URL that it redirects to before the proxy is asked, as from a path
  with a slash at its end. -/
  normalized : Url → Option Url
  /-- Does it render the dashboard's layout for the request? -/
  rendersLayout : PageRequest → Bool

/-- What is documented of it. -/
structure Router.Documented (router : Router) : Prop where
  /-- The application's own paths are tidy. -/
  leaves : ∀ url, url.pathname = str "/sign-in" ∨ url.pathname ∈ dashboardPages →
    router.normalized url = none
  /-- Tidying ends. -/
  settles : WellFounded fun target url => router.normalized url = some target
  /-- A request without an `rsc` header is for a document, and a document has its layout. -/
  renders : ∀ request, request.headers (str "rsc") = none → router.rendersLayout request = true

namespace Registry

variable (reg : Registry)

/-- What the layout decides of a path, for a role on a plan. -/
def guarded (pathname : JSString) (role : OrgRole) (plan : PlanKey) : Guarded :=
  match reg.resourceForPath pathname with
  | none => .shown
  | some resource =>
    let access := reg.navAccess resource role ⟨plan, fun _ => none⟩
    if ¬ access.visible then .hidden else if access.locked then .locked resource else .shown

/-- The server's side of a moment: what the request carries beside its URL, and
what the platform answers about its sender. -/
structure Moment where
  headers : Headers
  cookies : List JSString
  uuid : JSString
  identity : Option GatewayIdentity
  entitlements : Entitlements
  declared : entitlements.plan ∈ reg.planKeys

variable {reg}

def Moment.request (now : reg.Moment) (url : Url) : PageRequest :=
  { url, headers := now.headers, cookies := now.cookies }

/-- Where a request for a page is sent on to; `none` is the page itself. -/
def sentOn (router : Router) (now : reg.Moment) (url : Url) : Option Url :=
  match router.normalized url with
  | some target => some target
  | none =>
    match forwarded (now.request url) now.uuid with
    | .error url => some url
    | .ok headers =>
      if dashboardPages.any (· == url.pathname) && router.rendersLayout (now.request url) then
        (reg.dashboardLayout now.identity now.entitlements
          ((headers (str "x-pathname")).getD (str "/"))).sendsTo
      else none

end Registry

/-! ### One request -/

section Request

variable {reg : Registry} {router : Router} {now : reg.Moment} {identity : GatewayIdentity}
  {url target : Url}

/-- An href whose path has no question mark is cut at the first one behind it. -/
theorem Url.ofHref_query {path search : JSString} (h : path.all (· != 63) = true) :
    Url.ofHref (path ++ 63 :: search) = ⟨path, search⟩ := by
  have hall : ∀ u ∈ path, (u != 63) = true := List.all_eq_true.mp h
  unfold Url.ofHref
  rw [List.takeWhile_append_of_pos hall, List.dropWhile_append_of_pos hall]
  simp

/-- Where a lock leads: the billing page, with the resource in its query. -/
theorem ofHref_locked (resource : ResourceKey) :
    Url.ofHref (str "/billing?locked=" ++ resource) =
      ⟨str "/billing", str "locked=" ++ resource⟩ := by
  have hsplit : str "/billing?locked=" = str "/billing" ++ 63 :: str "locked=" := by decide
  rw [hsplit, List.append_assoc, List.cons_append, Url.ofHref_query (by decide)]

/-- A page that is hidden leads to the projects page, with no query behind it. -/
theorem ofHref_projects : Url.ofHref (str "/projects") = ⟨str "/projects", []⟩ := by decide

/-- For a signed-in caller the layout redirects where the registry's guard of the path
leads. -/
theorem dashboardLayout_sendsTo (entitlements : Entitlements) (pathname : JSString) :
    (reg.dashboardLayout (some identity) entitlements pathname).sendsTo =
      (reg.guarded pathname identity.role entitlements.plan).leadsTo := by
  unfold Registry.dashboardLayout Registry.guarded
  cases reg.resourceForPath pathname with
  | none => rfl
  | some resource =>
      show (reg.guardPage resource identity.role entitlements).sendsTo = _
      unfold Registry.guardPage
      rw [show reg.navAccess resource identity.role entitlements =
        reg.navAccess resource identity.role ⟨entitlements.plan, fun _ => none⟩ from rfl]
      dsimp only
      split
      · rfl
      · split <;> rfl

/-- A guard leads to the projects page or to the billing page, and says which. -/
theorem leadsTo_eq_some {guarded : Guarded} (h : guarded.leadsTo = some target) :
    (guarded.isHidden = true ∧ target.pathname = str "/projects") ∨
      (guarded.isLocked = true ∧ target.pathname = str "/billing") := by
  cases guarded with
  | shown => cases h
  | hidden =>
      obtain rfl := Option.some.inj h
      exact .inl ⟨rfl, by rw [ofHref_projects]⟩
  | locked resource =>
      obtain rfl := Option.some.inj h
      exact .inr ⟨rfl, by rw [ofHref_locked]⟩

/-- A guard leads nowhere exactly where it shows the page that was asked for. -/
theorem leadsTo_eq_none {guarded : Guarded} : guarded.leadsTo = none ↔ guarded = .shown := by
  cases guarded <;> simp [Guarded.leadsTo]

/-- No dashboard page is public, none is the sign-in page and none goes past the proxy. -/
theorem dashboard_proxied {pathname : JSString} (h : pathname ∈ dashboardPages) :
    isMatched pathname = true ∧ isPublic pathname = false ∧ pathname ≠ str "/sign-in" := by
  have hall : (dashboardPages.all fun pathname => isMatched pathname && !isPublic pathname &&
      pathname != str "/sign-in") = true := by decide
  have := List.all_eq_true.mp hall pathname h
  simpa [and_assoc] using this

/-- Only a request without a session is stopped, and it is sent to sign in. -/
theorem forwarded_error {request : PageRequest} {uuid : JSString}
    (h : forwarded request uuid = .error target) :
    isPublic request.url.pathname = false ∧ hasSession request.cookies = false ∧
      target.pathname = str "/sign-in" := by
  unfold forwarded at h
  split at h
  · exact proxy_error h
  · cases h

/-- Without a session cookie a dashboard page is stopped at the proxy. -/
theorem forwarded_stopped (hpage : url.pathname ∈ dashboardPages)
    (hsession : hasSession now.cookies = false) :
    forwarded (now.request url) now.uuid = .error { url with pathname := str "/sign-in" } := by
  obtain ⟨hmatched, hpublic, -⟩ := dashboard_proxied hpage
  have hproxied : forwarded (now.request url) now.uuid = proxy (now.request url) now.uuid :=
    if_pos hmatched
  rw [hproxied]
  exact if_pos (by simp [Registry.Moment.request, hpublic, hsession])

/-- Searching the list of dashboard pages for a path finds it exactly where it is one of
them. -/
theorem any_dashboardPages {pathname : JSString} :
    (dashboardPages.any (· == pathname)) = true ↔ pathname ∈ dashboardPages := by
  simp [List.any_eq_true]

/-- A request that the router leaves alone is the proxy's to stop. -/
theorem sentOn_error (hnormal : router.normalized url = none)
    (h : forwarded (now.request url) now.uuid = .error target) :
    Registry.sentOn router now url = some target := by
  unfold Registry.sentOn
  rw [hnormal, h]

/-- What is forwarded of a dashboard page carries the path it was asked for,
whatever headers the client sent. -/
theorem sentOn_forwarded {headers : Headers} (hnormal : router.normalized url = none)
    (hpage : url.pathname ∈ dashboardPages)
    (hlayout : router.rendersLayout (now.request url) = true)
    (hforwarded : forwarded (now.request url) now.uuid = .ok headers) :
    Registry.sentOn router now url =
      (reg.dashboardLayout now.identity now.entitlements url.pathname).sendsTo := by
  have hproxy : proxy (now.request url) now.uuid = .ok headers := by
    rw [← hforwarded, forwarded]
    exact (if_pos (dashboard_proxied hpage).1).symm
  have hpathname : headers (str "x-pathname") = some url.pathname := (proxy_headers hproxy).2
  unfold Registry.sentOn
  rw [hnormal, hforwarded]
  dsimp only
  rw [if_pos (Bool.and_eq_true_iff.mpr ⟨any_dashboardPages.mpr hpage, hlayout⟩), hpathname,
    Option.getD_some]

/-- Where no dashboard layout is rendered, a request that is forwarded is served without a
redirect. -/
theorem sentOn_unguarded {headers : Headers} (hnormal : router.normalized url = none)
    (hforwarded : forwarded (now.request url) now.uuid = .ok headers)
    (hnot : ¬ (url.pathname ∈ dashboardPages ∧ router.rendersLayout (now.request url) = true)) :
    Registry.sentOn router now url = none := by
  unfold Registry.sentOn
  rw [hnormal, hforwarded]
  dsimp only
  rw [if_neg]
  rw [Bool.and_eq_true_iff, any_dashboardPages]
  exact hnot

/-- With a session cookie every request passes the proxy, whatever its path and its other
headers. -/
theorem forwarded_of_session (h : hasSession now.cookies = true) :
    ∃ headers, forwarded (now.request url) now.uuid = .ok headers := by
  cases hanswer : forwarded (now.request url) now.uuid with
  | ok headers => exact ⟨headers, rfl⟩
  | error target =>
      have hnone : hasSession now.cookies = false := (forwarded_error hanswer).2.1
      rw [h] at hnone
      cases hnone

/-- A signed-in caller's dashboard page, where its layout is rendered, is the registry's to
decide. -/
theorem sentOn_guarded (hnormal : router.normalized url = none)
    (hpage : url.pathname ∈ dashboardPages)
    (hlayout : router.rendersLayout (now.request url) = true)
    (hsession : hasSession now.cookies = true) (hidentity : now.identity = some identity) :
    Registry.sentOn router now url =
      (reg.guarded url.pathname identity.role now.entitlements.plan).leadsTo := by
  obtain ⟨headers, hforwarded⟩ : ∃ headers, forwarded (now.request url) now.uuid = .ok headers :=
    forwarded_of_session hsession
  rw [sentOn_forwarded hnormal hpage hlayout hforwarded, hidentity, dashboardLayout_sendsTo]

/-- A page the registry shows a signed-in caller is served, with its layout or alone. -/
theorem sentOn_shown (hnormal : router.normalized url = none)
    (hsession : hasSession now.cookies = true) (hidentity : now.identity = some identity)
    (hshown : reg.guarded url.pathname identity.role now.entitlements.plan = .shown) :
    Registry.sentOn router now url = none := by
  by_cases hlayout : url.pathname ∈ dashboardPages ∧ router.rendersLayout (now.request url) = true
  · rw [sentOn_guarded hnormal hlayout.1 hlayout.2 hsession hidentity, hshown]
    rfl
  · obtain ⟨headers, hforwarded⟩ : ∃ headers, forwarded (now.request url) now.uuid = .ok headers :=
      forwarded_of_session hsession
    exact sentOn_unguarded hnormal hforwarded hlayout

/-- **One redirect.**  A request that the router leaves alone is sent to the sign-in
page from another one, or turned away from a dashboard page by what the registry
says of the caller. -/
theorem sentOn_cases (hnormal : router.normalized url = none)
    (h : Registry.sentOn router now url = some target) :
    (target.pathname = str "/sign-in" ∧ url.pathname ≠ str "/sign-in") ∨
      (url.pathname ∈ dashboardPages ∧ ∃ identity, now.identity = some identity ∧
        (reg.guarded url.pathname identity.role now.entitlements.plan).leadsTo = some target) := by
  cases hforwarded : forwarded (now.request url) now.uuid with
  | error stopped =>
      obtain ⟨hpublic, -, hsignIn⟩ := forwarded_error hforwarded
      rw [sentOn_error hnormal hforwarded] at h
      obtain rfl := Option.some.inj h
      refine .inl ⟨hsignIn, ?_⟩
      intro hsame
      have hopen : isPublic (str "/sign-in") = true := by decide
      rw [show (now.request url).url.pathname = str "/sign-in" from hsame, hopen] at hpublic
      cases hpublic
  | ok headers =>
      by_cases hlayout : url.pathname ∈ dashboardPages ∧
        router.rendersLayout (now.request url) = true
      · obtain ⟨hpage, hlayout⟩ := hlayout
        rw [sentOn_forwarded hnormal hpage hlayout hforwarded] at h
        cases hidentity : now.identity with
        | some identity =>
            rw [hidentity, dashboardLayout_sendsTo] at h
            exact .inr ⟨hpage, identity, rfl, h⟩
        | none =>
            rw [hidentity] at h
            obtain rfl := Option.some.inj h
            exact .inl ⟨by decide, (dashboard_proxied hpage).2.2⟩
      · rw [sentOn_unguarded hnormal hforwarded hlayout] at h
        cases h

/-- A redirect of the application leads to a path that the router leaves as it is. -/
theorem normalized_of_sentOn (hrouter : router.Documented) (hnormal : router.normalized url = none)
    (h : Registry.sentOn router now url = some target) : router.normalized target = none := by
  apply hrouter.leaves
  rcases sentOn_cases hnormal h with ⟨hsignIn, -⟩ | ⟨-, identity, -, hturned⟩
  · exact .inl hsignIn
  · right
    rcases leadsTo_eq_some hturned with ⟨-, htarget⟩ | ⟨-, htarget⟩
    · rw [htarget]
      decide
    · rw [htarget]
      decide

/-- A dashboard page is served with its layout to a signed-in caller whom the
registry lets in, and to nobody else. -/
theorem served_dashboard (hnormal : router.normalized url = none)
    (hpage : url.pathname ∈ dashboardPages)
    (hlayout : router.rendersLayout (now.request url) = true)
    (h : Registry.sentOn router now url = none) :
    hasSession now.cookies = true ∧ ∃ identity, now.identity = some identity ∧
      reg.guarded url.pathname identity.role now.entitlements.plan = .shown := by
  cases hforwarded : forwarded (now.request url) now.uuid with
  | error stopped =>
      rw [sentOn_error hnormal hforwarded] at h
      cases h
  | ok headers =>
      rw [sentOn_forwarded hnormal hpage hlayout hforwarded] at h
      constructor
      · by_contra hsession
        rw [forwarded_stopped hpage (Bool.eq_false_iff.mpr hsession)] at hforwarded
        cases hforwarded
      · cases hidentity : now.identity with
        | none =>
            rw [hidentity] at h
            cases h
        | some identity =>
            rw [hidentity, dashboardLayout_sendsTo] at h
            exact ⟨identity, rfl, leadsTo_eq_none.mp h⟩

end Request

/-! ## Following the redirects -/

/-- Where a registry lets every viewer land: nobody is turned away from the
projects for their role or from billing for their plan, and no one's way from
the first to the second can meet another's way back. -/
structure Registry.Landing (reg : Registry) : Prop where
  projects : ∀ role, ∀ plan ∈ reg.planKeys,
    (reg.guarded (str "/projects") role plan).isHidden = false
  billing : ∀ role, ∀ plan ∈ reg.planKeys,
    (reg.guarded (str "/billing") role plan).isLocked = false
  apart : (∀ role, ∀ plan ∈ reg.planKeys,
      (reg.guarded (str "/projects") role plan).isLocked = false) ∨
    ∀ role, ∀ plan ∈ reg.planKeys, (reg.guarded (str "/billing") role plan).isHidden = false

/-- How far a page is from where browsers land, when they land on `first`. -/
def standing (first second : JSString) (url : Url) : ℕ :=
  if url.pathname = str "/sign-in" then 0 else if url.pathname = first then 1
  else if url.pathname = second then 2 else 3

section Hops

open Hops

variable {reg : Registry} {router : Router}

theorem standing_le (first second : JSString) (url : Url) : standing first second url ≤ 3 := by
  unfold standing
  split
  · omega
  · split
    · omega
    · split <;> omega

/-- A redirect is nearer where browsers land, if a page turned away from is not
`first`, and is sent to `first` or from another page to `second`. -/
theorem standing_drop {first second : JSString} (hfirst : first ≠ str "/sign-in")
    (hsecond : second ≠ str "/sign-in") (hdistinct : second ≠ first) {now : reg.Moment}
    {url target : Url} (hnormal : router.normalized url = none)
    (h : Registry.sentOn router now url = some target)
    (hturn : ∀ role, (reg.guarded url.pathname role now.entitlements.plan).leadsTo = some target →
      url.pathname ≠ first ∧ (target.pathname = first ∨
        target.pathname = second ∧ url.pathname ≠ second)) :
    standing first second target < standing first second url := by
  rcases sentOn_cases hnormal h with ⟨htarget, hother⟩ | ⟨hpage, identity, -, hturned⟩
  · unfold standing
    rw [if_pos htarget, if_neg hother]
    split
    · omega
    · split <;> omega
  · have hsignIn : url.pathname ≠ str "/sign-in" := (dashboard_proxied hpage).2.2
    obtain ⟨hnot, htarget | ⟨htarget, hleft⟩⟩ := hturn identity.role hturned
    · unfold standing
      rw [htarget, if_neg hfirst, if_pos rfl, if_neg hsignIn, if_neg hnot]
      split <;> omega
    · unfold standing
      rw [htarget, if_neg hsecond, if_neg hdistinct, if_pos rfl, if_neg hsignIn, if_neg hnot,
        if_neg hleft]
      omega

/-- Nobody has to go from the projects to billing: every hop is nearer the projects. -/
theorem standing_drop_projects (hlanding : reg.Landing)
    (hopen : ∀ role, ∀ plan ∈ reg.planKeys,
      (reg.guarded (str "/projects") role plan).isLocked = false)
    (now : reg.Moment) (url target : Url) (hnormal : router.normalized url = none)
    (h : Registry.sentOn router now url = some target) :
    standing (str "/projects") (str "/billing") target <
      standing (str "/projects") (str "/billing") url := by
  apply standing_drop (by decide) (by decide) (by decide) hnormal h
  intro role hturned
  rcases leadsTo_eq_some hturned with ⟨hhidden, htarget⟩ | ⟨hlocked, htarget⟩
  · refine ⟨?_, .inl htarget⟩
    intro hsame
    rw [hsame, hlanding.projects _ _ now.declared] at hhidden
    cases hhidden
  · refine ⟨?_, .inr ⟨htarget, ?_⟩⟩
    · intro hsame
      rw [hsame, hopen _ _ now.declared] at hlocked
      cases hlocked
    · intro hsame
      rw [hsame, hlanding.billing _ _ now.declared] at hlocked
      cases hlocked

/-- Nobody has to go from billing to the projects: every hop is nearer billing. -/
theorem standing_drop_billing (hlanding : reg.Landing)
    (hopen : ∀ role, ∀ plan ∈ reg.planKeys,
      (reg.guarded (str "/billing") role plan).isHidden = false)
    (now : reg.Moment) (url target : Url) (hnormal : router.normalized url = none)
    (h : Registry.sentOn router now url = some target) :
    standing (str "/billing") (str "/projects") target <
      standing (str "/billing") (str "/projects") url := by
  apply standing_drop (by decide) (by decide) (by decide) hnormal h
  intro role hturned
  rcases leadsTo_eq_some hturned with ⟨hhidden, htarget⟩ | ⟨hlocked, htarget⟩
  · refine ⟨?_, .inr ⟨htarget, ?_⟩⟩
    · intro hsame
      rw [hsame, hopen _ _ now.declared] at hhidden
      cases hhidden
    · intro hsame
      rw [hsame, hlanding.projects _ _ now.declared] at hhidden
      cases hhidden
  · refine ⟨?_, .inl htarget⟩
    intro hsame
    rw [hsame, hlanding.billing _ _ now.declared] at hlocked
    cases hlocked

/-- Three redirects at most from a tidy path, whatever is answered in between. -/
theorem after_four_none (hrouter : router.Documented) (hlanding : reg.Landing)
    (worlds : ℕ → reg.Moment) {url : Url} (hnormal : router.normalized url = none) :
    after (Registry.sentOn router) worlds url 4 = none := by
  rcases hlanding.apart with hopen | hopen
  · have hbound : after (Registry.sentOn router) worlds url
        (standing (str "/projects") (str "/billing") url + 1) = none :=
      after_none_of_rank _ (fun _ _ _ hnormal h => ⟨normalized_of_sentOn hrouter hnormal h,
        standing_drop_projects hlanding hopen _ _ _ hnormal h⟩) hnormal
    have := standing_le (str "/projects") (str "/billing") url
    exact after_none_of_le hbound (by omega)
  · have hbound : after (Registry.sentOn router) worlds url
        (standing (str "/billing") (str "/projects") url + 1) = none :=
      after_none_of_rank _ (fun _ _ _ hnormal h => ⟨normalized_of_sentOn hrouter hnormal h,
        standing_drop_billing hlanding hopen _ _ _ hnormal h⟩) hnormal
    have := standing_le (str "/billing") (str "/projects") url
    exact after_none_of_le hbound (by omega)

/-- From any other path the router tidies it first, and that ends too. -/
theorem ends_of_landing (hrouter : router.Documented) (hlanding : reg.Landing)
    (worlds : ℕ → reg.Moment) (url : Url) :
    ∃ n, after (Registry.sentOn router) worlds url n = none := by
  induction url using hrouter.settles.induction generalizing worlds with
  | h url ih =>
      cases hnormal : router.normalized url with
      | none => exact ⟨4, after_four_none hrouter hlanding worlds hnormal⟩
      | some target =>
          have hfirst : Registry.sentOn router (worlds 0) url = some target := by
            unfold Registry.sentOn
            rw [hnormal]
          obtain ⟨n, hn⟩ := ih target hnormal fun k => worlds (k + 1)
          exact ⟨n + 1, (after_succ_of_next hfirst).trans hn⟩

/-! ### Registries that keep a browser hopping -/

/-- A signed-in caller of a role, on a plan. -/
def signedIn (role : OrgRole) {plan : PlanKey} (h : plan ∈ reg.planKeys) : reg.Moment where
  headers _ := none
  cookies := [sessionCookieName]
  uuid := str "request-1"
  identity := some { userId := str "ada", orgId := str "acme", role := role }
  entitlements := ⟨plan, fun _ => none⟩
  declared := h

/-- For somebody signed in, only the page's own guard sends a request on. -/
theorem sentOn_signedIn (hrouter : router.Documented) {role : OrgRole} {plan : PlanKey}
    (h : plan ∈ reg.planKeys) {url : Url} (hpage : url.pathname ∈ dashboardPages) :
    Registry.sentOn router (signedIn role h) url =
      (reg.guarded url.pathname role plan).leadsTo := by
  have hsession : hasSession (signedIn role h).cookies = true := by
    show hasSession [sessionCookieName] = true
    decide
  have hidentity : (signedIn role h).identity =
      some { userId := str "ada", orgId := str "acme", role := role } := rfl
  have hlayout : router.rendersLayout ((signedIn role h).request url) = true :=
    hrouter.renders _ rfl
  rw [sentOn_guarded (hrouter.leaves url (.inr hpage)) hpage hlayout hsession hidentity]
  rfl

/-- A page that is hidden from its viewer leads to the projects page. -/
theorem leadsTo_of_hidden {guarded : Guarded} (h : guarded.isHidden = true) :
    guarded.leadsTo = some ⟨str "/projects", []⟩ := by
  cases guarded with
  | hidden => exact congrArg some ofHref_projects
  | shown => cases h
  | locked resource => cases h

/-- A locked page leads to the billing page, which is told the resource. -/
theorem leadsTo_of_locked {pathname : JSString} {role : OrgRole} {plan : PlanKey}
    (h : (reg.guarded pathname role plan).isLocked = true) :
    ∃ resource, reg.resourceForPath pathname = some resource ∧
      (reg.guarded pathname role plan).leadsTo =
        some ⟨str "/billing", str "locked=" ++ resource⟩ := by
  unfold Registry.guarded at h ⊢
  cases hpath : reg.resourceForPath pathname with
  | none =>
      rw [hpath] at h
      cases h
  | some resource =>
      rw [hpath] at h
      refine ⟨resource, rfl, ?_⟩
      dsimp only at h ⊢
      split at h
      · cases h
      · rename_i hvisible
        rw [if_neg hvisible]
        split at h
        · rename_i hlocked
          rw [if_pos hlocked]
          exact congrArg some (ofHref_locked resource)
        · cases h

/-- A registry under which every navigation ends, in whatever moments, is one where viewers
land. -/
theorem landing_of_ends (hrouter : router.Documented)
    (hends : ∀ (worlds : ℕ → reg.Moment) url,
      ∃ n, after (Registry.sentOn router) worlds url n = none) : reg.Landing := by
  have hno : ∀ (v w : reg.Moment) (a b : Url), Registry.sentOn router v a = some b →
      Registry.sentOn router w b = some a → False := by
    intro v w a b hab hba
    obtain ⟨worlds, hforever⟩ := endless_of_exchange hab hba
    obtain ⟨n, hn⟩ := hends worlds a
    exact hforever n hn
  have hpage : str "/billing" ∈ dashboardPages := by decide
  refine ⟨?_, ?_, ?_⟩
  · intro role plan hplan
    by_contra hhidden
    rw [Bool.not_eq_false] at hhidden
    have hself : Registry.sentOn router (signedIn role hplan) ⟨str "/projects", []⟩ =
        some ⟨str "/projects", []⟩ := by
      rw [sentOn_signedIn hrouter hplan (by decide)]
      exact leadsTo_of_hidden hhidden
    exact hno _ _ _ _ hself hself
  · intro role plan hplan
    by_contra hlocked
    rw [Bool.not_eq_false] at hlocked
    obtain ⟨resource, -, hleads⟩ := leadsTo_of_locked hlocked
    have hself : Registry.sentOn router (signedIn role hplan)
        ⟨str "/billing", str "locked=" ++ resource⟩ =
        some ⟨str "/billing", str "locked=" ++ resource⟩ := by
      rw [sentOn_signedIn hrouter hplan hpage]
      exact hleads
    exact hno _ _ _ _ hself hself
  · by_contra hneither
    rw [not_or] at hneither
    simp only [not_forall, Bool.not_eq_false] at hneither
    obtain ⟨⟨role, plan, hplan, hlocked⟩, role', plan', hplan', hhidden⟩ := hneither
    obtain ⟨resource, -, hleads⟩ := leadsTo_of_locked hlocked
    have hthere : Registry.sentOn router (signedIn role hplan) ⟨str "/projects", []⟩ =
        some ⟨str "/billing", str "locked=" ++ resource⟩ := by
      rw [sentOn_signedIn hrouter hplan (by decide)]
      exact hleads
    have hback : Registry.sentOn router (signedIn role' hplan')
        ⟨str "/billing", str "locked=" ++ resource⟩ = some ⟨str "/projects", []⟩ := by
      rw [sentOn_signedIn hrouter hplan' hpage]
      exact leadsTo_of_hidden hhidden
    exact hno _ _ _ _ hthere hback

/-- **Where navigation ends.**  Every navigation ends, whatever sessions, roles and
plans are answered at each of its requests, exactly when the registry lets every
viewer land; and then one that the router does not begin by tidying its path takes
three redirects at most. -/
theorem redirects_end_iff (reg : Registry) (router : Router) (hrouter : router.Documented) :
    ((∀ (worlds : ℕ → reg.Moment) url, ∃ n, after (Registry.sentOn router) worlds url n = none) ↔
      reg.Landing) ∧
    ((∀ (worlds : ℕ → reg.Moment) url, ∃ n, after (Registry.sentOn router) worlds url n = none) →
      ∀ (worlds : ℕ → reg.Moment) url, router.normalized url = none →
        after (Registry.sentOn router) worlds url 4 = none) := by
  constructor
  · exact ⟨landing_of_ends hrouter, ends_of_landing hrouter⟩
  · intro hends worlds url hnormal
    exact after_four_none hrouter (landing_of_ends hrouter hends) worlds hnormal

/-- Does the layout guard each of its pages by some resource? -/
def Registry.CoversPages (reg : Registry) : Prop :=
  ∀ pathname ∈ dashboardPages, (reg.resourceForPath pathname).isSome = true

/-- The guard of a page is decided by the resource it belongs to. -/
theorem guarded_of_resource {pathname : JSString} {resource : ResourceKey}
    (h : reg.resourceForPath pathname = some resource) (role : OrgRole) (plan : PlanKey) :
    reg.guarded pathname role plan =
      if ¬ (reg.navAccess resource role ⟨plan, fun _ => none⟩).visible then .hidden
      else if (reg.navAccess resource role ⟨plan, fun _ => none⟩).locked then .locked resource
      else .shown := by
  unfold Registry.guarded
  rw [h]

/-- A resource is visible to the roles that reach its read, or its management. -/
theorem navAccess_visible {resource : ResourceKey} {role : OrgRole} {entitlements : Entitlements}
    (h : (reg.navAccess resource role entitlements).visible = true) :
    (reg.navAccess resource role entitlements).locked =
        !reg.isInPlan resource entitlements.plan ∧
      ∃ operation rule, (operation = .read ∨ operation = .manage) ∧
        reg.ruleFor resource operation = some rule ∧ roleAtLeast role rule.minRole = true := by
  unfold Registry.navAccess at h ⊢
  cases hfind : (reg.operationsOf resource).find? (fun operation =>
      operation == .read || operation == .manage) with
  | none =>
      rw [hfind] at h
      cases h
  | some operation =>
      rw [hfind] at h
      have hreadable := List.find?_some hfind
      obtain ⟨rule, hrule, hrole⟩ := (Option.any_eq_true _ _).mp h
      exact ⟨rfl, operation, rule, by simpa using hreadable, hrule, hrole⟩

/-- A page shown is one of a resource the viewer may read, in the viewer's plan. -/
theorem guarded_shown {pathname : JSString} {role : OrgRole} {plan : PlanKey}
    {resource : ResourceKey} (hpath : reg.resourceForPath pathname = some resource)
    (h : reg.guarded pathname role plan = .shown) :
    (∃ operation rule, (operation = .read ∨ operation = .manage) ∧
        reg.ruleFor resource operation = some rule ∧ roleAtLeast role rule.minRole = true) ∧
      reg.isInPlan resource plan = true := by
  rw [guarded_of_resource hpath] at h
  by_cases hvisible : (reg.navAccess resource role ⟨plan, fun _ => none⟩).visible = true
  · obtain ⟨hlocked, hrule⟩ := navAccess_visible hvisible
    rw [if_neg (not_not_intro hvisible), hlocked] at h
    refine ⟨hrule, ?_⟩
    by_contra hplan
    rw [if_pos (by simpa using hplan)] at h
    cases h
  · rw [if_pos hvisible] at h
    cases h

/-- **What navigation ends at.**  In a registry that lets viewers land and guards
every page, whatever the client's headers and whatever changes between its
requests, a navigation ends, after three redirects at most from a tidy path; and
if it ends at a dashboard page with its layout, the request that got it was from a
member whose role reaches the page's resource and whose plan includes it. -/
theorem navigation_ends_guarded (reg : Registry) (router : Router) (hrouter : router.Documented)
    (hlanding : reg.Landing) (hcovers : reg.CoversPages) (worlds : ℕ → reg.Moment) (url : Url) :
    ∃ n page, (router.normalized url = none → n ≤ 3) ∧
      after (Registry.sentOn router) worlds url n = some page ∧
      Registry.sentOn router (worlds n) page = none ∧
      (page.pathname ∈ dashboardPages → router.rendersLayout ((worlds n).request page) = true →
        ∃ identity resource operation rule, (worlds n).identity = some identity ∧
        reg.resourceForPath page.pathname = some resource ∧
        (operation = .read ∨ operation = .manage) ∧
        reg.ruleFor resource operation = some rule ∧
        roleAtLeast identity.role rule.minRole = true ∧
        reg.isInPlan resource (worlds n).entitlements.plan = true) := by
  obtain ⟨n, page, hbound, hafter, hserved⟩ : ∃ n page, (router.normalized url = none → n ≤ 3) ∧
      after (Registry.sentOn router) worlds url n = some page ∧
      Registry.sentOn router (worlds n) page = none := by
    by_cases hnormal : router.normalized url = none
    · obtain ⟨n, hn, page, hafter, hserved⟩ :=
        last_of_after_none (after_four_none hrouter hlanding worlds hnormal)
      exact ⟨n, page, fun _ => by omega, hafter, hserved⟩
    · obtain ⟨bound, hends⟩ := ends_of_landing hrouter hlanding worlds url
      obtain ⟨n, -, page, hafter, hserved⟩ := last_of_after_none hends
      exact ⟨n, page, fun h => absurd h hnormal, hafter, hserved⟩
  refine ⟨n, page, hbound, hafter, hserved, ?_⟩
  intro hpage hlayout
  obtain ⟨-, identity, hidentity, hshown⟩ :=
    served_dashboard (hrouter.leaves page (.inr hpage)) hpage hlayout hserved
  obtain ⟨resource, hresource⟩ := Option.isSome_iff_exists.mp (hcovers _ hpage)
  obtain ⟨⟨operation, rule, hoperation, hrule, hrole⟩, hplan⟩ := guarded_shown hresource hshown
  exact ⟨identity, resource, operation, rule, hidentity, hresource, hoperation, hrule, hrole, hplan⟩

/-! ### The shipped registry -/

/-- A question about a page that no role and no plan answers yes to. -/
theorem never_of_all (test : Guarded → Bool) {pathname : JSString}
    (h : (orgRoles.all fun role => reg.planKeys.all fun plan =>
      !test (reg.guarded pathname role plan)) = true) :
    ∀ role, ∀ plan ∈ reg.planKeys, test (reg.guarded pathname role plan) = false := by
  intro role plan hplan
  have hrole : role ∈ orgRoles := by cases role <;> decide
  simpa using List.all_eq_true.mp (List.all_eq_true.mp h role hrole) plan hplan

/-- In the shipped registry nobody is turned away from the projects, and billing
is never locked, so browsers land. -/
theorem registry_landing : registry.Landing where
  projects := never_of_all Guarded.isHidden (by decide)
  billing := never_of_all Guarded.isLocked (by decide)
  apart := .inl (never_of_all Guarded.isLocked (by decide))

/-- In the shipped registry every page of the dashboard belongs to a declared resource. -/
theorem registry_coversPages : registry.CoversPages := by
  have hall : (dashboardPages.all fun pathname =>
      (registry.resourceForPath pathname).isSome) = true := by decide
  exact List.all_eq_true.mp hall

/-- The default plan is one of the declared plans, by the registry's own invariant. -/
theorem Registry.defaultPlan_mem (reg : Registry) : reg.defaultPlan ∈ reg.planKeys :=
  reg.default_declared

/-- A router that takes one slash off a path's end, and renders the layout for
documents alone. -/
def plainRouter : Router where
  normalized url :=
    if 1 < url.pathname.length ∧ url.pathname.getLast? = some 47 then
      some { url with pathname := url.pathname.dropLast }
    else none
  rendersLayout request := (request.headers (str "rsc")).isNone

/-- It does what is documented of a router: it leaves tidy paths alone, tidying ends, and
documents have their layout. -/
theorem plainRouter_documented : plainRouter.Documented where
  leaves url hpath := by
    have hall : ((str "/sign-in" :: dashboardPages).all fun pathname =>
        pathname.getLast? != some 47) = true := by decide
    have htidy : url.pathname.getLast? ≠ some 47 :=
      bne_iff_ne.mp (List.all_eq_true.mp hall _ (List.mem_cons.mpr hpath))
    exact if_neg fun h => htidy h.2
  settles := by
    refine Subrelation.wf ?_ (measure fun url : Url => url.pathname.length).wf
    intro target url h
    unfold plainRouter at h
    dsimp only at h
    split at h
    · rename_i hlong
      obtain rfl := Option.some.inj h
      show url.pathname.dropLast.length < url.pathname.length
      rw [List.length_dropLast]
      omega
    · cases h
  renders request h := by
    show (request.headers (str "rsc")).isNone = true
    rw [h]
    rfl

/-- So every navigation of the shipped application ends, after three redirects at most from
a tidy path. -/
theorem shipped_redirects_end :
    (∀ (worlds : ℕ → registry.Moment) url,
      ∃ n, after (Registry.sentOn plainRouter) worlds url n = none) ∧
    ∀ (worlds : ℕ → registry.Moment) url, plainRouter.normalized url = none →
      after (Registry.sentOn plainRouter) worlds url 4 = none := by
  obtain ⟨hends, hbound⟩ := redirects_end_iff registry plainRouter plainRouter_documented
  exact ⟨hends.mpr registry_landing, hbound (hends.mpr registry_landing)⟩

/-- An admin on the free plan, made a member after the first two answers. -/
def demoted : ℕ → registry.Moment
  | 0 => signedIn .admin registry.defaultPlan_mem
  | 1 => signedIn .admin registry.defaultPlan_mem
  | _ => signedIn .member registry.defaultPlan_mem

/-- The path is tidied, the audit log is locked for the admin, billing is hidden from
the member, and the projects are there. -/
theorem demoted_lands :
    (∃ n page, (plainRouter.normalized ⟨str "/audit/", []⟩ = none → n ≤ 3) ∧
      after (Registry.sentOn plainRouter) demoted ⟨str "/audit/", []⟩ n = some page ∧
      Registry.sentOn plainRouter (demoted n) page = none ∧
      (page.pathname ∈ dashboardPages →
        plainRouter.rendersLayout ((demoted n).request page) = true →
        ∃ identity resource operation rule, (demoted n).identity = some identity ∧
        registry.resourceForPath page.pathname = some resource ∧
        (operation = .read ∨ operation = .manage) ∧
        registry.ruleFor resource operation = some rule ∧
        roleAtLeast identity.role rule.minRole = true ∧
        registry.isInPlan resource (demoted n).entitlements.plan = true)) ∧
      after (Registry.sentOn plainRouter) demoted ⟨str "/audit/", []⟩ 3 =
        some ⟨str "/projects", []⟩ := by
  refine ⟨navigation_ends_guarded registry plainRouter plainRouter_documented registry_landing
    registry_coversPages demoted _, ?_⟩
  have htidied : Registry.sentOn plainRouter (demoted 0) ⟨str "/audit/", []⟩ =
      some ⟨str "/audit", []⟩ := rfl
  have hlocked : Registry.sentOn plainRouter (demoted 1) ⟨str "/audit", []⟩ =
      some ⟨str "/billing", str "locked=auditLog"⟩ :=
    (sentOn_signedIn plainRouter_documented registry.defaultPlan_mem (by decide)).trans (by decide)
  have hhidden : Registry.sentOn plainRouter (demoted 2) ⟨str "/billing", str "locked=auditLog"⟩ =
      some ⟨str "/projects", []⟩ :=
    (sentOn_signedIn plainRouter_documented registry.defaultPlan_mem (by decide)).trans (by decide)
  have hfirst : after (Registry.sentOn plainRouter) demoted ⟨str "/audit/", []⟩ 1 =
      some ⟨str "/audit", []⟩ := htidied
  have hsecond : after (Registry.sentOn plainRouter) demoted ⟨str "/audit/", []⟩ 2 =
      some ⟨str "/billing", str "locked=auditLog"⟩ := (after_succ_of_some hfirst).trans hlocked
  rw [after_succ_of_some hsecond, hhidden]

end Hops

end Guardrail
