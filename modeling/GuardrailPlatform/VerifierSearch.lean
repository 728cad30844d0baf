import GuardrailPlatform.JsValue
import GuardrailPlatform.LinkedSearch

/-!
# The search for a verifier

The architecture check follows the handler of a bus subscription through its
syntax tree, and through the constants of the file, to a call of one of the two
verifiers.  Constants may refer to each other in cycles; the search is that of
`LinkedSearch`, so it ends and is exact.
-/

namespace Guardrail.VerifierSearch

open Js

/-! ## Syntax trees -/

/-- What stands behind the dot of a property access. -/
inductive MemberName
  | identifier (text : JSString)
  | privateIdentifier (text : JSString)

/-- A node of the compiler's tree; a token is one without children. -/
inductive Node
  | identifier (text : JSString)
  /-- `expression(...)`, with the type arguments and the arguments in `rest`. -/
  | call (expression : Node) (rest : List Node)
  /-- `expression.name`, with the question mark in `between` when there is one. -/
  | propertyAccess (expression : Node) (between : List Node) (name : MemberName)
  | other (children : List Node)

def MemberName.text : MemberName → JSString
  | .identifier text => text
  | .privateIdentifier text => text

def MemberName.node : MemberName → Node
  | .identifier text => .identifier text
  | .privateIdentifier _ => .other []

namespace Node

/-- What `ts.forEachChild` visits. -/
def children : Node → List Node
  | identifier _ => []
  | call expression rest => expression :: rest
  | propertyAccess expression between name => expression :: between ++ [name.node]
  | other children => children

mutual

def depth : Node → ℕ
  | identifier _ => 1
  | call expression rest => depthAll rest + expression.depth + 1
  | propertyAccess expression between _ => depthAll between + expression.depth + 2
  | other children => depthAll children + 1

def depthAll : List Node → ℕ
  | [] => 0
  | node :: rest => node.depth + depthAll rest

end

end Node

/-- A map of names to expressions, the last set first. -/
abbrev Values := List (JSString × Node)

/-- A statement at the top level: the declarations of a variable statement, each with the name when
it is an identifier and the initializer when it has one, or another. -/
inductive Statement
  | variables (declarations : List (Option JSString × Option Node))
  | other

/-- What a declaration sets. -/
def declared : Option JSString × Option Node → Option (JSString × Node)
  | (some name, some initializer) => some (name, initializer)
  | _ => none

/-- `topLevelValues`. -/
def topLevelValues (statements : List Statement) : Values :=
  (statements.flatMap fun
    | .variables declarations => declarations.filterMap declared
    | .other => []).reverse

/-- What a name is bound to is the initializer of one of its declarations. -/
theorem declared_of_lookup {statements : List Statement} {name : JSString} {initializer : Node}
    (h : (topLevelValues statements).lookup name = some initializer) :
    ∃ declarations, .variables declarations ∈ statements ∧
      (some name, some initializer) ∈ declarations := by
  have hmem := mem_of_lookup h
  rw [topLevelValues, List.mem_reverse, List.mem_flatMap] at hmem
  obtain ⟨statement, hstatement, hset⟩ := hmem
  rcases statement with declarations | _
  · obtain ⟨⟨bound, given⟩, hdeclaration, hdeclared⟩ := List.mem_filterMap.mp hset
    cases bound with
    | none => cases hdeclared
    | some bound =>
        cases given with
        | none => cases hdeclared
        | some given =>
            obtain ⟨rfl, rfl⟩ := Prod.mk.inj (Option.some.inj hdeclared)
            exact ⟨declarations, hstatement, hdeclaration⟩
  · cases hset

/-! ## The search -/

/-- `CONSUMER_WRAPPER`. -/
def consumerWrapper : JSString := str "defineConsumer"

/-- `SERVICE_FACTORY`. -/
def serviceFactory : JSString := str "defineService"

/-- `SERVICE_ENTRY`. -/
def serviceEntry : JSString := str "handle"

/-- A call of `defineService`. -/
def isServiceCall : Node → Bool
  | .call (.identifier text) _ => text == serviceFactory
  | _ => false

/-- The tests `reachesVerifier` makes on a call. -/
def isVerifierCall (values : Values) : Node → Bool
  | .call (.identifier text) _ => text == consumerWrapper
  | .call (.propertyAccess (.identifier text) _ name) _ =>
    name.text == serviceEntry && ((values.lookup text).map isServiceCall).getD false
  | _ => false

/-- The callback of `ts.forEachChild`, which visits every child whatever it finds. -/
def forEachChild (visit : Node → List JSString → Option (Bool × List JSString)) :
    List Node → List JSString → Option (Bool × List JSString)
  | [], seen => some (false, seen)
  | child :: rest, seen =>
    match visit child seen with
    | none => none
    | some (hit, seen) =>
      match forEachChild visit rest seen with
      | none => none
      | some (found, seen) => some (hit || found, seen)

/-- `reachesVerifier`, to a limited depth of calls, with the set as it leaves it. -/
def reachesVerifier (values : Values) : ℕ → Node → List JSString → Option (Bool × List JSString)
  | 0, _, _ => none
  | depth + 1, .identifier text, seen =>
    match values.lookup text with
    | none => some (false, seen)
    | some bound =>
      if seen.contains text then some (false, seen)
      else reachesVerifier values depth bound (text :: seen)
  | depth + 1, node, seen =>
    if isVerifierCall values node then some (true, seen)
    else forEachChild (reachesVerifier values depth) node.children seen

/-! ## What it searches for -/

/-- A verifier call. -/
inductive VerifierCall (values : Values) : Node → Prop
  | consumer (rest : List Node) : VerifierCall values (.call (.identifier (str "defineConsumer")) rest)
  | handle {x : JSString} {arguments : List Node} (between : List Node) {name : MemberName}
      (rest : List Node) :
      name.text = str "handle" →
      values.lookup x = some (.call (.identifier (str "defineService")) arguments) →
        VerifierCall values (.call (.propertyAccess (.identifier x) between name) rest)

/-- From a node that is no identifier to a child, and from an identifier to the expression bound
to it. -/
inductive Step (values : Values) : Node → Node → Prop
  | child {node child : Node} : (∀ text, node ≠ .identifier text) → child ∈ node.children →
      Step values node child
  | bound {text : JSString} {bound : Node} : values.lookup text = some bound →
      Step values (.identifier text) bound

/-- The search looks for calls of what is named `defineService` itself, and for no others.
-/
theorem isServiceCall_iff (node : Node) : isServiceCall node = true ↔
    ∃ arguments, node = .call (.identifier (str "defineService")) arguments := by
  constructor
  · intro h
    unfold isServiceCall at h
    split at h
    · rename_i text arguments
      obtain rfl : text = serviceFactory := eq_of_beq h
      exact ⟨arguments, rfl⟩
    · cases h
  · intro h
    obtain ⟨arguments, rfl⟩ := h
    exact beq_self_eq_true serviceFactory

/-- The tests that the code makes of a node find the verifier calls and nothing else. -/
theorem isVerifierCall_iff (values : Values) (node : Node) :
    isVerifierCall values node = true ↔ VerifierCall values node := by
  constructor
  · intro h
    unfold isVerifierCall at h
    split at h
    · rename_i text rest
      obtain rfl : text = consumerWrapper := eq_of_beq h
      exact VerifierCall.consumer rest
    · rename_i text between name rest
      obtain ⟨hname, hbound⟩ := (Bool.and_eq_true _ _).mp h
      cases hlookup : values.lookup text with
      | none => simp [hlookup] at hbound
      | some bound =>
          rw [hlookup, Option.map_some, Option.getD_some] at hbound
          obtain ⟨arguments, rfl⟩ := (isServiceCall_iff bound).mp hbound
          exact VerifierCall.handle between rest (eq_of_beq hname) hlookup
    · cases h
  · intro h
    cases h with
    | consumer rest => exact beq_self_eq_true consumerWrapper
    | handle between rest hname hlookup =>
        rw [isVerifierCall, hlookup, Option.map_some, Option.getD_some,
          (isServiceCall_iff _).mpr ⟨_, rfl⟩, Bool.and_true, hname]
        exact beq_self_eq_true serviceEntry

/-! ## As a search in linked trees -/

namespace Node

/-- A node has some depth, so fuel for it is fuel for a step. -/
theorem depth_pos (node : Node) : 0 < node.depth := by
  cases node <;> simp only [depth] <;> omega

/-- A list of nodes is at least as deep as each node in it. -/
theorem depth_le_depthAll {node : Node} {nodes : List Node} (h : node ∈ nodes) :
    node.depth ≤ depthAll nodes := by
  induction nodes with
  | nil => cases h
  | cons first rest ih =>
      rw [depthAll]
      rcases List.mem_cons.mp h with rfl | h
      · omega
      · have hrest := ih h
        omega

/-- A child is less deep than its parent, so the walk down ends. -/
theorem depth_child (node child : Node) (h : child ∈ node.children) : child.depth < node.depth := by
  cases node with
  | identifier text => cases h
  | call expression rest =>
      rw [depth]
      rcases List.mem_cons.mp h with rfl | h
      · omega
      · have hrest := depth_le_depthAll h
        omega
  | propertyAccess expression between name =>
      have hpos := expression.depth_pos
      rw [depth]
      rcases List.mem_append.mp h with h | h
      · rcases List.mem_cons.mp h with rfl | h
        · omega
        · have hbetween := depth_le_depthAll h
          omega
      · rw [List.mem_singleton.mp h]
        cases name <;> simp only [MemberName.node, depth, depthAll] <;> omega
  | other children =>
      rw [depth]
      exact Nat.lt_succ_of_le (depth_le_depthAll h)

/-- The name of an identifier. -/
def name? : Node → Option JSString
  | identifier text => some text
  | _ => none

/-- A node shows no name exactly where it is not an identifier. -/
theorem name?_eq_none_iff (node : Node) : node.name? = none ↔ ∀ text, node ≠ .identifier text := by
  cases node <;> simp [name?]

/-- A node has a name exactly where it is the identifier of that name. -/
theorem name?_eq_some_iff (node : Node) (text : JSString) :
    node.name? = some text ↔ node = .identifier text := by
  cases node <;> simp [name?]

end Node

/-- A name that is bound is one of the names that the search may see. -/
theorem mem_names {values : Values} {text : JSString} {bound : Node}
    (h : values.lookup text = some bound) : text ∈ values.map Prod.fst := by
  obtain ⟨before, after, rfl, -⟩ := List.lookup_eq_some_iff.mp h
  simp

/-- A file's trees, linked by its constants. -/
def trees (values : Values) : LinkedSearch.Trees Node JSString where
  children := Node.children
  name := Node.name?
  bound := fun text => values.lookup text
  goal := isVerifierCall values
  depth := Node.depth
  depth_pos := Node.depth_pos
  depth_child := Node.depth_child
  names := values.map Prod.fst
  mem_names := fun _ _ h => mem_names h

/-- The source's visitor of children is the library's visit of the list of them. -/
theorem forEachChild_eq_visit (run : Node → List JSString → Option (Bool × List JSString))
    (nodes : List Node) (seen : List JSString) :
    forEachChild run nodes seen = LinkedSearch.visit run nodes seen := by
  induction nodes generalizing seen with
  | nil => rfl
  | cons node rest ih =>
      rw [forEachChild, LinkedSearch.visit]
      cases run node seen with
      | none => rfl
      | some first =>
          simp only [Option.bind_some, ih]
          cases LinkedSearch.visit run rest first.2 <;> rfl

/-- At a node that is no name, the search checks the node and goes to its
children. -/
theorem reachesVerifier_inner {values : Values} {node : Node} (h : node.name? = none) (fuel : ℕ)
    (seen : List JSString) :
    reachesVerifier values (fuel + 1) node seen =
      if isVerifierCall values node then some (true, seen)
      else forEachChild (reachesVerifier values fuel) node.children seen := by
  cases node with
  | identifier text => cases h
  | call expression rest => rfl
  | propertyAccess expression between name => rfl
  | other children => rfl

/-- **The code's search** is the search in linked trees, with the names it has seen as its
marks. -/
theorem reachesVerifier_eq_search (values : Values) (fuel : ℕ) (node : Node) (seen : List JSString) :
    reachesVerifier values fuel node seen = LinkedSearch.search (trees values) fuel node seen := by
  induction fuel generalizing node seen with
  | zero => rfl
  | succ fuel ih =>
      have hrun : reachesVerifier values fuel = LinkedSearch.search (trees values) fuel :=
        funext fun n => funext fun s => ih n s
      rw [LinkedSearch.search]
      cases hname : node.name? with
      | some text =>
          obtain rfl := (Node.name?_eq_some_iff node text).mp hname
          cases hbound : values.lookup text with
          | none => simp [reachesVerifier, trees, Node.name?, hbound]
          | some bound => simp [reachesVerifier, trees, Node.name?, hbound, ih]
      | none =>
          have hinner : (trees values).name node = none := hname
          rw [reachesVerifier_inner hname, forEachChild_eq_visit, hrun]
          simp only [hinner]
          rfl

/-- The steps of the source's search, to children and through bindings, are those of the
library. -/
theorem step_iff (values : Values) (a b : Node) :
    LinkedSearch.Step (trees values) a b ↔ Step values a b := by
  constructor
  · intro h
    cases h with
    | child hname hmem => exact Step.child ((Node.name?_eq_none_iff a).mp hname) hmem
    | bound hname hbound =>
        obtain rfl := (Node.name?_eq_some_iff a _).mp hname
        exact Step.bound hbound
  · intro h
    cases h with
    | child hname hmem => exact LinkedSearch.Step.child ((Node.name?_eq_none_iff a).mpr hname) hmem
    | bound hbound => exact LinkedSearch.Step.bound rfl hbound

/-- To reach in the library's sense is to reach a call of the verifier. -/
theorem reaches_iff (values : Values) (node : Node) :
    LinkedSearch.Reaches (trees values) node ↔
      ∃ call, Relation.ReflTransGen (Step values) node call ∧ VerifierCall values call := by
  have hstep : LinkedSearch.Step (trees values) = Step values :=
    funext fun a => funext fun b => propext (step_iff values a b)
  rw [LinkedSearch.Reaches, hstep]
  constructor
  · intro h
    obtain ⟨call, hpath, -, hcall⟩ := h
    exact ⟨call, hpath, (isVerifierCall_iff values call).mp hcall⟩
  · intro h
    obtain ⟨call, hpath, hcall⟩ := h
    refine ⟨call, hpath, ?_, (isVerifierCall_iff values call).mpr hcall⟩
    cases hcall <;> rfl

/-- **Exact, and it ends.**  From some depth of calls on the search gives one result, and it is
true just when a verifier call is reached. -/
theorem reachesVerifier_exact (values : Values) (node : Node) :
    ∃ depth found seen,
      (∀ fuel ≥ depth, reachesVerifier values fuel node [] = some (found, seen)) ∧
        (found = true ↔
          ∃ call, Relation.ReflTransGen (Step values) node call ∧ VerifierCall values call) := by
  obtain ⟨found, seen, hends, hexact⟩ := LinkedSearch.search_exact (trees values) node
  refine ⟨node.depth + LinkedSearch.unseen (trees values) [] (values.map Prod.fst), found, seen,
    fun fuel hfuel => ?_, hexact.trans (reaches_iff values node)⟩
  rw [reachesVerifier_eq_search]
  exact hends fuel hfuel

end Guardrail.VerifierSearch
