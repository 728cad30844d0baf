import GuardrailPlatform.RegistryData

/-!
# Operation names off the wire

`isOperationOf` narrows an untrusted string to an operation a resource declares.
It asks with `in`, and the operations of a resource are an ordinary object: the
answer is yes for the declared names, and for every name such an object
inherits.  `ruleFor` then finds the inherited function where it looks for a
rule, and `undefined` is all it refuses.
-/

namespace Guardrail

open Js

/-! ## Ordinary objects -/

/-- The properties of `Object.prototype`. -/
def objectPrototype : List JSString :=
  [str "constructor", str "__defineGetter__", str "__defineSetter__", str "hasOwnProperty",
   str "__lookupGetter__", str "__lookupSetter__", str "isPrototypeOf",
   str "propertyIsEnumerable", str "toString", str "valueOf", str "__proto__",
   str "toLocaleString"]

/-- What a name leads to on an ordinary object. -/
inductive Property (α : Type)
  | own (value : α)
  | inherited

/-- `object[name]`.  `none` is `undefined`. -/
def property? {α : Type} (own : JSString → Option α) (name : JSString) : Option (Property α) :=
  match own name with
  | some value => some (.own value)
  | none => if objectPrototype.contains name then some .inherited else none

/-- An object has a property of its own or finds it on the prototype every
object has. -/
theorem property?_isSome_iff {α : Type} {own : JSString → Option α} {name : JSString} :
    (property? own name).isSome = true ↔ (own name).isSome = true ∨ name ∈ objectPrototype := by
  unfold property?
  cases own name with
  | some value => simp
  | none => by_cases h : name ∈ objectPrototype <;> simp [h]

/-! ## The guard and the lookup -/

/-- The property an operation's rule is. -/
def declaredRule (d : ResourceDefinition) (name : JSString) : Option OperationRule :=
  operations.findSome? fun operation =>
    if operation.name == name then d.operations operation else none

namespace Registry

variable (reg : Registry)

/-- `isOperationOf`.  `none` is the throw on a resource that is not declared. -/
def isOperationOf (resource : ResourceKey) (value : Value) : Option Bool :=
  match value with
  | .string name => (reg.resource? resource).map fun d => (property? (declaredRule d) name).isSome
  | _ => some false

/-- `operationsOf`: what the guard lets through of the index, which `in` has filtered too. -/
def indexedOperations (resource : ResourceKey) : List Operation :=
  (operations.filter fun operation =>
    (reg.resource? resource).any fun d => (property? (declaredRule d) operation.name).isSome).filter
      fun operation => reg.isOperationOf resource (.string operation.name) == some true

/-- `ruleFor`, given a name.  `none` is the throw on a resource that is not declared. -/
def ruleForName (resource : ResourceKey) (name : JSString) :
    Option (Except JSString (Property OperationRule)) :=
  (reg.resource? resource).map fun d =>
    match property? (declaredRule d) name with
    | some found => .ok found
    | none =>
      .error (str "Undeclared operation " ++ name ++ str " on resource " ++ resource ++ str ".")

/-- A superseded endpoint's `resource:operation` that names nothing the registry declares. -/
def isDangling (entry : JSString) : Bool :=
  match entry.splitOn 58 with
  | resource :: operation :: _ =>
    !(reg.isResourceKey resource && reg.isOperationOf resource (.string operation) == some true)
  | _ => true

end Registry

/-! ## Names that are declared -/

variable {reg : Registry} {resource : ResourceKey} {d : ResourceDefinition} {name : JSString}

/-- A rule is declared under a name exactly where it is the rule of an operation so named.
-/
theorem declaredRule_eq_some {rule : OperationRule} : declaredRule d name = some rule ↔
    ∃ operation, operation.name = name ∧ d.operations operation = some rule := by
  rw [declaredRule]
  constructor
  · intro h
    obtain ⟨operation, -, hfound⟩ := List.exists_of_findSome?_eq_some h
    by_cases hname : operation.name == name
    · rw [if_pos hname] at hfound
      exact ⟨operation, beq_iff_eq.mp hname, hfound⟩
    · rw [if_neg hname] at hfound
      cases hfound
  · intro h
    obtain ⟨operation, rfl, hrule⟩ := h
    have hown : ∀ other : Operation, (if other.name == operation.name then d.operations other
        else none) = if other = operation then some rule else none := by
      intro other
      by_cases hother : other = operation
      · rw [hother, if_pos rfl, if_pos (beq_self_eq_true _), hrule]
      · rw [if_neg hother, if_neg]
        intro hname
        exact hother (Operation.name_injective (beq_iff_eq.mp hname))
    simp only [hown]
    cases operation <;> rfl

/-- Looking a rule up by an operation's name finds the rule that the registry gives. -/
theorem declaredRule_name (hd : reg.resource? resource = some d) (operation : Operation) :
    declaredRule d operation.name = reg.ruleFor resource operation := by
  apply Option.ext
  intro rule
  rw [declaredRule_eq_some, Registry.ruleFor, hd, Option.bind_some]
  constructor
  · intro h
    obtain ⟨other, hname, hrule⟩ := h
    rwa [← Operation.name_injective hname]
  · exact fun hrule => ⟨operation, rfl, hrule⟩

/-- A name has a rule of its own exactly where it is that of an operation the resource
declares. -/
theorem declaredRule_isSome_iff (hd : reg.resource? resource = some d) :
    (declaredRule d name).isSome = true ↔
      ∃ operation ∈ reg.operationsOf resource, operation.name = name := by
  rw [Option.isSome_iff_exists]
  constructor
  · intro h
    obtain ⟨rule, hrule⟩ := h
    obtain ⟨operation, rfl, -⟩ := declaredRule_eq_some.mp hrule
    rw [declaredRule_name hd] at hrule
    exact ⟨operation, Registry.mem_operationsOf.mpr ⟨rule, hrule⟩, rfl⟩
  · intro h
    obtain ⟨operation, hmem, rfl⟩ := h
    rw [declaredRule_name hd]
    exact Registry.mem_operationsOf.mp hmem

/-- No operation has the name of a property that every object inherits. -/
theorem operation_name_notMem (operation : Operation) : operation.name ∉ objectPrototype := by
  cases operation <;> decide

/-- The guard passes the declared names, and those that every object inherits. -/
theorem isOperationOf_iff (hd : reg.resource? resource = some d) :
    reg.isOperationOf resource (.string name) = some true ↔
      (∃ operation ∈ reg.operationsOf resource, operation.name = name) ∨
        name ∈ objectPrototype := by
  rw [← declaredRule_isSome_iff hd, ← property?_isSome_iff, Registry.isOperationOf, hd, Option.map_some,
    Option.some.injEq]

/-- The index holds the declared operations: none of its names is inherited. -/
theorem indexedOperations_eq (hd : reg.resource? resource = some d) :
    reg.indexedOperations resource = reg.operationsOf resource := by
  have hown : ∀ operation : Operation, (property? (declaredRule d) operation.name).isSome =
      (reg.ruleFor resource operation).isSome := by
    intro operation
    rw [Bool.eq_iff_iff, property?_isSome_iff, or_iff_left (operation_name_notMem operation),
      declaredRule_name hd]
  rw [Registry.indexedOperations, List.filter_filter, Registry.operationsOf]
  apply List.filter_congr
  intro operation _
  rw [Registry.isOperationOf, hd, Option.any_some, Option.map_some, hown]
  cases (reg.ruleFor resource operation).isSome <;> rfl

/-- An endpoint is superseded by nothing declared, and goes unnoticed, only under
an inherited name. -/
theorem isDangling_iff {operation : JSString} {rest : List JSString}
    (hd : reg.resource? resource = some d) {entry : JSString}
    (hentry : entry.splitOn 58 = resource :: operation :: rest) :
    reg.isDangling entry = true ↔
      (∀ declared ∈ reg.operationsOf resource, declared.name ≠ operation) ∧
        operation ∉ objectPrototype := by
  have hkey : reg.isResourceKey resource = true := Registry.isResourceKey_iff.mpr ⟨d, hd⟩
  rw [Registry.isDangling, hentry]
  dsimp only
  rw [hkey]
  simp only [Bool.true_and, Bool.not_eq_true', beq_eq_false_iff_ne, ne_eq, isOperationOf_iff hd]
  rw [not_or]
  apply and_congr_left'
  simp only [not_exists, not_and]

/-- **Operation names.**  The guard lets through the declared names and finds
their rules, for every name but those an object inherits. -/
theorem operation_names_iff (hd : reg.resource? resource = some d) (name : JSString) :
    ((reg.isOperationOf resource (.string name) = some true ↔
        ∃ operation ∈ reg.indexedOperations resource, operation.name = name) ∧
      (reg.isOperationOf resource (.string name) = some true →
        ∃ operation rule, operation.name = name ∧ reg.ruleFor resource operation = some rule ∧
          reg.ruleForName resource name = some (.ok (.own rule)))) ↔
      name ∉ objectPrototype := by
  rw [indexedOperations_eq hd]
  constructor
  · intro h hinherited
    obtain ⟨operation, -, rfl⟩ := h.1.mp ((isOperationOf_iff hd).mpr (.inr hinherited))
    exact operation_name_notMem operation hinherited
  · intro hname
    have hguard : reg.isOperationOf resource (.string name) = some true ↔
        ∃ operation ∈ reg.operationsOf resource, operation.name = name := by
      rw [isOperationOf_iff hd, or_iff_left hname]
    refine ⟨hguard, fun h => ?_⟩
    obtain ⟨operation, hmem, rfl⟩ := hguard.mp h
    obtain ⟨rule, hrule⟩ := Registry.mem_operationsOf.mp hmem
    refine ⟨operation, rule, rfl, hrule, ?_⟩
    rw [Registry.ruleForName, hd, Option.map_some, property?, declaredRule_name hd, hrule]

/-- The registry says of `create` that it is an operation of projects, as the theorem says.
-/
theorem project_create_named :
    registry.isOperationOf (str "project") (.string (str "create")) = some true := by
  have hdeclared : (registry.resource? (str "project")).isSome = true := by decide
  obtain ⟨d, hd⟩ := Option.isSome_iff_exists.mp hdeclared
  apply ((operation_names_iff hd (str "create")).mpr (by decide)).1.mpr
  rw [indexedOperations_eq hd]
  exact ⟨.create, by decide, rfl⟩

/-- `toString` passes for an operation on projects, and its rule is no rule. -/
theorem toString_passes :
    registry.isOperationOf (str "project") (.string (str "toString")) = some true ∧
    (∀ operation ∈ registry.indexedOperations (str "project"),
      operation.name ≠ str "toString") ∧
    registry.ruleForName (str "project") (str "toString") = some (.ok .inherited) := by
  refine ⟨by decide, by decide, rfl⟩

end Guardrail
