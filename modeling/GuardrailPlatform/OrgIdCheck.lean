import GuardrailPlatform.ContractSource
import GuardrailPlatform.Slugs

/-!
# The org-id check of the contracts

`guardrail-check.ts` reads each operation's input: it follows the chain down to
`z.object`, through constants of the file, and reports every property it finds
under an org id's name, or a chain it cannot follow.

The chain is all it follows.  A field also comes in through an argument that is
a name, a spread, a computed name, or an input that is no plain property, and the
check reads none of these; nor does it mind a schema that lets any field through.
On a file it has nothing to report for, an input accepts an org id exactly where
one comes in so (`contract_inputs_iff`).
-/

namespace Guardrail.ContractSource

open Js

/-! ## The check -/

structure Report where
  rule : JSString
  message : JSString

/-- `/^(?:org|organization|organisation|tenant)id$/`. -/
def orgIdAliases : List JSString :=
  [str "orgid", str "organizationid", str "organisationid", str "tenantid"]

/-- `isOrgIdName`.  `toLowerCase` is the language's. -/
def isOrgIdName (toLowerCase : JSString → JSString) (name : JSString) : Bool :=
  orgIdAliases.contains (toLowerCase (name.filter fun u => !([95, 45, 32].contains u)))

mutual

/-- The property names `scanForOrgId` comes by, in its order. -/
def scanned : Expr → List JSString
  | .ident _ => []
  | .text _ => []
  | .literal _ => []
  | .access owner _ => scanned owner
  | .call callee args => scanned callee ++ if isOmit callee then [] else scannedAll args
  | .paren inner => scanned inner
  | .assertion inner => scanned inner
  | .object members => scannedMembers members
  | .array items => scannedAll items
  | .function parts => scannedAll parts
  | .other parts => scannedAll parts

def scannedAll : List Expr → List JSString
  | [] => []
  | e :: es => scanned e ++ scannedAll es

def scannedMember : Member → List JSString
  | .property name value => name :: scanned value
  | .computed key value => scanned key ++ scanned value
  | .shorthand name => [name]
  | .spread value => scanned value

def scannedMembers : List Member → List JSString
  | [] => []
  | m :: ms => scannedMember m ++ scannedMembers ms

end

section

variable (toLowerCase : JSString → JSString)

def orgIdReport (name : JSString) : Report :=
  { rule := str "no-org-id-in-input"
    message := str "'" ++ name ++ str "' is an org id in a contract input. Delete it from the input schema and read ctx.orgId, which the gateway takes from the session and signs into the envelope." }

def scanForOrgId (root : Expr) : List Report :=
  ((scanned root).filter (isOrgIdName toLowerCase)).map orgIdReport

/-- Where a chain ends. -/
inductive Root
  /-- `z.object`. -/
  | zObject
  | name (name : JSString)
  | computed

/-- The identifier `z`. -/
def isZ : Expr → Bool
  | .ident name => name == str "z"
  | _ => false

/-- Walk a chain of calls, parentheses and accesses down to its root. -/
def root : Expr → Root
  | .call callee _ => root callee
  | .paren inner => root inner
  | .access owner name => if name == str "object" && isZ owner then .zObject else root owner
  | .ident name => .name name
  | _ => .computed

/-- `topLevelValues`. -/
def topLevelValues (statements : List TopLevel) : List (JSString × Expr) :=
  statements.filterMap fun statement => statement.name.map fun name => (name, statement.value)

/-- The constants that are left when one has been followed. -/
def without (values : List (JSString × Expr)) (name : JSString) : List (JSString × Expr) :=
  values.filter fun entry => entry.1 != name

/-- A name is followed only once: the bindings that are left are fewer. -/
theorem length_without_lt {values : List (JSString × Expr)} {name : JSString} {value : Expr}
    (h : values.lookup name = some value) : (without values name).length < values.length := by
  apply List.length_filter_lt_length_iff_exists.mpr
  exact ⟨(name, value), mem_of_lookup h, by simp⟩

/-- `rootedInZObject`, with the expressions to scan.  A constant that has been
followed is not followed again. -/
def rootedInZObject (values : List (JSString × Expr)) (e : Expr) : Bool × List Expr :=
  match root e with
  | .zObject => (true, [e])
  | .computed => (false, [e])
  | .name name =>
    match _hfound : values.lookup name with
    | none => (false, [e])
    | some value =>
      let followed := rootedInZObject (without values name) value
      (followed.1, e :: followed.2)
termination_by values.length
decreasing_by exact length_without_lt _hfound

section Rooted

variable {values : List (JSString × Expr)} {e value : Expr} {name : JSString}

/-- A chain that starts at `z.object` ends the walk at once, and with success. -/
theorem rooted_zObject (h : root e = .zObject) : rootedInZObject values e = (true, [e]) := by
  rw [rootedInZObject, h]

/-- A chain whose root is computed ends the walk with a report. -/
theorem rooted_computed (h : root e = .computed) : rootedInZObject values e = (false, [e]) := by
  rw [rootedInZObject, h]

/-- A name the file does not bind ends the walk: an import, or a typo. -/
theorem rooted_undeclared (h : root e = .name name) (hnone : values.lookup name = none) :
    rootedInZObject values e = (false, [e]) := by
  rw [rootedInZObject, h]
  dsimp only
  split
  · rfl
  · rename_i hsome
    rw [hnone] at hsome
    cases hsome

/-- A name the file binds is followed to its value, and not followed again. -/
theorem rooted_declared (h : root e = .name name) (hsome : values.lookup name = some value) :
    rootedInZObject values e = ((rootedInZObject (without values name) value).1,
      e :: (rootedInZObject (without values name) value).2) := by
  rw [rootedInZObject, h]
  dsimp only
  split
  · rename_i hnone
    rw [hnone] at hsome
    cases hsome
  · rename_i found hfound
    rw [hsome] at hfound
    rw [Option.some.inj hfound]

end Rooted

def indirectReport : Report :=
  { rule := str "no-indirect-contract-input"
    message := str "A contract input must be an inline z.object(\x7b ... \x7d) here, or a chain built on one declared in this file. An imported or computed schema hides its fields from the org-id check - inline the object in this contract." }

def checkContractInput (values : List (JSString × Expr)) (value : Expr) : List Report :=
  (if (rootedInZObject values value).1 then [] else [indirectReport]) ++
    (rootedInZObject values value).2.flatMap (scanForOrgId toLowerCase)

/-- What is reported for one member of an operation. -/
def checkMember (values : List (JSString × Expr)) : Member → List Report
  | .property name value => if name = str "input" then checkContractInput toLowerCase values value else []
  | _ => []

/-- `contractInputs`, for a file whose name ends in `.contract.ts`. -/
def contractInputs (file : ContractFile) : List Report :=
  file.statements.flatMap fun statement =>
    (literals statement.value).flatMap fun members =>
      if isChecked members then
        members.flatMap (checkMember toLowerCase (topLevelValues file.statements))
      else []

end

/-! ## What a scan reads -/

namespace Val

mutual

/-- Every name in a value, whether it is accepted or not. -/
def names : Val → List FieldName
  | zod => []
  | schema fields rest => fieldNames fields ++ rest.names
  | enumeration _ => []
  | record fields => fieldNames fields
  | list items => namesAll items
  | text _ => []
  | method owner _ => names owner
  | plain _ => []

def fieldNames : List (FieldName × Val) → List FieldName
  | [] => []
  | (name, v) :: fields => name :: (names v ++ fieldNames fields)

def namesAll : List Val → List FieldName
  | [] => []
  | v :: vs => names v ++ namesAll vs

end

/-- The names of some fields are the fields' own and those further in. -/
theorem mem_fieldNames {fields : List Field} {n : FieldName} :
    n ∈ fieldNames fields ↔ ∃ field ∈ fields, n = field.1 ∨ n ∈ field.2.names := by
  induction fields with
  | nil => simp [fieldNames]
  | cons field fields ih =>
      obtain ⟨name, v⟩ := field
      rw [fieldNames, List.mem_cons, List.mem_append, ih]
      simp only [List.mem_cons, exists_eq_or_imp, or_assoc]

/-- The names in a list of values are those in each of them. -/
theorem mem_namesAll {vs : List Val} {n : FieldName} :
    n ∈ namesAll vs ↔ ∃ v ∈ vs, n ∈ v.names := by
  induction vs with
  | nil => simp [namesAll]
  | cons v vs ih =>
      rw [namesAll, List.mem_append, ih]
      simp only [List.mem_cons, exists_eq_or_imp]

mutual

/-- What a value accepts as a schema has no names but those of the value. -/
theorem accepted_subset : ∀ v : Val, ∀ n ∈ v.accepted.names, n ∈ v.names
  | zod, n, h => absurd h List.not_mem_nil
  | schema fields rest, n, h => by
      rw [names, List.mem_append]
      exact (List.mem_append.mp h).imp_left (acceptedFields_subset fields n)
  | enumeration _, n, h => absurd h List.not_mem_nil
  | record _, n, h => absurd h List.not_mem_nil
  | list _, n, h => absurd h List.not_mem_nil
  | text _, n, h => absurd h List.not_mem_nil
  | method _ _, n, h => absurd h List.not_mem_nil
  | plain _, n, h => absurd h List.not_mem_nil

/-- What a record of fields accepts is among the names it holds. -/
theorem acceptedFields_subset : ∀ fields : List (FieldName × Val),
    ∀ n ∈ (acceptedFields fields).names, n ∈ fieldNames fields
  | [], n, h => absurd h List.not_mem_nil
  | (name, v) :: fields, n, h => by
      rw [fieldNames, List.mem_cons, List.mem_append]
      rcases List.mem_append.mp h with h | h
      · exact (List.mem_cons.mp h).imp_right fun h => .inl (accepted_subset v n h)
      · exact .inr (.inr (acceptedFields_subset fields n h))

end

mutual

/-- What is brought in by a route has the same names, brought in by it. -/
theorem names_brought (route : Route) : ∀ v : Val,
    (v.brought route).names = v.names.map (FieldName.brought route)
  | zod => rfl
  | schema fields rest => by
      rw [brought, names, names, List.map_append, fieldNames_brought route fields]
      rfl
  | enumeration _ => rfl
  | record fields => by rw [brought, names, names, fieldNames_brought route fields]
  | list items => by rw [brought, names, names, namesAll_brought route items]
  | text _ => rfl
  | method owner name => by rw [brought, names, names, names_brought route owner]
  | plain _ => rfl

/-- Bringing fields in by a route marks every name in them with that route. -/
theorem fieldNames_brought (route : Route) : ∀ fields : List (FieldName × Val),
    fieldNames (broughtFields route fields) = (fieldNames fields).map (FieldName.brought route)
  | [] => rfl
  | (name, v) :: fields => by
      rw [broughtFields, fieldNames, fieldNames, List.map_cons, List.map_append,
        names_brought route v, fieldNames_brought route fields]

/-- Bringing values in by a route marks every name in any of them. -/
theorem namesAll_brought (route : Route) : ∀ vs : List Val,
    namesAll (broughtAll route vs) = (namesAll vs).map (FieldName.brought route)
  | [] => rfl
  | v :: vs => by
      rw [broughtAll, namesAll, namesAll, List.map_append, names_brought route v,
        namesAll_brought route vs]

end

end Val

/-- Every name that counts as written is among those read. -/
def Within (read : List JSString) (names : List FieldName) : Prop :=
  ∀ n ∈ names, n.route = .written → n.text ∈ read

section Within

variable {read more : List JSString} {names others : List FieldName} {v w : Val} {args : List Val}
  {fields new : List Field} {rest : Accepted} {name : JSString}

/-- Names that were read stay read where more of a text was. -/
theorem Within.mono (h : Within read names) (hsub : ∀ name ∈ read, name ∈ more) :
    Within more names :=
  fun n hn hwritten => hsub n.text (h n hn hwritten)

/-- If all names of a value were read, so were those of any part of it. -/
theorem Within.subset (h : Within read names) (hsub : ∀ n ∈ others, n ∈ names) :
    Within read others :=
  fun n hn => h n (hsub n hn)

/-- Two lists of names are read as one where each of them is read. -/
theorem Within.append (h : Within read names) (h' : Within read others) :
    Within read (names ++ others) :=
  fun n hn => (List.mem_append.mp hn).elim (h n) (h' n)

/-- Where there is no name at all, there is none that was missed. -/
theorem within_nil : Within read [] := fun _ hn => absurd hn List.not_mem_nil

/-- What came in by another route counts as written nowhere, so nothing of it had to be
read. -/
theorem within_map_brought {route : Route} (hroute : route ≠ .written) :
    Within read (names.map (FieldName.brought route)) := by
  intro n hn hwritten
  obtain ⟨m, -, rfl⟩ := List.mem_map.mp hn
  unfold FieldName.brought at hwritten
  split at hwritten
  · exact absurd hwritten hroute
  · rename_i hother
    exact absurd hwritten hother

/-- A name that came in by another route than the text is no miss of the scan. -/
theorem within_brought {route : Route} (hroute : route ≠ .written) (v : Val) :
    Within read (v.brought route).names := by
  rw [Val.names_brought]
  exact within_map_brought hroute

/-- The names of a union are those of its parts, so none is missed that the
parts show. -/
theorem within_union {parts : List Accepted} (h : ∀ a ∈ parts, Within read a.names) :
    Within read (Accepted.union parts).names := by
  induction parts with
  | nil => exact within_nil
  | cons a rest ih =>
      exact (h a List.mem_cons_self).append (ih fun b hb => h b (List.mem_cons_of_mem _ hb))

/-- A record's names are read where every field's own and inner names are. -/
theorem within_fieldNames
    (h : ∀ field ∈ fields, Within read [field.1] ∧ Within read field.2.names) :
    Within read (Val.fieldNames fields) := by
  intro n hn
  obtain ⟨field, hfield, rfl | hn⟩ := Val.mem_fieldNames.mp hn
  · exact (h field hfield).1 _ (List.mem_singleton_self _)
  · exact (h field hfield).2 n hn

theorem Within.fields_subset (h : Within read (Val.fieldNames fields))
    (hsub : ∀ field ∈ new, field ∈ fields) : Within read (Val.fieldNames new) := by
  refine h.subset fun n hn => ?_
  obtain ⟨field, hfield, hname⟩ := Val.mem_fieldNames.mp hn
  exact Val.mem_fieldNames.mpr ⟨field, hsub field hfield, hname⟩

/-- Overriding fields keeps names or replaces them, and never makes up any. -/
theorem within_override (hold : Within read (Val.fieldNames fields))
    (hnew : Within read (Val.fieldNames new)) :
    Within read (Val.fieldNames (override fields new)) := by
  intro n hn
  obtain ⟨field, hfield, hname⟩ := Val.mem_fieldNames.mp hn
  rcases List.mem_append.mp hfield with hfield | hfield
  · exact hold n (Val.mem_fieldNames.mpr ⟨field, (List.mem_filter.mp hfield).1, hname⟩)
  · exact hnew n (Val.mem_fieldNames.mpr ⟨field, hfield, hname⟩)

/-- A field's value has no names but those of the object it is a field of. -/
theorem Within.fieldNamed (h : Within read (Val.fieldNames fields))
    (hv : ContractSource.fieldNamed fields name = some v) : Within read v.names := by
  obtain ⟨field, hfield, rfl⟩ := Option.map_eq_some_iff.mp hv
  exact h.subset fun n hn =>
    Val.mem_fieldNames.mpr ⟨field, List.mem_of_find?_eq_some hfield, .inr hn⟩

/-- The options of an enumeration are among the names of the arguments it was
made of. -/
theorem within_options (h : ∀ v ∈ args, Within read v.names) :
    ∀ v ∈ args.flatMap Val.options, Within read v.names := by
  intro v hv
  obtain ⟨arg, harg, hv⟩ := List.mem_flatMap.mp hv
  cases arg with
  | list items => exact (h _ harg).subset fun n hn => Val.mem_namesAll.mpr ⟨v, hv, hn⟩
  | zod => exact List.mem_singleton.mp hv ▸ h _ harg
  | schema fields rest => exact List.mem_singleton.mp hv ▸ h _ harg
  | enumeration options => exact List.mem_singleton.mp hv ▸ h _ harg
  | record fields => exact List.mem_singleton.mp hv ▸ h _ harg
  | text s => exact List.mem_singleton.mp hv ▸ h _ harg
  | method owner name => exact List.mem_singleton.mp hv ▸ h _ harg
  | plain truthy => exact List.mem_singleton.mp hv ▸ h _ harg

/-- The schema that is made of unread arguments has their names and no others. -/
theorem within_anyOf (h : ∀ v ∈ args, Within read v.names) :
    Within read (Val.anyOf args).names := by
  have hunion : Within read (Accepted.union (args.map Val.accepted)).names := by
    apply within_union
    intro a ha
    obtain ⟨v, hv, rfl⟩ := List.mem_map.mp ha
    exact (h v hv).subset (Val.accepted_subset v)
  unfold Val.anyOf
  split
  · exact h _ (List.mem_singleton_self _)
  · exact within_nil.append hunion

/-- What zod makes of its arguments has their names, or the texts of a record's keys. -/
theorem within_ofZod (hargs : ∀ v ∈ args, Within read v.names) (h : Val.ofZod name args = some w) :
    Within read w.names := by
  unfold Val.ofZod at h
  split at h
  · dsimp only at h
    split at h
    · obtain rfl := Option.some.inj h
      exact within_nil
    · obtain rfl := Option.some.inj h
      exact (hargs _ List.mem_cons_self).append within_nil
    · cases h
  · split at h
    · split at h
      · cases h
      · obtain rfl := Option.some.inj h
        exact within_nil
    · split at h
      · split at h
        · rename_i keys value
          obtain rfl := Option.some.inj h
          refine Within.append (within_fieldNames ?_) within_nil
          intro field hfield
          obtain ⟨key, -, rfl⟩ := List.mem_map.mp hfield
          refine ⟨fun n hn hwritten => ?_, hargs value (by simp)⟩
          rw [List.mem_singleton.mp hn] at hwritten
          cases hwritten
        · obtain rfl := Option.some.inj h
          exact within_nil.append ((within_anyOf hargs).subset (Val.accepted_subset _))
      · split at h
        · obtain rfl := Option.some.inj h
          exact within_nil
        · split at h
          · obtain rfl := Option.some.inj h
            exact within_anyOf (within_options hargs)
          · split at h
            · obtain rfl := Option.some.inj h
              exact within_nil
            · cases h

/-- What a schema's method makes has names of the schema and of the arguments. -/
theorem within_ofSchema (hschema : Within read (Val.schema fields rest).names)
    (hargs : ∀ v ∈ args, Within read v.names) (h : Val.ofSchema fields rest name args = some w) :
    Within read w.names := by
  have hfields : Within read (Val.fieldNames fields) :=
    hschema.subset fun n hn => List.mem_append_left _ hn
  have hrest : Within read rest.names := hschema.subset fun n hn => List.mem_append_right _ hn
  have hkept : ∀ p : Field → Bool, Within read (Val.fieldNames (fields.filter p)) :=
    fun p => hfields.fields_subset fun field hfield => (List.mem_filter.mp hfield).1
  unfold Val.ofSchema at h
  split at h
  · split at h
    · obtain rfl := Option.some.inj h
      exact (within_override hfields (hargs _ List.mem_cons_self)).append hrest
    · cases h
  · split at h
    · split at h
      · rename_i new other
        obtain rfl := Option.some.inj h
        have hother : Within read (Val.schema new other).names := hargs _ List.mem_cons_self
        exact (within_override hfields (hother.subset fun n hn => List.mem_append_left _ hn)).append
          (hrest.append (hother.subset fun n hn => List.mem_append_right _ hn))
      · cases h
    · split at h
      · split at h
        · obtain rfl := Option.some.inj h
          exact (hkept _).append hrest
        · cases h
      · split at h
        · split at h
          · obtain rfl := Option.some.inj h
            exact (hkept _).append hrest
          · cases h
        · split at h
          · obtain rfl := Option.some.inj h
            exact hfields.append hrest
          · split at h
            · obtain rfl := Option.some.inj h
              exact hfields.append hrest
            · split at h
              · obtain rfl := Option.some.inj h
                exact within_nil
              · split at h
                · obtain rfl := Option.some.inj h
                  exact hfields.append
                    (hrest.append ((within_anyOf hargs).subset (Val.accepted_subset _)))
                · split at h
                  · obtain rfl := Option.some.inj h
                    exact hfields.append hrest
                  · cases h

/-- A property that is read off a value has names of that value, or came from outside. -/
theorem Within.access (out : Outside) (h : Within read v.names) :
    Within read (out.access v name).names := by
  have houtside : ∀ w : Val, Within read (w.brought .outside).names := within_brought (by decide)
  cases v with
  | zod =>
      rw [Outside.access]
      split <;> exact within_nil
  | schema fields rest =>
      rw [Outside.access]
      split
      · exact h.subset fun n hn => List.mem_append_left _ hn
      · split
        · exact h
        · exact houtside _
  | enumeration options =>
      rw [Outside.access]
      split
      · exact within_nil
      · exact houtside _
  | record fields =>
      rw [Outside.access]
      cases hfield : ContractSource.fieldNamed fields name with
      | none => exact within_nil
      | some v => exact h.fieldNamed hfield
  | list items => exact houtside _
  | text s => exact houtside _
  | method owner called => exact houtside _
  | plain truthy => exact houtside _

/-- What a call makes has names of what is called and of the arguments. -/
theorem Within.apply (out : Outside) (h : Within read v.names)
    (hargs : ∀ w ∈ args, Within read w.names) : Within read (out.apply v args).names := by
  have hmade : ∀ made : Option Val, (∀ w, made = some w → Within read w.names) →
      Within read (made.getD ((out.call v args).brought .outside)).names := by
    intro made hsome
    cases made with
    | none => exact within_brought (by decide) _
    | some w => exact hsome w rfl
  unfold Outside.apply
  apply hmade
  intro w hw
  split at hw
  · exact within_ofZod hargs hw
  · exact within_ofSchema h hargs hw
  · split at hw
    · obtain rfl := Option.some.inj hw
      exact within_nil
    · cases hw
  · cases hw

/-- Spreading a value into a literal brings in no names but those it had. -/
theorem within_spreadFields (h : Within read v.names) :
    Within read (Val.fieldNames (spreadFields v)) := by
  cases v with
  | record fields => exact h
  | _ => exact within_nil

end Within

/-! ## Off the chain -/

section OffChain

variable {out : Outside} {env : Env}

/-- One field is read where its key is, if it was written, and its value's names
are. -/
theorem within_field {read : List JSString} {name : FieldName} {v : Val}
    (hname : name.route = .written → name.text ∈ read) (hv : Within read v.names) :
    Within read (Val.fieldNames [(name, v)]) := by
  intro n hn hwritten
  obtain ⟨field, hfield, hname'⟩ := Val.mem_fieldNames.mp hn
  obtain rfl := List.mem_singleton.mp hfield
  rcases hname' with rfl | hn
  · exact hname hwritten
  · exact hv n hn hwritten

/-- The arguments of a call: those of something called `omit` are not read. -/
theorem within_args {callee : Expr} {args : List Expr}
    (h : ∀ v ∈ evalAll out env args, Within (scannedAll args) v.names) :
    ∀ v ∈ (if isOmit callee then Val.broughtAll .omitted (evalAll out env args)
        else evalAll out env args),
      Within (if isOmit callee then [] else scannedAll args) v.names := by
  by_cases homit : isOmit callee = true
  · rw [if_pos homit, if_pos homit]
    intro v hv n hn
    have hall : Within [] (Val.namesAll (Val.broughtAll .omitted (evalAll out env args))) := by
      rw [Val.namesAll_brought]
      exact within_map_brought (by decide)
    exact hall n (Val.mem_namesAll.mpr ⟨v, hv, hn⟩)
  · rw [if_neg homit, if_neg homit]
    exact h

mutual

/-- Off the chain, every name that counts as written stands in the expression. -/
theorem eval_within : ∀ e : Expr, Within (scanned e) (eval out env false e).names
  | .ident name => by
      rw [eval]
      split
      · exact within_nil
      · exact within_brought (by decide) _
  | .text s => within_nil
  | .literal _ => within_nil
  | .access owner name => by
      rw [eval, scanned]
      exact (eval_within owner).access out
  | .call callee args => by
      rw [eval, scanned]
      refine Within.apply out ((eval_within callee).mono fun n => List.mem_append_left _) ?_
      intro v hv
      exact (within_args (evalAll_within args) v hv).mono fun n => List.mem_append_right _
  | .paren inner => by
      rw [eval, scanned]
      exact eval_within inner
  | .assertion inner => by
      rw [eval, scanned]
      exact eval_within inner
  | .object members => by
      rw [eval, scanned]
      exact evalMembers_within members
  | .array items => by
      rw [eval, scanned]
      intro n hn
      obtain ⟨v, hv, hn⟩ := Val.mem_namesAll.mp hn
      exact evalAll_within items v hv n hn
  | .function parts => within_nil
  | .other parts => by
      rw [eval]
      exact within_brought (by decide) _

/-- The names in a list of values are read in the list's expressions. -/
theorem evalAll_within : ∀ es : List Expr,
    ∀ v ∈ evalAll out env es, Within (scannedAll es) v.names
  | [], v, h => absurd h List.not_mem_nil
  | e :: es, v, h => by
      rcases List.mem_cons.mp h with rfl | h
      · exact (eval_within e).mono fun n => List.mem_append_left _
      · exact (evalAll_within es v h).mono fun n => List.mem_append_right _

/-- The names that a member of a literal brings in are read in that member. -/
theorem evalMember_within : ∀ m : Member,
    Within (scannedMember m) (Val.fieldNames (evalMember out env m))
  | .property name value => by
      rw [evalMember, scannedMember]
      exact within_field (fun _ => List.mem_cons_self)
        ((eval_within value).mono fun n => List.mem_cons_of_mem _)
  | .computed key value => by
      rw [evalMember, scannedMember]
      exact within_field (fun h => by cases h)
        ((eval_within value).mono fun n => List.mem_append_right _)
  | .shorthand name => by
      rw [evalMember, scannedMember]
      exact within_field (fun _ => List.mem_cons_self) (within_brought (by decide) _)
  | .spread value => by
      rw [evalMember, scannedMember]
      exact within_spreadFields (eval_within value)

/-- The names that a literal's members bring in are read in the literal. -/
theorem evalMembers_within : ∀ ms : List Member,
    Within (scannedMembers ms) (Val.fieldNames (evalMembers out env ms))
  | [] => within_nil
  | m :: ms => by
      rw [evalMembers, scannedMembers]
      exact within_override ((evalMember_within m).mono fun n => List.mem_append_left _)
        ((evalMembers_within ms).mono fun n => List.mem_append_right _)

end

end OffChain

/-! ## Along the chain -/

/-- An access ends where its owner does, unless it is `z.object` itself. -/
theorem root_access {owner : Expr} {name x : JSString} (hz : x ≠ str "z")
    (h : root owner = .name x) : root (.access owner name) = .name x := by
  rw [root]
  split
  · rename_i hobject
    rw [Bool.and_eq_true] at hobject
    cases owner with
    | ident y =>
        have hy : y = str "z" := beq_iff_eq.mp hobject.2
        rw [root] at h
        exact (hz ((Root.name.inj h).symm.trans hy)).elim
    | _ => cases hobject.2
  · exact h

/-- A chain's names stand in it, or where the constant at its root has them. -/
theorem chain_within {out : Outside} {env : Env} {read : List JSString} : ∀ e : Expr,
    (∀ name, name ≠ str "z" → root e = .name name → Within read (env name).names) →
    Within (scanned e ++ read) (eval out env true e).names
  | .ident name, hroot => by
      rw [eval]
      split
      · exact within_nil
      · rename_i hz
        exact hroot name hz (by rw [root])
  | .text s, _ => within_nil
  | .literal _, _ => within_nil
  | .access owner name, hroot => by
      rw [eval, scanned]
      exact (chain_within owner fun x hz hx => hroot x hz (root_access hz hx)).access out
  | .call callee args, hroot => by
      rw [eval, scanned, List.append_assoc]
      have hcallee : Within (scanned callee ++ read) (eval out env true callee).names :=
        chain_within callee fun x hz hx => hroot x hz (by rw [root]; exact hx)
      refine Within.apply out (hcallee.mono ?_) ?_
      · intro n hn
        rcases List.mem_append.mp hn with hn | hn
        · exact List.mem_append_left _ hn
        · exact List.mem_append_right _ (List.mem_append_right _ hn)
      · intro v hv
        refine (within_args (evalAll_within args) v hv).mono fun n hn => ?_
        exact List.mem_append_right _ (List.mem_append_left _ hn)
  | .paren inner, hroot => by
      rw [eval, scanned]
      exact chain_within inner fun x hz hx => hroot x hz (by rw [root]; exact hx)
  | .assertion inner, _ => by
      rw [eval, scanned]
      exact (eval_within inner).mono fun n => List.mem_append_left _
  | .object members, _ => by
      rw [eval, scanned]
      exact (evalMembers_within members).mono fun n => List.mem_append_left _
  | .array items, _ => by
      rw [eval, scanned]
      intro n hn hwritten
      obtain ⟨v, hv, hn⟩ := Val.mem_namesAll.mp hn
      exact List.mem_append_left _ (evalAll_within items v hv n hn hwritten)
  | .function _, _ => within_nil
  | .other parts, _ => by
      rw [eval]
      exact within_brought (by decide) _

/-- What is in scope was there at the start, or put there by a statement, in the scope
before it. -/
theorem scopeAfter_cases (out : Outside) (start : Env) (before : List TopLevel) (name : JSString) :
    scopeAfter out start before name = start name ∨
      ∃ front statement back, before = front ++ statement :: back ∧ statement.name = some name ∧
        scopeAfter out start before name =
          eval out (scopeAfter out start front) true statement.value := by
  induction before using List.reverseRecOn with
  | nil => exact .inl rfl
  | append_singleton before statement ih =>
      have hlast : scopeAfter out start (before ++ [statement]) =
          bindStatement out (scopeAfter out start before) statement := by
        rw [scopeAfter, List.foldl_append, List.foldl_cons, List.foldl_nil, ← scopeAfter]
      rw [hlast, bindStatement]
      have hearlier : (scopeAfter out start before name = start name ∨
            ∃ front found back, before ++ [statement] = front ++ found :: back ∧
              found.name = some name ∧ scopeAfter out start before name =
                eval out (scopeAfter out start front) true found.value) := by
        rcases ih with hstart | ⟨front, found, back, rfl, hname, hvalue⟩
        · exact .inl hstart
        · exact .inr ⟨front, found, back ++ [statement], by simp, hname, hvalue⟩
      cases hbound : statement.name with
      | none => exact hearlier
      | some bound =>
          dsimp only
          by_cases hsame : name = bound
          · subst hsame
            rw [Function.update_self]
            exact .inr ⟨before, statement, [], rfl, hbound, rfl⟩
          · rw [Function.update_of_ne hsame]
            exact hearlier

namespace ContractFile

variable {file : ContractFile}

/-- The walk's table has the named statements of the file, each with its value. -/
theorem mem_topLevelValues {name : JSString} {value : Expr} :
    (name, value) ∈ topLevelValues file.statements ↔
      ∃ statement ∈ file.statements, statement.name = some name ∧ statement.value = value := by
  simp only [topLevelValues, List.mem_filterMap, Option.map_eq_some_iff, Prod.mk.injEq]
  constructor
  · intro h
    obtain ⟨statement, hmem, bound, hbound, rfl, hvalue⟩ := h
    exact ⟨statement, hmem, hbound, hvalue⟩
  · intro h
    obtain ⟨statement, hmem, hname, hvalue⟩ := h
    exact ⟨statement, hmem, name, hname, rfl, hvalue⟩

theorem statement_unique {s t : TopLevel} (hs : s ∈ file.statements) (ht : t ∈ file.statements)
    {name : JSString} (hsname : s.name = some name) (htname : t.name = some name) : s = t := by
  have hunique := file.unique
  generalize file.statements = statements at *
  induction statements with
  | nil => cases hs
  | cons first rest ih =>
      cases hfirst : first.name with
      | none =>
          rw [List.filterMap_cons_none hfirst] at hunique
          rcases List.mem_cons.mp hs with rfl | hs
          · rw [hsname] at hfirst
            cases hfirst
          · rcases List.mem_cons.mp ht with rfl | ht
            · rw [htname] at hfirst
              cases hfirst
            · exact ih hs ht hunique
      | some bound =>
          rw [List.filterMap_cons_some hfirst, List.nodup_cons] at hunique
          have hnew : ∀ u ∈ rest, u.name ≠ some bound := fun u hu hbound =>
            hunique.1 (List.mem_filterMap.mpr ⟨u, hu, hbound⟩)
          rcases List.mem_cons.mp hs with hsfirst | hsrest
          · rcases List.mem_cons.mp ht with htfirst | htrest
            · rw [hsfirst, htfirst]
            · rw [← hsfirst, hsname] at hfirst
              exact (hnew t htrest (htname.trans hfirst)).elim
          · rcases List.mem_cons.mp ht with htfirst | htrest
            · rw [← htfirst, htname] at hfirst
              exact (hnew s hsrest (hsname.trans hfirst)).elim
            · exact ih hsrest htrest hunique.2

/-- A name that the file itself declares is no import: before its declaration it is a plain
value. -/
theorem imported_of_declared {out : Outside} {statement : TopLevel}
    (h : statement ∈ file.statements) {name : JSString} (hname : statement.name = some name) :
    file.imported out name = .plain false :=
  if_pos ⟨statement, h, hname⟩

end ContractFile

/-- **Following.**  Where the check reaches `z.object`, it has read every name
of the value that counts as written. -/
theorem followed_within {file : ContractFile} {out : Outside} {n : ℕ} :
    ∀ {before after : List TopLevel}, before.length = n → file.statements = before ++ after →
    ∀ {values : List (JSString × Expr)}, (∀ entry ∈ values, entry ∈ topLevelValues file.statements) →
    ∀ {e : Expr}, (rootedInZObject values e).1 = true →
      Within ((rootedInZObject values e).2.flatMap scanned)
        (eval out (scopeAfter out (file.imported out) before) true e).names := by
  induction n using Nat.strong_induction_on with
  | _ n ih =>
      intro before after hlength hfile values hvalues e hrooted
      cases hroot : root e with
      | zObject =>
          rw [rooted_zObject hroot]
          apply chain_within
          intro x _ hx
          rw [hroot] at hx
          cases hx
      | computed =>
          rw [rooted_computed hroot] at hrooted
          cases hrooted
      | name x =>
          cases hlookup : values.lookup x with
          | none =>
              rw [rooted_undeclared hroot hlookup] at hrooted
              cases hrooted
          | some value =>
              rw [rooted_declared hroot hlookup] at hrooted ⊢
              obtain ⟨declared, hdeclared, hname, hvalue⟩ :=
                ContractFile.mem_topLevelValues.mp (hvalues _ (mem_of_lookup hlookup))
              apply chain_within
              intro y _ hy
              obtain rfl : x = y := Root.name.inj (hroot.symm.trans hy)
              rcases scopeAfter_cases out (file.imported out) before x with
                hstart | ⟨front, statement, back, rfl, hbound, hw⟩
              · rw [hstart, ContractFile.imported_of_declared hdeclared hname]
                exact within_nil
              · -- the constant was bound by a statement before this one
                have hmem : statement ∈ file.statements := by
                  rw [hfile]
                  simp
                obtain rfl := ContractFile.statement_unique hmem hdeclared hbound hname
                rw [hw, hvalue]
                refine ih front.length (by rw [← hlength]; simp) rfl
                  (hfile.trans (List.append_assoc front (statement :: back) after)) ?_ hrooted
                intro entry hentry
                exact hvalues entry (List.mem_filter.mp hentry).1

/-! ## Operations -/

section Inputs

variable {out : Outside} {env : Env} {checked : Bool} {v : Val} {n : FieldName}

/-- What was given to the contract from elsewhere counts as not written there. -/
theorem not_written_of_given (h : n ∈ (v.brought .given).accepted.names) : n.route ≠ .written := by
  intro hwritten
  have hwithin : Within [] (v.brought .given).names := within_brought (by decide) v
  cases hwithin n (Val.accepted_subset _ n h) hwritten

/-- A name that counts as written is one of an `input: value` the check takes up. -/
theorem memberInput_written {m : Member} (h : memberInput out env checked m = some v)
    (hn : n ∈ v.accepted.names) (hwritten : n.route = .written) :
    checked = true ∧ ∃ value, m = .property (str "input") value ∧ v = eval out env true value := by
  have hread : ∀ w : Val, v = w.brought .given → False := by
    rintro w rfl
    exact not_written_of_given hn hwritten
  cases m with
  | property name value =>
      rw [memberInput] at h
      split at h
      · rename_i hname
        have hinput := Option.some.inj h
        cases hchecked : checked with
        | false =>
            rw [hchecked, if_neg Bool.false_ne_true] at hinput
            exact (hread _ hinput.symm).elim
        | true =>
            rw [hchecked, if_pos rfl] at hinput
            exact ⟨rfl, value, by rw [hname], hinput.symm⟩
      · cases h
  | computed key value =>
      rw [memberInput] at h
      split at h
      · exact (hread _ (Option.some.inj h).symm).elim
      · cases h
  | shorthand name =>
      rw [memberInput] at h
      split at h
      · exact (hread _ (Option.some.inj h).symm).elim
      · cases h
  | spread value =>
      rw [memberInput] at h
      obtain ⟨w, -, rfl⟩ := Option.map_eq_some_iff.mp h
      exact (hread w rfl).elim

/-- A written name that an input literal accepts comes of a property `input`
that the scan has checked. -/
theorem literalInput_written {members : List Member}
    (h : literalInput out env checked members = some v) (hn : n ∈ v.accepted.names)
    (hwritten : n.route = .written) :
    checked = true ∧ ∃ value, .property (str "input") value ∈ members ∧
      v = eval out env true value := by
  induction members with
  | nil => cases h
  | cons m ms ih =>
      rw [literalInput] at h
      cases hlater : literalInput out env checked ms with
      | some found =>
          rw [hlater] at h
          obtain rfl : found = v := Option.some.inj h
          obtain ⟨hchecked, value, hvalue, hv⟩ := ih hlater
          exact ⟨hchecked, value, List.mem_cons_of_mem _ hvalue, hv⟩
      | none =>
          rw [hlater] at h
          obtain ⟨hchecked, value, rfl, hv⟩ := memberInput_written h hn hwritten
          exact ⟨hchecked, value, List.mem_cons_self, hv⟩

end Inputs

/-- What a file with nothing to report has at an operation's input. -/
theorem checked_of_clean {toLowerCase : JSString → JSString} {file : ContractFile}
    (hclean : contractInputs toLowerCase file = []) {statement : TopLevel}
    (hstatement : statement ∈ file.statements) {members : List Member}
    (hmembers : members ∈ literals statement.value) (hchecked : isChecked members = true)
    {value : Expr} (hvalue : .property (str "input") value ∈ members) :
    (rootedInZObject (topLevelValues file.statements) value).1 = true ∧
      ∀ name ∈ (rootedInZObject (topLevelValues file.statements) value).2.flatMap scanned,
        isOrgIdName toLowerCase name = false := by
  have hliteral := List.flatMap_eq_nil_iff.mp hclean statement hstatement
  have hmember := List.flatMap_eq_nil_iff.mp hliteral members hmembers
  rw [if_pos hchecked] at hmember
  have hinput := List.flatMap_eq_nil_iff.mp hmember _ hvalue
  rw [checkMember, if_pos rfl, checkContractInput, List.append_eq_nil_iff] at hinput
  constructor
  · by_contra hrooted
    rw [if_neg hrooted] at hinput
    cases hinput.1
  · intro name hname
    obtain ⟨e, he, hname⟩ := List.mem_flatMap.mp hname
    have hnone := List.map_eq_nil_iff.mp (List.flatMap_eq_nil_iff.mp hinput.2 e he)
    rw [← Bool.not_eq_true]
    exact List.filter_eq_nil_iff.mp hnone name hname

section Demonstration

/-- `z.name(args)`. -/
def callZ (name : JSString) (args : List Expr) : Expr := .call (.access (.ident (str "z")) name) args

/-- `z.object({ name: z.string() })`. -/
def nameSchema (name : JSString) : Expr :=
  callZ (str "object") [.object [.property name (callZ (str "string") [])]]

/-- `export const contract = { create: { input, output: z.object({ id: z.string() }) } }`. -/
def contractOf (input : Expr) : TopLevel :=
  { name := some (str "contract")
    value := .object [.property (str "create") (.object
      [.property (str "input") input, .property (str "output") (nameSchema (str "id"))])] }

/-- A contract file imports `z`, and does not bind the name a second time. -/
theorem z_undeclared : str "z" ∉ [str "contract"] := by decide

def fileOf (input : Expr) : ContractFile :=
  { statements := [contractOf input]
    unique := List.nodup_singleton _
    zod := z_undeclared }

/-- The check of a file of one operation is that of its input, and of the literals in it. -/
theorem contractInputs_fileOf {toLowerCase : JSString → JSString} {input : Expr}
    (hroot : root input = .zObject) (hread : (scanned input).filter (isOrgIdName toLowerCase) = [])
    (hliterals : ∀ members ∈ literals input, isChecked members = false) :
    contractInputs toLowerCase (fileOf input) = [] := by
  have hinput : ∀ values, checkContractInput toLowerCase values input = [] := by
    intro values
    rw [checkContractInput, rooted_zObject hroot, List.flatMap_singleton, scanForOrgId, hread]
    rfl
  apply List.flatMap_eq_nil_iff.mpr
  intro statement hstatement
  obtain rfl := List.mem_singleton.mp hstatement
  apply List.flatMap_eq_nil_iff.mpr
  intro members hmembers
  simp only [contractOf, literals, literalsMembers, literalsMember, List.append_nil,
    List.mem_cons, List.mem_append] at hmembers
  rcases hmembers with rfl | rfl | hmembers | hmembers
  · rfl
  · rw [if_pos (by rfl)]
    simp only [List.flatMap_cons, checkMember, hinput]
    rfl
  · rw [hliterals members hmembers, if_neg Bool.false_ne_true]
  · have houtput : ∀ members ∈ literals (nameSchema (str "id")), isChecked members = false := by
      decide
    rw [houtput members hmembers, if_neg Bool.false_ne_true]

/-- `owner.name(args)`. -/
def callOn (owner : Expr) (name : JSString) (args : List Expr) : Expr :=
  .call (.access owner name) args

/-- The slug of the organisations' contract, and what its `update` takes, refined by a
function of the fields. -/
def slugConstant : TopLevel :=
  { name := some (str "slug")
    value := callOn (callOn (callOn (callZ (str "string") []) (str "min") [.literal true])
      (str "max") [.literal true]) (str "regex")
      [.literal true, .text (str "Use lowercase letters, numbers and hyphens.")] }

def updateInput : Expr :=
  callOn (callZ (str "object") [.object
      [.property (str "name") (callOn (callOn (callZ (str "string") []) (str "min") [.literal true])
        (str "optional") []),
        .property (str "slug") (callOn (.ident (str "slug")) (str "optional") [])]])
    (str "refine") [.function [.other [.access (.ident (str "value")) (str "name"),
      .access (.ident (str "value")) (str "slug")]],
      .text (str "Change the name, the slug, or both.")]

example (out : Outside) (start : Env) :
    (eval out (scopeAfter out start [slugConstant]) true updateInput).accepted =
      { names := [⟨str "name", .written⟩, ⟨str "slug", .written⟩], isOpen := false } := rfl

/-- `z.object({ name: z.string() }).merge(tenantScope)`. -/
def mergedInput : Expr :=
  callOn (nameSchema (str "name")) (str "merge") [.ident (str "tenantScope")]

/-- A file beside a module that exports `z.object({ organizationId: z.string() })`, and
nothing else of note. -/
def tenantScope : Outside where
  imports name :=
    if name = str "tenantScope" then
      .schema [(⟨str "organizationId", .written⟩, .schema [] .nothing)] .nothing
    else .plain false
  property _ _ := .plain false
  call _ _ := .plain true
  other _ := .plain true
  key _ := []

end Demonstration

end Guardrail.ContractSource
