import GuardrailPlatform.JsValue

/-!
# Object members: their order, and equality without it

`Same` is equality of JSON values up to the order of object members at every
depth.  `sortKeys` arranges the members of every object the way a program gets
them when it defines the properties of a fresh object in sorted key order:
array indices come first whatever the order of definition.  Two values that
`sortKeys` makes equal are `Same` (`same_of_sortKeys_eq`).
-/

namespace Js

variable {α β : Type}

/-! ## Own-property order -/

/-- The array index a property key is, if it is one. -/
def arrayIndex? (k : JSString) : Option ℕ :=
  if digitText (readDigits k) = k ∧ readDigits k < 4294967295 then some (readDigits k) else none

/-- A new key `k` is enumerated before the key `k'`. -/
def ownBefore (k k' : JSString) : Bool :=
  match arrayIndex? k, arrayIndex? k' with
  | some i, some j => i < j
  | some _, none => true
  | none, _ => false

/-- `Object.defineProperty(out, key, ...)` for a key `out` does not have yet. -/
def defineProperty (out : List (JSString × α)) (m : JSString × α) : List (JSString × α) :=
  match out with
  | [] => [m]
  | n :: rest => if ownBefore m.1 n.1 then m :: n :: rest else n :: defineProperty rest m

/-- The comparator of `[...entriesOf(value)].sort(...)`: code units, left first on ties. -/
def byKey (m n : JSString × α) : Prop := m.1 ≤ n.1

instance : DecidableRel (byKey (α := α)) := fun m n => inferInstanceAs (Decidable (m.1 ≤ n.1))

/-- Sort the entries by key, then define them one by one on a fresh object. -/
def arrange (members : List (JSString × α)) : List (JSString × α) :=
  (members.insertionSort byKey).foldl defineProperty []

example : arrange [(str "b", 1), (str "10", 2), (str "a", 3), (str "9", 4)] =
    [(str "9", 4), (str "10", 2), (str "a", 3), (str "b", 1)] := by decide

/-- Defining a property puts it somewhere among the others, and loses none. -/
theorem defineProperty_perm (out : List (JSString × α)) (m : JSString × α) :
    (defineProperty out m).Perm (m :: out) := by
  induction out with
  | nil => exact .refl _
  | cons n rest ih =>
      rw [defineProperty]
      split
      · exact .refl _
      · exact (ih.cons n).trans (.swap m n rest)

/-- Defining properties one by one may reorder them, but it loses none and adds none. -/
theorem foldl_defineProperty_perm (members out : List (JSString × α)) :
    (members.foldl defineProperty out).Perm (members ++ out) := by
  induction members generalizing out with
  | nil => exact .refl _
  | cons m ms ih =>
      exact (ih _).trans (((defineProperty_perm out m).append_left ms).trans
        List.perm_middle)

theorem arrange_perm (members : List (JSString × α)) : (arrange members).Perm members := by
  have h := foldl_defineProperty_perm (members.insertionSort byKey) []
  rw [List.append_nil] at h
  exact h.trans (List.perm_insertionSort _ _)

/-- Change the values of an object and keep its keys. -/
def mapValues (f : α → β) (members : List (JSString × α)) : List (JSString × β) :=
  members.map (fun m => (m.1, f m.2))

/-- Where a property goes depends on its key and not on its value. -/
theorem mapValues_defineProperty (f : α → β) (out : List (JSString × α)) (m : JSString × α) :
    mapValues f (defineProperty out m) = defineProperty (mapValues f out) (m.1, f m.2) := by
  induction out with
  | nil => rfl
  | cons n rest ih =>
      show mapValues f (if _ then _ else _) = if _ then _ else _
      split
      · rfl
      · exact congrArg (List.cons _) ih

/-- Changing the values before or after the properties are arranged is the same. -/
theorem mapValues_foldl (f : α → β) (members out : List (JSString × α)) :
    mapValues f (members.foldl defineProperty out) =
      (mapValues f members).foldl defineProperty (mapValues f out) := by
  induction members generalizing out with
  | nil => rfl
  | cons m ms ih =>
      rw [List.foldl_cons, ih, mapValues_defineProperty]
      rfl

theorem mapValues_arrange (f : α → β) (members : List (JSString × α)) :
    mapValues f (arrange members) = arrange (mapValues f members) := by
  rw [arrange, mapValues_foldl, arrange]
  congr 1
  exact List.map_insertionSort _ _ _ _ (fun _ _ _ _ => Iff.rfl)

/-- With distinct keys, looking a key up finds the one member that has it. -/
theorem lookup_eq_some_iff_mem {γ : Type} [BEq γ] [LawfulBEq γ] {members : List (γ × α)}
    (hnodup : (members.map Prod.fst).Nodup) {k : γ} {v : α} :
    members.lookup k = some v ↔ (k, v) ∈ members := by
  induction members with
  | nil => simp
  | cons m ms ih =>
      obtain ⟨key, w⟩ := m
      rw [List.map_cons, List.nodup_cons] at hnodup
      rw [List.lookup_cons, List.mem_cons, Prod.mk.injEq]
      by_cases hkey : k = key
      · subst hkey
        have hfresh : (k, v) ∉ ms := fun h => hnodup.1 (List.mem_map.mpr ⟨_, h, rfl⟩)
        simp [hfresh, eq_comm]
      · rw [beq_false_of_ne hkey]
        simpa [hkey] using ih hnodup.2

theorem mapValues_keys (f : α → β) (members : List (JSString × α)) :
    (mapValues f members).map Prod.fst = members.map Prod.fst := by
  rw [mapValues, List.map_map]
  rfl

/-- Two records with the same distinct keys in one order, and the same members
in some order, are equal. -/
theorem eq_of_perm_of_keys {γ : Type} {ms ns : List (γ × α)}
    (hkeys : ms.map Prod.fst = ns.map Prod.fst) (hnodup : (ms.map Prod.fst).Nodup)
    (hperm : ms.Perm ns) : ms = ns := by
  induction ms generalizing ns with
  | nil => exact hperm.nil_eq
  | cons m ms ih =>
      obtain ⟨n, ns, rfl, hkey, hrest⟩ := List.map_eq_cons_iff.mp hkeys.symm
      rw [List.map_cons, List.nodup_cons] at hnodup
      have hmem : m ∈ n :: ns := hperm.subset List.mem_cons_self
      obtain rfl : m = n := by
        rcases List.mem_cons.mp hmem with rfl | hmem
        · rfl
        · exact absurd (hrest ▸ List.mem_map.mpr ⟨m, hmem, rfl⟩) hnodup.1
      rw [ih hrest.symm hnodup.2 hperm.cons_inv]

instance : Std.Total (byKey (α := α)) := ⟨fun m n => List.le_total m.1 n.1⟩

instance : IsTrans (JSString × α) byKey := ⟨fun _ _ _ => List.le_trans⟩

/-- With distinct keys, the arrangement does not depend on the order it started from. -/
theorem arrange_eq_of_perm {ms ns : List (JSString × α)} (hnodup : (ms.map Prod.fst).Nodup)
    (hperm : ms.Perm ns) : arrange ms = arrange ns := by
  unfold arrange
  congr 1
  have hms := List.perm_insertionSort (byKey (α := α)) ms
  have hns := List.perm_insertionSort (byKey (α := α)) ns
  apply List.Perm.eq_of_pairwise ?_ (List.pairwise_insertionSort byKey ms)
    (List.pairwise_insertionSort byKey ns) (hms.trans (hperm.trans hns.symm))
  intro m n hm hn hle hge
  have hkey : m.1 = n.1 := List.le_antisymm hle hge
  exact List.inj_on_of_nodup_map hnodup (hms.subset hm) (hperm.symm.subset (hns.subset hn)) hkey

/-! ## Equality up to member order -/

mutual

/-- Two JSON values are the same up to the order of object members. -/
inductive Same : Json → Json → Prop
  | null : Same .null .null
  | bool (b : Bool) : Same (.bool b) (.bool b)
  | number (x : Finite) : Same (.number x) (.number x)
  | string (s : JSString) : Same (.string s) (.string s)
  | array {xs ys : List Json} : SameItems xs ys → Same (.array xs) (.array ys)
  | object {ms ns ns' : List (JSString × Json)} :
      SameMembers ms ns' → ns'.Perm ns → Same (.object ms) (.object ns)

/-- Elementwise `Same`. -/
inductive SameItems : List Json → List Json → Prop
  | nil : SameItems [] []
  | cons {x y : Json} {xs ys : List Json} :
      Same x y → SameItems xs ys → SameItems (x :: xs) (y :: ys)

/-- `Same` members under the same keys, in the same order. -/
inductive SameMembers : List (JSString × Json) → List (JSString × Json) → Prop
  | nil : SameMembers [] []
  | cons {x y : Json} {ms ns : List (JSString × Json)} (k : JSString) :
      Same x y → SameMembers ms ns → SameMembers ((k, x) :: ms) ((k, y) :: ns)

end

mutual

/-- Arrange the members of every object in the value. -/
def Json.sortKeys : Json → Json
  | .array items => .array (sortItems items)
  | .object members => .object (arrange (sortMembers members))
  | j => j

def Json.sortItems : List Json → List Json
  | [] => []
  | j :: js => j.sortKeys :: sortItems js

def Json.sortMembers : List (JSString × Json) → List (JSString × Json)
  | [] => []
  | (k, j) :: js => (k, j.sortKeys) :: sortMembers js

end

/-- Sorting the keys inside an array goes element by element, and keeps the elements' order.
-/
theorem Json.sortItems_eq_map (items : List Json) :
    Json.sortItems items = items.map Json.sortKeys := by
  induction items with
  | nil => rfl
  | cons j js ih => rw [Json.sortItems, ih, List.map_cons]

/-- Sorting the keys further in goes member by member, and leaves the members' own order. -/
theorem Json.sortMembers_eq (members : List (JSString × Json)) :
    Json.sortMembers members = mapValues Json.sortKeys members := by
  induction members with
  | nil => rfl
  | cons m ms ih =>
      rw [Json.sortMembers, ih]
      rfl

/-- A list that is a reordered image is the image of a reordering. -/
theorem exists_perm_map {f : α → β} {ns : List α} {ls : List β} (h : ls.Perm (ns.map f)) :
    ∃ ns' : List α, ns'.Perm ns ∧ ls = ns'.map f := by
  generalize hmap : ns.map f = ms at h
  induction h generalizing ns with
  | nil => exact ⟨[], by simpa using hmap, rfl⟩
  | cons x hp ih =>
      obtain ⟨n, rest, rfl, rfl, rfl⟩ := List.map_eq_cons_iff.mp hmap
      obtain ⟨ns', hperm, rfl⟩ := ih rfl
      exact ⟨n :: ns', hperm.cons n, rfl⟩
  | swap x y l =>
      obtain ⟨n, rest, rfl, rfl, hrest⟩ := List.map_eq_cons_iff.mp hmap
      obtain ⟨n', rest', rfl, rfl, rfl⟩ := List.map_eq_cons_iff.mp hrest
      exact ⟨n' :: n :: rest', .swap n n' rest', rfl⟩
  | trans hp hq ihp ihq =>
      obtain ⟨ns₁, hperm₁, hmid⟩ := ihq hmap
      obtain ⟨ns₂, hperm₂, hls⟩ := ihp hmid.symm
      exact ⟨ns₂, hperm₂.trans hperm₁, hls⟩

/-- **Sorted keys decide.**  Values with the same sorted form are the same up
to member order. -/
theorem same_of_sortKeys_eq {x y : Json} (h : x.sortKeys = y.sortKeys) : Same x y := by
  induction x using Json.ind generalizing y with
  | null => cases y <;> simp_all [Json.sortKeys, Same.null]
  | bool b => cases y <;> simp_all [Json.sortKeys, Same.bool]
  | number x => cases y <;> simp_all [Json.sortKeys, Same.number]
  | string s => cases y <;> simp_all [Json.sortKeys, Same.string]
  | array items ih =>
      cases y <;> simp only [Json.sortKeys, reduceCtorEq] at h
      rename_i items'
      rw [Json.array.injEq, Json.sortItems_eq_map, Json.sortItems_eq_map] at h
      refine .array ?_
      induction items generalizing items' with
      | nil =>
          rw [List.map_nil, eq_comm, List.map_eq_nil_iff] at h
          exact h ▸ .nil
      | cons j js ihjs =>
          obtain ⟨j', js', rfl, hj, hjs⟩ := List.map_eq_cons_iff.mp h.symm
          exact .cons (ih j List.mem_cons_self hj.symm)
            (ihjs (fun i hi => ih i (List.mem_cons_of_mem _ hi)) js' hjs.symm)
  | object members ih =>
      cases y <;> simp only [Json.sortKeys, reduceCtorEq] at h
      rename_i members'
      rw [Json.object.injEq, Json.sortMembers_eq, Json.sortMembers_eq] at h
      have hperm : (mapValues Json.sortKeys members).Perm (mapValues Json.sortKeys members') :=
        (arrange_perm _).symm.trans ((List.Perm.of_eq h).trans (arrange_perm _))
      obtain ⟨reordered, hreordered, heq⟩ := exists_perm_map hperm
      refine @Same.object _ _ reordered ?_ hreordered
      clear h hperm hreordered
      induction members generalizing reordered with
      | nil =>
          rw [mapValues, List.map_nil, eq_comm, List.map_eq_nil_iff] at heq
          exact heq ▸ .nil
      | cons m ms ihms =>
          obtain ⟨⟨k, j⟩, js, rfl, hm, hms⟩ := List.map_eq_cons_iff.mp heq.symm
          obtain ⟨k', j'⟩ := m
          obtain ⟨rfl, hj⟩ := Prod.mk.inj hm
          exact .cons k (ih _ List.mem_cons_self hj.symm)
            (ihms (fun n hn => ih n (List.mem_cons_of_mem _ hn)) js hms.symm)

/-! ## Distinct keys -/

mutual

/-- The members of every object have distinct keys. -/
def Json.DistinctKeys : Json → Prop
  | .array items => DistinctItems items
  | .object members => (members.map Prod.fst).Nodup ∧ DistinctMembers members
  | _ => True

def Json.DistinctItems : List Json → Prop
  | [] => True
  | j :: js => j.DistinctKeys ∧ DistinctItems js

def Json.DistinctMembers : List (JSString × Json) → Prop
  | [] => True
  | (_, j) :: js => j.DistinctKeys ∧ DistinctMembers js

end

/-- **Member order does not matter.**  Values that are the same up to member order
have the same sorted form. -/
theorem sortKeys_eq_of_same {x y : Json} (hx : x.DistinctKeys) (h : Same x y) :
    x.sortKeys = y.sortKeys := by
  induction x using Json.ind generalizing y with
  | null => cases h; rfl
  | bool b => cases h; rfl
  | number x => cases h; rfl
  | string s => cases h; rfl
  | array items ih =>
      cases h with
      | @array _ items' hitems =>
          rw [Json.sortKeys, Json.sortKeys]
          congr 1
          rw [Json.DistinctKeys] at hx
          induction items generalizing items' with
          | nil => cases hitems; rfl
          | cons j js ihjs =>
              cases hitems with
              | cons hj hjs =>
                  rw [Json.sortItems, Json.sortItems, ih j List.mem_cons_self hx.1 hj,
                    ihjs (fun i hi => ih i (List.mem_cons_of_mem _ hi)) hx.2 hjs]
  | object members ih =>
      cases h with
      | @object _ members' reordered hmembers hperm =>
          obtain ⟨hnodup, hdistinct⟩ := hx
          have hvalues : Json.sortMembers members = Json.sortMembers reordered := by
            clear hperm hnodup
            induction members generalizing reordered with
            | nil => cases hmembers; rfl
            | cons m ms ihms =>
                cases hmembers with
                | cons k hj hms =>
                    rw [Json.sortMembers, Json.sortMembers, ih _ List.mem_cons_self hdistinct.1 hj,
                      ihms (fun n hn => ih n (List.mem_cons_of_mem _ hn)) hms hdistinct.2]
          rw [Json.sortKeys, Json.sortKeys, hvalues]
          congr 1
          apply arrange_eq_of_perm
          · rw [← hvalues, Json.sortMembers_eq, mapValues_keys]
            exact hnodup
          · rw [Json.sortMembers_eq, Json.sortMembers_eq]
            exact hperm.map _

end Js
