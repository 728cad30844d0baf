import GuardrailPlatform.AuthConf

/-!
# The permissions in the configuration

The configuration can be read back: split into lines, those of a permission block
are indented by eight spaces, and no other line is but that of the key.  So where
no name breaks a line, configurations that are equal grant the same
(`renderedPermissions_eq`).
-/

namespace Guardrail

open Js LineWrap

/-! ## Lines -/

def lines (text : JSString) : List JSString := text.splitOn 10

/-- A line of a permission block: deep, and not the one that starts with the `n` of `nkey`. -/
def isPermissionLine (line : JSString) : Bool :=
  (List.replicate 8 32).isPrefixOf line && (line.drop 8).head? != some 110

/-- The lines of the permission blocks in a text. -/
def permissionsIn (text : JSString) : List JSString := (lines text).filter isPermissionLine

theorem permissionsIn_glue (a b : JSString) :
    permissionsIn (a ++ 10 :: b) = permissionsIn a ++ permissionsIn b := by
  rw [permissionsIn, lines, List.splitOn_append_cons_self, List.filter_append]
  rfl

/-- A permission line that stands alone, with no line break in it, is found as it is. -/
theorem permissionsIn_line {line : JSString} (h : 10 ∉ line) (hline : isPermissionLine line = true) :
    permissionsIn line = [line] := by
  rw [permissionsIn, lines, List.splitOn_eq_singleton h, List.filter_cons_of_pos hline,
    List.filter_nil]

theorem permissionsIn_other {line : JSString} (h : 10 ∉ line)
    (hline : isPermissionLine line = false) : permissionsIn line = [] := by
  rw [permissionsIn, lines, List.splitOn_eq_singleton h,
    List.filter_cons_of_neg (Bool.eq_false_iff.mp hline), List.filter_nil]

theorem permissionsIn_nil : permissionsIn [] = [] := rfl

/-- A printable literal that is not itself a permission line has none in it. -/
theorem permissionsIn_str {letters : List Char}
    (h : letters.all (fun c => decide (32 ≤ c.toNat) && decide (c.toNat ≤ 126)) = true)
    (hline : isPermissionLine (letters.flatMap charUnits) = false) :
    permissionsIn (str (String.ofList letters)) = [] := by
  apply permissionsIn_other
  · intro hbreak
    exact absurd (List.all_eq_true.mp (printable_str h) 10 hbreak) (by decide)
  · rw [str, String.toList_ofList]
    exact hline

/-- The permission lines of joined parts are those of the parts in a row. -/
theorem permissionsIn_join (parts : List JSString) :
    permissionsIn ((str "\n").intercalate parts) = parts.flatMap permissionsIn := by
  induction parts with
  | nil => rfl
  | cons part parts ih =>
      by_cases hlast : parts = []
      · rw [hlast, List.intercalate_singleton, List.flatMap_singleton]
      · rw [List.intercalate_cons_of_ne_nil hlast, List.append_assoc, List.flatMap_cons, ← ih]
        exact permissionsIn_glue part _

theorem permissionsIn_paragraphs (parts : List JSString) :
    permissionsIn ((str "\n\n").intercalate parts) = parts.flatMap permissionsIn := by
  induction parts with
  | nil => rfl
  | cons part parts ih =>
      by_cases hlast : parts = []
      · rw [hlast, List.intercalate_singleton, List.flatMap_singleton]
      · rw [List.intercalate_cons_of_ne_nil hlast, List.append_assoc, List.flatMap_cons, ← ih]
        exact (permissionsIn_glue part _).trans (congrArg _ (permissionsIn_glue [] _))

/-! ## Text on one line -/

variable {reg : Registry}

/-- No declared operation's resource has a name that breaks a line. -/
def Registry.NamesOnOneLine (reg : Registry) : Prop := ∀ route ∈ reg.routes, 10 ∉ route.resource

theorem notMem_of_printable {text : JSString} (h : text.all printable = true) : 10 ∉ text :=
  fun hbreak => absurd (List.all_eq_true.mp h 10 hbreak) (by decide)

/-- Standing on one line is a property that the generated subjects inherit from
the keys. -/
theorem composes_oneLine : Composes fun text => 10 ∉ text := by
  have hunits := @composes_units (· ≠ 10) fun u hu hbreak =>
    absurd (hbreak ▸ hu : printable 10 = true) (by decide)
  have hsame : (fun text : JSString => ∀ u ∈ text, u ≠ 10) = fun text => 10 ∉ text := by
    funext text
    exact propext ⟨fun h hbreak => h 10 hbreak rfl, fun h u hu hbreak => h (hbreak ▸ hu)⟩
  rwa [hsame] at hunits

/-! ## Reading the blocks -/

/-- The lines of a permission block before the last. -/
def blockLines (permissions : Permissions) : List JSString :=
  [str "        permissions: \x7b",
    if permissions.publish.length = 0 then str "          publish: \x7b deny: [\">\"] \x7d"
    else str "          publish: \x7b allow: [" ++ quoted permissions.publish ++ str "] \x7d",
    str "          subscribe: \x7b allow: [" ++ quoted permissions.subscribe ++ str "] \x7d"] ++
  (if permissions.allowResponses then
    [str "          allow_responses: \x7b max: 1, expires: \"30s\" \x7d"] else [])

def blockEnd : JSString := str "        \x7d"

/-- A permission block is its lines and the line that ends it. -/
theorem permissionLines_eq (permissions : Permissions) :
    permissionLines permissions = blockLines permissions ++ [blockEnd] := rfl

/-- A list of quoted subjects stands on one line where each subject does. -/
theorem quoted_oneLine {subjects : List JSString} (h : ∀ subject ∈ subjects, 10 ∉ subject) :
    10 ∉ quoted subjects := by
  apply composes_oneLine.join (by decide) (by decide)
  intro part hpart
  obtain ⟨subject, hsubject, rfl⟩ := List.mem_map.mp hpart
  exact composes_oneLine.between (printable_str (by decide)) (h subject hsubject)
    (printable_str (by decide))

/-- Deeper lines are lines of the block, and do not end it. -/
theorem isPermissionLine_deeper {line : JSString} (h : List.replicate 9 32 <+: line) :
    isPermissionLine line = true ∧ line ≠ blockEnd := by
  obtain ⟨rest, rfl⟩ := h
  refine ⟨rfl, fun hend => ?_⟩
  have hspace : (32 : UInt16) = 125 := congrArg (fun line => line.getD 8 0) hend
  exact absurd hspace (by decide)

/-- A constant whose letters are indented by nine blanks is a text that begins with nine
blanks. -/
theorem deeper_str {letters : List Char} (h : letters.take 9 = List.replicate 9 ' ') :
    List.replicate 9 32 <+: str (String.ofList letters) := by
  rw [str, String.toList_ofList, ← List.take_append_drop 9 letters, h, List.flatMap_append]
  exact List.prefix_append _ _

/-- The lines of a block are such lines, and none but the last ends it. -/
theorem mem_blockLines {permissions : Permissions}
    (hpublish : ∀ subject ∈ permissions.publish, 10 ∉ subject)
    (hsubscribe : ∀ subject ∈ permissions.subscribe, 10 ∉ subject) {line : JSString}
    (h : line ∈ blockLines permissions) :
    10 ∉ line ∧ isPermissionLine line = true ∧ line ≠ blockEnd := by
  have hliteral : ∀ {text : JSString}, text.all printable = true → List.replicate 9 32 <+: text →
      10 ∉ text ∧ isPermissionLine text = true ∧ text ≠ blockEnd := by
    intro text htext hdeeper
    exact ⟨notMem_of_printable htext, isPermissionLine_deeper hdeeper⟩
  have hallow : ∀ {lead : JSString}, lead.all printable = true → List.replicate 9 32 <+: lead →
      ∀ subjects : List JSString, (∀ subject ∈ subjects, 10 ∉ subject) →
      10 ∉ lead ++ quoted subjects ++ str "] \x7d" ∧
        isPermissionLine (lead ++ quoted subjects ++ str "] \x7d") = true ∧
        lead ++ quoted subjects ++ str "] \x7d" ≠ blockEnd := by
    intro lead hlead hdeeper subjects hsubjects
    refine ⟨composes_oneLine.between hlead (quoted_oneLine hsubjects) (printable_str (by decide)),
      isPermissionLine_deeper ?_⟩
    rw [List.append_assoc]
    exact List.IsPrefix.trans hdeeper (List.prefix_append _ _)
  rcases List.mem_append.mp h with h | h
  · simp only [List.mem_cons, List.not_mem_nil, or_false] at h
    rcases h with rfl | rfl | rfl
    · exact ⟨notMem_of_printable (printable_str (by decide)), by decide, by decide⟩
    · split
      · exact hliteral (printable_str (by decide)) (deeper_str (by decide))
      · exact hallow (printable_str (by decide)) (deeper_str (by decide)) _ hpublish
    · exact hallow (printable_str (by decide)) (deeper_str (by decide)) _ hsubscribe
  · split at h
    · rw [List.mem_singleton.mp h]
      exact hliteral (printable_str (by decide)) (deeper_str (by decide))
    · cases h

/-- **A block** is read back as the lines it was written with, as long as no subject has a
line break. -/
theorem permissionsIn_block {permissions : Permissions}
    (hpublish : ∀ subject ∈ permissions.publish, 10 ∉ subject)
    (hsubscribe : ∀ subject ∈ permissions.subscribe, 10 ∉ subject) :
    permissionsIn (renderPermissions permissions) = permissionLines permissions := by
  rw [renderPermissions, permissionsIn_join, permissionLines_eq, List.flatMap_append,
    List.flatMap_singleton]
  have hlines : ∀ line ∈ blockLines permissions, permissionsIn line = [line] := by
    intro line hline
    obtain ⟨honeLine, hdeep, -⟩ := mem_blockLines hpublish hsubscribe hline
    exact permissionsIn_line honeLine hdeep
  have hend : permissionsIn blockEnd = [blockEnd] := by decide
  rw [hend, List.flatMap_congr hlines, List.flatMap_singleton']

/-- Wrapping a comment into lines adds no character to them that the comment did not have.
-/
theorem mem_wrapped {why line : JSString} (h : line ∈ wrapped why) : ∀ u ∈ line, u ∈ why := by
  rw [wrapped] at h
  cases hwrap : wrap isTrimmed isDot 80 why with
  | nil =>
      rw [hwrap] at h
      rw [List.mem_singleton.mp h]
      exact fun u hu => hu
  | cons first others =>
      rw [hwrap] at h
      have hmatch : line ∈ wrap isTrimmed isDot 80 why := hwrap ▸ h
      exact mem_of_mem_wrapFrom hmatch

theorem mem_trim {text : JSString} {u : UInt16} (h : u ∈ trim text) : u ∈ text := by
  rw [trim, List.mem_reverse] at h
  have hright := (List.dropWhile_suffix isTrimmed).subset h
  exact (List.dropWhile_suffix isTrimmed).subset (List.mem_reverse.mp hright)

/-- **An entry**: where neither its texts nor its key have a line break, the lines read of
it are its block's. -/
theorem permissionsIn_renderUser {user : AuthUser} (huser : user.Satisfies fun text => 10 ∉ text)
    {publicKey : JSString} (hkey : 10 ∉ publicKey) :
    permissionsIn (renderUser user publicKey) = user.permissions.toList.flatMap permissionLines := by
  obtain ⟨hwhy, hpermissions⟩ := huser
  have hcomment : permissionsIn ((str "\n").intercalate
      ((wrapped user.why).map fun line => str "      # " ++ trim line)) = [] := by
    rw [permissionsIn_join, List.flatMap_map, List.flatMap_eq_nil_iff]
    intro line hline
    apply permissionsIn_other _ (by rfl)
    intro hbreak
    rcases List.mem_append.mp hbreak with hbreak | hbreak
    · exact absurd hbreak (by decide)
    · exact hwhy (mem_wrapped hline 10 (mem_trim hbreak))
  have hnkey : permissionsIn (str "        nkey: \"" ++ publicKey ++ str "\"") = [] := by
    apply permissionsIn_other _ (by rfl)
    simp only [List.mem_append, not_or]
    exact ⟨⟨by decide, hkey⟩, by decide⟩
  have hopen : permissionsIn (str "      \x7b") = [] := permissionsIn_str (by decide) (by decide)
  have hclose : permissionsIn (str "      \x7d") = [] := permissionsIn_str (by decide) (by decide)
  have hglue : ∀ a b : JSString, permissionsIn (a ++ str "\n" ++ b) =
      permissionsIn a ++ permissionsIn b := by
    intro a b
    rw [List.append_assoc]
    exact permissionsIn_glue a b
  rw [renderUser, hglue, hcomment, List.nil_append, permissionsIn_join, List.flatMap_append,
    List.flatMap_append, List.flatMap_cons, List.flatMap_singleton, List.flatMap_singleton, hopen,
    hnkey, hclose, List.append_nil]
  cases hsome : user.permissions with
  | none => rfl
  | some permissions =>
      obtain ⟨hpublish, hsubscribe⟩ := hpermissions permissions hsome
      simp [permissionsIn_block hpublish hsubscribe]

/-- The fixed parts of the file show no permissions of a user. -/
theorem permissionsIn_fixed :
    ∀ line ∈ configHead ++ configMiddle ++ configTail, permissionsIn line = [] := by
  repeat
    refine List.forall_mem_cons.mpr ⟨?_, ?_⟩
    · first
      | with_reducible exact permissionsIn_nil
      | exact permissionsIn_str (by decide) (by decide)
  exact List.forall_mem_nil _

/-- The permission lines of a file are those of its users, account by account. -/
theorem permissionsIn_renderConfig {list : List AuthUser}
    (hlist : ∀ user ∈ list, user.Satisfies fun text => 10 ∉ text) {publicKeys : List (JSString × JSString)}
    (hkeys : ∀ name, 10 ∉ (publicKeys.lookup name).getD []) :
    permissionsIn (renderConfig list publicKeys) =
      ((list.filter fun user => user.account == .app) ++
        list.filter fun user => user.account == .sys).flatMap
          fun user => user.permissions.toList.flatMap permissionLines := by
  have haccount : ∀ account, permissionsIn (forAccount list publicKeys account) =
      (list.filter fun user => user.account == account).flatMap
        fun user => user.permissions.toList.flatMap permissionLines := by
    intro account
    rw [forAccount, permissionsIn_paragraphs, List.flatMap_map]
    apply List.flatMap_congr
    intro user huser
    exact permissionsIn_renderUser (hlist user (List.mem_of_mem_filter huser)) (hkeys user.name)
  have hfixed := List.flatMap_eq_nil_iff.mpr permissionsIn_fixed
  rw [List.flatMap_append, List.flatMap_append, List.append_eq_nil_iff,
    List.append_eq_nil_iff] at hfixed
  obtain ⟨⟨hhead, hmiddle⟩, htail⟩ := hfixed
  rw [renderConfig, permissionsIn_join]
  simp only [List.flatMap_append, List.flatMap_singleton, hhead, hmiddle, htail, haccount,
    List.nil_append, List.append_nil]

/-! ## Which permissions are granted -/

/-- What `renderPermissions` gives, user by user. -/
def renderedPermissions (users : List AuthUser) : List JSString :=
  (users.filterMap (·.permissions)).map renderPermissions

/-- The users of the server's own account come last, so printing account by account keeps
their order. -/
theorem authUsers_accounts {list : List AuthUser} (h : authUsers reg = some list) :
    (list.filter fun user => user.account == .app) ++
      (list.filter fun user => user.account == .sys) = list := by
  obtain ⟨consumers, -, hlist⟩ := Option.bind_eq_some_iff.mp h
  obtain rfl := Option.some.inj hlist
  rfl

/-- **The permissions are read back** from the configuration's text, block by block and in
the users' order. -/
theorem splitOn_permissionsIn (hreg : reg.NamesOnOneLine) {list : List AuthUser}
    (h : authUsers reg = some list) {publicKeys : List (JSString × JSString)}
    (hkeys : ∀ name, 10 ∉ (publicKeys.lookup name).getD []) :
    (permissionsIn (renderConfig list publicKeys)).splitOn blockEnd =
      (list.filterMap (·.permissions)).map blockLines ++ [[]] := by
  have hlist := composes_oneLine.of_authUsers hreg h
  have hblocks : (list.flatMap fun user => user.permissions.toList.flatMap permissionLines) =
      ((list.filterMap (·.permissions)).map blockLines).flatMap (· ++ [blockEnd]) := by
    rw [List.flatMap_map, List.filterMap_eq_flatMap_toList, List.flatMap_assoc]
    rfl
  rw [permissionsIn_renderConfig hlist hkeys, authUsers_accounts h, hblocks]
  apply Words.splitOn_closed
  intro block hblock hend
  obtain ⟨permissions, hpermissions, rfl⟩ := List.mem_map.mp hblock
  obtain ⟨user, huser, hsome⟩ := List.mem_filterMap.mp hpermissions
  obtain ⟨hpublish, hsubscribe⟩ := (hlist user huser).2 permissions hsome
  exact (mem_blockLines hpublish hsubscribe hend).2.2 rfl

/-- **Equal configurations grant the same.**  If two registries are rendered to the same
file, their users have the same permissions in the same order. -/
theorem renderedPermissions_eq {reg' : Registry} (hreg : reg.NamesOnOneLine)
    (hreg' : reg'.NamesOnOneLine) {list list' : List AuthUser} (h : authUsers reg = some list)
    (h' : authUsers reg' = some list') {publicKeys publicKeys' : List (JSString × JSString)}
    (hkeys : ∀ name, 10 ∉ (publicKeys.lookup name).getD [])
    (hkeys' : ∀ name, 10 ∉ (publicKeys'.lookup name).getD [])
    (hsame : renderConfig list publicKeys = renderConfig list' publicKeys') :
    renderedPermissions list = renderedPermissions list' := by
  have hsplit := splitOn_permissionsIn hreg h hkeys
  rw [hsame, splitOn_permissionsIn hreg' h' hkeys'] at hsplit
  have hlines := congrArg (List.map fun block => (str "\n").intercalate (block ++ [blockEnd]))
    (List.append_cancel_right hsplit)
  rw [List.map_map, List.map_map] at hlines
  exact hlines.symm

end Guardrail
