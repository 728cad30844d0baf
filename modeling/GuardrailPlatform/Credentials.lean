import GuardrailPlatform.AuthConfLines
import GuardrailPlatform.Seeds

/-!
# Credentials on disk

`main` of `generate-auth.ts` gives every user of the bus a seed unless its file
already holds one, writes the seeds out and renders the server's configuration
with the public keys; with `--check` it renders the configuration again, from the
files, and compares.

Run again, `main` changes no byte.  The check passes just when the registry
writes cleanly: a lone surrogate is replaced as the configuration is written, so
what is read back is never what is rendered.
-/

namespace Guardrail

open Js

/-! ## Keys -/

/-- `PKCS8_ED25519`. -/
def pkcs8Ed25519 : List UInt8 :=
  [0x30, 0x2e, 0x02, 0x01, 0x00, 0x30, 0x05, 0x06, 0x03, 0x2b, 0x65, 0x70, 0x04, 0x22, 0x04, 0x20]

/-- Ed25519 as `node:crypto` has it: the exported public key of a private key, `none` where the key
is refused.  It accepts every raw seed of 32 bytes, and what it exports ends in 32 of key. -/
structure Ed25519 where
  spki : List UInt8 → Option (List UInt8)
  accepts : ∀ raw : RawSeed, ∃ der, spki (pkcs8Ed25519 ++ raw.bytes) = some der ∧ 32 ≤ der.length

variable (ed : Ed25519)

def publicKeyOf (rawSeed : List UInt8) : Option JSString :=
  (ed.spki (pkcs8Ed25519 ++ rawSeed)).map fun spki =>
    base32 (withChecksum (prefixUser.toUInt8 :: spki.drop (spki.length - 32)))

/-- `publicKeyOf(decodeSeed(seed))`, `none` where either throws. -/
def publicKeyOfSeed (seed : JSString) : Option JSString :=
  match decodeSeed seed with
  | .error _ => none
  | .ok rawSeed => publicKeyOf ed rawSeed

/-! ## The files -/

/-- `auth.conf`, and the `.nk` and `.env` files of the credentials directory by user. -/
@[ext] structure Disk where
  authConf : Option (List UInt8)
  nk : JSString → Option (List UInt8)
  env : JSString → Option (List UInt8)

namespace Disk

def setNk (disk : Disk) (user : JSString) (bytes : List UInt8) : Disk :=
  { disk with nk := fun name => if name = user then some bytes else disk.nk name }

def setEnv (disk : Disk) (user : JSString) (bytes : List UInt8) : Disk :=
  { disk with env := fun name => if name = user then some bytes else disk.env name }

/-- What `readFileSync(path, "utf8").trim()` finds in a user's seed file. -/
def seedText (disk : Disk) (user : JSString) : Option JSString :=
  (disk.nk user).map fun bytes => trim (fileText bytes)

end Disk

/-- `existing.startsWith("SU")`. -/
def looksLikeSeed (existing : JSString) : Bool := (str "SU").isPrefixOf existing

/-- `loadOrCreateSeed`, with what `randomBytes(32)` gives if it is called. -/
def loadOrCreateSeed (disk : Disk) (user : JSString) (rotate : Bool) (fresh : RawSeed) :
    JSString × Disk :=
  match if rotate then none else (disk.seedText user).filter looksLikeSeed with
  | some existing => (existing, disk)
  | none =>
    (encodeSeed fresh.bytes, disk.setNk user (fileBytes (encodeSeed fresh.bytes ++ str "\n")))

/-- The text of a user's `.env` file. -/
def envText (user seed : JSString) : JSString :=
  str "# Credentials for the '" ++ user ++
    str "' NATS user. Load these into that process only.\nNATS_USER=" ++ user ++
      str "\nNATS_NKEY_SEED=" ++ seed ++ str "\n"

/-- The loop of `main` over the users still to come, with the keys so far; `none` is a throw, which
leaves the files as they are then. -/
def writeUsers (rotate : Bool) (fresh : JSString → RawSeed) :
    List AuthUser → Disk → List (JSString × JSString) →
      Disk × Option (List (JSString × JSString))
  | [], disk, publicKeys => (disk, some publicKeys)
  | user :: rest, disk, publicKeys =>
    let loaded := loadOrCreateSeed disk user.name rotate (fresh user.name)
    match publicKeyOfSeed ed loaded.1 with
    | none => (loaded.2, none)
    | some key =>
      writeUsers rotate fresh rest
        (loaded.2.setEnv user.name (fileBytes (envText user.name loaded.1)))
        ((user.name, key) :: publicKeys)

/-- `main` without `--check`: the files it leaves, and whether it returns. -/
def main (users : List AuthUser) (rotate : Bool) (fresh : JSString → RawSeed) (disk : Disk) :
    Disk × Bool :=
  match writeUsers ed rotate fresh users disk [] with
  | (disk, none) => (disk, false)
  | (disk, some publicKeys) =>
    ({ disk with authConf := some (fileBytes (renderConfig users publicKeys)) }, true)

/-- How `main` ends with `--check`. -/
inductive Verdict
  | inSync
  | drifted
  | missing
  | threw

/-- The keys the check renders with: none for a user without a seed file. -/
def checkedKeys (disk : Disk) : List AuthUser → Option (List (JSString × JSString))
  | [] => some []
  | user :: rest => do
    let key ← match disk.seedText user.name with
      | none => some []
      | some seed => publicKeyOfSeed ed seed
    let others ← checkedKeys disk rest
    return (user.name, key) :: others

/-- `main` with `--check`, which writes nothing. -/
def check (users : List AuthUser) (disk : Disk) : Verdict :=
  match disk.authConf with
  | none => .missing
  | some current =>
    match checkedKeys ed disk users with
    | none => .threw
    | some keys => if fileText current = renderConfig users keys then .inSync else .drifted

/-! ## Seeds in files -/

/-- Every index below 32 leads to a letter of the base32 alphabet. -/
theorem base32Letter_mem {index : ℕ} (h : index < 32) : base32Letter index ∈ base32Alphabet := by
  rw [base32Letter, List.getD_eq_getElem base32Alphabet 0 h]
  exact List.getElem_mem h

/-- A base32 text holds letters of the alphabet and no other characters. -/
theorem mem_base32 {bytes : List UInt8} : ∀ u ∈ base32 bytes, u ∈ base32Alphabet := by
  intro u hu
  obtain ⟨digits, z, hdigits, -, -, hwrite⟩ := base32_spec bytes
  rw [hwrite] at hu
  obtain ⟨d, hd, rfl⟩ := List.mem_map.mp hu
  exact base32Letter_mem (hdigits d hd)

/-- A base32 text is printable, so it can stand on a line of the file. -/
theorem printable_base32 (bytes : List UInt8) : (base32 bytes).all printable = true := by
  have halphabet : base32Alphabet.all printable = true := by decide
  exact List.all_eq_true.mpr fun u hu => List.all_eq_true.mp halphabet u (mem_base32 u hu)

/-- The prefix byte makes every encoded seed start with `SU`, whatever its random part. -/
theorem looksLikeSeed_encodeSeed (raw : List UInt8) : looksLikeSeed (encodeSeed raw) = true := by
  rw [encodeSeed_eq, seedBytes]
  rfl

/-- A line that is written with its line break is read back trimmed to itself. -/
theorem trim_line {line : JSString} (h : ∀ u ∈ line, isTrimmed u = false) :
    trim (line ++ str "\n") = line := by
  have hkept : ∀ text : JSString, (∀ u ∈ text, isTrimmed u = false) →
      text.dropWhile isTrimmed = text := by
    intro text htext
    cases text with
    | nil => rfl
    | cons u text => exact List.dropWhile_cons_of_neg (by simp [htext u List.mem_cons_self])
  cases line with
  | nil => decide
  | cons u line =>
      have hu : ¬ isTrimmed u = true := by simp [h u List.mem_cons_self]
      rw [trim, List.cons_append, List.dropWhile_cons_of_neg hu, ← List.cons_append,
        List.reverse_append]
      have hend : ((str "\n").reverse ++ (u :: line).reverse).dropWhile isTrimmed =
          (u :: line).reverse.dropWhile isTrimmed := rfl
      rw [hend, hkept _ fun v hv => h v (List.mem_reverse.mp hv), List.reverse_reverse]

/-- A seed's file, with the line break that was written behind it, is read as the seed. -/
theorem trim_fileText_seed (raw : List UInt8) :
    trim (fileText (fileBytes (encodeSeed raw ++ str "\n"))) = encodeSeed raw := by
  have hletters : base32Alphabet.all (fun u => !isTrimmed u) = true := by decide
  have hplain : IsPlain (encodeSeed raw ++ str "\n") := by
    rw [encodeSeed_eq]
    exact IsPlain.append (isPlain_of_printable (printable_base32 _)) (by decide)
  rw [(fileText_fileBytes_iff _).mpr (isWellFormed_plain hplain)]
  apply trim_line
  intro u hu
  rw [encodeSeed_eq] at hu
  have hletter := List.all_eq_true.mp hletters u (mem_base32 u hu)
  rwa [Bool.not_eq_true'] at hletter

/-- A user's seed file holds the seed. -/
def Seeded (disk : Disk) (user : JSString) (raw : RawSeed) : Prop :=
  disk.seedText user = some (encodeSeed raw.bytes)

/-- Every file that starts with `SU` holds a seed that `encodeSeed` produced. -/
def SeedsIntact (disk : Disk) : Prop :=
  ∀ user text, disk.seedText user = some text → looksLikeSeed text = true →
    ∃ raw : RawSeed, text = encodeSeed raw.bytes

/-- A seed that was written for a user is the one that is read back, trimmed. -/
@[simp] theorem seedText_setNk_self (disk : Disk) (user : JSString) (bytes : List UInt8) :
    (disk.setNk user bytes).seedText user = some (trim (fileText bytes)) := by
  simp [Disk.seedText, Disk.setNk]

/-- Writing one user's seed leaves what stands in every other user's file. -/
theorem seedText_setNk_of_ne {disk : Disk} {user other : JSString} (h : other ≠ user)
    (bytes : List UInt8) : (disk.setNk user bytes).seedText other = disk.seedText other := by
  simp [Disk.seedText, Disk.setNk, h]

/-- A seed that is on file is kept and read again, and nothing is written to the disk. -/
theorem loadOrCreateSeed_seeded {disk : Disk} {user : JSString} {raw : RawSeed}
    (h : Seeded disk user raw) (fresh : RawSeed) :
    loadOrCreateSeed disk user false fresh = (encodeSeed raw.bytes, disk) := by
  have hkept : (disk.seedText user).filter looksLikeSeed = some (encodeSeed raw.bytes) := by
    rw [show disk.seedText user = _ from h]
    exact Option.filter_eq_some_iff.mpr ⟨rfl, looksLikeSeed_encodeSeed raw.bytes⟩
  rw [loadOrCreateSeed, if_neg Bool.false_ne_true, hkept]

/-- What `loadOrCreateSeed` leaves: the user's file holds the returned seed, and no other file is
touched. -/
theorem loadOrCreateSeed_spec {disk : Disk} (h : SeedsIntact disk) (user : JSString)
    (fresh : RawSeed) :
    ∃ raw disk', loadOrCreateSeed disk user false fresh = (encodeSeed raw.bytes, disk') ∧
      Seeded disk' user raw ∧ SeedsIntact disk' ∧ disk'.env = disk.env ∧
      ∀ other, other ≠ user → disk'.seedText other = disk.seedText other := by
  cases hkept : (disk.seedText user).filter looksLikeSeed with
  | some existing =>
      obtain ⟨htext, hlooks⟩ := Option.filter_eq_some_iff.mp hkept
      obtain ⟨raw, rfl⟩ := h user existing htext hlooks
      exact ⟨raw, disk, loadOrCreateSeed_seeded htext fresh, htext, h, rfl, fun _ _ => rfl⟩
  | none =>
      have hfresh : Seeded (disk.setNk user (fileBytes (encodeSeed fresh.bytes ++ str "\n"))) user
          fresh := by
        rw [Seeded, seedText_setNk_self, trim_fileText_seed]
      refine ⟨fresh, _, by rw [loadOrCreateSeed, if_neg Bool.false_ne_true, hkept], hfresh, ?_, rfl,
        fun other hother => seedText_setNk_of_ne hother _⟩
      intro name text htext hlooks
      by_cases hname : name = user
      · subst hname
        exact ⟨fresh, Option.some.inj (htext.symm.trans hfresh)⟩
      · rw [seedText_setNk_of_ne hname] at htext
        exact h name text htext hlooks

/-! ## One run -/

variable {ed}

/-- The key of a user, as its seed file gives it. -/
def keyOn (ed : Ed25519) (disk : Disk) (user : JSString) : JSString :=
  ((disk.seedText user).bind (publicKeyOfSeed ed)).getD []

/-- The configuration with the keys on file. -/
def configOn (ed : Ed25519) (users : List AuthUser) (disk : Disk) : JSString :=
  renderConfig users (users.map fun user => (user.name, keyOn ed disk user.name))

theorem publicKeyOfSeed_seeded {disk : Disk} {user : JSString} {raw : RawSeed}
    (h : Seeded disk user raw) :
    publicKeyOfSeed ed (encodeSeed raw.bytes) = some (keyOn ed disk user) ∧
      (keyOn ed disk user).all printable = true := by
  obtain ⟨der, hder, -⟩ := ed.accepts raw
  have hkey : publicKeyOfSeed ed (encodeSeed raw.bytes) =
      some (base32 (withChecksum (prefixUser.toUInt8 :: der.drop (der.length - 32)))) := by
    rw [publicKeyOfSeed, decodeSeed_encodeSeed]
    simp only
    rw [publicKeyOf, hder, Option.map_some]
  have hon : keyOn ed disk user =
      base32 (withChecksum (prefixUser.toUInt8 :: der.drop (der.length - 32))) := by
    rw [keyOn, show disk.seedText user = _ from h, Option.bind_some, hkey, Option.getD_some]
  rw [hon]
  exact ⟨hkey, printable_base32 _⟩

/-- A user's files after a run. -/
def Written (disk : Disk) (user : JSString) : Prop :=
  ∃ raw, Seeded disk user raw ∧
    disk.env user = some (fileBytes (envText user (encodeSeed raw.bytes)))

/-- A run writes every user's seed where there was none, and keeps those there
were. -/
theorem writeUsers_spec (fresh : JSString → RawSeed) {users : List AuthUser}
    (hnames : (users.map (·.name)).Nodup) {disk : Disk} (h : SeedsIntact disk)
    (publicKeys : List (JSString × JSString)) :
    ∃ disk' publicKeys',
      writeUsers ed false fresh users disk publicKeys = (disk', some publicKeys') ∧
      SeedsIntact disk' ∧
      (∀ user ∈ users, Written disk' user.name ∧
        publicKeys'.lookup user.name = some (keyOn ed disk' user.name)) ∧
      ∀ name, name ∉ users.map (·.name) → disk'.seedText name = disk.seedText name ∧
        disk'.env name = disk.env name ∧ publicKeys'.lookup name = publicKeys.lookup name := by
  induction users generalizing disk publicKeys with
  | nil => exact ⟨disk, publicKeys, rfl, h, by simp, fun name _ => ⟨rfl, rfl, rfl⟩⟩
  | cons user users ih =>
      rw [List.map_cons, List.nodup_cons] at hnames
      obtain ⟨raw, loaded, hload, hseeded, hintact, henv, hothers⟩ :=
        loadOrCreateSeed_spec h user.name (fresh user.name)
      obtain ⟨hkey, -⟩ := @publicKeyOfSeed_seeded ed _ _ _ hseeded
      obtain ⟨disk', publicKeys', hrest, hintact', hwritten, hframe⟩ :=
        @ih hnames.2 (loaded.setEnv user.name (fileBytes (envText user.name (encodeSeed raw.bytes))))
          hintact ((user.name, keyOn ed loaded user.name) :: publicKeys)
      obtain ⟨htext, hfile, hlookup⟩ := hframe user.name hnames.1
      refine ⟨disk', publicKeys', ?_, hintact', ?_, ?_⟩
      · rw [writeUsers, hload]
        simp only [hkey]
        exact hrest
      · intro other hother
        rcases List.mem_cons.mp hother with rfl | hother
        · refine ⟨⟨raw, htext.trans hseeded, ?_⟩, ?_⟩
          · rw [hfile]
            simp [Disk.setEnv]
          · rw [hlookup, List.lookup_cons_self, keyOn, keyOn, htext]
            rfl
        · exact hwritten other hother
      · intro name hname
        rw [List.map_cons, List.mem_cons, not_or] at hname
        obtain ⟨htext', hfile', hlookup'⟩ := hframe name hname.2
        refine ⟨htext'.trans (hothers name hname.1), ?_, ?_⟩
        · rw [hfile', ← henv]
          simp [Disk.setEnv, hname.1]
        · rw [hlookup', List.lookup_cons, beq_eq_false_iff_ne.mpr hname.1]

/-- Where all files are written, a run rewrites them as they are. -/
theorem writeUsers_written (fresh : JSString → RawSeed) {users : List AuthUser} {disk : Disk}
    (h : ∀ user ∈ users, Written disk user.name) (publicKeys : List (JSString × JSString)) :
    (writeUsers ed false fresh users disk publicKeys).1 = disk := by
  induction users generalizing publicKeys with
  | nil => rfl
  | cons user users ih =>
      obtain ⟨raw, hseeded, henv⟩ := h user List.mem_cons_self
      obtain ⟨hkey, -⟩ := @publicKeyOfSeed_seeded ed _ _ _ hseeded
      have hsame : disk.setEnv user.name (fileBytes (envText user.name (encodeSeed raw.bytes))) =
          disk := by
        ext1
        · rfl
        · rfl
        · funext name
          by_cases hname : name = user.name
          · simp [Disk.setEnv, hname, henv]
          · simp [Disk.setEnv, hname]
      rw [writeUsers, loadOrCreateSeed_seeded hseeded]
      simp only [hkey, hsame]
      exact ih (fun other hother => h other (List.mem_cons_of_mem _ hother)) _

/-- A user's entry in a table by name is the user's own, since names are not
shared. -/
theorem lookup_map_name (f : JSString → JSString) {users : List AuthUser} {user : AuthUser}
    (h : user ∈ users) : (users.map fun u => (u.name, f u.name)).lookup user.name =
      some (f user.name) := by
  induction users with
  | nil => cases h
  | cons first users ih =>
      rw [List.map_cons, List.lookup_cons]
      by_cases hname : user.name = first.name
      · rw [hname, beq_self_eq_true]
      · rw [beq_eq_false_iff_ne.mpr hname]
        apply ih
        exact (List.mem_cons.mp h).resolve_left fun hsame => hname (hsame ▸ rfl)

/-- Of the keys only those of the users matter: equal under their names, they render the
same file. -/
theorem renderConfig_congr {users : List AuthUser} {keys keys' : List (JSString × JSString)}
    (h : ∀ user ∈ users, keys.lookup user.name = keys'.lookup user.name) :
    renderConfig users keys = renderConfig users keys' := by
  have haccount : ∀ account, forAccount users keys account = forAccount users keys' account := by
    intro account
    rw [forAccount, forAccount]
    congr 1
    apply List.map_congr_left
    intro user huser
    rw [h user (List.mem_of_mem_filter huser)]
  rw [renderConfig, renderConfig, haccount, haccount]

/-- What a run leaves: every user's files, and the configuration with their keys. -/
structure Provisioned (ed : Ed25519) (users : List AuthUser) (disk : Disk) : Prop where
  written : ∀ user ∈ users, Written disk user.name
  config : disk.authConf = some (fileBytes (configOn ed users disk))
  intact : SeedsIntact disk

/-- The files a run leaves, where all is written already: the same, and the configuration. -/
theorem main_of_writeUsers (fresh : JSString → RawSeed) {users : List AuthUser}
    (hnames : (users.map (·.name)).Nodup) {disk : Disk} (h : SeedsIntact disk) :
    ∃ disk', (writeUsers ed false fresh users disk []).1 = disk' ∧ SeedsIntact disk' ∧
      (∀ user ∈ users, Written disk' user.name) ∧
      main ed users false fresh disk =
        ({ disk' with authConf := some (fileBytes (configOn ed users disk')) }, true) := by
  obtain ⟨disk', publicKeys, hrun, hintact, hwritten, -⟩ :=
    @writeUsers_spec ed fresh users hnames disk h []
  have hconfig : renderConfig users publicKeys = configOn ed users disk' := by
    apply renderConfig_congr
    intro user huser
    rw [(hwritten user huser).2, lookup_map_name _ huser]
  refine ⟨disk', by rw [hrun], hintact, fun user huser => (hwritten user huser).1, ?_⟩
  rw [main, hrun]
  simp only [hconfig]

/-- **A first run** over intact seeds succeeds, and leaves every user provisioned with a
seed and the key of it. -/
theorem main_provisions (fresh : JSString → RawSeed) {users : List AuthUser}
    (hnames : (users.map (·.name)).Nodup) {disk : Disk} (h : SeedsIntact disk) :
    ∃ disk', main ed users false fresh disk = (disk', true) ∧ Provisioned ed users disk' := by
  obtain ⟨disk', -, hintact, hwritten, hmain⟩ := @main_of_writeUsers ed fresh users hnames disk h
  exact ⟨_, hmain, hwritten, rfl, hintact⟩

/-- **A second run** over what a first has left succeeds and changes nothing on the disk. -/
theorem main_provisioned (fresh : JSString → RawSeed) {users : List AuthUser}
    (hnames : (users.map (·.name)).Nodup) {disk : Disk} (h : Provisioned ed users disk) :
    main ed users false fresh disk = (disk, true) := by
  obtain ⟨disk', hfirst, -, -, hmain⟩ := @main_of_writeUsers ed fresh users hnames disk h.intact
  obtain rfl : disk = disk' := (writeUsers_written fresh h.written []).symm.trans hfirst
  rw [hmain, ← h.config]

/-! ## The check -/

/-- The check finds the public key of every user whose seed was written. -/
theorem checkedKeys_written {users : List AuthUser} {disk : Disk}
    (h : ∀ user ∈ users, Written disk user.name) :
    checkedKeys ed disk users =
      some (users.map fun user => (user.name, keyOn ed disk user.name)) := by
  induction users with
  | nil => rfl
  | cons user users ih =>
      obtain ⟨raw, hseeded, -⟩ := h user List.mem_cons_self
      obtain ⟨hkey, -⟩ := @publicKeyOfSeed_seeded ed _ _ _ hseeded
      rw [checkedKeys, show disk.seedText user.name = _ from hseeded]
      simp only [hkey]
      rw [ih fun other hother => h other (List.mem_cons_of_mem _ hother)]
      rfl

/-- The check compares what is read with what the registry would render. -/
theorem check_provisioned {users users' : List AuthUser} {disk : Disk}
    (h : Provisioned ed users disk)
    (hsame : ∀ user ∈ users', ∃ other ∈ users, other.name = user.name) :
    check ed users' disk =
      if fileText (fileBytes (configOn ed users disk)) = configOn ed users' disk then .inSync
      else .drifted := by
  have hwritten : ∀ user ∈ users', Written disk user.name := by
    intro user huser
    obtain ⟨other, hother, hname⟩ := hsame user huser
    rw [← hname]
    exact h.written other hother
  rw [check, h.config]
  simp only
  rw [checkedKeys_written hwritten]
  rfl

variable {reg reg' : Registry} {list list' : List AuthUser}

theorem authUsers_names (h : authUsers reg = some list) : list.map (·.name) =
    [str "gateway", str "projects", str "identity", str "billing", str "audit", str "bootstrap",
      str "observer", str "sysadmin"] := by
  obtain ⟨consumers, -, hlist⟩ := Option.bind_eq_some_iff.mp h
  obtain rfl := Option.some.inj hlist
  rfl

/-- No two users of the configuration share a name, so each has a file of its own. -/
theorem nodup_names (h : authUsers reg = some list) : (list.map (·.name)).Nodup := by
  rw [authUsers_names h]
  decide

/-- The users of two registries have the same names: only their permissions
differ. -/
theorem same_names (h : authUsers reg = some list) (h' : authUsers reg' = some list') :
    ∀ user ∈ list', ∃ other ∈ list, other.name = user.name := by
  intro user huser
  have hname : user.name ∈ list.map (·.name) := by
    rw [authUsers_names h, ← authUsers_names h']
    exact List.mem_map_of_mem huser
  exact List.mem_map.mp hname

/-- The keys that the written seeds give the configuration are printable, and an unknown
name is given none. -/
theorem printable_keys {users : List AuthUser} {disk : Disk}
    (h : ∀ user ∈ users, Written disk user.name) (name : JSString) :
    (((users.map fun user => (user.name, keyOn ed disk user.name)).lookup name).getD []).all
      printable = true := by
  by_cases hname : name ∈ users.map (·.name)
  · obtain ⟨user, huser, rfl⟩ := List.mem_map.mp hname
    obtain ⟨raw, hseeded, -⟩ := h user huser
    obtain ⟨-, hprintable⟩ := @publicKeyOfSeed_seeded ed _ _ _ hseeded
    rw [lookup_map_name _ huser, Option.getD_some]
    exact hprintable
  · have hnone : (users.map fun user => (user.name, keyOn ed disk user.name)).lookup name =
        none := by
      apply List.lookup_eq_none_iff.mpr
      intro entry hentry
      obtain ⟨user, huser, rfl⟩ := List.mem_map.mp hentry
      apply bne_iff_ne.mpr
      rintro rfl
      exact hname (List.mem_map_of_mem huser)
    rw [hnone]
    rfl

/-- The configuration on file is read as it was rendered just when the registry writes cleanly. -/
theorem configOn_read_iff (h : authUsers reg = some list) {disk : Disk}
    (hdisk : Provisioned ed list disk) :
    fileText (fileBytes (configOn ed list disk)) = configOn ed list disk ↔ reg.WritesCleanly := by
  rw [fileText_fileBytes_iff]
  exact renderConfig_wellFormed_iff h fun name =>
    isPlain_of_printable (printable_keys hdisk.written name)

/-- **The check after a run** passes just when the registry writes cleanly. -/
theorem check_inSync_iff (h : authUsers reg = some list) {disk : Disk}
    (hdisk : Provisioned ed list disk) : check ed list disk = .inSync ↔ reg.WritesCleanly := by
  rw [← configOn_read_iff h hdisk, check_provisioned hdisk (same_names h h)]
  constructor
  · intro hcheck
    by_contra hread
    rw [if_neg hread] at hcheck
    cases hcheck
  · intro hread
    rw [if_pos hread]

/-- **A registry that grants something else** than the file on disk is seen by the check as
drifted. -/
theorem check_drifted (h : authUsers reg = some list) (h' : authUsers reg' = some list')
    {disk : Disk} (hdisk : Provisioned ed list disk) (hclean : reg.WritesCleanly)
    (hchange : configOn ed list' disk ≠ configOn ed list disk) : check ed list' disk = .drifted := by
  rw [check_provisioned hdisk (same_names h h'), (configOn_read_iff h hdisk).mpr hclean,
    if_neg hchange.symm]

/-- Other permissions on the same disk give another file, so a drift is seen. -/
theorem configOn_ne (h : authUsers reg = some list) (h' : authUsers reg' = some list') {disk : Disk}
    (hdisk : Provisioned ed list disk) (hreg : reg.NamesOnOneLine) (hreg' : reg'.NamesOnOneLine)
    (hchange : renderedPermissions list' ≠ renderedPermissions list) :
    configOn ed list' disk ≠ configOn ed list disk := by
  have hwritten' : ∀ user ∈ list', Written disk user.name := by
    intro user huser
    obtain ⟨other, hother, hname⟩ := same_names h h' user huser
    exact hname ▸ hdisk.written other hother
  intro hsame
  exact hchange (renderedPermissions_eq hreg' hreg h' h
    (fun name => notMem_of_printable (printable_keys hwritten' name))
    (fun name => notMem_of_printable (printable_keys hdisk.written name)) hsame)

/-- **Credentials** are generated once: after a first run a second changes no file, the check passes,
and it fails for another registry until that is run, just when the registry writes cleanly. -/
theorem credentials_regenerate_iff (ed : Ed25519) (h : authUsers reg = some list) {disk : Disk}
    (hdisk : SeedsIntact disk) (fresh : JSString → RawSeed) :
    ∃ disk', main ed list false fresh disk = (disk', true) ∧
      (((∀ fresh', main ed list false fresh' disk' = (disk', true)) ∧
        check ed list disk' = .inSync ∧
        ∀ reg' list', authUsers reg' = some list' →
          (configOn ed list' disk' ≠ configOn ed list disk' → check ed list' disk' = .drifted) ∧
          (reg.NamesOnOneLine → reg'.NamesOnOneLine →
            renderedPermissions list' ≠ renderedPermissions list → check ed list' disk' = .drifted) ∧
          (reg'.WritesCleanly → ∀ fresh', ∃ disk'',
            main ed list' false fresh' disk' = (disk'', true) ∧ check ed list' disk'' = .inSync)) ↔
        reg.WritesCleanly) := by
  obtain ⟨disk', hmain, hprovisioned⟩ := @main_provisions ed fresh list (nodup_names h) disk hdisk
  refine ⟨disk', hmain, ?_⟩
  constructor
  · intro hall
    obtain ⟨-, hcheck, -⟩ := hall
    exact (check_inSync_iff h hprovisioned).mp hcheck
  · intro hclean
    refine ⟨fun fresh' => main_provisioned fresh' (nodup_names h) hprovisioned,
      (check_inSync_iff h hprovisioned).mpr hclean, fun reg' list' h' => ⟨?_, ?_, ?_⟩⟩
    · exact check_drifted h h' hprovisioned hclean
    · intro hreg hreg' hchange
      exact check_drifted h h' hprovisioned hclean
        (configOn_ne h h' hprovisioned hreg hreg' hchange)
    · intro hclean' fresh'
      obtain ⟨disk'', hmain', hprovisioned'⟩ :=
        @main_provisions ed fresh' list' (nodup_names h') disk' hprovisioned.intact
      exact ⟨disk'', hmain', (check_inSync_iff h' hprovisioned').mpr hclean'⟩

/-! ## The shipped registry, and one with a lone surrogate -/

/-- The shipped registry's keys and comments can be written to a file and read
back. -/
theorem registry_writesCleanly : registry.WritesCleanly := by
  have hkeys : ∀ key ∈ registry.resourceKeys, key.all printable = true := by decide
  apply writesCleanly_of_plain
  intro route hroute
  obtain ⟨resource, d, operation, rule, hdeclared, -, rfl⟩ := Registry.mem_routes.mp hroute
  have hmem := registry.resource?_eq_some.mp hdeclared
  exact isPlain_of_printable (hkeys resource (List.mem_map.mpr ⟨_, hmem, rfl⟩))

def zeroSeed : RawSeed := ⟨List.replicate 32 0, rfl⟩

/-- Ed25519 where the seed is all zeros, whose public key is the one it answers with. -/
def zeroSeedKey : Ed25519 where
  spki der :=
    if der.take 16 = pkcs8Ed25519 ∧ der.length = 48 then
      some [0x30, 0x2a, 0x30, 0x05, 0x06, 0x03, 0x2b, 0x65, 0x70, 0x03, 0x21, 0x00,
        0x3b, 0x6a, 0x27, 0xbc, 0xce, 0xb6, 0xa4, 0x2d, 0x62, 0xa3, 0xa8, 0xd0, 0x2a, 0x6f, 0x0d,
        0x73, 0x65, 0x32, 0x15, 0x77, 0x1d, 0xe2, 0x43, 0xa6, 0x3a, 0xc0, 0x48, 0xa1, 0x8b, 0x59,
        0xda, 0x29]
    else none
  accepts raw := by
    have hshape : (pkcs8Ed25519 ++ raw.bytes).take 16 = pkcs8Ed25519 ∧
        (pkcs8Ed25519 ++ raw.bytes).length = 48 :=
      ⟨rfl, by rw [List.length_append, raw.length_eq]; rfl⟩
    exact ⟨_, if_pos hshape, by decide⟩

/-- A directory without files. -/
def emptyDisk : Disk := ⟨none, fun _ => none, fun _ => none⟩

/-- On an empty disk there is no seed that could be broken. -/
theorem emptyDisk_intact : SeedsIntact emptyDisk := by
  intro user text htext
  cases htext

/-- The shipped registry's consumers are all known services, so its list of users is
derived. -/
theorem authUsers_registry : ∃ list, authUsers registry = some list := ⟨_, rfl⟩

/-- A first run on an empty disk, a second that changes nothing, and a check
that passes. -/
theorem credentials_regenerate_shipped : ∃ list, authUsers registry = some list ∧
    ∃ disk, main zeroSeedKey list false (fun _ => zeroSeed) emptyDisk = (disk, true) ∧
      (∀ fresh, main zeroSeedKey list false fresh disk = (disk, true)) ∧
      check zeroSeedKey list disk = .inSync := by
  obtain ⟨list, hlist⟩ := authUsers_registry
  obtain ⟨disk, hmain, hiff⟩ :=
    credentials_regenerate_iff zeroSeedKey hlist emptyDisk_intact fun _ => zeroSeed
  obtain ⟨hagain, hcheck, -⟩ := hiff.mpr registry_writesCleanly
  exact ⟨list, hlist, disk, hmain, hagain, hcheck⟩

/-- The shipped registry with one more resource, whose name is a lone surrogate. -/
def loneNameRegistry : Registry where
  plans := plans
  defaultPlan := defaultPlan
  resources := registry.resources ++ [([0xD800], projectResource)]
  plans_nodup := registry.plans_nodup
  resources_nodup := by decide
  default_declared := registry.default_declared

/-- A resource key with half a character cannot be written to a file and read
back. -/
theorem loneNameRegistry_unclean : ¬ loneNameRegistry.WritesCleanly := by
  intro hclean
  obtain ⟨rule, hrule⟩ : ∃ rule, loneNameRegistry.ruleFor [0xD800] .read = some rule := ⟨_, rfl⟩
  have hroute := Registry.mem_routes.mpr ⟨[0xD800], projectResource, .read, rule, rfl, hrule, rfl⟩
  have hname : isWellFormed [0xD800] = true := hclean.names _ hroute
  exact absurd hname (by decide)

/-- A lone surrogate in a name: the check fails right after the run. -/
theorem loneName_drifts : ∃ list, authUsers loneNameRegistry = some list ∧ SeedsIntact emptyDisk ∧
    ∃ disk, main zeroSeedKey list false (fun _ => zeroSeed) emptyDisk = (disk, true) ∧
      check zeroSeedKey list disk = .drifted := by
  obtain ⟨list, hlist⟩ : ∃ list, authUsers loneNameRegistry = some list := ⟨_, rfl⟩
  obtain ⟨disk, hmain, hdisk⟩ :=
    @main_provisions zeroSeedKey (fun _ => zeroSeed) list (nodup_names hlist) _ emptyDisk_intact
  refine ⟨list, hlist, emptyDisk_intact, disk, hmain, ?_⟩
  rw [check_provisioned hdisk (same_names hlist hlist),
    if_neg (mt (configOn_read_iff hlist hdisk).mp loneNameRegistry_unclean)]

end Guardrail
