import Mathlib.Data.Int.Notation
import Mathlib.Data.List.Nodup
import Mathlib.Data.List.Perm.Subperm

/-!
# Logs that drop repeats

An append-only log, newest first, that ignores an entry whose key it already
holds.  Which of its entries still count is up to the log: a stream forgets
keys after a while, a table with a unique column never does.
-/

namespace DedupLog

variable {κ β : Type*} [DecidableEq κ]

structure Entry (κ β : Type*) where
  key : κ
  body : β
  storedAt : ℤ

/-- Is the key held by an entry that still counts? -/
def holds (counts : Entry κ β → Bool) (log : List (Entry κ β)) (key : κ) : Bool :=
  log.any fun old => old.key == key && counts old

/-- Append an entry, unless its key is held. -/
def offer (counts : Entry κ β → Bool) (log : List (Entry κ β)) (entry : Entry κ β) :
    List (Entry κ β) :=
  if holds counts log entry.key then log else entry :: log

/-- Entries count for `window` after they were stored. -/
def inWindow (window now : ℤ) (old : Entry κ β) : Bool := decide (now < old.storedAt + window)

variable {counts : Entry κ β → Bool} {log : List (Entry κ β)} {entry : Entry κ β} {key : κ}

/-- A log holds a key where an entry of it that still counts has the key. -/
theorem holds_iff : holds counts log key = true ↔ ∃ old ∈ log, old.key = key ∧ counts old = true := by
  simp [holds]

/-- An entry whose key the log holds is not stored again: the log stays as it is. -/
theorem offer_of_holds (h : holds counts log entry.key = true) : offer counts log entry = log :=
  if_pos h

/-- An entry whose key is not held within the window is stored in front of the log. -/
theorem offer_of_fresh (h : holds counts log entry.key = false) :
    offer counts log entry = entry :: log :=
  if_neg (by simp [h])

theorem suffix_offer (counts : Entry κ β → Bool) (log : List (Entry κ β)) (entry : Entry κ β) :
    log <:+ offer counts log entry := by
  unfold offer
  split
  · exact List.suffix_rfl
  · exact List.suffix_cons _ _

/-- After an offer there is the entry that was offered, or what was there
before. -/
theorem mem_offer {old : Entry κ β} (h : old ∈ offer counts log entry) : old = entry ∨ old ∈ log := by
  unfold offer at h
  split at h
  · exact .inr h
  · exact List.mem_cons.mp h

/-- After an offer some entry holds its key, be it the new one or one that was there. -/
theorem exists_key_offer (counts : Entry κ β → Bool) (log : List (Entry κ β)) (entry : Entry κ β) :
    ∃ old ∈ offer counts log entry, old.key = entry.key := by
  by_cases h : holds counts log entry.key = true
  · obtain ⟨old, hmem, hkey, -⟩ := holds_iff.mp h
    exact ⟨old, by rwa [offer_of_holds h], hkey⟩
  · rw [offer_of_fresh (Bool.eq_false_iff.mpr h)]
    exact ⟨entry, List.mem_cons_self, rfl⟩

/-- Where every entry counts, whatever its age, an offer to a log without repeated keys
repeats none. -/
theorem nodup_offer (h : (log.map Entry.key).Nodup) :
    ((offer (fun _ => true) log entry).map Entry.key).Nodup := by
  by_cases hkey : holds (fun _ => true) log entry.key = true
  · rwa [offer_of_holds hkey]
  · rw [offer_of_fresh (Bool.eq_false_iff.mpr hkey)]
    refine List.nodup_cons.mpr ⟨?_, h⟩
    intro hmem
    obtain ⟨old, hold, hsame⟩ := List.mem_map.mp hmem
    exact hkey (holds_iff.mpr ⟨old, hold, hsame, rfl⟩)

omit [DecidableEq κ] in
/-- **Everything once.**  A log that holds entries of a source only, and the key
of each of them, is the source. -/
theorem perm_of_complete {source : List (κ × β)} (hlog : (log.map Entry.key).Nodup)
    (hsource : (source.map Prod.fst).Nodup)
    (hsub : ∀ old ∈ log, (old.key, old.body) ∈ source)
    (hcomplete : ∀ pair ∈ source, ∃ old ∈ log, old.key = pair.1) :
    (log.map fun old => (old.key, old.body)).Perm source := by
  have hpairs : (log.map fun old => (old.key, old.body)).Nodup := by
    refine List.Nodup.of_map Prod.fst ?_
    rwa [List.map_map]
  refine (List.perm_ext_iff_of_nodup hpairs (List.Nodup.of_map _ hsource)).mpr ?_
  intro pair
  constructor
  · intro hpair
    obtain ⟨old, hold, rfl⟩ := List.mem_map.mp hpair
    exact hsub old hold
  · intro hpair
    obtain ⟨old, hold, hkey⟩ := hcomplete pair hpair
    have hsame : (old.key, old.body) = pair :=
      List.inj_on_of_nodup_map hsource (hsub old hold) hpair hkey
    exact List.mem_map.mpr ⟨old, hold, hsame⟩

end DedupLog
