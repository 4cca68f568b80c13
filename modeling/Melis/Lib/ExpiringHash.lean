import Mathlib

/-!
# Hashes that expire

A store of hashes, each with a deadline after which it is gone. Writing fields keeps the
deadline of a hash that is there, and creates one without a deadline otherwise.

* `hget_hset_expire`: what is read after a write that renews the deadline.
* `hset_expire_other`: other keys are left alone.
-/

namespace Melis.Lib

/-- The fields at a key, and the deadline of the key if it has one. -/
structure Hash (φ ν : Type*) where
  fields : φ → Option ν
  deadline : Option ℕ

/-- A hash for every key that was written. -/
abbrev HashStore (κ φ ν : Type*) := κ → Option (Hash φ ν)

namespace HashStore

variable {κ φ ν : Type*}

/-- The hash at `key`, unless its deadline has passed. -/
def live (store : HashStore κ φ ν) (now : ℕ) (key : κ) : Option (Hash φ ν) :=
  (store key).filter fun hash => hash.deadline.all fun deadline => decide (now ≤ deadline)

/-- The value of a field. -/
def hget (store : HashStore κ φ ν) (now : ℕ) (key : κ) (field : φ) : Option ν :=
  (store.live now key).bind fun hash => hash.fields field

variable [DecidableEq κ] [DecidableEq φ]

/-- `fields` with `entries` written to it, one after another. -/
def write (fields : φ → Option ν) (entries : List (φ × ν)) : φ → Option ν :=
  entries.foldl (fun fields e => Function.update fields e.1 (some e.2)) fields

/-- Writes `entries` at `key`. -/
def hset (store : HashStore κ φ ν) (now : ℕ) (key : κ) (entries : List (φ × ν)) :
    HashStore κ φ ν :=
  Function.update store key
    (some ⟨write (store.hget now key) entries, (store.live now key).bind Hash.deadline⟩)

/-- Lets `key` expire `ttl` from now, if it is there. -/
def expire (store : HashStore κ φ ν) (now : ℕ) (key : κ) (ttl : ℕ) : HashStore κ φ ν :=
  match store.live now key with
  | none => store
  | some hash => Function.update store key (some ⟨hash.fields, some (now + ttl)⟩)

variable {store : HashStore κ φ ν} {now t ttl : ℕ} {key other : κ} {entries : List (φ × ν)}

omit [DecidableEq κ] [DecidableEq φ] in
theorem live_congr {store' : HashStore κ φ ν} (h : store' key = store key) :
    store'.live t key = store.live t key := by
  rw [live, live, h]

/-- What was written is there. -/
theorem live_hset : (store.hset now key entries).live now key =
    some ⟨write (store.hget now key) entries, (store.live now key).bind Hash.deadline⟩ := by
  rw [live, hset, Function.update_self]
  refine Option.filter_eq_some_iff.mpr ⟨rfl, ?_⟩
  cases h : store.live now key with
  | none => rfl
  | some hash => exact (Option.filter_eq_some_iff.mp h).2

/-- After a write that renews the deadline. -/
theorem hset_expire_self : ((store.hset now key entries).expire now key ttl) key =
    some ⟨write (store.hget now key) entries, some (now + ttl)⟩ := by
  rw [expire, live_hset]
  exact Function.update_self _ _ _

/-- Until the deadline the fields are those written, and afterwards there are none. -/
theorem hget_hset_expire (field : φ) :
    ((store.hset now key entries).expire now key ttl).hget t key field =
      if t ≤ now + ttl then write (store.hget now key) entries field
      else none := by
  rw [hget, live, hset_expire_self]
  by_cases h : t ≤ now + ttl
  · rw [Option.filter_some_pos (by simpa using h), if_pos h]
    rfl
  · rw [Option.filter_some_neg (by simpa using h), if_neg h]
    rfl

theorem hset_expire_other (h : other ≠ key) :
    ((store.hset now key entries).expire now key ttl) other = store other := by
  rw [expire, live_hset]
  exact (Function.update_of_ne h _ _).trans (Function.update_of_ne h _ _)

theorem hget_hset_expire_other (h : other ≠ key) (field : φ) :
    ((store.hset now key entries).expire now key ttl).hget t other field =
      store.hget t other field := by
  rw [hget, hget, live_congr (hset_expire_other h)]

end HashStore

end Melis.Lib
