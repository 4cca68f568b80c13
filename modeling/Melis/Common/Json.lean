import Melis.Common.F64

/-!
# `serde_json::Value`

Objects are `BTreeMap`s (`serde_json` is built without `preserve_order`): the
entries are kept in key order and `insert` replaces the value of a key that is
there. The lookup lemmas hold for every entry list, ordered or not.

Printing and parsing are third-party code; `SerdeJson` is the parameter that
stands for them.
-/

namespace Melis

/-- `serde_json::Number`. -/
inductive Number where
  | posInt (n : ℕ)
  | negInt (n : ℤ)
  | float (x : F64)
deriving DecidableEq

/-- `serde_json::Value`. -/
inductive Value where
  | null
  | bool (b : Bool)
  | number (n : Number)
  | string (s : String)
  | array (elems : List Value)
  | object (entries : List (String × Value))

/-- `serde_json::Map<String, Value>`. -/
abbrev Entries := List (String × Value)

namespace Entries

/-- `Map::get`. -/
def get (m : Entries) (key : String) : Option Value :=
  (m.find? fun e => e.1 == key).map Prod.snd

/-- `Map::insert`. -/
def insert (key : String) (v : Value) : Entries → Entries
  | [] => [(key, v)]
  | (k, w) :: m =>
    if k = key then (key, v) :: m
    else if key < k then (key, v) :: (k, w) :: m
    else (k, w) :: insert key v m

/-- `Map::remove`. -/
def remove (m : Entries) (key : String) : Entries := m.filter fun e => e.1 != key

/-- The entries that the `json!` macro inserts one after another. -/
def ofList (es : Entries) : Entries := es.foldl (fun m e => insert e.1 e.2 m) []

@[simp] theorem get_nil (key : String) : get [] key = none := rfl

theorem get_cons (k : String) (v : Value) (m : Entries) (key : String) :
    get ((k, v) :: m) key = if k = key then some v else get m key := by
  by_cases h : k = key <;> simp [get, h]

theorem get_insert (m : Entries) (key : String) (v : Value) (k : String) :
    get (insert key v m) k = if key = k then some v else get m k := by
  induction m with
  | nil => simp [insert, get_cons]
  | cons e m ih =>
    obtain ⟨k', w⟩ := e
    rw [insert]
    by_cases h1 : k' = key
    · rw [if_pos h1, get_cons, get_cons]
      by_cases h2 : key = k
      · simp [h2]
      · have : ¬ k' = k := fun h => h2 (h1 ▸ h)
        simp [h2, this]
    · rw [if_neg h1]
      split_ifs with h2 h3 h3
      · simp [get_cons, h3]
      · simp [get_cons, h3]
      · have : ¬ k' = k := fun h => h1 (h.trans h3.symm)
        rw [get_cons, if_neg this, ih, if_pos h3]
      · rw [get_cons, get_cons, ih, if_neg h3]

@[simp] theorem get_insert_self (m : Entries) (key : String) (v : Value) :
    get (insert key v m) key = some v := by
  rw [get_insert, if_pos rfl]

theorem get_insert_of_ne (m : Entries) {key k : String} (v : Value) (h : key ≠ k) :
    get (insert key v m) k = get m k := by
  rw [get_insert, if_neg h]

theorem get_remove (m : Entries) (key k : String) :
    get (remove m key) k = if key = k then none else get m k := by
  induction m with
  | nil => simp [remove]
  | cons e m ih =>
    obtain ⟨k', w⟩ := e
    by_cases h1 : k' = key
    · have : remove ((k', w) :: m) key = remove m key := by simp [remove, h1]
      rw [this, ih, get_cons]
      subst h1
      split_ifs <;> rfl
    · have : remove ((k', w) :: m) key = (k', w) :: remove m key := by simp [remove, h1]
      rw [this, get_cons, get_cons, ih]
      by_cases h2 : k' = k
      · have : ¬ key = k := fun h => h1 (h2.trans h.symm)
        simp [h2, this]
      · simp [h2]

theorem get_foldl_insert (es m : Entries) (k : String) :
    get (es.foldl (fun m e => insert e.1 e.2 m) m) k =
      (get es.reverse k).or (get m k) := by
  induction es generalizing m with
  | nil => simp
  | cons e es ih =>
    rw [List.foldl_cons, ih, get_insert]
    simp only [get, List.reverse_cons, List.find?_append, List.find?_singleton]
    cases hf : es.reverse.find? (fun e => e.1 == k) with
    | some x => simp
    | none => by_cases h : e.1 = k <;> simp [h]

/-- Of the entries given to `json!`, the last one under a key is found. -/
theorem get_ofList (es : Entries) (k : String) : get (ofList es) k = get es.reverse k := by
  rw [ofList, get_foldl_insert, get_nil, Option.or_none]

end Entries

namespace Value

/-- The object that `json!({...})` builds. -/
def json (es : Entries) : Value := object (Entries.ofList es)

/-- `Value::get` with a string key. -/
def get : Value → String → Option Value
  | object m, key => Entries.get m key
  | _, _ => none

/-- `Value::as_str`. -/
def asStr : Value → Option String
  | string s => some s
  | _ => none

/-- `Value::as_array`. -/
def asArray : Value → Option (List Value)
  | array vs => some vs
  | _ => none

/-- `Value::as_object`. -/
def asObject : Value → Option Entries
  | object m => some m
  | _ => none

/-- `Value::as_bool`. -/
def asBool : Value → Option Bool
  | bool b => some b
  | _ => none

/-- `Value::as_u64`. -/
def asU64 : Value → Option ℕ
  | number (.posInt n) => some n
  | _ => none

/-- `value["key"] = v` on an object. -/
def set : Value → String → Value → Value
  | object m, key, v => object (Entries.insert key v m)
  | w, _, _ => w

@[simp] theorem get_object (m : Entries) (key : String) :
    (object m).get key = Entries.get m key := rfl

theorem get_json (es : Entries) (k : String) : (json es).get k = Entries.get es.reverse k :=
  Entries.get_ofList es k

end Value

/-- The `serde_json` functions the code calls on text. -/
structure SerdeJson where
  fromSlice : List UInt8 → Option Value
  fromStr : String → Option Value
  toString : Value → String

/-! ## Compact printing -/

namespace Value

mutual

/-- `serde_json::to_string` on values without floats, whose strings need no
    escapes. -/
def compact : Value → String
  | null => "null"
  | bool b => if b then "true" else "false"
  | number (.posInt n) => n.repr
  | number (.negInt n) => n.repr
  | number (.float _) => "0.0"
  | string s => "\"" ++ s ++ "\""
  | array elems => "[" ++ ",".intercalate (compactElems elems) ++ "]"
  | object entries => "\x7b" ++ ",".intercalate (compactEntries entries) ++ "\x7d"

/-- The elements of an array, printed. -/
def compactElems : List Value → List String
  | [] => []
  | v :: vs => compact v :: compactElems vs

/-- The entries of an object, printed. -/
def compactEntries : List (String × Value) → List String
  | [] => []
  | (k, v) :: es => ("\"" ++ k ++ "\":" ++ compact v) :: compactEntries es

end

end Value

/-- `serde_json` where the only texts are those of the values in a table. -/
def SerdeJson.ofTable (table : List Value) : SerdeJson where
  fromSlice _ := none
  fromStr s := table.find? fun v => v.compact == s
  toString := Value.compact

/-- A table of objects has no text that starts with another character than a brace. -/
theorem SerdeJson.fromStr_ofTable_eq_none {table : List Value}
    (h : ∀ v ∈ table, ∃ m, v = .object m) {s : String} (hs : s.toList.head? ≠ some '\x7b') :
    (SerdeJson.ofTable table).fromStr s = none := by
  show table.find? _ = none
  rw [List.find?_eq_none]
  intro v hv heq
  obtain ⟨m, rfl⟩ := h v hv
  rw [beq_iff_eq] at heq
  apply hs
  rw [← heq, Value.compact]
  simp

/-- Where no two values have the same text, printing and parsing are inverse. -/
theorem SerdeJson.fromStr_ofTable {table : List Value} (h : (table.map Value.compact).Nodup)
    {v : Value} (hv : v ∈ table) : (SerdeJson.ofTable table).fromStr v.compact = some v := by
  show table.find? _ = some v
  induction table with
  | nil => cases hv
  | cons w table ih =>
    rw [List.map_cons, List.nodup_cons] at h
    rcases List.mem_cons.mp hv with rfl | hv
    · exact List.find?_cons_of_pos (beq_self_eq_true _)
    · have hne : w.compact ≠ v.compact := fun heq => h.1 (heq ▸ List.mem_map_of_mem hv)
      rw [List.find?_cons_of_neg (by simpa using hne)]
      exact ih h.2 hv

end Melis
