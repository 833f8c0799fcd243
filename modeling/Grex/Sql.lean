import Grex.FinMap
import Mathlib.Data.Finset.Basic

/-!
Tables, statements and rows of a Postgres database as a client sees them. A statement
binds its arguments by position to the columns it lists, a row that breaks the types
of its table is refused, and a query's values are scanned by position into variables.
Text cannot hold the zero character, and a timestamp has whole microseconds inside a
fixed range.
-/

namespace Grex.Sql

/-! ### Values -/

/-- The entries of a JSON object that the statements here send: texts, or objects of
texts. -/
inductive Json
  | text (s : String)
  | object (fields : FinMap String String)
  deriving DecidableEq

inductive Value
  | null
  | text (s : String)
  | bool (b : Bool)
  | bigint (n : Int64)
  | timestamptz (micros : ℤ)
  | textArray (l : List String)
  | jsonb (object : FinMap String Json)
  deriving DecidableEq

inductive ColumnType
  | text
  | bool
  | bigint
  | timestamptz
  | textArray
  | jsonb
  deriving DecidableEq

/-- The type of a value; NULL has none. -/
def Value.type : Value → Option ColumnType
  | .null => none
  | .text _ => some .text
  | .bool _ => some .bool
  | .bigint _ => some .bigint
  | .timestamptz _ => some .timestamptz
  | .textArray _ => some .textArray
  | .jsonb _ => some .jsonb

def storableText (s : String) : Bool := !s.toList.contains (Char.ofNat 0)

def storableTexts (m : FinMap String String) : Bool :=
  decide (∀ k ∈ m.keys, storableText k ∧ (m.find k).all storableText)

def Json.storable : Json → Bool
  | .text s => storableText s
  | .object fields => storableTexts fields

/-- The first and the last but one instant of a timestamp, from 4714 BC to 294276 AD. -/
def storableTime (micros : ℤ) : Bool :=
  decide (-210866803200000000 ≤ micros ∧ micros < 9224318016000000000)

/-- The database takes the value as an argument. -/
def Value.storable : Value → Bool
  | .null => true
  | .text s => storableText s
  | .bool _ => true
  | .bigint _ => true
  | .timestamptz t => storableTime t
  | .textArray l => l.all storableText
  | .jsonb object => decide (∀ k ∈ object.keys, storableText k ∧ (object.find k).all Json.storable)

theorem storableTexts_iff {m : FinMap String String} :
    storableTexts m ↔ ∀ k v, m.find k = some v → storableText k ∧ storableText v := by
  unfold storableTexts
  rw [decide_eq_true_iff]
  exact FinMap.forall_keys_iff

theorem storable_jsonb_iff {object : FinMap String Json} :
    (Value.jsonb object).storable ↔ ∀ k j, object.find k = some j → storableText k ∧ j.storable := by
  unfold Value.storable
  rw [decide_eq_true_iff]
  exact FinMap.forall_keys_iff

/-- Comparisons with NULL do not hold. -/
def Value.before : Value → Value → Bool
  | .timestamptz t, .timestamptz u => decide (t < u)
  | _, _ => false

def Value.notAfter : Value → Value → Bool
  | .timestamptz t, .timestamptz u => decide (t ≤ u)
  | _, _ => false

/-! ### Tables -/

section Table

variable {κ : Type} [DecidableEq κ]

/-- The types of a table's columns, and which of them may be NULL. -/
structure Schema (κ : Type) where
  columns : List κ
  type : κ → ColumnType
  nullable : κ → Bool

abbrev Row (κ : Type) := κ → Value

def Schema.admits (schema : Schema κ) (row : Row κ) : Bool :=
  schema.columns.all fun c => (row c).type == some (schema.type c) || schema.nullable c && row c == .null

/-- Arguments go to the listed columns by position; a column that is not listed is
NULL. -/
def boundRow (columns : List κ) (args : List Value) : Row κ :=
  fun c => ((columns.zip args).lookup c).getD .null

/-- The row of an `INSERT`. -/
def insertRow (schema : Schema κ) (columns : List κ) (args : List Value) : Option (Row κ) :=
  if columns.length = args.length ∧ args.all Value.storable ∧ schema.admits (boundRow columns args) then
    some (boundRow columns args)
  else none

/-- `ON CONFLICT (id) DO UPDATE SET c = EXCLUDED.c, .. WHERE ..`; the flag tells whether
a row was written. -/
def upsert (table : FinMap String (Row κ)) (id : String) (excluded : Row κ) (updated : List κ)
    (guard : Row κ → Row κ → Bool) : FinMap String (Row κ) × Bool :=
  match table.find id with
  | none => (table.insert id excluded, true)
  | some row =>
      if guard row excluded then
        (table.insert id fun c => if c ∈ updated then excluded c else row c, true)
      else (table, false)

theorem insertRow_eq_some {schema : Schema κ} {columns : List κ} {args : List Value} {row : Row κ}
    (h : insertRow schema columns args = some row) : row = boundRow columns args := by
  unfold insertRow at h
  split_ifs at h
  exact (Option.some.inj h).symm

theorem insertRow_of_storable {schema : Schema κ} {columns : List κ} {args : List Value}
    (hlength : columns.length = args.length) (hargs : args.all Value.storable)
    (hrow : schema.admits (boundRow columns args)) :
    insertRow schema columns args = some (boundRow columns args) :=
  if_pos ⟨hlength, hargs, hrow⟩

/-- The row an upsert leaves. -/
def upsertRow (old : Option (Row κ)) (excluded : Row κ) (updated : List κ)
    (guard : Row κ → Row κ → Bool) : Row κ :=
  match old with
  | none => excluded
  | some row => if guard row excluded then fun c => if c ∈ updated then excluded c else row c else row

/-- An upsert writes one row, and tells whether there was none or the guard let it. -/
theorem upsert_eq (table : FinMap String (Row κ)) (id : String) (excluded : Row κ) (updated : List κ)
    (guard : Row κ → Row κ → Bool) :
    upsert table id excluded updated guard =
      (table.insert id (upsertRow (table.find id) excluded updated guard),
        (table.find id).all fun row => guard row excluded) := by
  unfold upsert upsertRow
  cases hrow : table.find id with
  | none => rfl
  | some row =>
    by_cases hguard : guard row excluded
    · simp [hguard]
    · have hsame : table.insert id row = table := by
        ext1 j
        rw [FinMap.find_set]
        split_ifs with hj
        · rw [hj, hrow]
        · rfl
      simp [hguard, hsame]

end Table

/-! ### Scanning -/

def readText : Value → Option String
  | .text s => some s
  | _ => none

def readBool : Value → Option Bool
  | .bool b => some b
  | _ => none

def readInt : Value → Option Int64
  | .bigint n => some n
  | _ => none

/-- A clock reading counts nanoseconds. -/
def readTime : Value → Option ℤ
  | .timestamptz t => some (t * 1000)
  | _ => none

def readTexts : Value → Option (List String)
  | .textArray l => some l
  | _ => none

def readJson : Value → Option (FinMap String Json)
  | .jsonb object => some object
  | _ => none

/-- A pointer takes NULL as well. -/
def pointer {α : Type} (read : Value → Option α) : Value → Option (Option α)
  | .null => some none
  | v => (read v).map some

/-- Where the value of one column is scanned to. -/
abbrev Target (σ : Type) := Value → σ → Option σ

def target {σ α : Type} (read : Value → Option α) (set : α → σ → σ) : Target σ :=
  fun v s => (read v).map fun x => set x s

/-- Values are scanned in the order of the columns, and there is one target for each. -/
def scan {σ : Type} : List (Target σ) → List Value → σ → Option σ
  | [], [], s => some s
  | t :: targets, v :: values, s => (t v s).bind fun s => scan targets values s
  | _, _, _ => none

section Scan

variable {α σ : Type}

@[simp] theorem readText_text (s : String) : readText (.text s) = some s := rfl

@[simp] theorem readBool_bool (b : Bool) : readBool (.bool b) = some b := rfl

@[simp] theorem readInt_bigint (n : Int64) : readInt (.bigint n) = some n := rfl

@[simp] theorem readTime_timestamptz (t : ℤ) : readTime (.timestamptz t) = some (t * 1000) := rfl

@[simp] theorem readTexts_textArray (l : List String) : readTexts (.textArray l) = some l := rfl

@[simp] theorem readJson_jsonb (object : FinMap String Json) :
    readJson (.jsonb object) = some object := rfl

@[simp] theorem pointer_null (read : Value → Option α) : pointer read .null = some none := rfl

@[simp] theorem pointer_text (s : String) : pointer readText (.text s) = some (some s) := rfl

@[simp] theorem pointer_bool (b : Bool) : pointer readBool (.bool b) = some (some b) := rfl

@[simp] theorem pointer_timestamptz (t : ℤ) :
    pointer readTime (.timestamptz t) = some (some (t * 1000)) := rfl

@[simp] theorem scan_nil (s : σ) : scan [] [] s = some s := rfl

/-- A value that is read goes to its target. -/
@[simp] theorem scan_target (read : Value → Option α) (set : α → σ → σ) (targets : List (Target σ))
    (v : Value) (values : List Value) (s : σ) :
    scan (target read set :: targets) (v :: values) s =
      (read v).bind fun x => scan targets values (set x s) := by
  show ((read v).map fun x => set x s).bind _ = _
  rw [Option.bind_map]
  rfl

end Scan

end Grex.Sql
