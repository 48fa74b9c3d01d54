import Mathlib.Algebra.Group.Int.Defs
import Mathlib.Data.List.Basic

/-!
# SQL values and errors

The value types that the columns and parameters of `sql/instructed.sql` use, with the operators
its procedures apply to them:

* `jsonb`: `Json`, with `jsonb_typeof`, `?`, `->`, `->>` and the text form (`Json.text`);
* `uuid`: `Uuid`, with the cast from text (`uuidOfText`);
* `bigint`: `ℤ`, with the casts from text and from a JSON number (`bigintOfText`);
* `timestamptz`: `Timestamp`, in microseconds;
* SQLSTATEs and raised errors: `SqlState`, `SqlError`.

SQL `NULL` is `none`. A three-valued boolean is an `Option Bool`.
-/

namespace Instructed.Sql

/-- `timestamptz`, in microseconds. -/
abbrev Timestamp := ℕ

/-- `now() + make_interval(secs => s)`. -/
def addSeconds (now : Timestamp) (secs : ℤ) : Timestamp := now + 1000000 * secs.toNat

/-! ## SQLSTATEs -/

/-- The SQLSTATEs the procedures raise: the custom class `IS` and the standard codes that reach
    a caller. -/
inductive SqlState where
  | IS001 | IS002 | IS003 | IS004 | IS005 | IS010 | IS020 | IS022 | IS030
  /-- `22023` -/
  | invalidParameterValue
  /-- `22P02` -/
  | invalidTextRepresentation
  /-- `22003` -/
  | numericValueOutOfRange
  /-- `23502` -/
  | notNullViolation
  /-- `23505` -/
  | uniqueViolation
  /-- `23514` -/
  | checkViolation
  deriving DecidableEq, Repr

/-- A raised exception. -/
structure SqlError where
  sqlstate : SqlState
  message : String
  deriving DecidableEq, Repr

/-- `raise exception message using errcode = sqlstate`. -/
def raise {α : Type} (sqlstate : SqlState) (message : String) : Except SqlError α :=
  .error ⟨sqlstate, message⟩

section Bind

variable {ε α β : Type} {x : Except ε α} {f : α → Except ε β}

theorem bind_eq_ok {b : β} : (x >>= f) = .ok b ↔ ∃ a, x = .ok a ∧ f a = .ok b := by
  cases x with
  | ok a => exact ⟨fun h => ⟨a, rfl, h⟩, fun ⟨_, ha, h⟩ => Except.ok.inj ha ▸ h⟩
  | error e => exact ⟨nofun, fun ⟨_, ha, _⟩ => nomatch ha⟩

theorem bind_eq_error {e : ε} (h : (x >>= f) = .error e) :
    x = .error e ∨ ∃ a, x = .ok a ∧ f a = .error e := by
  cases x with
  | ok a => exact Or.inr ⟨a, rfl, h⟩
  | error e' =>
    obtain rfl := Except.error.inj h
    exact Or.inl rfl

theorem mapM_eq_error {xs : List α} {e : ε} (h : xs.mapM f = .error e) : ∃ a ∈ xs, f a = .error e := by
  induction xs with
  | nil => cases h
  | cons a xs ih =>
    rw [List.mapM_cons] at h
    rcases bind_eq_error h with ha | ⟨b, -, h⟩
    · exact ⟨a, List.mem_cons_self, ha⟩
    rcases bind_eq_error h with htail | ⟨ys, -, h⟩
    · obtain ⟨x, hx, hf⟩ := ih htail
      exact ⟨x, List.mem_cons_of_mem _ hx, hf⟩
    · cases h

theorem map_eq_ok {g : α → β} {b : β} : x.map g = .ok b ↔ ∃ a, x = .ok a ∧ g a = b := by
  cases x with
  | ok a => exact ⟨fun h => ⟨a, rfl, Except.ok.inj h⟩, fun ⟨_, ha, h⟩ => Except.ok.inj ha ▸ h ▸ rfl⟩
  | error e => exact ⟨nofun, fun ⟨_, ha, _⟩ => nomatch ha⟩

theorem toOption_eq_some {a : α} (h : x.toOption = some a) : x = .ok a := by
  cases x with
  | error e => cases h
  | ok b => exact congrArg Except.ok (Option.some.inj h)

@[simp] theorem ok_bind (a : α) : ((.ok a : Except ε α) >>= f) = f a := rfl

@[simp] theorem error_bind (e : ε) : ((.error e : Except ε α) >>= f) = .error e := rfl

@[simp] theorem raise_bind {f : α → Except SqlError β} (sqlstate : SqlState) (message : String) :
    (raise sqlstate message >>= f) = raise sqlstate message := rfl

end Bind

/-! ## `jsonb` -/

/-- A `numeric`: `unscaled / 10 ^ scale`, printed with `scale` fractional digits. -/
structure Numeric where
  unscaled : ℤ
  scale : ℕ
  deriving DecidableEq, Repr

/-- A `jsonb` value. An object holds each key at most once; keys are looked up from the front. -/
inductive Json where
  | null
  | bool (b : Bool)
  | num (n : Numeric)
  | str (s : String)
  | arr (items : List Json)
  | obj (fields : List (String × Json))

/-- `numeric::text`. -/
def Numeric.text (n : Numeric) : String :=
  let digits := (toString n.unscaled.natAbs).toList
  let padded := List.replicate (n.scale + 1 - digits.length) '0' ++ digits
  let whole := padded.take (padded.length - n.scale)
  let frac := padded.drop (padded.length - n.scale)
  let sign := if n.unscaled < 0 then ['-'] else []
  String.ofList (sign ++ whole ++ if n.scale = 0 then [] else '.' :: frac)

namespace Json

/-- The integer `n` as a JSON number. -/
def int (n : ℤ) : Json := .num ⟨n, 0⟩

/-- `jsonb_typeof`. -/
def typeof : Json → String
  | .null => "null"
  | .bool _ => "boolean"
  | .num _ => "number"
  | .str _ => "string"
  | .arr _ => "array"
  | .obj _ => "object"

/-- `j ? k`: `k` is a key of the object, a string element of the array, or the string itself. -/
def hasKey (k : String) : Json → Bool
  | .obj fields => fields.any fun f => f.1 == k
  | .arr items => items.any fun
    | .str s => s == k
    | _ => false
  | .str s => s == k
  | _ => false

/-- `j -> k` for a text key `k`; `NULL` unless `j` is an object with that key. -/
def get? (j : Json) (k : String) : Option Json :=
  match j with
  | .obj fields => (fields.find? fun f => f.1 == k).map Prod.snd
  | _ => none

/-- The escape of one character inside a JSON string. -/
def escapeChar (c : Char) : List Char :=
  if c = '"' then ['\\', '"']
  else if c = '\\' then ['\\', '\\']
  else if c = Char.ofNat 8 then ['\\', 'b']
  else if c = Char.ofNat 12 then ['\\', 'f']
  else if c = '\n' then ['\\', 'n']
  else if c = '\r' then ['\\', 'r']
  else if c = '\t' then ['\\', 't']
  else if c.toNat < 32 then
    ['\\', 'u', '0', '0', Nat.digitChar (c.toNat / 16), Nat.digitChar (c.toNat % 16)]
  else [c]

/-- A JSON string literal. -/
def quote (s : String) : String :=
  String.ofList ('"' :: s.toList.flatMap escapeChar ++ ['"'])

mutual

/-- `jsonb::text`. -/
def text : Json → String
  | .null => "null"
  | .bool b => if b then "true" else "false"
  | .num n => n.text
  | .str s => quote s
  | .arr items => "[" ++ String.intercalate ", " (itemTexts items) ++ "]"
  | .obj fields => "\x7b" ++ String.intercalate ", " (fieldTexts fields) ++ "\x7d"

def itemTexts : List Json → List String
  | [] => []
  | j :: js => text j :: itemTexts js

def fieldTexts : List (String × Json) → List String
  | [] => []
  | (k, j) :: fs => (quote k ++ ": " ++ text j) :: fieldTexts fs

end

/-- `j ->> k`: a string without its quotes, JSON `null` as `NULL`, any other value as its text. -/
def getText? (j : Json) (k : String) : Option String :=
  match j.get? k with
  | none | some .null => none
  | some (.str s) => some s
  | some v => some v.text

end Json

/-! ## Three-valued logic -/

/-- `a or b`. -/
def sqlOr : Option Bool → Option Bool → Option Bool
  | some true, _ | _, some true => some true
  | some false, some false => some false
  | _, _ => none

/-- `jsonb_typeof(j) <> t`, which is `NULL` when `j` is. -/
def typeofNe (j : Option Json) (t : String) : Option Bool := j.map fun v => v.typeof != t

/-! ## `uuid` -/

/-- A `uuid`: 32 hexadecimal digits. -/
structure Uuid where
  digits : List (Fin 16)
  length_eq : digits.length = 32
  deriving DecidableEq

/-- The value of a hexadecimal digit, in either case. -/
def hexDigit? (c : Char) : Option (Fin 16) :=
  if '0' ≤ c ∧ c ≤ '9' then some (Fin.ofNat 16 (c.toNat - '0'.toNat))
  else if 'a' ≤ c ∧ c ≤ 'f' then some (Fin.ofNat 16 (c.toNat - 'a'.toNat + 10))
  else if 'A' ≤ c ∧ c ≤ 'F' then some (Fin.ofNat 16 (c.toNat - 'A'.toNat + 10))
  else none

/-- The byte loop of `uuid_in`: `left` bytes are still to be read. One `-` may follow every second
    byte except the last. Returns the digits and the unread characters. -/
def uuidBytes : (left : ℕ) → List Char → Option (List (Fin 16) × List Char)
  | 0, cs => some ([], cs)
  | left + 1, hi :: lo :: cs => do
    let h ← hexDigit? hi
    let l ← hexDigit? lo
    let rest := match cs with
      | '-' :: cs' => if left % 2 = 0 ∧ 0 < left then cs' else cs
      | _ => cs
    let (ds, tail) ← uuidBytes left rest
    some (h :: l :: ds, tail)
  | _ + 1, _ => none

/-- `s::uuid`; `none` is `invalid_text_representation`. Braces around the digits are accepted. -/
def uuidOfText (s : String) : Option Uuid :=
  let (braces, cs) := match s.toList with
    | '\x7b' :: cs => (true, cs)
    | cs => (false, cs)
  match uuidBytes 16 cs with
  | some (ds, tail) =>
    if h : ds.length = 32 then
      if tail = (if braces then ['\x7d'] else []) then some ⟨ds, h⟩ else none
    else none
  | none => none

/-- The lower-case digit. -/
def hexChar (d : Fin 16) : Char :=
  if d.val < 10 then Char.ofNat ('0'.toNat + d.val) else Char.ofNat ('a'.toNat + d.val - 10)

/-- `u::text`. -/
def Uuid.text (u : Uuid) : String :=
  let group (start length : ℕ) : String :=
    String.ofList (((u.digits.drop start).take length).map hexChar)
  "-".intercalate [group 0 8, group 8 4, group 12 4, group 16 4, group 20 12]

/-- A nullable text cast to `uuid`. -/
def castUuid : Option String → Except SqlError (Option Uuid)
  | none => .ok none
  | some s =>
    match uuidOfText s with
    | some u => .ok (some u)
    | none => raise .invalidTextRepresentation "invalid input syntax for type uuid"

theorem castUuid_sqlstate {s : Option String} {e : SqlError} (h : castUuid s = .error e) :
    e.sqlstate = .invalidTextRepresentation := by
  unfold castUuid at h
  split at h
  · cases h
  · split at h
    · cases h
    · obtain rfl := Except.error.inj h
      rfl

/-- `nullif(s, '')`. -/
def nullifEmpty (s : Option String) : Option String :=
  s.bind fun t => if t = "" then none else some t

/-! ## `bigint` -/

/-- `n` fits in a `bigint`. -/
def inBigint (n : ℤ) : Bool := -(2 ^ 63) ≤ n ∧ n < 2 ^ 63

/-- The characters that `int8in` skips around the digits. -/
def isSpace (c : Char) : Bool :=
  c = ' ' ∨ c = '\t' ∨ c = '\n' ∨ c = '\r' ∨ c = Char.ofNat 11 ∨ c = Char.ofNat 12

/-- The number written by decimal digits, if there is at least one and nothing else. -/
def decimal? (cs : List Char) : Option ℕ :=
  if cs ≠ [] ∧ cs.all (fun c => '0' ≤ c ∧ c ≤ '9') then
    some (cs.foldl (fun n c => 10 * n + (c.toNat - '0'.toNat)) 0)
  else none

/-- The value of a digit in base `base`. -/
def digit? (base : ℕ) (c : Char) : Option ℕ :=
  (hexDigit? c).bind fun d => if d.val < base then some d.val else none

/-- Where `int8in` stops in the digits. -/
inductive Scan where
  | invalid
  | outOfRange
  /-- The number so far, and the characters that are left. -/
  | stop (n : ℕ) (rest : List Char)

/-- The digits of a number. A `_` must be followed by a digit. A number that has become too large for
    another digit is out of range, whatever follows. -/
def scanDigits (base : ℕ) : ℕ → List Char → Scan
  | n, [] => .stop n []
  | n, '_' :: cs =>
    if (cs.head?.bind (digit? base)).isSome then scanDigits base n cs else .invalid
  | n, c :: cs =>
    match digit? base c with
    | some d => if 2 ^ 63 / base < n then .outOfRange else scanDigits base (base * n + d) cs
    | none => .stop n (c :: cs)

/-- The digits behind a base prefix; there is at least one. -/
def scanBase (base : ℕ) (cs : List Char) : Scan :=
  match cs with
  | '_' :: _ => scanDigits base 0 cs
  | c :: _ => if (digit? base c).isSome then scanDigits base 0 cs else .invalid
  | [] => .invalid

/-- A number without its sign: decimal, or behind `0x`, `0o` or `0b`. -/
def scanNumber : List Char → Scan
  | '0' :: 'x' :: cs | '0' :: 'X' :: cs => scanBase 16 cs
  | '0' :: 'o' :: cs | '0' :: 'O' :: cs => scanBase 8 cs
  | '0' :: 'b' :: cs | '0' :: 'B' :: cs => scanBase 2 cs
  | '_' :: _ => .invalid
  | cs => scanBase 10 cs

/-- `s::bigint` (`int8in`): white space, an optional sign, a number, white space. -/
def bigintOfText (s : String) : Except SqlError ℤ :=
  let (negative, cs) := match s.toList.dropWhile isSpace with
    | '-' :: cs => (true, cs)
    | '+' :: cs => (false, cs)
    | cs => (false, cs)
  match scanNumber cs with
  | .invalid => raise .invalidTextRepresentation "invalid input syntax for type bigint"
  | .outOfRange => raise .numericValueOutOfRange "value is out of range for type bigint"
  | .stop n rest =>
    if rest.dropWhile isSpace ≠ [] then
      raise .invalidTextRepresentation "invalid input syntax for type bigint"
    else if inBigint (if negative then -n else n) then .ok (if negative then -n else n)
    else raise .numericValueOutOfRange "value is out of range for type bigint"

/-- `(d->>k)::bigint` where `d->k` is a JSON number: its text must be an integer in range. -/
def bigintOfNumeric (n : Numeric) : Except SqlError ℤ :=
  if n.scale ≠ 0 then raise .invalidTextRepresentation "invalid input syntax for type bigint"
  else if inBigint n.unscaled then .ok n.unscaled
  else raise .numericValueOutOfRange "value is out of range for type bigint"

end Instructed.Sql
